import WordMachine.Execution.External

namespace WordMachine

/-- The values of a plain host: texts, numbers, and host code by its number in a table. -/
inductive HostValue
  | text (content : String)
  | number (value : UInt32)
  | external (index : Nat)
deriving DecidableEq

namespace HostValue

/-- What error messages call a text. -/
def textKind : String := "alloc::string::String"

/-- What error messages call a number. -/
def numberKind : String := "u32"

def asText? : Object HostValue → Option String
  | .host (.text content) => some content
  | _ => none

def asNumber? : Object HostValue → Option UInt32
  | .host (.number value) => some value
  | _ => none

/-- Host code is looked up in a table. -/
def linkage (table : Array (External (Object HostValue))) : Linkage HostValue
  | .external index => table[index]?
  | _ => none

end HostValue

namespace Prelude

/-- Returns always the same value. -/
def constant (name : String) (ty : Ty) (value : Operand (Object HostValue) ty) : External (Object HostValue) :=
  .nullary name (some ty) fun _ => pure value

/-- Takes nothing and returns nothing. -/
def action (name : String) : External (Object HostValue) :=
  .nullary name none fun _ => pure ()

def identity (name : String) (ty : Ty) : External (Object HostValue) :=
  .unary name ty (some ty) fun a => pure a

def discard (name : String) (ty : Ty) : External (Object HostValue) :=
  .unary name ty none fun _ => pure ()

def first (name : String) (ty : Ty) : External (Object HostValue) :=
  .binary name ty ty (some ty) fun a _ => pure a

def second (name : String) (ty : Ty) : External (Object HostValue) :=
  .binary name ty ty (some ty) fun _ b => pure b

def middle (name : String) (ty : Ty) : External (Object HostValue) :=
  .ternary name ty ty ty (some ty) fun _ b _ => pure b

/-- The difference of two 64-bit integers, which wraps. -/
def subtract (name : String) : External (Object HostValue) :=
  .binary name Scalar.long Scalar.long (some Scalar.long) fun a b => pure (Int64.sub a b)

/-- The text of an object; what is no text counts as the empty one. -/
def textOf (object : Option (Object HostValue)) : String :=
  (object.bind HostValue.asText?).getD ""

/-- Joins two texts. -/
def concat (name : String) : External (Object HostValue) :=
  .binary name .object .object (some .object) fun a b =>
    pure (some (Object.host (.text (textOf a ++ textOf b))) : Option (Object HostValue))

/-- The second argument if the first is true, and otherwise the third. -/
def choose (name : String) : External (Object HostValue) :=
  .ternary name Scalar.bool .object .object (some .object) fun condition a b => pure (cond condition a b)

end Prelude

end WordMachine
