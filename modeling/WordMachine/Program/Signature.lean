import WordMachine.Fault

namespace WordMachine

structure Parameter where
  name : String
  ty : Ty
deriving DecidableEq

/-- Words that values of these types occupy one after the other. -/
def totalWords : List Ty → Nat
  | [] => 0
  | ty :: rest => ty.words + totalWords rest

/-- Words that arguments for these parameters occupy. -/
def parameterWords : List Parameter → Nat
  | [] => 0
  | parameter :: rest => parameter.ty.words + parameterWords rest

/-- Where each of several consecutive values starts, when the first starts at `start`. -/
def slotsFrom (start : Nat) : List Ty → List (Nat × Ty)
  | [] => []
  | ty :: rest => (start, ty) :: slotsFrom (start + ty.words) rest

/-- How a caller sees a call: argument types and result type. -/
def callText (types : List Ty) (result : Option Ty) : String :=
  "(" ++ String.intercalate ", " (types.map Ty.name) ++ ") -> " ++ resultName result

/-- The name and calling convention of a routine. Arguments lie left to right from the frame base on, and the result
ends up at the frame base. -/
structure Signature where
  name : String
  result : Option Ty
  parameters : List Parameter
deriving DecidableEq

namespace Signature

def types (signature : Signature) : List Ty :=
  signature.parameters.map Parameter.ty

def argumentWords (signature : Signature) : Nat :=
  parameterWords signature.parameters

def returnWords (signature : Signature) : Nat :=
  resultWords signature.result

/-- The word offset of every argument from the frame base, with its type. -/
def argumentSlots (signature : Signature) : List (Nat × Ty) :=
  slotsFrom 0 signature.types

/-- The word offset of the first parameter with a name, the first of `parameters` being at `start`. -/
def wordIndexFrom (name : String) (start : Nat) : List Parameter → Option Nat
  | [] => none
  | parameter :: rest =>
    if parameter.name = name then some start else wordIndexFrom name (start + parameter.ty.words) rest

/-- The word offset of the first argument with a name. -/
def wordIndexOf (signature : Signature) (name : String) : Option Nat :=
  wordIndexFrom name 0 signature.parameters

/-- The declaration: result type, name, and parameters with their types. -/
def text (signature : Signature) : String :=
  let parameters := signature.parameters.map fun parameter => s!"{parameter.ty.name} {parameter.name}"
  s!"{resultName signature.result} {signature.name}(" ++ String.intercalate ", " parameters ++ ")"

/-- Fails unless a call with these types is what the signature declares. -/
def check (signature : Signature) (types : List Ty) (result : Option Ty) : Except Fault Unit :=
  if types = signature.types ∧ result = signature.result then
    .ok ()
  else
    .error (.signatureMismatch signature.text (callText types result))

end Signature

end WordMachine
