import WordMachine.Execution.Operand
import WordMachine.Program.Object

namespace WordMachine

/-- The steps of host code: it works on a stack, and besides it may do whatever else `M` offers. -/
class HostSteps (ω : outParam Type) (M : Type → Type) where
  onStack {α : Type} (step : StackM ω α) : M α

/-- Host code that does nothing but work on the stack. -/
instance (ω : Type) : HostSteps ω (StackM ω) where
  onStack step := step

/-- Host code that programs can call. It takes its arguments from the stack, the last one on top, and leaves its
result there. -/
structure Native (M : Type → Type) where
  name : String
  parameters : List Ty
  result : Option Ty
  callback : M Unit

/-- The host code of a machine whose host has no effects of its own. -/
abbrev External (ω : Type) := Native (StackM ω)

namespace Native

section Adapters

open HostSteps

variable {ω : Type} {M : Type → Type} [Monad M] [HostSteps ω M]

/-- Host code without arguments. -/
def nullary (name : String) (result : Option Ty) (f : Unit → M (Result ω result)) : Native M where
  name := name
  parameters := []
  result := result
  callback := do
    let value ← f ()
    onStack (StackM.pushResult result value)

/-- Host code for a function of one value. -/
def unary (name : String) (a : Ty) (result : Option Ty) (f : Operand ω a → M (Result ω result)) : Native M where
  name := name
  parameters := [a]
  result := result
  callback := do
    let x ← onStack (StackM.popOperand a)
    let value ← f x
    onStack (StackM.pushResult result value)

/-- Host code for a function of two values. -/
def binary (name : String) (a b : Ty) (result : Option Ty)
    (f : Operand ω a → Operand ω b → M (Result ω result)) : Native M where
  name := name
  parameters := [a, b]
  result := result
  callback := do
    let y ← onStack (StackM.popOperand b)
    let x ← onStack (StackM.popOperand a)
    let value ← f x y
    onStack (StackM.pushResult result value)

/-- Host code for a function of three values. -/
def ternary (name : String) (a b c : Ty) (result : Option Ty)
    (f : Operand ω a → Operand ω b → Operand ω c → M (Result ω result)) : Native M where
  name := name
  parameters := [a, b, c]
  result := result
  callback := do
    let z ← onStack (StackM.popOperand c)
    let y ← onStack (StackM.popOperand b)
    let x ← onStack (StackM.popOperand a)
    let value ← f x y z
    onStack (StackM.pushResult result value)

end Adapters

variable {M : Type → Type}

def argumentWords (external : Native M) : Nat :=
  totalWords external.parameters

def returnWords (external : Native M) : Nat :=
  resultWords external.result

/-- The declaration: result type, name and parameter types. -/
def text (external : Native M) : String :=
  s!"extern {resultName external.result} {external.name}(" ++
    String.intercalate ", " (external.parameters.map Ty.name) ++ ")"

/-- The declaration as a diagnostic record. -/
def record (external : Native M) : String :=
  let result :=
    match external.result with
    | some ty => s!"Some({ty.label})"
    | none => "None"
  partialRecordText "ExternalFunction"
    [("name", quoted external.name), ("arguments", listText (external.parameters.map Ty.label)),
      ("return_type", result)]

end Native

/-- Which values of the host are callable, and what they call. -/
abbrev Linkage (H : Type) := H → Option (External (Object H))

/-- The host code that a position refers to. -/
def ConstantPool.readExternal {H : Type} (link : Linkage H) (pool : ConstantPool (Object H)) (position : Position) :
    Except ProgramError (External (Object H)) :=
  pool.readAs (fun object => object.asHost?.bind link) Object.externalKind position

end WordMachine
