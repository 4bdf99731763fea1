import WordMachine.Memory.OperandStack
import WordMachine.Value.Operand

namespace WordMachine

namespace StackM

variable {ω : Type}

def pushOperand : (ty : Ty) → Operand ω ty → StackM ω Unit
  | .scalar kind, value => push kind value
  | .object, object => pushObject object

def popOperand : (ty : Ty) → StackM ω (Operand ω ty)
  | .scalar kind => pop kind
  | .object => popObject

def pushResult : (result : Option Ty) → Result ω result → StackM ω Unit
  | some ty, value => pushOperand ty value
  | none, _ => pure ()

def popResult : (result : Option Ty) → StackM ω (Result ω result)
  | some ty => popOperand ty
  | none => pure ()

/-- Pushes arguments left to right, up to the first that does not fit. -/
def pushAll : List (Argument ω) → StackM ω Unit
  | [] => pure ()
  | argument :: rest => do
    pushOperand argument.ty argument.value
    pushAll rest

end StackM

end WordMachine
