import WordMachine.Value.Cell

namespace WordMachine

/-- A value as the host sees it: a reference is the object itself, or none. -/
def Operand (ω : Type) : Ty → Type
  | .scalar kind => kind.Value
  | .object => Option ω

/-- What a call gives back: one value, or nothing. -/
def Result (ω : Type) : Option Ty → Type
  | some ty => Operand ω ty
  | none => Unit

/-- A value together with its type. -/
structure Argument (ω : Type) where
  ty : Ty
  value : Operand ω ty

end WordMachine
