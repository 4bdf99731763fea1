import Mathlib.Logic.Relation
import WordMachine.Proofs.Alignment
import WordMachine.Host.VM
import WordMachine.Proofs.Image

namespace WordMachine

def Operands.values {ω : Type} : (types : List Ty) → Operands ω types → List (Argument ω)
  | [], _ => []
  | ty :: rest, (value, values) => ⟨ty, value⟩ :: Operands.values rest values

def Result.values {ω : Type} : (result : Option Ty) → Result ω result → List (Argument ω)
  | some ty, value => [⟨ty, value⟩]
  | none, _ => []

/-- Words that values occupy one after the other. -/
def valueWords {ω : Type} (values : List (Argument ω)) : Nat :=
  totalWords (values.map Argument.ty)

/-- How many handles a value on a stack needs. -/
def Argument.handles {ω : Type} (argument : Argument ω) : Nat :=
  Operand.handles argument.ty argument.value

def handleCount {ω : Type} (values : List (Argument ω)) : Nat :=
  (values.map Argument.handles).sum

/-- So few references that each of them can have a handle of its own, with one to spare. -/
def FewReferences {ω : Type} (values : List (Argument ω)) : Prop :=
  handleCount values + 1 < 2 ^ 32 - 1

instance {ω : Type} (values : List (Argument ω)) : Decidable (FewReferences values) :=
  inferInstanceAs (Decidable (handleCount values + 1 < 2 ^ 32 - 1))

/-- The sums of the typed machine. Integers are added as numbers, and the sum wraps around if it is out of range.
Floating-point numbers have the rounded sum of their format. Decimals are rounded to the largest scale at which both fit
and added there; there is no sum if its whole part does not fit. No other kind has sums. -/
inductive TypedSum : (kind : Scalar) → kind.Value → kind.Value → Option kind.Value → Prop
  | byte (a b : UInt8) : TypedSum .byte a b (some (.ofNat (a.toNat + b.toNat)))
  | sbyte (a b : Int8) : TypedSum .sbyte a b (some (.ofInt (a.toInt + b.toInt)))
  | short (a b : Int16) : TypedSum .short a b (some (.ofInt (a.toInt + b.toInt)))
  | ushort (a b : UInt16) : TypedSum .ushort a b (some (.ofNat (a.toNat + b.toNat)))
  | int (a b : Int32) : TypedSum .int a b (some (.ofInt (a.toInt + b.toInt)))
  | uint (a b : UInt32) : TypedSum .uint a b (some (.ofNat (a.toNat + b.toNat)))
  | long (a b : Int64) : TypedSum .long a b (some (.ofInt (a.toInt + b.toInt)))
  | ulong (a b : UInt64) : TypedSum .ulong a b (some (.ofNat (a.toNat + b.toNat)))
  | float (a b : Binary32) : TypedSum .float a b (some (a.add b))
  | double (a b : Binary64) : TypedSum .double a b (some (a.add b))
  | decimal (a b : Decimal) :
      TypedSum .decimal a b
        (Decimal.make? (a.sumAt b (a.meeting b)).1 (a.sumAt b (a.meeting b)).2)

theorem TypedSum.sum? {kind : Scalar} {a b : kind.Value} {total : Option kind.Value}
    (summed : TypedSum kind a b total) : ∃ sum, kind.sum? = some sum ∧ sum a b = total := by
  cases summed with
  | byte a b => exact ⟨_, rfl, congrArg some (by rw [UInt8.ofNat_add, UInt8.ofNat_toNat, UInt8.ofNat_toNat]; rfl)⟩
  | sbyte a b => exact ⟨_, rfl, congrArg some (by rw [Int8.ofInt_add, Int8.ofInt_toInt, Int8.ofInt_toInt]; rfl)⟩
  | short a b => exact ⟨_, rfl, congrArg some (by rw [Int16.ofInt_add, Int16.ofInt_toInt, Int16.ofInt_toInt]; rfl)⟩
  | ushort a b => exact ⟨_, rfl, congrArg some (by rw [UInt16.ofNat_add, UInt16.ofNat_toNat, UInt16.ofNat_toNat]; rfl)⟩
  | int a b => exact ⟨_, rfl, congrArg some (by rw [Int32.ofInt_add, Int32.ofInt_toInt, Int32.ofInt_toInt]; rfl)⟩
  | uint a b => exact ⟨_, rfl, congrArg some (by rw [UInt32.ofNat_add, UInt32.ofNat_toNat, UInt32.ofNat_toNat]; rfl)⟩
  | long a b => exact ⟨_, rfl, congrArg some (by rw [Int64.ofInt_add, Int64.ofInt_toInt, Int64.ofInt_toInt]; rfl)⟩
  | ulong a b => exact ⟨_, rfl, congrArg some (by rw [UInt64.ofNat_add, UInt64.ofNat_toNat, UInt64.ofNat_toNat]; rfl)⟩
  | float a b | double a b => exact ⟨_, rfl, rfl⟩
  | decimal a b => exact ⟨_, rfl, Decimal.add?_eq a b⟩

/-- The typed machine and the word machine add the same kinds of values, and in the same way. -/
theorem typedSum_iff {kind : Scalar} {a b : kind.Value} {total : Option kind.Value} :
    TypedSum kind a b total ↔ ∃ sum, kind.sum? = some sum ∧ sum a b = total := by
  refine ⟨TypedSum.sum?, ?_⟩
  rintro ⟨sum, numeric, rfl⟩
  have added : ∃ total, TypedSum kind a b total := by
    cases kind with
    | bool | char => cases numeric
    | byte => exact ⟨_, .byte a b⟩
    | sbyte => exact ⟨_, .sbyte a b⟩
    | short => exact ⟨_, .short a b⟩
    | ushort => exact ⟨_, .ushort a b⟩
    | int => exact ⟨_, .int a b⟩
    | uint => exact ⟨_, .uint a b⟩
    | long => exact ⟨_, .long a b⟩
    | ulong => exact ⟨_, .ulong a b⟩
    | float => exact ⟨_, .float a b⟩
    | double => exact ⟨_, .double a b⟩
    | decimal => exact ⟨_, .decimal a b⟩
  obtain ⟨total, summed⟩ := added
  obtain ⟨_, same, rfl⟩ := summed.sum?
  cases numeric.symm.trans same
  exact summed

/-- An activation of a routine that holds typed values: first its arguments, then whatever it has computed. -/
structure Activation (H : Type) where
  routine : Routine (Object H)
  ip : Nat
  values : List (Argument (Object H))

namespace Activation

variable {H : Type}

def Fetches (activation : Activation H) (instruction : Instruction) : Prop :=
  activation.routine.chunk.fetch activation.ip = .ok instruction

def constants (activation : Activation H) : ConstantPool (Object H) :=
  activation.routine.chunk.constants

/-- Moves on to the next instruction with other values. -/
def next (activation : Activation H) (values : List (Argument (Object H))) : Activation H :=
  ⟨activation.routine, activation.ip + 1, values⟩

/-- The activation is about to return, and holds its arguments and the result but nothing else. -/
def Returns (activation : Activation H) (result : Result (Object H) activation.routine.signature.result) : Prop :=
  activation.Fetches .ret ∧ ∃ arguments, arguments.map Argument.ty = activation.routine.signature.types ∧
    activation.values = arguments ++ Result.values activation.routine.signature.result result

end Activation

/-- Steps of the typed machine, whose activations are listed with the current one first. Where no step is given, the
machine is stuck. -/
inductive TypedStep {H : Type} (adapters : Adapters H) : List (Activation H) → List (Activation H) → Prop
  | constant {activation : Activation H} {below : List (Activation H)} {ty : Ty} {position : Position}
      {value : Operand (Object H) ty} (fetches : activation.Fetches (.constant ty position))
      (read : activation.constants.readOperand position ty = .ok value) :
      TypedStep adapters (activation :: below) (activation.next (activation.values ++ [⟨ty, value⟩]) :: below)
  | add {activation : Activation H} {below : List (Activation H)} {kind : Scalar} {a b total : kind.Value}
      {rest : List (Argument (Object H))} (fetches : activation.Fetches (.add kind))
      (holds : activation.values = rest ++ [⟨kind, a⟩, ⟨kind, b⟩]) (summed : TypedSum kind a b (some total)) :
      TypedStep adapters (activation :: below) (activation.next (rest ++ [⟨kind, total⟩]) :: below)
  | pop {activation : Activation H} {below : List (Activation H)} {ty : Ty} {value : Operand (Object H) ty}
      {rest : List (Argument (Object H))} (fetches : activation.Fetches (.pop ty))
      (holds : activation.values = rest ++ [⟨ty, value⟩]) :
      TypedStep adapters (activation :: below) (activation.next rest :: below)
  | getLocal {activation : Activation H} {below : List (Activation H)} {ty : Ty} {offset : UInt8}
      {value : Operand (Object H) ty} {before after : List (Argument (Object H))}
      (fetches : activation.Fetches (.getLocal ty offset)) (holds : activation.values = before ++ ⟨ty, value⟩ :: after)
      (starts : valueWords before = offset.toNat) :
      TypedStep adapters (activation :: below) (activation.next (activation.values ++ [⟨ty, value⟩]) :: below)
  | setLocal {activation : Activation H} {below : List (Activation H)} {ty : Ty} {offset : UInt8}
      {previous value : Operand (Object H) ty} {before after : List (Argument (Object H))}
      (fetches : activation.Fetches (.setLocal ty offset))
      (holds : activation.values = before ++ ⟨ty, previous⟩ :: after ++ [⟨ty, value⟩])
      (starts : valueWords before = offset.toNat) :
      TypedStep adapters (activation :: below) (activation.next (before ++ ⟨ty, value⟩ :: after) :: below)
  | call {activation : Activation H} {below : List (Activation H)} {position : Position}
      {callee : Routine (Object H)} {rest arguments : List (Argument (Object H))}
      (fetches : activation.Fetches (.call position)) (read : activation.constants.readRoutine position = .ok callee)
      (holds : activation.values = rest ++ arguments)
      (declared : arguments.map Argument.ty = callee.signature.types) :
      TypedStep adapters (activation :: below) (⟨callee, 0, arguments⟩ :: activation.next rest :: below)
  | externalCall {activation : Activation H} {below : List (Activation H)} {position : Position}
      {adapter : Adapter (Object H)} {rest : List (Argument (Object H))}
      {operands : Operands (Object H) adapter.parameters} (fetches : activation.Fetches (.externalCall position))
      (read : adapters.read activation.constants position = .ok adapter)
      (holds : activation.values = rest ++ Operands.values adapter.parameters operands) :
      TypedStep adapters (activation :: below)
        (activation.next (rest ++ Result.values adapter.result (adapter.apply operands)) :: below)
  | ret {activation caller : Activation H} {below : List (Activation H)}
      {result : Result (Object H) activation.routine.signature.result} (returns : activation.Returns result) :
      TypedStep adapters (activation :: caller :: below)
        (⟨caller.routine, caller.ip, caller.values ++ Result.values _ result⟩ :: below)

/-- All values of the activations, from the bottom of the outermost to the top of the current one. -/
def allValues {H : Type} : List (Activation H) → List (Argument (Object H))
  | [] => []
  | activation :: below => allValues below ++ activation.values

/-- The limits of a configuration leave room for the values and for the activations. -/
structure Config.Fits {H : Type} (config : Config) (activations : List (Activation H)) : Prop where
  words : valueWords (allValues activations) ≤ config.stackDepth
  frames : activations.length ≤ config.maxFrames

/-- Runs of the typed machine that stay within the limits of a configuration until their last state. -/
def TypedRun {H : Type} (adapters : Adapters H) (config : Config) : List (Activation H) → List (Activation H) → Prop :=
  Relation.ReflTransGen fun activations next => config.Fits activations ∧ TypedStep adapters activations next

/-- A run from a state that exceeds a limit is over. -/
theorem TypedRun.eq_of_exceeding {H : Type} {adapters : Adapters H} {config : Config}
    {activations last : List (Activation H)} (ran : TypedRun adapters config activations last)
    (full : ¬ config.Fits activations) : activations = last := by
  rcases ran.cases_head with same | ⟨_, further, _⟩
  · exact same
  · exact absurd further.1 full

/-- The outermost activation stays one of the same routine. -/
theorem TypedStep.outermost {H : Type} {adapters : Adapters H} {activations next : List (Activation H)}
    (stepped : TypedStep adapters activations next) :
    next.getLast?.map Activation.routine = activations.getLast?.map Activation.routine := by
  have replaced : ∀ (other activation : Activation H) (below : List (Activation H)),
      other.routine = activation.routine →
      (other :: below).getLast?.map Activation.routine = (activation :: below).getLast?.map Activation.routine := by
    intro other activation below same
    cases below with
    | nil => exact congrArg some same
    | cons caller rest => rfl
  cases stepped with
  | constant | add | pop | getLocal | setLocal | externalCall => exact replaced _ _ _ rfl
  | @call activation below _ _ rest _ _ _ _ _ => exact replaced (activation.next rest) activation below rfl
  | @ret activation caller below result _ =>
    exact replaced ⟨caller.routine, caller.ip, caller.values ++ Result.values _ result⟩ caller below rfl

theorem TypedRun.outermost {H : Type} {adapters : Adapters H} {config : Config}
    {activations last : List (Activation H)} (ran : TypedRun adapters config activations last) :
    last.getLast?.map Activation.routine = activations.getLast?.map Activation.routine := by
  induction ran with
  | refl => rfl
  | tail _ stepped ih => exact stepped.2.outermost.trans ih

/-- The values that a run gives back, or what stops it. -/
abbrev Outcome (H : Type) := Except Fault (List (Argument (Object H)))

/-- How a run ends: with a result, with a sum that is out of range, or because a limit is exceeded. -/
inductive TypedEnd {H : Type} (config : Config) : List (Activation H) → Outcome H → Prop
  | finished {activation : Activation H} {result : Result (Object H) activation.routine.signature.result}
      (fits : config.Fits [activation]) (returns : activation.Returns result) :
      TypedEnd config [activation] (.ok (Result.values _ result))
  | overflow {activation : Activation H} {below : List (Activation H)} {kind : Scalar} {a b : kind.Value}
      {rest : List (Argument (Object H))} (fits : config.Fits (activation :: below))
      (fetches : activation.Fetches (.add kind)) (holds : activation.values = rest ++ [⟨kind, a⟩, ⟨kind, b⟩])
      (unsummed : TypedSum kind a b none) :
      TypedEnd config (activation :: below) (.error (.arithmeticOverflow .add kind))
  | stackFull {activations : List (Activation H)} (full : config.stackDepth < valueWords (allValues activations)) :
      TypedEnd config activations (.error .stackOverflow)
  | framesFull {activations : List (Activation H)} (room : valueWords (allValues activations) ≤ config.stackDepth)
      (full : config.maxFrames < activations.length) :
      TypedEnd config activations (.error (.callStackOverflow config.maxFrames))

end WordMachine
