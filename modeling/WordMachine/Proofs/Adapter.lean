import WordMachine.Proofs.OwnedRun

namespace WordMachine

/-- One value for each of several types. -/
def Operands (ω : Type) : List Ty → Type
  | [] => Unit
  | ty :: rest => Operand ω ty × Operands ω rest

namespace Operands

variable {ω : Type}

def nil : Operands ω [] := ()

def cons {ty : Ty} {rest : List Ty} (value : Operand ω ty) (values : Operands ω rest) : Operands ω (ty :: rest) :=
  (value, values)

end Operands

/-- Host code made from a function: it takes the arguments from the stack, the last one first, and leaves the result. -/
structure Adapter (ω : Type) where
  name : String
  parameters : List Ty
  result : Option Ty
  apply : Operands ω parameters → Result ω result

namespace Script

variable {ω : Type}

/-- Takes values of these types from the stack, the last one being on top. -/
def popAll : (types : List Ty) → Script ω (Operands ω types)
  | [] => pure ()
  | ty :: rest => do
    let values ← popAll rest
    let value ← popOperand ty
    pure (value, values)

theorem run_popAll_nil : (popAll [] : Script ω _).run = pure .nil :=
  rfl

theorem run_popAll_cons (ty : Ty) (rest : List Ty) :
    (popAll (ty :: rest) : Script ω _).run = (popAll rest).run >>= fun values =>
      StackM.popOperand ty >>= fun value => pure (Operands.cons value values) := by
  simp only [popAll, run_bind, run_popOperand]
  rfl

theorem propagating_popAll (types : List Ty) : (popAll types : Script ω _).Propagating := by
  induction types with
  | nil => exact .done ()
  | cons ty rest ih => exact .bind ih fun values => .bind (.operation (.pop ty)) fun value => .done (value, values)

theorem propagating_pushResult (result : Option Ty) (value : Result ω result) :
    (pushResult result value).Propagating := by
  cases result with
  | none => exact .done ()
  | some ty => exact .operation (.push ty value)

end Script

namespace Adapter

variable {ω : Type}

def script (adapter : Adapter ω) : Script ω Unit := do
  let values ← Script.popAll adapter.parameters
  Script.pushResult adapter.result (adapter.apply values)

theorem propagating_script (adapter : Adapter ω) : adapter.script.Propagating :=
  .bind (Script.propagating_popAll adapter.parameters) fun values =>
    Script.propagating_pushResult adapter.result (adapter.apply values)

def code (adapter : Adapter ω) : HostCode ω :=
  ⟨adapter.name, adapter.parameters, adapter.result, adapter.script, adapter.propagating_script.isPublic⟩

def external (adapter : Adapter ω) : External ω :=
  adapter.code.external

theorem callback_external (adapter : Adapter ω) :
    adapter.external.callback =
      (Script.popAll adapter.parameters).run >>= fun values =>
        StackM.pushResult adapter.result (adapter.apply values) := by
  simp only [external, code, HostCode.external, script, Script.run_bind, Script.run_pushResult]

theorem external_mk (name : String) (parameters : List Ty) (result : Option Ty)
    (apply : Operands ω parameters → Result ω result) :
    (Adapter.mk name parameters result apply).external =
      ⟨name, parameters, result, (Script.popAll parameters).run >>= fun values =>
        StackM.pushResult result (apply values)⟩ :=
  congrArg (Native.mk name parameters result) (callback_external _)

end Adapter

/-- Several steps of host code on the stack are those steps one after the other. -/
class LawfulHostSteps (ω : outParam Type) (M : Type → Type) [Monad M] [HostSteps ω M] : Prop extends LawfulMonad M where
  onStack_pure {α : Type} (value : α) : (HostSteps.onStack (pure value) : M α) = pure value
  onStack_bind {α β : Type} (step : StackM ω α) (next : α → StackM ω β) :
    (HostSteps.onStack (step >>= next) : M β) = HostSteps.onStack step >>= fun value => HostSteps.onStack (next value)

instance (ω : Type) : LawfulHostSteps ω (StackM ω) where
  onStack_pure _ := rfl
  onStack_bind _ _ := rfl

/-- Host code that was made for a function of at most three values, whose types are listed in the order in which the
function takes them. -/
inductive Native.Adapts {ω : Type} {M : Type → Type} [Monad M] [HostSteps ω M] :
    Native M → (parameters : List Ty) → (result : Option Ty) → (Operands ω parameters → M (Result ω result)) → Prop
  | nullary (name : String) (result : Option Ty) (f : Unit → M (Result ω result)) :
      Adapts (.nullary name result f) [] result f
  | unary (name : String) (a : Ty) (result : Option Ty) (f : Operand ω a → M (Result ω result)) :
      Adapts (.unary name a result f) [a] result fun (x, ()) => f x
  | binary (name : String) (a b : Ty) (result : Option Ty) (f : Operand ω a → Operand ω b → M (Result ω result)) :
      Adapts (.binary name a b result f) [a, b] result fun (x, y, ()) => f x y
  | ternary (name : String) (a b c : Ty) (result : Option Ty)
      (f : Operand ω a → Operand ω b → Operand ω c → M (Result ω result)) :
      Adapts (.ternary name a b c result f) [a, b, c] result fun (x, y, z, ()) => f x y z

namespace Native

variable {ω : Type} {M : Type → Type} [Monad M] [HostSteps ω M] [LawfulHostSteps ω M] {external : Native M}
  {parameters : List Ty} {result : Option Ty} {f : Operands ω parameters → M (Result ω result)}

open LawfulHostSteps

/-- Host code for a function takes the arguments from the stack, asks the function and leaves the answer. -/
theorem Adapts.eq_mk (adapts : external.Adapts parameters result f) :
    external = ⟨external.name, parameters, result, do
      let values ← HostSteps.onStack (Script.popAll parameters).run
      let value ← f values
      HostSteps.onStack (StackM.pushResult result value)⟩ := by
  cases adapts with
  | nullary name result f =>
    simp only [Native.nullary, Script.run_popAll_nil, onStack_pure, pure_bind]
    rfl
  | unary name a result f =>
    simp only [Native.unary, Script.run_popAll_cons, Script.run_popAll_nil, onStack_pure, onStack_bind, bind_assoc,
      pure_bind]
    rfl
  | binary name a b result f =>
    simp only [Native.binary, Script.run_popAll_cons, Script.run_popAll_nil, onStack_pure, onStack_bind, bind_assoc,
      pure_bind]
    rfl
  | ternary name a b c result f =>
    simp only [Native.ternary, Script.run_popAll_cons, Script.run_popAll_nil, onStack_pure, onStack_bind, bind_assoc,
      pure_bind]
    rfl

theorem Adapts.argumentWords_eq (adapts : external.Adapts parameters result f) :
    external.argumentWords = totalWords parameters :=
  congrArg Native.argumentWords adapts.eq_mk

theorem Adapts.returnWords_eq (adapts : external.Adapts parameters result f) :
    external.returnWords = resultWords result :=
  congrArg Native.returnWords adapts.eq_mk

theorem Adapts.declared_eq (adapts : external.Adapts parameters result f) {N : Type → Type} (code : N Unit) :
    (⟨external.name, external.parameters, external.result, code⟩ : Native N) =
      ⟨external.name, parameters, result, code⟩ := by
  rw [adapts.eq_mk]

/-- Host code for a function without effects is what the scripts of the machine call for it. -/
theorem Adapts.eq_external {own : External ω} {g : Operands ω parameters → Result ω result}
    (adapts : own.Adapts parameters result fun values => pure (g values)) :
    own = (Adapter.mk own.name parameters result g).external := by
  rw [Adapter.external_mk]
  exact adapts.eq_mk

end Native

/-- The callable values of a host that calls nothing but functions. -/
abbrev Adapters (H : Type) := H → Option (Adapter (Object H))

namespace Adapters

variable {H : Type}

/-- A host without callable values. -/
def none : Adapters H := fun _ => Option.none

def table (adapters : Adapters H) : HostTable H := fun value =>
  (adapters value).map Adapter.code

theorem propagates (adapters : Adapters H) : adapters.table.Propagates := by
  intro value code found
  obtain ⟨adapter, _, rfl⟩ := Option.map_eq_some_iff.mp found
  exact adapter.propagating_script

/-- The function that a position refers to. -/
def read (adapters : Adapters H) (pool : ConstantPool (Object H)) (position : Position) :
    Except ProgramError (Adapter (Object H)) :=
  pool.readAs (fun object => object.asHost?.bind adapters) Object.externalKind position

theorem readCode_table (adapters : Adapters H) (pool : ConstantPool (Object H)) (position : Position) :
    pool.readCode adapters.table position = (adapters.read pool position).map Adapter.code :=
  pool.readAs_map adapters Adapter.code position

end Adapters

end WordMachine
