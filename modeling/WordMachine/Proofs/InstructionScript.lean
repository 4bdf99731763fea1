import WordMachine.Proofs.Script

namespace WordMachine

/-- What host code may do with a stack. -/
inductive HostOperation (ω : Type)
  | push (ty : Ty) (value : Operand ω ty)
  | pop (ty : Ty)
  | read (kind : Scalar) (slot : Nat)
  | write (kind : Scalar) (slot : Nat) (value : kind.Value)
  | peek
  | usage

namespace HostOperation

variable {ω : Type}

def Reply : HostOperation ω → Type
  | push _ _ => Unit
  | pop ty => Operand ω ty
  | read kind _ => kind.Value
  | write _ _ _ => Unit
  | peek => Option ω
  | usage => Usage

def script : (operation : HostOperation ω) → Script ω operation.Reply
  | push ty value => Script.pushOperand ty value
  | pop ty => Script.popOperand ty
  | read kind slot => Script.read kind slot
  | write kind slot value => Script.write kind slot value
  | peek => Script.peekObject
  | usage => Script.usage

end HostOperation

namespace Script

variable {ω α β : Type}

/-- Host code is made of the operations that are open to it. It may catch the faults of these and raise others. -/
inductive Public : {α : Type} → Script ω α → Prop
  | done {α : Type} (value : α) : Public (done value)
  | fail {α : Type} (fault : Fault) : Public (fail fault : Script ω α)
  | operation (operation : HostOperation ω) : Public operation.script
  | resume {α β : Type} {script : Script ω α} {next : Except Fault α → Script ω β} :
      Public script → (∀ outcome, Public (next outcome)) → Public (script.resume next)

/-- Host code that passes the faults of its operations on and never makes up that a handle is invalid. -/
inductive Propagating : {α : Type} → Script ω α → Prop
  | done {α : Type} (value : α) : Propagating (done value)
  | fail {α : Type} (fault : Fault) (own : ∀ handle, fault ≠ .invalidHandle handle) :
      Propagating (fail fault : Script ω α)
  | operation (operation : HostOperation ω) : Propagating operation.script
  | bind {α β : Type} {script : Script ω α} {next : α → Script ω β} :
      Propagating script → (∀ value, Propagating (next value)) → Propagating (script.bind next)

theorem Propagating.isPublic {script : Script ω α} (propagating : script.Propagating) : script.Public := by
  induction propagating with
  | done value => exact .done value
  | fail fault own => exact .fail fault
  | operation operation => exact .operation operation
  | bind first rest ihFirst ihRest =>
    refine .resume ihFirst fun outcome => ?_
    cases outcome with
    | ok value => exact ihRest value
    | error fault => exact .fail fault

end Script

/-- Host code with a script that shows what it does to the stack. -/
structure HostCode (ω : Type) where
  name : String
  parameters : List Ty
  result : Option Ty
  body : Script ω Unit
  isPublic : body.Public

def HostCode.external {ω : Type} (code : HostCode ω) : External ω :=
  ⟨code.name, code.parameters, code.result, code.body.run⟩

/-- The callable values of a host, with their code. -/
abbrev HostTable (H : Type) := H → Option (HostCode (Object H))

def HostTable.link {H : Type} (table : HostTable H) : Linkage H := fun value =>
  (table value).map HostCode.external

/-- The code that a position refers to. -/
def ConstantPool.readCode {H : Type} (table : HostTable H) (pool : ConstantPool (Object H)) (position : Position) :
    Except ProgramError (HostCode (Object H)) :=
  pool.readAs (fun object => object.asHost?.bind table) Object.externalKind position

/-- Host values are looked up the same way whatever is then made of what they stand for. -/
theorem ConstantPool.readAs_map {H α β : Type} (pool : ConstantPool (Object H)) (lookup : H → Option α) (f : α → β)
    (position : Position) :
    pool.readAs (fun object => object.asHost?.bind fun value => (lookup value).map f) Object.externalKind position =
      (pool.readAs (fun object => object.asHost?.bind lookup) Object.externalKind position).map f := by
  unfold ConstantPool.readAs
  cases pool.readObject position with
  | error error => rfl
  | ok object =>
    cases object with
    | none => rfl
    | some object =>
      cases object with
      | routine r => rfl
      | host value =>
        simp only [Object.asHost?, Option.bind_some]
        cases lookup value <;> rfl

theorem ConstantPool.readExternal_link {H : Type} (table : HostTable H) (pool : ConstantPool (Object H))
    (position : Position) :
    pool.readExternal table.link position = (pool.readCode table position).map HostCode.external :=
  pool.readAs_map table HostCode.external position

namespace Script

variable {ω α : Type}

/-- What can follow an operation that holds a handle: the handle is taken back before the fault is passed on. -/
def returning (handle : Handle) (fault : Fault) : Script ω α := do
  let _ ← release handle
  fail fault

def slotUnder (words : Nat) : Script ω Nat := do
  let used ← usage
  if used.offset < words then fail .stackUnderflow else pure (used.offset - words)

def pushConstant (constants : ConstantPool ω) (ty : Ty) (position : Position) : Script ω Unit :=
  match constants.readOperand position ty with
  | .ok value => pushOperand ty value
  | .error error => fail error

def discard (ty : Ty) : Script ω Unit := do
  let _ ← popOperand ty

def addScalars (kind : Scalar) (sum : kind.Value → kind.Value → Option kind.Value) : Script ω Unit := do
  let b ← pop kind
  let a ← pop kind
  match sum a b with
  | some total => push kind total
  | none => fail (.arithmeticOverflow .add kind)

def addTop : Ty → Script ω Unit
  | .object => fail (.invalidOperand .add .object)
  | .scalar kind =>
    match kind.sum? with
    | none => fail (.invalidOperand .add kind)
    | some sum => addScalars kind sum

def pushOwned (handle : Handle) : Script ω Unit :=
  act (.push .object handle) fun
    | .ok _ => done ()
    | .error fault => returning handle fault

def loadScalar (kind : Scalar) (slot : Nat) : Script ω Unit := do
  let value ← read kind slot
  push kind value

def loadObject (slot : Nat) : Script ω Unit := do
  let handle ← read .object slot
  let copy ← duplicate handle
  pushOwned copy

def loadLocal : Ty → Nat → Script ω Unit
  | .scalar kind, slot => loadScalar kind slot
  | .object, slot => loadObject slot

def replacedHandle (handle : Handle) (slot : Nat) : Script ω Handle :=
  act (.read .object slot) fun
    | .ok previous => done previous
    | .error fault => returning handle fault

def storeScalar (kind : Scalar) (slot : Nat) : Script ω Unit := do
  let value ← pop kind
  write kind slot value

def storeObject (slot : Nat) : Script ω Unit := do
  let handle ← pop .object
  let previous ← replacedHandle handle slot
  write .object slot handle
  let _ ← release previous

def storeLocal : Ty → Nat → Script ω Unit
  | .scalar kind, slot => storeScalar kind slot
  | .object, slot => storeObject slot

def releaseArguments (base : Nat) : List (Nat × Ty) → Script ω Unit
  | [] => pure ()
  | (_, .scalar _) :: rest => releaseArguments base rest
  | (slot, .object) :: rest => do
    let handle ← read .object (base + slot)
    let _ ← release handle
    releaseArguments base rest

def describeAll (base : Nat) : List (Nat × Ty) → Script ω Unit
  | [] => pure ()
  | (slot, ty) :: rest => do
    let _ ← describe ty (base + slot)
    describeAll base rest

def checkReturn (signature : Signature) (base : Nat) : Script ω Unit := do
  let used ← usage
  let localsEnd := base + signature.argumentWords
  if used.offset < localsEnd + signature.returnWords then
    fail .stackUnderflow
  else if localsEnd + signature.returnWords < used.offset then
    fail (.returnCountMismatch signature.name signature.returnWords (used.offset - localsEnd))
  else
    pure ()

def describeResult (signature : Signature) (base : Nat) : Script ω Unit :=
  match signature.result with
  | some ty => describeAll base [(signature.argumentWords, ty)]
  | none => pure ()

def checkExternal (external : External ω) (base : Nat) : Script ω Unit := do
  let used ← usage
  if used.offset = base + external.returnWords then
    pure ()
  else
    fail (.returnCountMismatch external.name external.returnWords (used.offset - base))

def callCode (code : HostCode ω) : Script ω Unit := do
  let base ← slotUnder code.external.argumentWords
  code.body
  checkExternal code.external base

end Script

namespace Script

variable {H : Type}

def keeping (script : Script (Object H) Unit) : Script (Object H) (FrameChange H) := do
  script
  pure .keep

def enter (routine : Routine (Object H)) : Script (Object H) (FrameChange H) := do
  let base ← slotUnder routine.signature.argumentWords
  describeAll base routine.signature.argumentSlots
  pure (.push ⟨routine, 0, base⟩)

def leave (frame : Frame H) : Script (Object H) Unit := do
  checkReturn frame.routine.signature frame.base
  describeResult frame.routine.signature frame.base
  releaseArguments frame.base frame.routine.signature.argumentSlots
  moveDown (frame.base + frame.routine.signature.argumentWords) frame.base frame.routine.signature.returnWords
  setOffset (frame.base + frame.routine.signature.returnWords)

/-- What an instruction does to the stack, operation by operation. -/
def effect (table : HostTable H) (frame : Frame H) (instruction : Instruction) :
    Script (Object H) (FrameChange H) :=
  let constants := frame.routine.chunk.constants
  match instruction with
  | .constant ty position => keeping (pushConstant constants ty position)
  | .add ty => keeping (addTop ty)
  | .pop ty => keeping (discard ty)
  | .setLocal ty offset => keeping (storeLocal ty (frame.base + offset.toNat))
  | .getLocal ty offset => keeping (loadLocal ty (frame.base + offset.toNat))
  | .call position =>
    match constants.readRoutine position with
    | .ok callee => enter callee
    | .error error => fail error
  | .externalCall position =>
    match constants.readCode table position with
    | .ok code => keeping (callCode code)
    | .error error => fail error
  | .ret => do
    leave frame
    pure .pop

theorem run_returning {α : Type} (handle : Handle) (fault : Fault) (stack : OperandStack (Object H)) :
    (returning handle fault : Script (Object H) α).run stack =
      match StackM.release handle stack with
      | .ok _ stack => .error fault stack
      | .error other stack => .error other stack := by
  simp only [returning, run_bind, run_release]
  cases run : StackM.release handle stack with
  | ok object final => rw [Machine.bind_ok run]; rfl
  | error other final => rw [Machine.bind_error run]

theorem run_usage (stack : OperandStack (Object H)) :
    (usage : Script (Object H) Usage).run stack = .ok ⟨stack.offset, stack.capacity, stack.liveHandles⟩ stack :=
  rfl

@[simp]
theorem run_slotUnder (words : Nat) : (slotUnder words : Script (Object H) Nat).run = Machine.slotUnder words := by
  funext stack
  simp only [slotUnder, run_bind, Machine.slotUnder]
  rw [Machine.bind_ok (run_usage stack)]
  split <;> rfl

@[simp]
theorem run_pushConstant (constants : ConstantPool (Object H)) (ty : Ty) (position : Position) :
    (pushConstant constants ty position).run = Machine.pushConstant constants ty position := by
  unfold pushConstant Machine.pushConstant
  cases constants.readOperand position ty with
  | ok value => exact run_pushOperand ty value
  | error error => rfl

@[simp]
theorem run_discard (ty : Ty) : (discard ty : Script (Object H) Unit).run = Machine.discard ty := by
  simp only [discard, Machine.discard, run_bind, run_popOperand]
  rfl

@[simp]
theorem run_addTop (ty : Ty) : (addTop ty : Script (Object H) Unit).run = Machine.addTop ty := by
  cases ty with
  | object => rfl
  | scalar kind =>
    simp only [addTop, Machine.addTop]
    cases kind.sum? with
    | none => rfl
    | some sum =>
      simp only [addScalars, run_bind, run_pop]
      refine congrArg _ (funext fun b => congrArg _ (funext fun a => ?_))
      cases sum a b with
      | none => rfl
      | some total => exact run_push _ _

@[simp]
theorem run_pushOwned (handle : Handle) :
    (pushOwned handle : Script (Object H) Unit).run = Machine.pushOwned handle := by
  funext stack
  simp only [pushOwned, run, Access.perform, Machine.pushOwned]
  cases StackM.pushCell .object handle stack with
  | ok value final => rfl
  | error fault final => exact run_returning handle fault final

@[simp]
theorem run_loadLocal (ty : Ty) (slot : Nat) :
    (loadLocal ty slot : Script (Object H) Unit).run = Machine.loadLocal ty slot := by
  cases ty with
  | scalar kind =>
    simp only [loadLocal, loadScalar, Machine.loadLocal, run_bind, run_read]
    exact congrArg _ (funext fun value => run_push _ value)
  | object =>
    simp only [loadLocal, loadObject, Machine.loadLocal, run_bind, run_read, run_pushOwned]
    exact congrArg _ (funext fun handle => congrArg (· >>= Machine.pushOwned) (run_duplicate handle))

@[simp]
theorem run_replacedHandle (handle : Handle) (slot : Nat) :
    (replacedHandle handle slot : Script (Object H) Handle).run = Machine.replacedHandle handle slot := by
  funext stack
  simp only [replacedHandle, run, Access.perform, Machine.replacedHandle, StackM.readCell]
  cases stack.cellAt .object slot with
  | ok previous => rfl
  | error fault => exact run_returning handle fault stack

@[simp]
theorem run_storeLocal (ty : Ty) (slot : Nat) :
    (storeLocal ty slot : Script (Object H) Unit).run = Machine.storeLocal ty slot := by
  cases ty with
  | scalar kind =>
    simp only [storeLocal, storeScalar, Machine.storeLocal, run_bind, run_pop]
    exact congrArg _ (funext fun value => run_write _ slot value)
  | object =>
    simp only [storeLocal, storeObject, Machine.storeLocal, run_bind, run_pop]
    refine congrArg _ (funext fun handle => ?_)
    rw [run_replacedHandle handle slot]
    refine congrArg _ (funext fun previous => ?_)
    rw [run_write .object slot handle]
    exact congrArg _ (funext fun _ => congrArg (· >>= fun _ => pure ()) (run_release previous))

@[simp]
theorem run_releaseArguments (base : Nat) (slots : List (Nat × Ty)) :
    (releaseArguments base slots : Script (Object H) Unit).run = Machine.releaseArguments base slots := by
  induction slots with
  | nil => rfl
  | cons entry rest ih =>
    obtain ⟨slot, ty⟩ := entry
    cases ty with
    | scalar kind => exact ih
    | object =>
      simp only [releaseArguments, Machine.releaseArguments, run_bind, run_read, ih]
      exact congrArg _ (funext fun handle =>
        congrArg (· >>= fun _ => Machine.releaseArguments base rest) (run_release handle))

theorem run_describeAll (base : Nat) (slots : List (Nat × Ty)) (stack : OperandStack (Object H)) :
    (describeAll base slots : Script (Object H) Unit).run stack = .ok () stack := by
  induction slots with
  | nil => rfl
  | cons entry rest ih => exact ih

theorem run_describeResult (signature : Signature) (base : Nat) (stack : OperandStack (Object H)) :
    (describeResult signature base : Script (Object H) Unit).run stack = .ok () stack := by
  unfold describeResult
  cases signature.result <;> rfl

@[simp]
theorem run_checkReturn (signature : Signature) (base : Nat) :
    (checkReturn signature base : Script (Object H) Unit).run = Machine.checkReturn signature base := by
  funext stack
  simp only [checkReturn, run_bind, Machine.checkReturn]
  rw [Machine.bind_ok (run_usage stack)]
  split
  · rfl
  · split <;> rfl

@[simp]
theorem run_checkExternal (external : External (Object H)) (base : Nat) :
    (checkExternal external base).run = Machine.checkExternal external base := by
  funext stack
  simp only [checkExternal, run_bind, Machine.checkExternal]
  rw [Machine.bind_ok (run_usage stack)]
  split <;> rfl

@[simp]
theorem run_callCode (code : HostCode (Object H)) : (callCode code).run = Machine.externalEffect code.external := by
  simp only [callCode, Machine.externalEffect, run_bind, run_slotUnder, run_checkExternal]
  rfl

@[simp]
theorem run_keeping (script : Script (Object H) Unit) : (keeping script).run = Machine.keeping script.run := by
  simp only [keeping, Machine.keeping, run_bind]
  rfl

@[simp]
theorem run_enter (routine : Routine (Object H)) : (enter routine).run = Machine.enterEffect routine := by
  simp only [enter, Machine.enterEffect, run_bind, run_slotUnder]
  refine congrArg _ (funext fun base => ?_)
  funext stack
  rw [Machine.bind_ok (run_describeAll base routine.signature.argumentSlots stack)]
  rfl

@[simp]
theorem run_leave (frame : Frame H) : (leave frame).run = Machine.leaveEffect frame := by
  simp only [leave, Machine.leaveEffect, run_bind, run_checkReturn, run_releaseArguments, run_moveDown, run_setOffset]
  refine congrArg _ (funext fun _ => ?_)
  funext stack
  rw [Machine.bind_ok (run_describeResult frame.routine.signature frame.base stack)]

/-- The scripts of the instructions do what the instructions do. -/
theorem run_effect (table : HostTable H) (frame : Frame H) (instruction : Instruction) :
    (effect table frame instruction).run = Machine.effect table.link frame instruction := by
  cases instruction with
  | constant ty position => simp only [effect, Machine.effect, run_keeping, run_pushConstant]
  | add ty => simp only [effect, Machine.effect, run_keeping, run_addTop]
  | pop ty => simp only [effect, Machine.effect, run_keeping, run_discard]
  | setLocal ty offset => simp only [effect, Machine.effect, run_keeping, run_storeLocal]
  | getLocal ty offset => simp only [effect, Machine.effect, run_keeping, run_loadLocal]
  | call position =>
    simp only [effect, Machine.effect]
    cases frame.routine.chunk.constants.readRoutine position with
    | ok callee => exact run_enter callee
    | error error => rfl
  | externalCall position =>
    simp only [effect, Machine.effect, ConstantPool.readExternal_link]
    cases frame.routine.chunk.constants.readCode table position with
    | ok code => simp only [Except.map, run_keeping, run_callCode]
    | error error => rfl
  | ret =>
    simp only [effect, Machine.effect, run_bind, run_leave]
    rfl

end Script

end WordMachine
