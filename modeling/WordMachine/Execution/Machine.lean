import WordMachine.Execution.External
import WordMachine.Execution.Frames
import WordMachine.Journal

namespace WordMachine

/-- The state of a run. -/
structure Machine (H : Type) where
  frames : Frames H
  stack : OperandStack (Object H)
  journal : Journal

/-- Steps of a run. A step that fails keeps what it had already done. -/
abbrev MachineM (H : Type) := EStateM Fault (Machine H)

/-- Whether a run goes on after an instruction. -/
inductive Flow
  | proceed
  | halt
deriving DecidableEq

/-- A run in which host code can do something besides, such as change a state of the host: `R` has the steps of the
machine and those of the host code. -/
class HostedRun (H : outParam Type) (M : Type → Type) (R : outParam (Type → Type)) where
  onMachine {α : Type} (step : MachineM H α) : R α
  onHost {α : Type} (step : M α) : R α

namespace Machine

open HostedRun

variable {H : Type}

/-- Does something that concerns the stack alone. -/
def onStack {α : Type} (step : StackM (Object H) α) : MachineM H α := fun ⟨frames, stack, journal⟩ =>
  match step stack with
  | .ok value stack => .ok value ⟨frames, stack, journal⟩
  | .error fault stack => .error fault ⟨frames, stack, journal⟩

/-- Writes an event of a level down. It is worked out only if events of that level are kept. -/
def note (level : Level) (event : Machine H → Event) : MachineM H Unit := fun m =>
  if m.journal.keeps level then
    let happened := event m
    .ok () { m with journal := m.journal.add happened }
  else
    .ok () m

/-- A machine without effects besides its own runs host code that works on the stack. -/
instance : HostedRun H (StackM (Object H)) (MachineM H) where
  onMachine step := step
  onHost step := onStack step

/-- The slot that lies `words` below the top. -/
def slotBelow (words : Nat) : MachineM H Nat := fun m =>
  if m.stack.offset < words then .error .stackUnderflow m else .ok (m.stack.offset - words) m

def pushFrame (frame : Frame H) : MachineM H Unit := fun m =>
  match m.frames.push? frame with
  | some frames => .ok () { m with frames := frames }
  | none => .error (.callStackOverflow m.frames.limit) m

/-- Pushes a frame for a routine whose arguments are on top of the stack. -/
def enter (routine : Routine (Object H)) : MachineM H Unit := do
  let base ← slotBelow routine.signature.argumentWords
  note .debug fun m =>
    .entered routine.signature.name
      (routine.signature.argumentSlots.map fun entry => m.stack.describe (base + entry.1) entry.2)
  pushFrame ⟨routine, 0, base⟩

/-- Replaces the two values on top by their sum. -/
def addTop (ty : Ty) : StackM (Object H) Unit :=
  match ty with
  | .object => StackM.fail (.invalidOperand .add .object)
  | .scalar kind =>
    match kind.sum? with
    | none => StackM.fail (.invalidOperand .add kind)
    | some sum => do
      let b ← StackM.pop kind
      let a ← StackM.pop kind
      match sum a b with
      | some total => StackM.push kind total
      | none => StackM.fail (.arithmeticOverflow .add kind)

/-- Pushes a constant. -/
def pushConstant (constants : ConstantPool (Object H)) (ty : Ty) (position : Position) : StackM (Object H) Unit :=
  match constants.readOperand position ty with
  | .ok value => StackM.pushOperand ty value
  | .error error => StackM.fail error

/-- Discards the value on top; a reference is released. -/
def discard (ty : Ty) : StackM (Object H) Unit := do
  let _ ← StackM.popOperand ty

/-- Pushes a handle, or takes it back if it has no room. -/
def pushOwned (handle : Handle) : StackM (Object H) Unit := fun stack =>
  match StackM.pushCell .object handle stack with
  | .ok () stack => .ok () stack
  | .error fault stack =>
    match StackM.release handle stack with
    | .ok _ stack => .error fault stack
    | .error other stack => .error other stack

/-- Pushes a copy of the value at a slot; a reference gets a handle of its own. -/
def loadLocal (ty : Ty) (slot : Nat) : StackM (Object H) Unit :=
  match ty with
  | .scalar kind => do
    let value ← StackM.read kind slot
    StackM.push kind value
  | .object => do
    let handle ← StackM.readCell .object slot
    let copy ← StackM.duplicate handle
    pushOwned copy

/-- The handle at a slot that is to be replaced by another, which is taken back if there is none. -/
def replacedHandle (handle : Handle) (slot : Nat) : StackM (Object H) Handle := fun stack =>
  match stack.cellAt .object slot with
  | .ok previous => .ok previous stack
  | .error fault =>
    match StackM.release handle stack with
    | .ok _ stack => .error fault stack
    | .error other stack => .error other stack

/-- Moves the value on top to a slot. A reference takes the place of another, which is released; a scalar is written
over whatever lies there. -/
def storeLocal (ty : Ty) (slot : Nat) : StackM (Object H) Unit :=
  match ty with
  | .scalar kind => do
    let value ← StackM.pop kind
    StackM.write kind slot value
  | .object => do
    let handle ← StackM.popCell .object
    let previous ← replacedHandle handle slot
    StackM.writeCell .object slot handle
    let _ ← StackM.release previous

/-- Fails unless a call of host code left exactly its result. -/
def checkExternal {M : Type → Type} (external : Native M) (base : Nat) : StackM (Object H) Unit := fun stack =>
  if stack.offset = base + external.returnWords then
    .ok () stack
  else
    .error (.returnCountMismatch external.name external.returnWords (stack.offset - base)) stack

/-- Calls host code. -/
def callExternal {M R : Type → Type} [HostedRun H M R] [Monad R] (external : Native M) : R Unit := do
  let base ← onMachine M (slotBelow external.argumentWords)
  onMachine M (note .debug fun _ => .externalCall external.text)
  onHost external.callback
  onMachine M (onStack (checkExternal external base))

theorem callExternal_own (external : External (Object H)) :
    callExternal external = (do
      let base ← slotBelow external.argumentWords
      note .debug fun _ => .externalCall external.text
      onStack external.callback
      onStack (checkExternal external base) : MachineM H Unit) :=
  rfl

/-- Fails unless a frame holds exactly its arguments and its result. -/
def checkReturn (signature : Signature) (base : Nat) : StackM (Object H) Unit := fun stack =>
  let localsEnd := base + signature.argumentWords
  if stack.offset < localsEnd + signature.returnWords then
    .error .stackUnderflow stack
  else if localsEnd + signature.returnWords < stack.offset then
    .error (.returnCountMismatch signature.name signature.returnWords (stack.offset - localsEnd)) stack
  else
    .ok () stack

/-- Releases the references among the arguments of a frame. -/
def releaseArguments (base : Nat) : List (Nat × Ty) → StackM (Object H) Unit
  | [] => pure ()
  | (_, .scalar _) :: rest => releaseArguments base rest
  | (slot, .object) :: rest => do
    let handle ← StackM.readCell .object (base + slot)
    let _ ← StackM.release handle
    releaseArguments base rest

/-- The value that a routine is about to return, as log messages show it. -/
def describeResult (stack : OperandStack (Object H)) (signature : Signature) (base : Nat) : String :=
  match signature.result with
  | some ty => stack.describe (base + signature.argumentWords) ty
  | none => "void"

/-- Removes the current frame. -/
def popFrame : MachineM H Flow := fun ⟨frames, stack, journal⟩ =>
  let frames := frames.pop
  .ok (if frames.active.isEmpty then .halt else .proceed) ⟨frames, stack, journal⟩

/-- Releases the arguments of a frame, moves its result down to its base and removes it. -/
def leave (frame : Frame H) : MachineM H Flow := do
  let signature := frame.routine.signature
  onStack (checkReturn signature frame.base)
  note .debug fun m => .exited signature.name (describeResult m.stack signature frame.base)
  onStack do
    releaseArguments frame.base signature.argumentSlots
    StackM.moveDown (frame.base + signature.argumentWords) frame.base signature.returnWords
    StackM.setOffset (frame.base + signature.returnWords)
  popFrame

/-- Does something and goes on. -/
def andProceed (step : MachineM H Unit) : MachineM H Flow := do
  step
  pure .proceed

/-- Carries out an instruction of the current frame. -/
def perform (link : Linkage H) (frame : Frame H) (instruction : Instruction) : MachineM H Flow :=
  let constants := frame.routine.chunk.constants
  match instruction with
  | .constant ty position => andProceed (onStack (pushConstant constants ty position))
  | .add ty => andProceed (onStack (addTop ty))
  | .pop ty => andProceed (onStack (discard ty))
  | .setLocal ty offset => andProceed (onStack (storeLocal ty (frame.base + offset.toNat)))
  | .getLocal ty offset => andProceed (onStack (loadLocal ty (frame.base + offset.toNat)))
  | .call position =>
    match constants.readRoutine position with
    | .ok callee => andProceed (enter callee)
    | .error error => throw (error : Fault)
  | .externalCall position =>
    match constants.readExternal link position with
    | .ok external => andProceed (callExternal external)
    | .error error => throw (error : Fault)
  | .ret => leave frame

/-- Writes down that the instruction of the current frame at `ip` failed. -/
def report (ip : Nat) (fault : Fault) (m : Machine H) : Machine H :=
  match m.frames.current? with
  | some frame =>
    { m with
      journal := m.journal.add
        (.failed fault frame.routine.signature.name ip (frame.routine.chunk.lineFor ip)) }
  | none => m

end Machine

end WordMachine
