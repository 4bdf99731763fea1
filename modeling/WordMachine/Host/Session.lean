import WordMachine.Host.VM

namespace WordMachine

/-- Something that a host holds, and whether it came from the pools of its machine. -/
structure Held (α : Type) where
  value : α
  shared : Bool

/-- A host that keeps stacks and frames of its own, by number, beside those of its calls. -/
structure Session (H : Type) where
  vm : VM H
  heldStacks : List (Nat × Held (OperandStack (Object H)))
  heldFrames : List (Nat × Held (Frames H))

/-- The list with the entry of a number removed. -/
def withoutEntry {α : Type} (number : Nat) (entries : List (Nat × α)) : List (Nat × α) :=
  entries.filter fun entry => entry.1 ≠ number

namespace Session

variable {H : Type}

def start (config : Config) (level : Option Level) : Session H where
  vm := VM.create config (Journal.keeping level)
  heldStacks := []
  heldFrames := []

def stack? (session : Session H) (number : Nat) : Option (OperandStack (Object H)) :=
  (session.heldStacks.lookup number).map Held.value

def frames? (session : Session H) (number : Nat) : Option (Frames H) :=
  (session.heldFrames.lookup number).map Held.value

/-- Lets go of the stack with a number, if there is one. -/
def closeStack (session : Session H) (number : Nat) : Session H :=
  match session.heldStacks.lookup number with
  | none => session
  | some ⟨stack, shared⟩ =>
    let vm :=
      if shared then session.vm.takeBackStack stack
      else { session.vm with journal := dropStandalone stack session.vm.journal }
    { session with vm := vm, heldStacks := withoutEntry number session.heldStacks }

/-- Lets go of the frames with a number, if there are some. -/
def closeFrames (session : Session H) (number : Nat) : Session H :=
  match session.heldFrames.lookup number with
  | none => session
  | some ⟨frames, shared⟩ =>
    let vm := if shared then session.vm.takeBackFrames frames else session.vm
    { session with vm := vm, heldFrames := withoutEntry number session.heldFrames }

/-- Keeps a stack under a number. The one that had the number goes only after the new one was made. -/
def keepStack (session : Session H) (number : Nat) (stack : Held (OperandStack (Object H))) : Session H :=
  let session := session.closeStack number
  { session with heldStacks := (number, stack) :: session.heldStacks }

/-- Keeps frames under a number. Those that had the number go only after the new ones were made. -/
def keepFrames (session : Session H) (number : Nat) (frames : Held (Frames H)) : Session H :=
  let session := session.closeFrames number
  { session with heldFrames := (number, frames) :: session.heldFrames }

/-- A new stack from the pool, with the configured capacity unless another is given. -/
def openStack (session : Session H) (number : Nat) (capacity : Option Nat) : Session H :=
  let (stack, vm) := session.vm.lendStackOf (capacity.getD session.vm.config.stackDepth)
  { session with vm := vm }.keepStack number ⟨stack, true⟩

/-- A new stack that belongs to no pool. -/
def openStandaloneStack (session : Session H) (number capacity : Nat) : Session H :=
  let (stack, journal) := standaloneStack capacity session.vm.journal
  { session with vm := { session.vm with journal := journal } }.keepStack number ⟨stack, false⟩

/-- New frames from the pool. -/
def openFrames (session : Session H) (number : Nat) : Session H :=
  let (frames, vm) := session.vm.lendFrames
  { session with vm := vm }.keepFrames number ⟨frames, true⟩

/-- New frames that belong to no pool. -/
def openStandaloneFrames (session : Session H) (number limit : Nat) : Session H :=
  let (frames, journal) := standaloneFrames limit session.vm.journal
  { session with vm := { session.vm with journal := journal } }.keepFrames number ⟨frames, false⟩

/-- Puts another state of a stack in its place. -/
def updateStack (session : Session H) (number : Nat) (stack : Held (OperandStack (Object H))) : Session H :=
  { session with heldStacks := (number, stack) :: withoutEntry number session.heldStacks }

/-- Puts another state of frames in their place. -/
def updateFrames (session : Session H) (number : Nat) (frames : Held (Frames H)) : Session H :=
  { session with heldFrames := (number, frames) :: withoutEntry number session.heldFrames }

/-- Does something with the stack that has a number. -/
def onStack {α : Type} (session : Session H) (number : Nat) (step : StackM (Object H) α) :
    Option (Except Fault α × Session H) :=
  match session.heldStacks.lookup number with
  | none => none
  | some ⟨stack, shared⟩ =>
    match step stack with
    | .ok value stack => some (.ok value, session.updateStack number ⟨stack, shared⟩)
    | .error fault stack => some (.error fault, session.updateStack number ⟨stack, shared⟩)

/-- Does something with the frames that have a number. -/
def onFrames {α : Type} (session : Session H) (number : Nat) (step : Frames H → α × Frames H) :
    Option (α × Session H) :=
  match session.heldFrames.lookup number with
  | none => none
  | some ⟨frames, shared⟩ =>
    let (value, frames) := step frames
    some (value, session.updateFrames number ⟨frames, shared⟩)

/-- Does something with a stack and frames together. -/
def onMachine {α : Type} (session : Session H) (stackNumber framesNumber : Nat) (step : MachineM H α) :
    Option (Except Fault α × Session H) :=
  match session.heldStacks.lookup stackNumber, session.heldFrames.lookup framesNumber with
  | some ⟨stack, stackShared⟩, some ⟨frames, framesShared⟩ =>
    let settle (m : Machine H) : Session H :=
      ({ session with vm := { session.vm with journal := m.journal } }.updateStack stackNumber
        ⟨m.stack, stackShared⟩).updateFrames framesNumber ⟨m.frames, framesShared⟩
    match step ⟨frames, stack, session.vm.journal⟩ with
    | .ok value m => some (.ok value, settle m)
    | .error fault m => some (.error fault, settle m)
  | _, _ => none

/-- The messages since the journal was last read. -/
def takeMessages (session : Session H) : List String × Session H :=
  (session.vm.journal.lines,
    { session with vm := { session.vm with journal := Journal.keeping session.vm.journal.level } })

end Session

end WordMachine
