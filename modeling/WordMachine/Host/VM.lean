import WordMachine.Execution.Execute
import WordMachine.Host.Supply

namespace WordMachine

/-- The limits of a machine, and how much it keeps for reuse. -/
structure Config where
  /-- Words of an operand stack. -/
  stackDepth : Nat := 1024
  /-- Frames of the deepest chain of calls. -/
  maxFrames : Nat := 512
  /-- Operand stacks kept for reuse. -/
  stackPoolSize : Nat := 16
  /-- Frame stacks kept for reuse. -/
  framePoolSize : Nat := 12
deriving DecidableEq

namespace Config

/-- The configuration as a diagnostic record. -/
def record (config : Config) : String :=
  recordText "VMCreateInfo"
    [("stack_depth", toString config.stackDepth), ("max_frames", toString config.maxFrames),
      ("stack_pool_size", toString config.stackPoolSize), ("frame_pool_size", toString config.framePoolSize)]

end Config

/-- The host's side: every call gets a stack and frames of its own from the pools. -/
structure VM (H : Type) where
  config : Config
  stackPool : StackPool (Object H)
  framePool : FramePool H
  journal : Journal

namespace VM

variable {H : Type}

def create (config : Config) (journal : Journal) : VM H where
  config := config
  stackPool := .empty config.stackPoolSize
  framePool := .empty config.framePoolSize
  journal := journal

/-- A stack of the given capacity. -/
def lendStackOf : VM H → Nat → OperandStack (Object H) × VM H
  | ⟨config, stackPool, framePool, journal⟩, capacity =>
    let (stack, stackPool, journal) := stackPool.lend capacity journal
    (stack, ⟨config, stackPool, framePool, journal⟩)

def lendStack (vm : VM H) : OperandStack (Object H) × VM H :=
  vm.lendStackOf vm.config.stackDepth

def lendFrames : VM H → Frames H × VM H
  | ⟨config, stackPool, framePool, journal⟩ =>
    let (frames, framePool, journal) := framePool.lend config.maxFrames journal
    (frames, ⟨config, stackPool, framePool, journal⟩)

def takeBackStack : VM H → OperandStack (Object H) → VM H
  | ⟨config, stackPool, framePool, journal⟩, stack =>
    let (stackPool, journal) := stackPool.takeBack stack journal
    ⟨config, stackPool, framePool, journal⟩

def takeBackFrames : VM H → Frames H → VM H
  | ⟨config, stackPool, framePool, journal⟩, frames => ⟨config, stackPool, framePool.takeBack frames, journal⟩

/-- Takes everything back that a call used, the frames first. -/
def settle : VM H → Machine H → VM H
  | ⟨config, stackPool, framePool, _⟩, ⟨frames, stack, journal⟩ =>
    (VM.takeBackFrames ⟨config, stackPool, framePool, journal⟩ frames).takeBackStack stack

/-- Runs a routine whose signature is known to match. -/
def callUnchecked (link : Linkage H) (vm : VM H) (routine : Routine (Object H))
    (arguments : List (Argument (Object H))) (result : Option Ty) :
    Except Fault (Result (Object H) result) × VM H :=
  let (stack, vm) := vm.lendStack
  let (frames, vm) := vm.lendFrames
  match Machine.execute link routine arguments result ⟨frames, stack, vm.journal⟩ with
  | .ok value m => (.ok value, vm.settle m)
  | .error fault m => (.error fault, vm.settle m)

/-- Compares the types with the signature of a routine, then runs it. -/
def call (link : Linkage H) (vm : VM H) (routine : Routine (Object H)) (arguments : List (Argument (Object H)))
    (result : Option Ty) : Except Fault (Result (Object H) result) × VM H :=
  match routine.signature.check (arguments.map Argument.ty) result with
  | .error fault => (.error fault, vm)
  | .ok () => vm.callUnchecked link routine arguments result

/-- Runs a routine without arguments and result. -/
def invoke (link : Linkage H) (vm : VM H) (routine : Routine (Object H)) : Except Fault Unit × VM H :=
  vm.call link routine [] none

/-- The machine as a diagnostic record. -/
def record (vm : VM H) : String :=
  recordText "VM"
    [("info", vm.config.record), ("stacks", vm.stackPool.record), ("frames", vm.framePool.record)]

end VM

/-- A routine whose signature was compared once with the types of its calls. -/
structure TypedRoutine (H : Type) (types : List Ty) (result : Option Ty) where
  routine : Routine (Object H)
  matching : routine.signature.check types result = .ok ()

/-- Compares the signature of a routine with the types of the calls to come. -/
def Routine.typed {H : Type} (routine : Routine (Object H)) (types : List Ty) (result : Option Ty) :
    Except Fault (TypedRoutine H types result) :=
  match h : routine.signature.check types result with
  | .ok () => .ok ⟨routine, h⟩
  | .error fault => .error fault

/-- Runs a routine without comparing types again. -/
def TypedRoutine.call {H : Type} {types : List Ty} {result : Option Ty} (typed : TypedRoutine H types result)
    (link : Linkage H) (vm : VM H) (arguments : List (Argument (Object H))) :
    Except Fault (Result (Object H) result) × VM H :=
  vm.callUnchecked link typed.routine arguments result

end WordMachine
