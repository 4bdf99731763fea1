import WordMachine.Execution.Frames
import WordMachine.Journal
import WordMachine.Memory.OperandStack
import WordMachine.Memory.Pool

namespace WordMachine

/-- Stacks that wait for reuse. -/
abbrev StackPool (ω : Type) := Pool (OperandStack ω)

/-- Lists of frames that wait for reuse. -/
abbrev FramePool (H : Type) := Pool (List (Frame H))

namespace StackPool

variable {ω : Type}

/-- A stack of the given capacity, from the pool if it has one. -/
def lend (pool : StackPool ω) (capacity : Nat) (journal : Journal) : OperandStack ω × StackPool ω × Journal :=
  match pool.take? fun stack => stack.capacity == capacity with
  | some (stack, pool) => ({ stack with offset := 0 }, pool, journal)
  | none => (OperandStack.fresh capacity, pool.missed, journal.add (.poolMiss .operandStack))

/-- Takes a stack back. References that are still on it are dropped, which is worth a warning. -/
def takeBack (pool : StackPool ω) (stack : OperandStack ω) (journal : Journal) : StackPool ω × Journal :=
  let leaked := stack.liveHandles
  (pool.release stack.recycle, if 0 < leaked then journal.add (.leaked leaked) else journal)

end StackPool

namespace FramePool

variable {H : Type}

/-- An empty list of frames with a limit. -/
def lend (pool : FramePool H) (limit : Nat) (journal : Journal) : Frames H × FramePool H × Journal :=
  match pool.take? fun _ => true with
  | some (stored, pool) => (Frames.clear ⟨stored, limit⟩, pool, journal)
  | none => (⟨[], limit⟩, pool.missed, journal.add (.poolMiss .frameStack))

/-- Takes the frames back, emptied. -/
def takeBack (pool : FramePool H) (frames : Frames H) : FramePool H :=
  pool.release frames.clear.active

end FramePool

/-- A stack that belongs to no pool: it comes from an empty one that keeps nothing. -/
def standaloneStack {ω : Type} (capacity : Nat) (journal : Journal) : OperandStack ω × Journal :=
  let (stack, _, journal) := StackPool.lend (Pool.empty 0) capacity journal
  (stack, journal)

/-- Frames that belong to no pool. -/
def standaloneFrames {H : Type} (limit : Nat) (journal : Journal) : Frames H × Journal :=
  let (frames, _, journal) := FramePool.lend (Pool.empty 0) limit journal
  (frames, journal)

/-- Lets a stack go that belongs to no pool. -/
def dropStandalone {ω : Type} (stack : OperandStack ω) (journal : Journal) : Journal :=
  (StackPool.takeBack (Pool.empty 0) stack journal).2

end WordMachine
