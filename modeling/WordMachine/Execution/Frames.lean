import WordMachine.Program.Object
import WordMachine.Text.Quoted
import WordMachine.Text.Record

namespace WordMachine

/-- One activation of a routine. -/
structure Frame (H : Type) where
  routine : Routine (Object H)
  /-- The index of the next instruction. -/
  ip : Nat
  /-- The stack slot of the first argument. -/
  base : Nat

/-- The activations of a run, the current one first, and how many there may be. -/
structure Frames (H : Type) where
  active : List (Frame H)
  limit : Nat

namespace Frames

variable {H : Type}

def depth (frames : Frames H) : Nat :=
  frames.active.length

def current? (frames : Frames H) : Option (Frame H) :=
  frames.active.head?

/-- Pushes a frame, unless there are as many as there may be. -/
def push? (frames : Frames H) (frame : Frame H) : Option (Frames H) :=
  if frames.depth < frames.limit then some { frames with active := frame :: frames.active } else none

/-- Removes the current frame. -/
def pop (frames : Frames H) : Frames H :=
  { frames with active := frames.active.tail }

def clear (frames : Frames H) : Frames H :=
  { frames with active := [] }

/-- Continues the current frame at another instruction. -/
def jump (frames : Frames H) (ip : Nat) : Frames H :=
  match frames.active with
  | [] => frames
  | frame :: below => { frames with active := { frame with ip := ip } :: below }

/-- The frames as a diagnostic record, the outermost first. -/
def record (frames : Frames H) : String :=
  listText (frames.active.reverse.map fun frame =>
    s!"({quoted frame.routine.signature.name}, {frame.ip}, {frame.base})")

end Frames

end WordMachine
