import WordMachine.Execution.Frames

namespace WordMachine

namespace Routine

variable {H : Type}

/-- The routine that an instruction calls, if it calls one. -/
def callee? (routine : Routine (Object H)) (raw : RawInstruction) : Option (Routine (Object H)) :=
  match Instruction.decode raw with
  | .ok (.call position) =>
    match routine.chunk.constants.readRoutine position with
    | .ok callee => some callee
    | .error _ => none
  | _ => none

theorem sizeOf_callee {routine callee : Routine (Object H)} {raw : RawInstruction}
    (called : routine.callee? raw = some callee) : sizeOf callee < sizeOf routine := by
  unfold callee? at called
  split at called
  · split at called
    · rename_i read
      cases called
      exact ConstantPool.sizeOf_readRoutine read
    · cases called
  · cases called

/-- The most instructions that a piece of a routine's code can carry out: its own, and for every call the work of the
routine that is called. -/
def workOf (routine : Routine (Object H)) (code : List RawInstruction) : Nat :=
  match code with
  | [] => 0
  | raw :: rest =>
    let called :=
      match _called : routine.callee? raw with
      | some callee => callee.workOf callee.chunk.code.toList
      | none => 0
    1 + called + routine.workOf rest
termination_by (sizeOf routine, code.length)
decreasing_by
  · exact Prod.Lex.left _ _ (sizeOf_callee _called)
  · exact Prod.Lex.right _ (by simp)

end Routine

/-- The work left in a frame. -/
def Frame.work {H : Type} (frame : Frame H) : Nat :=
  frame.routine.workOf (frame.routine.chunk.code.toList.drop frame.ip)

/-- The work left in all frames. -/
def Frames.work {H : Type} (frames : Frames H) : Nat :=
  (frames.active.map Frame.work).sum

end WordMachine
