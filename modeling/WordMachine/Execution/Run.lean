import WordMachine.Execution.FrameFlow
import WordMachine.Execution.Work

namespace WordMachine

/-- Fetching takes one instruction, and the work of what it calls, off the work left in a frame. -/
theorem Frame.work_of_fetch {H : Type} {frame : Frame H} {instruction : Instruction}
    (fetched : frame.routine.chunk.fetch frame.ip = .ok instruction) :
    ∃ raw, Instruction.decode raw = .ok instruction ∧
      frame.work = 1 +
        (match frame.routine.callee? raw with
          | some callee => callee.workOf callee.chunk.code.toList
          | none => 0) +
        Frame.work { frame with ip := frame.ip + 1 } := by
  unfold Chunk.fetch instructionAt at fetched
  split at fetched
  · cases fetched
  · rename_i raw at_ip
    split at at_ip
    · rename_i found
      cases at_ip
      refine ⟨raw, fetched, ?_⟩
      obtain ⟨inside, entry⟩ := Array.getElem?_eq_some_iff.mp found
      have split_code : frame.routine.chunk.code.toList.drop frame.ip =
          raw :: frame.routine.chunk.code.toList.drop (frame.ip + 1) := by
        rw [List.drop_eq_getElem_cons (by simpa using inside)]
        simp [entry]
      unfold Frame.work
      rw [split_code, Routine.workOf]
      split <;> simp_all
    · cases at_ip

/-- Every instruction that is carried out takes something off the work left in the frames. -/
theorem Machine.work_tick {H : Type} {link : Linkage H} {m next : Machine H}
    (running : Machine.tick link m = .running next) : next.frames.work < m.frames.work := by
  obtain ⟨⟨active, limit⟩, stack, journal⟩ := m
  cases active with
  | nil => cases running
  | cons frame below =>
    unfold Machine.tick at running
    dsimp only at running
    split at running
    · cases running
    · rename_i instruction fetched
      split at running
      · rename_i final dispatched
        cases running
        obtain ⟨raw, decoded, work⟩ := Frame.work_of_fetch fetched
        rcases Machine.frames_dispatch dispatched with same | ⟨position, callee, base, called, read, pushed⟩ | popped
        · simp only [Frames.work, same, List.map_cons, List.sum_cons]
          omega
        · subst called
          have target : frame.routine.callee? raw = some callee := by
            simp [Routine.callee?, decoded, read]
          rw [target] at work
          simp only [Frames.work, pushed, List.map_cons, List.sum_cons, Frame.work, List.drop_zero] at work ⊢
          omega
        · simp only [Frames.work, popped, List.map_cons, List.sum_cons, List.tail_cons]
          omega
      · cases running
      · cases running

namespace Machine

variable {H : Type}

/-- Runs until no frame is left or an instruction fails. -/
def run (link : Linkage H) (m : Machine H) : EStateM.Result Fault (Machine H) Unit :=
  match _ticked : tick link m with
  | .running next => run link next
  | .halted final => .ok () final
  | .faulted fault final => .error fault final
termination_by m.frames.work
decreasing_by exact work_tick _ticked

end Machine

end WordMachine
