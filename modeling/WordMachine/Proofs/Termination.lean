import WordMachine.Proofs.Effect

namespace WordMachine

/-- The instructions that a frame has not come to yet. -/
def Frame.remaining {H : Type} (frame : Frame H) : List RawInstruction :=
  frame.routine.chunk.code.toList.drop frame.ip

/-- The work of a routine that is about to begin. -/
def Routine.work {H : Type} (routine : Routine (Object H)) : Nat :=
  Frame.work ⟨routine, 0, 0⟩

theorem Routine.workOf_eq {H : Type} (routine : Routine (Object H)) (code : List RawInstruction) :
    routine.workOf code = code.length + ((code.filterMap routine.callee?).map Routine.work).sum := by
  induction code with
  | nil => simp [workOf]
  | cons raw rest ih =>
    rw [workOf, ih, List.length_cons]
    cases called : routine.callee? raw with
    | none =>
      rw [List.filterMap_cons_none called]
      dsimp only
      omega
    | some callee =>
      have whole : callee.work = callee.workOf callee.chunk.code.toList := rfl
      rw [List.filterMap_cons_some called, List.map_cons, List.sum_cons]
      dsimp only
      omega

/-- The work left in a frame is its remaining instructions, and for every call among them the work of the routine that
is called. -/
theorem Frame.work_eq {H : Type} (frame : Frame H) :
    frame.work = frame.remaining.length + ((frame.remaining.filterMap frame.routine.callee?).map Routine.work).sum :=
  frame.routine.workOf_eq frame.remaining

theorem Frames.work_eq {H : Type} (frames : Frames H) :
    frames.work = (frames.active.map fun frame =>
      frame.remaining.length + ((frame.remaining.filterMap frame.routine.callee?).map Routine.work).sum).sum :=
  congrArg List.sum (List.map_congr_left fun frame _ => frame.work_eq)

namespace Machine

variable {H : Type}

/-- The number of instructions that a tick dispatches: one, or none if there is no frame or nothing to decode. -/
def dispatches (m : Machine H) : Nat :=
  match m.frames.active with
  | [] => 0
  | frame :: _ => if (frame.routine.chunk.fetch frame.ip).isOk then 1 else 0

theorem dispatches_le_work (m : Machine H) : m.dispatches ≤ m.frames.work := by
  obtain ⟨⟨active, limit⟩, stack, journal⟩ := m
  cases active with
  | nil => exact Nat.zero_le _
  | cons frame below =>
    simp only [dispatches, Frames.work, List.map_cons, List.sum_cons]
    cases fetched : frame.routine.chunk.fetch frame.ip with
    | error error => exact Nat.zero_le _
    | ok instruction =>
      obtain ⟨raw, _, work⟩ := Frame.work_of_fetch fetched
      have one : (Except.ok instruction : Except ProgramError Instruction).isOk = true := rfl
      rw [one, if_pos rfl]
      omega

/-- A run that ends, with the number of instructions dispatched on the way and what it ends with. -/
inductive Ends (link : Linkage H) : Machine H → Nat → EStateM.Result Fault (Machine H) Unit → Prop
  | halted {m final : Machine H} (ticked : tick link m = .halted final) : Ends link m m.dispatches (.ok () final)
  | faulted {m final : Machine H} {fault : Fault} (ticked : tick link m = .faulted fault final) :
      Ends link m m.dispatches (.error fault final)
  | running {m next : Machine H} {count : Nat} {outcome : EStateM.Result Fault (Machine H) Unit}
      (ticked : tick link m = .running next) (rest : Ends link next count outcome) :
      Ends link m (m.dispatches + count) outcome

theorem ends_within_work (link : Linkage H) (m : Machine H) :
    ∃ count ≤ m.frames.work, Ends link m count (run link m) := by
  induction m using run_induction link with
  | step m ih =>
    cases ticked : tick link m with
    | running next =>
      obtain ⟨count, bound, rest⟩ := ih next ticked
      have less := work_tick ticked
      have one : m.dispatches ≤ 1 := by
        unfold dispatches
        split
        · exact Nat.zero_le _
        · split
          · exact Nat.le_refl _
          · exact Nat.zero_le _
      rw [run_of_running ticked]
      exact ⟨m.dispatches + count, by omega, .running ticked rest⟩
    | halted final =>
      rw [run_of_halted ticked]
      exact ⟨m.dispatches, m.dispatches_le_work, .halted ticked⟩
    | faulted fault final =>
      rw [run_of_faulted ticked]
      exact ⟨m.dispatches, m.dispatches_le_work, .faulted ticked⟩

/-- Whatever the frames, their positions, the stack and the code: every run ends, with a result or a fault, after no
more instructions than there was work left in the frames. An instruction that goes on takes something off that work. -/
theorem run_terminates (link : Linkage H) (m : Machine H) :
    m.frames.work = (m.frames.active.map fun frame =>
      frame.remaining.length + ((frame.remaining.filterMap frame.routine.callee?).map Routine.work).sum).sum ∧
    (∀ next, tick link m = .running next → next.frames.work < m.frames.work) ∧
    ∃ count ≤ m.frames.work, Ends link m count (run link m) :=
  ⟨m.frames.work_eq, fun _ ticked => work_tick ticked, ends_within_work link m⟩

end Machine

end WordMachine
