import WordMachine.Execution.Tick

namespace WordMachine

theorem bind_eq_ok {ε σ α β : Type} {step : EStateM ε σ α} {next : α → EStateM ε σ β} {s final : σ} {b : β}
    (run : (step >>= next) s = .ok b final) : ∃ a middle, step s = .ok a middle ∧ next a middle = .ok b final := by
  change EStateM.bind step next s = .ok b final at run
  unfold EStateM.bind at run
  split at run
  · rename_i a middle first
    exact ⟨a, middle, first, run⟩
  · cases run

namespace Machine

variable {H : Type}

theorem frames_onStack {α : Type} {step : StackM (Object H) α} {m final : Machine H} {value : α}
    (run : onStack step m = .ok value final) : final.frames = m.frames := by
  obtain ⟨frames, stack, journal⟩ := m
  unfold onStack at run
  dsimp only at run
  split at run
  · cases run
    rfl
  · cases run

theorem frames_note {level : Level} {event : Machine H → Event} {m final : Machine H}
    (run : note level event m = .ok () final) : final.frames = m.frames := by
  unfold note at run
  split at run
  · cases run
    rfl
  · cases run
    rfl

theorem eq_of_slotBelow {words slot : Nat} {m final : Machine H}
    (run : slotBelow words m = .ok slot final) : final = m := by
  unfold slotBelow at run
  split at run
  · cases run
  · cases run
    rfl

theorem flow_andProceed {step : MachineM H Unit} {m final : Machine H} {flow : Flow}
    (run : andProceed step m = .ok flow final) : flow = .proceed ∧ step m = .ok () final := by
  obtain ⟨_, middle, first, last⟩ := bind_eq_ok run
  cases last
  exact ⟨rfl, first⟩

theorem frames_enter {routine : Routine (Object H)} {m final : Machine H}
    (run : enter routine m = .ok () final) :
    ∃ base, final.frames.active = ⟨routine, 0, base⟩ :: m.frames.active := by
  obtain ⟨base, afterSlot, slot, run⟩ := bind_eq_ok run
  obtain ⟨_, afterNote, noted, run⟩ := bind_eq_ok run
  have same := eq_of_slotBelow slot
  have kept := frames_note noted
  refine ⟨base, ?_⟩
  unfold pushFrame Frames.push? at run
  split at run
  · rename_i frames pushed
    split at pushed
    · cases pushed
      cases run
      simp only [kept, same]
    · cases pushed
  · cases run

theorem frames_callExternal {external : External (Object H)} {m final : Machine H}
    (run : callExternal external m = .ok () final) : final.frames = m.frames := by
  obtain ⟨base, afterSlot, slot, run⟩ := bind_eq_ok run
  obtain ⟨_, afterNote, noted, run⟩ := bind_eq_ok run
  obtain ⟨_, afterCall, called, checked⟩ := bind_eq_ok run
  rw [frames_onStack checked, frames_onStack called, frames_note noted, eq_of_slotBelow slot]

theorem frames_leave {frame : Frame H} {m final : Machine H} {flow : Flow}
    (run : leave frame m = .ok flow final) : final.frames = m.frames.pop := by
  obtain ⟨_, afterCheck, checked, run⟩ := bind_eq_ok run
  obtain ⟨_, afterNote, noted, run⟩ := bind_eq_ok run
  obtain ⟨_, afterMove, moved, run⟩ := bind_eq_ok run
  unfold popFrame at run
  cases run
  rw [frames_onStack moved, frames_note noted, frames_onStack checked]

/-- An instruction leaves the frames alone, except that a call pushes one and a return removes one. -/
theorem frames_perform {link : Linkage H} {frame : Frame H} {instruction : Instruction} {m final : Machine H}
    {flow : Flow} (run : perform link frame instruction m = .ok flow final) :
    final.frames.active = m.frames.active ∨
      (∃ position callee base, instruction = .call position ∧
        frame.routine.chunk.constants.readRoutine position = .ok callee ∧
        final.frames.active = ⟨callee, 0, base⟩ :: m.frames.active) ∨
      final.frames.active = m.frames.active.tail := by
  unfold perform at run
  cases instruction with
  | constant ty position => exact .inl (congrArg _ (frames_onStack (flow_andProceed run).2))
  | add ty => exact .inl (congrArg _ (frames_onStack (flow_andProceed run).2))
  | pop ty => exact .inl (congrArg _ (frames_onStack (flow_andProceed run).2))
  | setLocal ty offset => exact .inl (congrArg _ (frames_onStack (flow_andProceed run).2))
  | getLocal ty offset => exact .inl (congrArg _ (frames_onStack (flow_andProceed run).2))
  | call position =>
    dsimp only at run
    cases read : frame.routine.chunk.constants.readRoutine position with
    | ok callee =>
      rw [read] at run
      obtain ⟨base, active⟩ := frames_enter (flow_andProceed run).2
      exact .inr (.inl ⟨position, callee, base, rfl, read, active⟩)
    | error error =>
      rw [read] at run
      cases run
  | externalCall position =>
    dsimp only at run
    cases read : frame.routine.chunk.constants.readExternal link position with
    | ok external =>
      rw [read] at run
      exact .inl (congrArg _ (frames_callExternal (flow_andProceed run).2))
    | error error =>
      rw [read] at run
      cases run
  | ret =>
    refine .inr (.inr ?_)
    rw [frames_leave run]
    rfl

theorem frames_dispatch {link : Linkage H} {frame : Frame H} {ip : Nat} {instruction : Instruction}
    {m final : Machine H} {flow : Flow} (run : dispatch link frame ip instruction m = .ok flow final) :
    final.frames.active = m.frames.active ∨
      (∃ position callee base, instruction = .call position ∧
        frame.routine.chunk.constants.readRoutine position = .ok callee ∧
        final.frames.active = ⟨callee, 0, base⟩ :: m.frames.active) ∨
      final.frames.active = m.frames.active.tail := by
  obtain ⟨_, afterNote, noted, performed⟩ := bind_eq_ok run
  rw [← frames_note noted]
  exact frames_perform performed

end Machine

end WordMachine
