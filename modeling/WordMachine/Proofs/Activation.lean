import WordMachine.Proofs.OwnedRun

namespace WordMachine

/-- Where a run stands after an instruction that did not fail. -/
def Flow.progress {H : Type} : Flow → Machine H → Progress H
  | proceed, m => .running m
  | halt, m => .halted m

/-- The active frames after a change for which there was room. -/
def FrameChange.onActive {H : Type} : FrameChange H → List (Frame H) → List (Frame H)
  | keep, active => active
  | push frame, active => frame :: active
  | pop, active => active.tail

theorem FrameChange.eq_of_onFrames? {H : Type} {change : FrameChange H} {frames next : Frames H}
    (changed : change.onFrames? frames = some next) : next = ⟨change.onActive frames.active, frames.limit⟩ := by
  cases change with
  | keep =>
    cases changed
    rfl
  | push frame =>
    simp only [onFrames?, Frames.push?] at changed
    split at changed
    · cases changed
      rfl
    · cases changed
  | pop =>
    cases changed
    rfl

namespace Machine

variable {H : Type} {link : Linkage H}

theorem keeping_eq_keep {step : StackM (Object H) Unit} {stack final : OperandStack (Object H)}
    {change : FrameChange H} (ran : keeping step stack = .ok change final) :
    step stack = .ok () final ∧ change = .keep := by
  obtain ⟨_, middle, first, last⟩ := bind_eq_ok ran
  cases last
  exact ⟨first, rfl⟩

theorem enterEffect_eq_ok {routine : Routine (Object H)} {stack final : OperandStack (Object H)}
    {change : FrameChange H} (ran : enterEffect routine stack = .ok change final) :
    routine.signature.argumentWords ≤ stack.offset ∧ final = stack ∧
      change = .push ⟨routine, 0, stack.offset - routine.signature.argumentWords⟩ := by
  obtain ⟨base, middle, under, last⟩ := bind_eq_ok ran
  simp only [slotUnder] at under
  split at under
  · cases under
  · rename_i enough
    cases under
    cases last
    exact ⟨Nat.not_lt.mp enough, rfl, rfl⟩

/-- All that an instruction can ask of the frames: nothing, a frame for the routine that it calls, or the end of its
own. -/
theorem effect_cases {frame : Frame H} {instruction : Instruction} {stack final : OperandStack (Object H)}
    {change : FrameChange H} (ran : effect link frame instruction stack = .ok change final) :
    change = .keep ∨
      (∃ position callee, instruction = .call position ∧
        frame.routine.chunk.constants.readRoutine position = .ok callee ∧
        callee.signature.argumentWords ≤ stack.offset ∧ final = stack ∧
        change = .push ⟨callee, 0, stack.offset - callee.signature.argumentWords⟩) ∨
      (instruction = .ret ∧ leaveEffect frame stack = .ok () final ∧ change = .pop) := by
  cases instruction with
  | constant ty position => exact .inl (keeping_eq_keep ran).2
  | add ty => exact .inl (keeping_eq_keep ran).2
  | pop ty => exact .inl (keeping_eq_keep ran).2
  | setLocal ty offset => exact .inl (keeping_eq_keep ran).2
  | getLocal ty offset => exact .inl (keeping_eq_keep ran).2
  | call position =>
    simp only [effect] at ran
    cases read : frame.routine.chunk.constants.readRoutine position with
    | error error =>
      rw [read] at ran
      cases ran
    | ok callee =>
      rw [read] at ran
      obtain ⟨enough, same, pushed⟩ := enterEffect_eq_ok ran
      exact .inr (.inl ⟨position, callee, rfl, read, enough, same, pushed⟩)
  | externalCall position =>
    simp only [effect] at ran
    cases read : frame.routine.chunk.constants.readExternal link position with
    | error error =>
      rw [read] at ran
      cases ran
    | ok external =>
      rw [read] at ran
      exact .inl (keeping_eq_keep ran).2
  | ret =>
    obtain ⟨_, middle, left, last⟩ := bind_eq_ok ran
    cases last
    exact .inr (.inr ⟨rfl, left, rfl⟩)

theorem offset_leaveEffect {frame : Frame H} {stack final : OperandStack (Object H)}
    (left : leaveEffect frame stack = .ok () final) :
    final.offset = frame.base + frame.routine.signature.returnWords := by
  obtain ⟨_, checked, _, left⟩ := bind_eq_ok left
  obtain ⟨_, released, _, left⟩ := bind_eq_ok left
  obtain ⟨_, moved, _, left⟩ := bind_eq_ok left
  cases left
  rfl

theorem after_eq_progress {frames : Frames H} {journal : Journal} {next : Machine H} {flow : Flow}
    {outcome : EStateM.Result Fault (OperandStack (Object H)) (FrameChange H)}
    (reached : Progress.after frames journal outcome = flow.progress next) :
    ∃ change, outcome = .ok change next.stack ∧ next.frames = ⟨change.onActive frames.active, frames.limit⟩ ∧
      change.flow next.frames = flow := by
  cases outcome with
  | error fault final => cases flow <;> cases reached
  | ok change final =>
    simp only [Progress.after] at reached
    split at reached
    · rename_i changed changing
      have same := FrameChange.eq_of_onFrames? changing
      split at reached
      · rename_i proceeds
        cases flow <;> cases reached
        exact ⟨change, rfl, same, proceeds⟩
      · rename_i halts
        cases flow <;> cases reached
        exact ⟨change, rfl, same, halts⟩
    · cases flow <;> cases reached

/-- All that a tick can do if it does not fail: it carries out an instruction of the current frame. -/
theorem tick_eq_progress {m next : Machine H} {flow : Flow} {top : Frame H} {below : List (Frame H)}
    (ticked : tick link m = flow.progress next) (current : m.frames.active = top :: below) :
    ∃ instruction change, top.routine.chunk.fetch top.ip = .ok instruction ∧
      effect link top.advanced instruction m.stack = .ok change next.stack ∧
      next.frames = ⟨change.onActive (top.advanced :: below), m.frames.limit⟩ ∧ change.flow next.frames = flow := by
  obtain ⟨⟨active, limit⟩, stack, journal⟩ := m
  cases current
  cases fetched : top.routine.chunk.fetch top.ip with
  | error error =>
    obtain ⟨later, faulted⟩ := tick_fetch_error link below limit stack journal fetched
    rw [faulted] at ticked
    cases flow <;> cases ticked
  | ok instruction =>
    obtain ⟨later, after⟩ := tick_eq link below limit stack journal fetched
    rw [after] at ticked
    obtain ⟨change, ran, changed, flows⟩ := after_eq_progress ticked
    exact ⟨instruction, change, rfl, ran, changed, flows⟩

/-- A run that goes on has a frame to go on with. -/
theorem depth_pos_of_running {m next : Machine H} (ticked : tick link m = .running next) : 0 < next.frames.depth := by
  cases current : m.frames.active with
  | nil =>
    obtain ⟨⟨active, limit⟩, stack, journal⟩ := m
    cases current
    cases ticked
  | cons top below =>
    have proceeding : tick link m = Flow.proceed.progress next := ticked
    obtain ⟨instruction, change, _, _, changed, flows⟩ := tick_eq_progress proceeding current
    unfold Frames.depth
    cases change with
    | keep =>
      rw [changed]
      exact Nat.succ_pos _
    | push frame =>
      rw [changed]
      exact Nat.succ_pos _
    | pop =>
      simp only [FrameChange.flow] at flows
      split at flows
      · cases flows
      · rename_i some_left
        exact List.length_pos_iff.mpr fun empty => some_left (by rw [empty]; rfl)

/-- A run ends only when no frame is left. -/
theorem frames_of_halted {m final : Machine H} (ticked : tick link m = .halted final) :
    final.frames = ⟨[], m.frames.limit⟩ := by
  cases current : m.frames.active with
  | nil =>
    obtain ⟨⟨active, limit⟩, stack, journal⟩ := m
    cases current
    cases ticked
    rfl
  | cons top below =>
    have halting : tick link m = Flow.halt.progress final := ticked
    obtain ⟨instruction, change, _, _, changed, flows⟩ := tick_eq_progress halting current
    cases change with
    | keep => cases flows
    | push frame => cases flows
    | pop =>
      simp only [FrameChange.flow] at flows
      split at flows
      · rename_i empty
        have none_left : final.frames.active = [] := List.isEmpty_iff.mp empty
        rw [changed] at none_left ⊢
        exact congrArg (Frames.mk · m.frames.limit) none_left
      · cases flows

/-- What a call that succeeds leaves behind. -/
theorem enter_eq_ok {routine : Routine (Object H)} {m entered : Machine H}
    (entering : enter routine m = .ok () entered) :
    routine.signature.argumentWords ≤ m.stack.offset ∧ entered.stack = m.stack ∧
      entered.frames =
        ⟨⟨routine, 0, m.stack.offset - routine.signature.argumentWords⟩ :: m.frames.active, m.frames.limit⟩ := by
  obtain ⟨frames, stack, journal⟩ := m
  rcases enter_cases routine frames stack journal with ⟨_, failed⟩ | ⟨enough, later, ⟨_, failed⟩ | ⟨next, pushed, done⟩⟩
  · rw [failed] at entering
    cases entering
  · rw [failed] at entering
    cases entering
  · rw [done] at entering
    cases entering
    have changed : (FrameChange.push _).onFrames? frames = some next := pushed
    exact ⟨enough, rfl, FrameChange.eq_of_onFrames? changed⟩

/-- One instruction that does not fail. -/
def Advances (link : Linkage H) (m next : Machine H) : Prop :=
  ∃ flow : Flow, tick link m = flow.progress next

/-- The states that a run comes through, from the given one on, while more than `depth` frames are active. -/
inductive During (link : Linkage H) (depth : Nat) (start : Machine H) : Machine H → Prop
  | start : During link depth start start
  | tick {m next : Machine H} (before : During link depth start m) (ticked : tick link m = .running next)
      (deeper : depth < next.frames.depth) : During link depth start next

/-- A run, from the given state on, comes back to `depth` frames for the first time. -/
def Returns (link : Linkage H) (depth : Nat) (start final : Machine H) : Prop :=
  ∃ last, During link depth start last ∧ Advances link last final ∧ final.frames.depth = depth

theorem During.after_tick {depth : Nat} {m next last : Machine H} (ticked : Machine.tick link m = .running next)
    (deeper : depth < next.frames.depth) (during : During link depth next last) : During link depth m last := by
  induction during with
  | start => exact .tick .start ticked deeper
  | tick before later above ih => exact .tick ih later above

/-- A run that succeeds ends with a tick that halts. -/
theorem halts_of_run {m final : Machine H} (ran : run link m = .ok () final) :
    ∃ last, During link 0 m last ∧ tick link last = .halted final := by
  induction m using run_induction link with
  | step m ih =>
    cases ticked : tick link m with
    | running next =>
      rw [run_of_running ticked] at ran
      obtain ⟨last, during, halted⟩ := ih next ticked ran
      exact ⟨last, during.after_tick ticked (depth_pos_of_running ticked), halted⟩
    | halted last =>
      rw [run_of_halted ticked] at ran
      cases ran
      exact ⟨m, .start, ticked⟩
    | faulted fault last =>
      rw [run_of_faulted ticked] at ran
      cases ran

theorem returns_of_run {m final : Machine H} (ran : run link m = .ok () final) :
    Returns link 0 m final ∧ final.frames.active = [] := by
  obtain ⟨last, during, halted⟩ := halts_of_run ran
  have empty := frames_of_halted halted
  have none_left : final.frames.active = [] := by rw [empty]
  exact ⟨⟨last, during, ⟨.halt, halted⟩, by rw [empty]; rfl⟩, none_left⟩

end Machine

end WordMachine
