import WordMachine.Execution.Run

namespace WordMachine

/-- The state that a step leaves behind, whether it failed or not. -/
def finalState {ε σ α : Type} : EStateM.Result ε σ α → σ
  | .ok _ state => state
  | .error _ state => state

/-- The same outcome with another final state. -/
def onState {ε σ τ α : Type} (f : σ → τ) : EStateM.Result ε σ α → EStateM.Result ε τ α
  | .ok value state => .ok value (f state)
  | .error error state => .error error (f state)

@[simp]
theorem finalState_onState {ε σ τ α : Type} (f : σ → τ) (outcome : EStateM.Result ε σ α) :
    finalState (onState f outcome) = f (finalState outcome) := by
  cases outcome <;> rfl

/-- The frame with its first instruction behind it. -/
def Frame.advanced {H : Type} (frame : Frame H) : Frame H :=
  { frame with ip := frame.ip + 1 }

/-- What an instruction does to the frames. -/
inductive FrameChange (H : Type)
  | keep
  | push (frame : Frame H)
  | pop

namespace FrameChange

variable {H : Type}

/-- The frames after a change; there are none if a frame has no room. -/
def onFrames? : FrameChange H → Frames H → Option (Frames H)
  | keep, frames => some frames
  | push frame, frames => frames.push? frame
  | pop, frames => some frames.pop

/-- Only the removal of the last frame ends a run. -/
def flow : FrameChange H → Frames H → Flow
  | pop, frames => if frames.active.isEmpty then .halt else .proceed
  | _, _ => .proceed

end FrameChange

namespace Machine

variable {H : Type}

/-- The slot that lies `words` below the top, as a step of the stack. -/
def slotUnder (words : Nat) : StackM (Object H) Nat := fun stack =>
  if stack.offset < words then .error .stackUnderflow stack else .ok (stack.offset - words) stack

/-- Does something to the stack that leaves the frames alone. -/
def keeping (step : StackM (Object H) Unit) : StackM (Object H) (FrameChange H) := do
  step
  pure .keep

/-- What a call does to the stack: nothing, but it finds the place of the new frame. -/
def enterEffect (routine : Routine (Object H)) : StackM (Object H) (FrameChange H) := do
  let base ← slotUnder routine.signature.argumentWords
  pure (.push ⟨routine, 0, base⟩)

/-- What a call of host code does to the stack. -/
def externalEffect (external : External (Object H)) : StackM (Object H) Unit := do
  let base ← slotUnder external.argumentWords
  external.callback
  checkExternal external base

/-- What a return does to the stack. -/
def leaveEffect (frame : Frame H) : StackM (Object H) Unit := do
  checkReturn frame.routine.signature frame.base
  releaseArguments frame.base frame.routine.signature.argumentSlots
  StackM.moveDown (frame.base + frame.routine.signature.argumentWords) frame.base frame.routine.signature.returnWords
  StackM.setOffset (frame.base + frame.routine.signature.returnWords)

/-- What an instruction does to the stack, and what it is going to do to the frames. -/
def effect (link : Linkage H) (frame : Frame H) (instruction : Instruction) :
    StackM (Object H) (FrameChange H) :=
  let constants := frame.routine.chunk.constants
  match instruction with
  | .constant ty position => keeping (pushConstant constants ty position)
  | .add ty => keeping (addTop ty)
  | .pop ty => keeping (discard ty)
  | .setLocal ty offset => keeping (storeLocal ty (frame.base + offset.toNat))
  | .getLocal ty offset => keeping (loadLocal ty (frame.base + offset.toNat))
  | .call position =>
    match constants.readRoutine position with
    | .ok callee => enterEffect callee
    | .error error => StackM.fail error
  | .externalCall position =>
    match constants.readExternal link position with
    | .ok external => keeping (externalEffect external)
    | .error error => StackM.fail error
  | .ret => do
    leaveEffect frame
    pure .pop

/-- Carries an effect over to a machine: the frames change only if the stack went along. -/
def absorb (frames : Frames H) (journal : Journal) :
    EStateM.Result Fault (OperandStack (Object H)) (FrameChange H) → EStateM.Result Fault (Machine H) Flow
  | .ok change stack =>
    match change.onFrames? frames with
    | some frames => .ok (change.flow frames) ⟨frames, stack, journal⟩
    | none => .error (.callStackOverflow frames.limit) ⟨frames, stack, journal⟩
  | .error fault stack => .error fault ⟨frames, stack, journal⟩

theorem note_eq (level : Level) (event : Machine H → Event) (frames : Frames H) (stack : OperandStack (Object H))
    (journal : Journal) :
    ∃ later, note level event ⟨frames, stack, journal⟩ = .ok () ⟨frames, stack, later⟩ := by
  unfold note
  split
  · exact ⟨_, rfl⟩
  · exact ⟨_, rfl⟩

theorem bind_ok {ε σ α β : Type} {step : EStateM ε σ α} {next : α → EStateM ε σ β} {s middle : σ} {a : α}
    (first : step s = .ok a middle) : (step >>= next) s = next a middle := by
  change EStateM.bind step next s = _
  unfold EStateM.bind
  rw [first]

theorem bind_error {ε σ α β : Type} {step : EStateM ε σ α} {next : α → EStateM ε σ β} {s final : σ} {e : ε}
    (first : step s = .error e final) : (step >>= next) s = .error e final := by
  change EStateM.bind step next s = _
  unfold EStateM.bind
  rw [first]

theorem onStack_ok {α : Type} {step : StackM (Object H) α} {frames : Frames H} {stack final : OperandStack (Object H)}
    {journal : Journal} {value : α} (run : step stack = .ok value final) :
    onStack step ⟨frames, stack, journal⟩ = .ok value ⟨frames, final, journal⟩ := by
  simp only [onStack, run]

theorem onStack_error {α : Type} {step : StackM (Object H) α} {frames : Frames H}
    {stack final : OperandStack (Object H)} {journal : Journal} {fault : Fault}
    (run : step stack = .error fault final) :
    onStack step ⟨frames, stack, journal⟩ = .error fault ⟨frames, final, journal⟩ := by
  simp only [onStack, run]

theorem absorb_keeping (step : StackM (Object H) Unit) (frames : Frames H) (stack : OperandStack (Object H))
    (journal : Journal) :
    andProceed (onStack step) ⟨frames, stack, journal⟩ = absorb frames journal (keeping step stack) := by
  unfold andProceed keeping
  cases run : step stack with
  | ok value final =>
    rw [bind_ok (onStack_ok run), bind_ok run]
    rfl
  | error fault final =>
    rw [bind_error (onStack_error run), bind_error run]
    rfl

theorem enter_eq (routine : Routine (Object H)) (frames : Frames H) (stack : OperandStack (Object H))
    (journal : Journal) :
    ∃ later, andProceed (enter routine) ⟨frames, stack, journal⟩ = absorb frames later (enterEffect routine stack) := by
  unfold andProceed enter enterEffect
  by_cases low : stack.offset < routine.signature.argumentWords
  · refine ⟨journal, ?_⟩
    have outer : slotBelow routine.signature.argumentWords (⟨frames, stack, journal⟩ : Machine H) =
        .error .stackUnderflow ⟨frames, stack, journal⟩ := if_pos low
    have inner : slotUnder routine.signature.argumentWords stack = .error .stackUnderflow stack := if_pos low
    rw [bind_error (bind_error outer), bind_error inner]
    rfl
  · have outer : slotBelow routine.signature.argumentWords (⟨frames, stack, journal⟩ : Machine H) =
        .ok (stack.offset - routine.signature.argumentWords) ⟨frames, stack, journal⟩ := if_neg low
    have inner : slotUnder routine.signature.argumentWords stack =
        .ok (stack.offset - routine.signature.argumentWords) stack := if_neg low
    obtain ⟨later, noted⟩ := note_eq .debug (fun m : Machine H => .entered routine.signature.name
      (routine.signature.argumentSlots.map fun entry =>
        m.stack.describe (stack.offset - routine.signature.argumentWords + entry.1) entry.2)) frames stack journal
    refine ⟨later, ?_⟩
    rw [bind_ok inner]
    cases pushed : frames.push? ⟨routine, 0, stack.offset - routine.signature.argumentWords⟩ with
    | some more =>
      have last : pushFrame ⟨routine, 0, stack.offset - routine.signature.argumentWords⟩
          (⟨frames, stack, later⟩ : Machine H) = .ok () ⟨more, stack, later⟩ := by
        simp only [pushFrame, pushed]
      rw [bind_ok ((bind_ok outer).trans ((bind_ok noted).trans last))]
      simp only [absorb, pure, EStateM.pure, FrameChange.onFrames?, pushed, FrameChange.flow]
    | none =>
      have last : pushFrame ⟨routine, 0, stack.offset - routine.signature.argumentWords⟩
          (⟨frames, stack, later⟩ : Machine H) = .error (.callStackOverflow frames.limit) ⟨frames, stack, later⟩ := by
        simp only [pushFrame, pushed]
      rw [bind_error ((bind_ok outer).trans ((bind_ok noted).trans last))]
      simp only [absorb, pure, EStateM.pure, FrameChange.onFrames?, pushed]

theorem callExternal_eq (external : External (Object H)) (frames : Frames H) (stack : OperandStack (Object H))
    (journal : Journal) :
    ∃ later, andProceed (callExternal external) ⟨frames, stack, journal⟩ =
      absorb frames later (keeping (externalEffect external) stack) := by
  rw [callExternal_own]
  unfold andProceed keeping externalEffect
  by_cases low : stack.offset < external.argumentWords
  · refine ⟨journal, ?_⟩
    have outer : slotBelow external.argumentWords (⟨frames, stack, journal⟩ : Machine H) =
        .error .stackUnderflow ⟨frames, stack, journal⟩ := if_pos low
    have inner : slotUnder external.argumentWords stack = .error .stackUnderflow stack := if_pos low
    rw [bind_error (bind_error outer), bind_error (bind_error inner)]
    rfl
  · have outer : slotBelow external.argumentWords (⟨frames, stack, journal⟩ : Machine H) =
        .ok (stack.offset - external.argumentWords) ⟨frames, stack, journal⟩ := if_neg low
    have inner : slotUnder external.argumentWords stack = .ok (stack.offset - external.argumentWords) stack :=
      if_neg low
    obtain ⟨later, noted⟩ := note_eq .debug (fun _ : Machine H => .externalCall external.text) frames stack journal
    refine ⟨later, ?_⟩
    cases called : external.callback stack with
    | error fault final =>
      rw [bind_error ((bind_ok outer).trans ((bind_ok noted).trans (bind_error (onStack_error called)))),
        bind_error ((bind_ok inner).trans (bind_error called))]
      rfl
    | ok value final =>
      cases checked : checkExternal external (stack.offset - external.argumentWords) final with
      | error fault last =>
        rw [bind_error ((bind_ok outer).trans ((bind_ok noted).trans
            ((bind_ok (onStack_ok called)).trans (onStack_error checked)))),
          bind_error ((bind_ok inner).trans ((bind_ok called).trans checked))]
        rfl
      | ok value last =>
        rw [bind_ok ((bind_ok outer).trans ((bind_ok noted).trans
            ((bind_ok (onStack_ok called)).trans (onStack_ok checked)))),
          bind_ok ((bind_ok inner).trans ((bind_ok called).trans checked))]
        rfl

theorem leave_eq (frame : Frame H) (frames : Frames H) (stack : OperandStack (Object H)) (journal : Journal) :
    ∃ later, leave frame ⟨frames, stack, journal⟩ =
      absorb frames later ((do leaveEffect frame; pure .pop : StackM (Object H) (FrameChange H)) stack) := by
  unfold leave leaveEffect
  cases checked : checkReturn frame.routine.signature frame.base stack with
  | error fault final =>
    refine ⟨journal, ?_⟩
    rw [bind_error (onStack_error checked), bind_error (bind_error checked)]
    rfl
  | ok value final =>
    obtain ⟨later, noted⟩ := note_eq .debug (fun m : Machine H => .exited frame.routine.signature.name
      (describeResult m.stack frame.routine.signature frame.base)) frames final journal
    refine ⟨later, ?_⟩
    cases moved : (do
        releaseArguments frame.base frame.routine.signature.argumentSlots
        StackM.moveDown (frame.base + frame.routine.signature.argumentWords) frame.base
          frame.routine.signature.returnWords
        StackM.setOffset (frame.base + frame.routine.signature.returnWords) : StackM (Object H) Unit) final with
    | error fault last =>
      rw [bind_ok (onStack_ok checked), bind_ok noted, bind_error (onStack_error moved),
        bind_error ((bind_ok checked).trans moved)]
      rfl
    | ok value last =>
      rw [bind_ok (onStack_ok checked), bind_ok noted, bind_ok (onStack_ok moved),
        bind_ok ((bind_ok checked).trans moved)]
      rfl

/-- An instruction does to the machine what its effect does to the stack and the frames; whatever else it does
concerns the journal. -/
theorem perform_eq (link : Linkage H) (frame : Frame H) (instruction : Instruction) (frames : Frames H)
    (stack : OperandStack (Object H)) (journal : Journal) :
    ∃ later, perform link frame instruction ⟨frames, stack, journal⟩ =
      absorb frames later (effect link frame instruction stack) := by
  cases instruction with
  | constant ty position => exact ⟨journal, absorb_keeping _ frames stack journal⟩
  | add ty => exact ⟨journal, absorb_keeping _ frames stack journal⟩
  | pop ty => exact ⟨journal, absorb_keeping _ frames stack journal⟩
  | setLocal ty offset => exact ⟨journal, absorb_keeping _ frames stack journal⟩
  | getLocal ty offset => exact ⟨journal, absorb_keeping _ frames stack journal⟩
  | call position =>
    unfold perform effect
    dsimp only
    cases frame.routine.chunk.constants.readRoutine position with
    | ok callee => exact enter_eq callee frames stack journal
    | error error => exact ⟨journal, rfl⟩
  | externalCall position =>
    unfold perform effect
    dsimp only
    cases frame.routine.chunk.constants.readExternal link position with
    | ok external => exact callExternal_eq external frames stack journal
    | error error => exact ⟨journal, rfl⟩
  | ret => exact leave_eq frame frames stack journal

end Machine

namespace Progress

variable {H : Type}

/-- Where a run stands after an effect on the stack. -/
def after (frames : Frames H) (journal : Journal) :
    EStateM.Result Fault (OperandStack (Object H)) (FrameChange H) → Progress H
  | .ok change stack =>
    match change.onFrames? frames with
    | some frames =>
      match change.flow frames with
      | .proceed => .running ⟨frames, stack, journal⟩
      | .halt => .halted ⟨frames, stack, journal⟩
    | none => .faulted (.callStackOverflow frames.limit) ⟨frames, stack, journal⟩
  | .error fault stack => .faulted fault ⟨frames, stack, journal⟩

/-- How a tick ends, by what the instruction at `ip` has left. -/
def ofResult (ip : Nat) : EStateM.Result Fault (Machine H) Flow → Progress H
  | .ok .proceed m => .running m
  | .ok .halt m => .halted m
  | .error fault m => .faulted fault (Machine.report ip fault m)

end Progress

namespace Machine

variable {H : Type}

theorem report_eq (ip : Nat) (fault : Fault) (frames : Frames H) (stack : OperandStack (Object H))
    (journal : Journal) : ∃ later, report ip fault ⟨frames, stack, journal⟩ = ⟨frames, stack, later⟩ := by
  unfold report
  split
  · exact ⟨_, rfl⟩
  · exact ⟨_, rfl⟩

/-- A tick fetches an instruction of the current frame, moves the frame on and carries the effect out. -/
theorem tick_of_fetch (link : Linkage H) {frame : Frame H} (below : List (Frame H)) (limit : Nat)
    (stack : OperandStack (Object H)) (journal : Journal) {instruction : Instruction}
    (fetched : frame.routine.chunk.fetch frame.ip = .ok instruction) :
    tick link ⟨⟨frame :: below, limit⟩, stack, journal⟩ = .ofResult frame.ip
      (dispatch link frame.advanced frame.ip instruction ⟨⟨frame.advanced :: below, limit⟩, stack, journal⟩) := by
  simp only [tick, fetched]
  rfl

theorem tick_eq (link : Linkage H) {frame : Frame H} (below : List (Frame H)) (limit : Nat)
    (stack : OperandStack (Object H)) (journal : Journal) {instruction : Instruction}
    (fetched : frame.routine.chunk.fetch frame.ip = .ok instruction) :
    ∃ later, tick link ⟨⟨frame :: below, limit⟩, stack, journal⟩ =
      .after ⟨frame.advanced :: below, limit⟩ later (effect link frame.advanced instruction stack) := by
  obtain ⟨noted, noting⟩ := note_eq .trace
    (fun _ : Machine H => .dispatched frame.routine.signature.name frame.ip instruction)
    ⟨frame.advanced :: below, limit⟩ stack journal
  obtain ⟨later, performed⟩ :=
    perform_eq link frame.advanced instruction ⟨frame.advanced :: below, limit⟩ stack noted
  have dispatched : dispatch link frame.advanced frame.ip instruction
      ⟨⟨frame.advanced :: below, limit⟩, stack, journal⟩ =
        absorb ⟨frame.advanced :: below, limit⟩ later (effect link frame.advanced instruction stack) :=
    (bind_ok noting).trans performed
  rw [tick_of_fetch link below limit stack journal fetched, dispatched]
  cases effect link frame.advanced instruction stack with
  | error fault final =>
    obtain ⟨last, reported⟩ := report_eq frame.ip fault ⟨frame.advanced :: below, limit⟩ final later
    exact ⟨last, congrArg (Progress.faulted fault) reported⟩
  | ok change final =>
    simp only [absorb, Progress.ofResult, Progress.after]
    cases change.onFrames? ⟨frame.advanced :: below, limit⟩ with
    | none =>
      obtain ⟨last, reported⟩ :=
        report_eq frame.ip (.callStackOverflow limit) ⟨frame.advanced :: below, limit⟩ final later
      exact ⟨last, congrArg (Progress.faulted _) reported⟩
    | some frames =>
      refine ⟨later, ?_⟩
      dsimp only
      cases change.flow frames <;> rfl

/-- Where there is no instruction that can be decoded, a tick fails and leaves the stack alone. -/
theorem tick_fetch_error (link : Linkage H) {frame : Frame H} (below : List (Frame H)) (limit : Nat)
    (stack : OperandStack (Object H)) (journal : Journal) {error : ProgramError}
    (fetched : frame.routine.chunk.fetch frame.ip = .error error) :
    ∃ later, tick link ⟨⟨frame :: below, limit⟩, stack, journal⟩ =
      .faulted error ⟨⟨frame.advanced :: below, limit⟩, stack, later⟩ := by
  obtain ⟨later, reported⟩ := report_eq frame.ip error ⟨frame.advanced :: below, limit⟩ stack journal
  refine ⟨later, ?_⟩
  rw [← reported]
  simp only [tick, fetched]
  rfl

theorem run_of_running {link : Linkage H} {m next : Machine H} (ticked : tick link m = .running next) :
    run link m = run link next := by
  rw [run]
  split
  · rename_i later other
    rw [ticked] at other
    cases other
    rfl
  · rename_i final other
    rw [ticked] at other
    cases other
  · rename_i fault final other
    rw [ticked] at other
    cases other

theorem run_of_halted {link : Linkage H} {m final : Machine H} (ticked : tick link m = .halted final) :
    run link m = .ok () final := by
  rw [run]
  split
  · rename_i later other
    rw [ticked] at other
    cases other
  · rename_i last other
    rw [ticked] at other
    cases other
    rfl
  · rename_i fault last other
    rw [ticked] at other
    cases other

theorem run_of_faulted {link : Linkage H} {m final : Machine H} {fault : Fault}
    (ticked : tick link m = .faulted fault final) : run link m = .error fault final := by
  rw [run]
  split
  · rename_i later other
    rw [ticked] at other
    cases other
  · rename_i last other
    rw [ticked] at other
    cases other
  · rename_i other last same
    rw [ticked] at same
    cases same
    rfl

/-- What holds of a machine as soon as it holds of the next one in the run holds of every machine: each instruction
takes something off the work left. -/
theorem run_induction (link : Linkage H) {motive : Machine H → Prop}
    (step : ∀ m, (∀ next, tick link m = .running next → motive next) → motive m) (m : Machine H) : motive m :=
  step m fun next _ticked => run_induction link step next
termination_by m.frames.work
decreasing_by exact work_tick _ticked

end Machine

end WordMachine
