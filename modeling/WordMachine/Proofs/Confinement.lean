import WordMachine.Proofs.Driven

namespace WordMachine

/-- A script of operations inside the bounds does not notice what lies behind the end of the stack. -/
theorem Script.run_followedBy {ω α : Type} {script : Script ω α} {stack : OperandStack ω}
    (inBounds : ∀ entry ∈ script.trace stack, entry.1.InBounds entry.2) (beyond : Beyond) :
    script.run (stack.followedBy beyond) = onState (·.followedBy beyond) (script.run stack) := by
  induction script generalizing stack with
  | done value => rfl
  | fail fault => rfl
  | act access next ih =>
    simp only [trace, List.forall_mem_cons] at inBounds
    simp only [run, inBounds.1.perform_followedBy beyond]
    cases performed : access.perform stack with
    | ok reply final =>
      rw [performed] at inBounds
      exact ih (.ok reply) inBounds.2
    | error fault final =>
      rw [performed] at inBounds
      exact ih (.error fault) inBounds.2

namespace Machine

variable {H : Type}

/-- The same machine with a stack that does not end where its memory does. -/
def followedBy (m : Machine H) (beyond : Beyond) : Machine H :=
  { m with stack := m.stack.followedBy beyond }

/-- Steps that do not notice what lies behind the end of the stack, and leave it as it is. -/
def StaysInside {α : Type} (step : MachineM H α) : Prop :=
  ∀ (m : Machine H) (capacity limit : Nat), m.Sound capacity limit → ∀ beyond : Beyond,
    step (m.followedBy beyond) = onState (·.followedBy beyond) (step m)

theorem bind_followedBy {α β : Type} {step : MachineM H α} {next : α → MachineM H β} {m : Machine H} {beyond : Beyond}
    (first : step (m.followedBy beyond) = onState (·.followedBy beyond) (step m))
    (rest : ∀ value final, step m = .ok value final →
      next value (final.followedBy beyond) = onState (·.followedBy beyond) (next value final)) :
    (step >>= next) (m.followedBy beyond) = onState (·.followedBy beyond) ((step >>= next) m) := by
  cases ran : step m with
  | ok value final =>
    rw [ran] at first
    rw [bind_ok ran, bind_ok first]
    exact rest value final ran
  | error fault final =>
    rw [ran] at first
    rw [bind_error ran, bind_error first]
    rfl

theorem StaysInside.bind {α β : Type} {step : MachineM H α} {next : α → MachineM H β} (first : StaysInside step)
    (keeps : KeepsSound step) (rest : ∀ value, StaysInside (next value)) : StaysInside (step >>= next) := by
  intro m capacity limit sound beyond
  refine bind_followedBy (first m capacity limit sound beyond) fun value final ran => ?_
  have kept := keeps m capacity limit sound
  rw [ran] at kept
  exact rest value final capacity limit kept beyond

theorem staysInside_pure {α : Type} (value : α) : StaysInside (pure value : MachineM H α) :=
  fun _ _ _ _ _ => rfl

theorem staysInside_throw {α : Type} (fault : Fault) : StaysInside (throw fault : MachineM H α) :=
  fun _ _ _ _ _ => rfl

theorem onStack_followedBy {α : Type} {step : StackM (Object H) α} {stack : OperandStack (Object H)} {beyond : Beyond}
    (same : step (stack.followedBy beyond) = onState (·.followedBy beyond) (step stack)) (frames : Frames H)
    (journal : Journal) :
    onStack step (Machine.followedBy ⟨frames, stack, journal⟩ beyond) =
      onState (·.followedBy beyond) (onStack step ⟨frames, stack, journal⟩) := by
  cases ran : step stack with
  | ok value final =>
    rw [ran] at same
    rw [onStack_ok ran]
    exact onStack_ok same
  | error fault final =>
    rw [ran] at same
    rw [onStack_error ran]
    exact onStack_error same

theorem staysInside_script {α : Type} {script : Script (Object H) α} (checked : script.Checked) :
    StaysInside (onStack script.run) := by
  rintro ⟨frames, stack, journal⟩ capacity limit sound beyond
  exact onStack_followedBy
    (Script.run_followedBy (Script.meets_iff.mp (Script.meets_of_checked checked sound.stack)).1 beyond) frames journal

theorem staysInside_note {level : Level} {event : Machine H → Event}
    (same : ∀ (m : Machine H) (beyond : Beyond), m.stack.Sound → event (m.followedBy beyond) = event m) :
    StaysInside (note level event) := by
  intro m capacity limit sound beyond
  unfold note
  by_cases kept : m.journal.keeps level
  · rw [if_pos kept, if_pos (by exact kept), same m beyond sound.stack]
    rfl
  · rw [if_neg kept, if_neg (by exact kept)]
    rfl

theorem keepsSound_note (level : Level) (event : Machine H → Event) : KeepsSound (note level event) := by
  rintro ⟨frames, stack, journal⟩ capacity limit sound
  obtain ⟨later, noted⟩ := note_eq level event frames stack journal
  rw [noted]
  exact sound.of_stays (.refl sound.stack)

theorem staysInside_slotBelow (words : Nat) : StaysInside (slotBelow words : MachineM H Nat) := by
  intro m capacity limit sound beyond
  unfold slotBelow
  by_cases short : m.stack.offset < words
  · rw [if_pos short, if_pos (by exact short)]
    rfl
  · rw [if_neg short, if_neg (by exact short)]
    rfl

theorem keepsSound_slotBelow (words : Nat) : KeepsSound (slotBelow words : MachineM H Nat) := by
  intro m capacity limit sound
  unfold slotBelow
  split <;> exact sound

theorem staysInside_pushFrame (frame : Frame H) : StaysInside (pushFrame frame) := by
  intro m capacity limit sound beyond
  simp only [pushFrame, followedBy]
  cases m.frames.push? frame <;> rfl

theorem staysInside_enter (routine : Routine (Object H)) : StaysInside (enter routine) := by
  refine (staysInside_slotBelow _).bind (keepsSound_slotBelow _) fun base =>
    (staysInside_note fun m beyond sound => ?_).bind (keepsSound_note _ _) fun _ => staysInside_pushFrame _
  simp only [followedBy, OperandStack.describe_followedBy sound]

theorem staysInside_leave (frame : Frame H) : StaysInside (leave frame) := by
  rintro ⟨frames, stack, journal⟩ capacity limit sound beyond
  have checking := staysInside_script (Script.checked_checkReturn frame.routine.signature frame.base)
    ⟨frames, stack, journal⟩ capacity limit sound beyond
  rw [Script.run_checkReturn] at checking
  refine bind_followedBy checking fun _ final passed => ?_
  cases returned : checkReturn frame.routine.signature frame.base stack with
  | error fault last =>
    rw [onStack_error returned] at passed
    cases passed
  | ok _ last =>
    rw [onStack_ok returned] at passed
    cases passed
    -- the frame holds exactly its arguments and its result, so what is moved is alive
    obtain ⟨rfl, full⟩ := checkReturn_eq_ok returned
    refine bind_followedBy (staysInside_note (fun m beyond sound => ?_) _ capacity limit sound beyond)
      fun _ noted noting => ?_
    · simp only [describeResult, followedBy, OperandStack.describe_followedBy sound]
    · obtain ⟨later, same⟩ := note_eq .debug
        (fun m => .exited frame.routine.signature.name (describeResult m.stack frame.routine.signature frame.base))
        frames last journal
      rw [same] at noting
      cases noting
      refine bind_followedBy (onStack_followedBy ?_ frames later) fun _ _ _ => rfl
      rw [← Script.run_unwind]
      exact Script.run_followedBy (Script.meets_iff.mp (Script.meets_unwind sound.stack full)).1 beyond

theorem staysInside_callExternal (code : HostCode (Object H)) : StaysInside (callExternal code.external) := by
  rw [callExternal_own]
  refine (staysInside_slotBelow _).bind (keepsSound_slotBelow _) fun base =>
    (staysInside_note fun _ _ _ => rfl).bind (keepsSound_note _ _) fun _ =>
      (staysInside_script code.isPublic.checked).bind (keepsSound_script code.isPublic.checked) fun _ => ?_
  rw [← Script.run_checkExternal]
  exact staysInside_script (Script.checked_checkExternal code.external base)

theorem keepsSound_callExternal (code : HostCode (Object H)) : KeepsSound (callExternal code.external) := by
  rw [callExternal_own]
  refine (keepsSound_slotBelow _).bind fun base => (keepsSound_note _ _).bind fun _ =>
    (keepsSound_script code.isPublic.checked).bind fun _ => ?_
  rw [← Script.run_checkExternal]
  exact keepsSound_script (Script.checked_checkExternal code.external base)

theorem StaysInside.andProceed {step : MachineM H Unit} (stays : StaysInside step) (keeps : KeepsSound step) :
    StaysInside (andProceed step) :=
  stays.bind keeps fun _ => staysInside_pure Flow.proceed

theorem staysInside_instruction {script : Script (Object H) Unit} (checked : script.Checked) :
    StaysInside (andProceed (onStack script.run)) :=
  (staysInside_script checked).andProceed (keepsSound_script checked)

theorem staysInside_perform (table : HostTable H) (frame : Frame H) (instruction : Instruction) :
    StaysInside (perform table.link frame instruction) := by
  cases instruction with
  | constant ty position =>
    simp only [perform]
    rw [← Script.run_pushConstant]
    exact staysInside_instruction (Script.checked_pushConstant _ ty position)
  | add ty =>
    simp only [perform]
    rw [← Script.run_addTop]
    exact staysInside_instruction (Script.checked_addTop ty)
  | pop ty =>
    simp only [perform]
    rw [← Script.run_discard]
    exact staysInside_instruction ((Script.checked_popOperand ty).bind fun _ => trivial)
  | setLocal ty offset =>
    simp only [perform]
    rw [← Script.run_storeLocal]
    exact staysInside_instruction (Script.checked_storeLocal ty _)
  | getLocal ty offset =>
    simp only [perform]
    rw [← Script.run_loadLocal]
    exact staysInside_instruction (Script.checked_loadLocal ty _)
  | call position =>
    simp only [perform]
    split
    · exact (staysInside_enter _).andProceed (keepsSound_enter _)
    · exact staysInside_throw _
  | externalCall position =>
    simp only [perform, ConstantPool.readExternal_link]
    cases frame.routine.chunk.constants.readCode table position with
    | ok code => exact (staysInside_callExternal code).andProceed (keepsSound_callExternal code)
    | error error => exact staysInside_throw _
  | ret => exact staysInside_leave frame

theorem staysInside_dispatch (table : HostTable H) (frame : Frame H) (ip : Nat) (instruction : Instruction) :
    StaysInside (dispatch table.link frame ip instruction) :=
  (staysInside_note fun _ _ _ => rfl).bind (keepsSound_note _ _) fun _ => staysInside_perform table frame instruction

theorem report_followedBy (ip : Nat) (fault : Fault) (m : Machine H) (beyond : Beyond) :
    report ip fault (m.followedBy beyond) = (report ip fault m).followedBy beyond := by
  simp only [report, followedBy]
  cases m.frames.current? <;> rfl

end Machine

namespace Progress

variable {H : Type}

/-- The same progress of a machine with something behind the end of its stack. -/
def followedBy (beyond : Beyond) : Progress H → Progress H
  | .running m => .running (m.followedBy beyond)
  | .halted m => .halted (m.followedBy beyond)
  | .faulted fault m => .faulted fault (m.followedBy beyond)

theorem ofResult_followedBy (ip : Nat) (outcome : EStateM.Result Fault (Machine H) Flow) (beyond : Beyond) :
    ofResult ip (onState (·.followedBy beyond) outcome) = (ofResult ip outcome).followedBy beyond := by
  cases outcome with
  | ok flow final => cases flow <;> rfl
  | error fault final => exact congrArg (faulted fault) (Machine.report_followedBy ip fault final beyond)

end Progress

namespace Machine

variable {H : Type}

theorem tick_followedBy (table : HostTable H) {m : Machine H} {capacity limit : Nat} (sound : m.Sound capacity limit)
    (beyond : Beyond) : tick table.link (m.followedBy beyond) = (tick table.link m).followedBy beyond := by
  obtain ⟨⟨active, most⟩, stack, journal⟩ := m
  cases active with
  | nil => rfl
  | cons frame below =>
    cases fetched : frame.routine.chunk.fetch frame.ip with
    | error error =>
      have same := report_followedBy frame.ip error ⟨⟨frame.advanced :: below, most⟩, stack, journal⟩ beyond
      simp only [tick, followedBy, fetched]
      exact congrArg (Progress.faulted error) same
    | ok instruction =>
      have same := staysInside_dispatch table frame.advanced frame.ip instruction
        ⟨⟨frame.advanced :: below, most⟩, stack, journal⟩ capacity limit (sound.advanced journal) beyond
      rw [tick_of_fetch table.link below most stack journal fetched]
      refine (tick_of_fetch table.link below most (stack.followedBy beyond) journal fetched).trans ?_
      exact (congrArg (Progress.ofResult frame.ip) same).trans (Progress.ofResult_followedBy ..)

theorem staysInside_run (table : HostTable H) : StaysInside (run table.link) := by
  intro m capacity limit
  induction m using run_induction table.link with
  | step m ih =>
    intro sound beyond
    have ticked := tick_followedBy table sound beyond
    have kept := (sound.tick table).2
    cases progress : tick table.link m with
    | running next =>
      rw [progress] at ticked kept
      rw [run_of_running progress, run_of_running ticked]
      exact ih next progress kept beyond
    | halted final =>
      rw [progress] at ticked
      rw [run_of_halted progress, run_of_halted ticked]
      rfl
    | faulted fault final =>
      rw [progress] at ticked
      rw [run_of_faulted progress, run_of_faulted ticked]
      rfl

theorem StaysInside.clearingFrames {α : Type} {step : MachineM H α} (stays : StaysInside step) :
    StaysInside (clearingFrames step) := by
  intro m capacity limit sound beyond
  have same := stays m capacity limit sound beyond
  unfold Machine.clearingFrames
  cases ran : step m with
  | ok value final =>
    rw [ran] at same
    rw [same]
    rfl
  | error fault final =>
    rw [ran] at same
    rw [same]
    rfl

theorem staysInside_of_offset {α : Type} {step : StackM (Object H) α} (looks : StackM.LooksAtOffset step) :
    StaysInside (onStack step) := by
  obtain ⟨check, checked⟩ := looks
  rintro ⟨frames, stack, journal⟩ capacity limit sound beyond
  refine onStack_followedBy ?_ frames journal
  simp only [checked, OperandStack.followedBy_offset]
  cases check stack.offset <;> rfl

theorem staysInside_execute (table : HostTable H) (routine : Routine (Object H))
    (arguments : List (Argument (Object H))) (result : Option Ty) :
    StaysInside (execute table.link routine arguments result) := by
  have counted : StackM.LooksAtOffset (StackM.offset : StackM (Object H) Nat) := ⟨Except.ok, fun _ => rfl⟩
  have pushed := looksAtOffset_checkPushed (H := H) routine.signature
  have left := looksAtOffset_checkLeft (H := H) routine.signature
  have pushing := Script.checked_pushAll arguments
  have popping : (Script.popResult result : Script (Object H) _).Checked := Script.checked_popResult result
  refine (staysInside_of_offset counted).bind (keepsSound_of_offset counted) fun start => ?_
  rw [← Script.run_pushAll, ← Script.run_popResult]
  refine (staysInside_script pushing).bind (keepsSound_script pushing) fun _ => ?_
  refine (staysInside_of_offset (pushed start)).bind (keepsSound_of_offset (pushed start)) fun _ => ?_
  have running := (keepsSound_enter routine).bind fun _ => keepsSound_run table
  have confined := (staysInside_enter routine).bind (keepsSound_enter routine) fun _ => staysInside_run table
  refine confined.clearingFrames.bind running.clearingFrames fun _ => ?_
  refine (staysInside_of_offset (left start)).bind (keepsSound_of_offset (left start)) fun _ => ?_
  exact staysInside_script popping

end Machine

theorem HostAction.outcome_followedBy {H : Type} (table : HostTable H) (action : HostAction H) {m : Machine H}
    {capacity limit : Nat} (sound : m.Sound capacity limit) (beyond : Beyond) :
    action.outcome table (m.followedBy beyond) = onState (·.followedBy beyond) (action.outcome table m) := by
  cases action with
  | operate operation =>
    exact Machine.staysInside_script (Script.checked_operation operation) m capacity limit sound beyond
  | call routine => exact Machine.staysInside_enter routine m capacity limit sound beyond
  | run => exact Machine.staysInside_run table m capacity limit sound beyond
  | execute routine arguments result =>
    exact Machine.staysInside_execute table routine arguments result m capacity limit sound beyond

namespace Machine

/-- Whatever code a host runs and however it mixes calls, runs and operations of its own: sizes, offset, frames and
frame bases stay inside the bounds, and so does everything that the operations of any further action store or load.
Every further action ends in the same way, with the same reply and the same machine, whatever lies behind the end of the
stack, and leaves that as it is. -/
theorem Driven.inBounds {H : Type} {table : HostTable H} {capacity limit : Nat} {m : Machine H}
    (driven : Driven table capacity limit m) :
    m.Sound capacity limit ∧
      (∀ action access stack, HostAction.Performs table action m access stack → access.InBounds stack) ∧
      ∀ (action : HostAction H) (beyond : Beyond),
        action.outcome table (m.followedBy beyond) = onState (·.followedBy beyond) (action.outcome table m) :=
  ⟨driven.sound, fun _ _ _ performs => performs.confined driven.sound,
    fun action => action.outcome_followedBy table driven.sound⟩

theorem Driven.inBounds_of_push :
    ∃ m : Machine Unit, m.stack.offset = 1 ∧ Driven (fun _ => none) 2 1 m ∧ m.Sound 2 1 ∧
      (∀ action access stack, HostAction.Performs (fun _ => none) action m access stack → access.InBounds stack) ∧
      ∀ (action : HostAction Unit) (beyond : Beyond),
        action.outcome (fun _ => none) (m.followedBy beyond) =
          onState (·.followedBy beyond) (action.outcome (fun _ => none) m) := by
  have created : Driven (fun _ : Unit => none) 2 1 ⟨⟨[], 1⟩, (StackPool.lend (Pool.empty 0) 2 .silent).1, .silent⟩ :=
    .create (fun stored => ⟨⟨[], 1⟩, stored, .silent⟩) (fun _ => 2) (fun _ => 1)
      (fun _ member => (Array.not_mem_empty _ member).elim) fun _ member => (Array.not_mem_empty _ member).elim
  have pushed := created.act (.operate (.push (.scalar .int) (7 : Int32)))
  exact ⟨_, by decide +kernel, pushed, pushed.inBounds⟩

end Machine

end WordMachine
