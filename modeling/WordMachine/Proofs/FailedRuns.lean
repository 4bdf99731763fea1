import WordMachine.Proofs.ArgumentLayout

namespace WordMachine

theorem bind_eq_error {ε σ α β : Type} {step : EStateM ε σ α} {next : α → EStateM ε σ β} {s final : σ} {e : ε}
    (run : (step >>= next) s = .error e final) :
    step s = .error e final ∨ ∃ a middle, step s = .ok a middle ∧ next a middle = .error e final := by
  cases first : step s with
  | error other last =>
    rw [Machine.bind_error first] at run
    cases run
    exact .inl rfl
  | ok a middle =>
    rw [Machine.bind_ok first] at run
    exact .inr ⟨a, middle, rfl, run⟩

namespace Machine

variable {H : Type} {link : Linkage H}

theorem frames_absorb_error {frames : Frames H} {journal : Journal} {fault : Fault} {final : Machine H}
    {outcome : EStateM.Result Fault (OperandStack (Object H)) (FrameChange H)}
    (failed : absorb frames journal outcome = .error fault final) : final.frames = frames := by
  cases outcome with
  | error other stack =>
    cases failed
    rfl
  | ok change stack =>
    simp only [absorb] at failed
    split at failed
    · cases failed
    · cases failed
      rfl

/-- An instruction that fails has left the frames alone: a call pushes its frame, and a return removes its own, only
when nothing can fail any more. -/
theorem frames_perform_error {frame : Frame H} {instruction : Instruction} {m final : Machine H} {fault : Fault}
    (failed : perform link frame instruction m = .error fault final) : final.frames = m.frames := by
  obtain ⟨frames, stack, journal⟩ := m
  obtain ⟨later, absorbed⟩ := perform_eq link frame instruction frames stack journal
  rw [absorbed] at failed
  exact frames_absorb_error failed

theorem frames_dispatch_error {frame : Frame H} {ip : Nat} {instruction : Instruction} {m final : Machine H}
    {fault : Fault} (failed : dispatch link frame ip instruction m = .error fault final) :
    final.frames = m.frames := by
  rcases bind_eq_error failed with unnoted | ⟨_, noted, noting, performed⟩
  · unfold note at unnoted
    split at unnoted <;> cases unnoted
  · exact (frames_perform_error performed).trans (frames_note noting)

/-- How the instruction that a frame has come to fails on a machine where the frame was moved on: there is none that can
be decoded, or it is carried out up to the point of failure. The last machine is the one that is reported on. -/
inductive FailsAt (link : Linkage H) (frame : Frame H) (m : Machine H) : Fault → Machine H → Prop
  | fetching {error : ProgramError} (missing : frame.routine.chunk.fetch frame.ip = .error error) :
      FailsAt link frame m error m
  | dispatching {instruction : Instruction} {fault : Fault} {reported : Machine H}
      (fetched : frame.routine.chunk.fetch frame.ip = .ok instruction)
      (failed : dispatch link frame.advanced frame.ip instruction m = .error fault reported) :
      FailsAt link frame m fault reported

theorem FailsAt.frames_eq {frame : Frame H} {m reported : Machine H} {fault : Fault}
    (fails : FailsAt link frame m fault reported) : reported.frames = m.frames := by
  cases fails with
  | fetching missing => rfl
  | dispatching fetched failed => exact frames_dispatch_error failed

/-- The machine with its current frame moved on and the given ones below it. -/
def movedOn (m : Machine H) (frame : Frame H) (below : List (Frame H)) : Machine H :=
  { m with frames := ⟨frame.advanced :: below, m.frames.limit⟩ }

/-- A tick fails only because of the instruction that it fetched, or failed to. -/
theorem tick_eq_faulted {m final : Machine H} {fault : Fault} (ticked : tick link m = .faulted fault final) :
    ∃ frame below reported, m.frames.active = frame :: below ∧
      FailsAt link frame (m.movedOn frame below) fault reported ∧ final = report frame.ip fault reported := by
  obtain ⟨⟨active, limit⟩, stack, journal⟩ := m
  cases active with
  | nil => cases ticked
  | cons frame below =>
    refine ⟨frame, below, ?_⟩
    simp only [tick] at ticked
    split at ticked
    · rename_i error missing
      cases ticked
      exact ⟨_, rfl, .fetching missing, rfl⟩
    · rename_i instruction fetched
      split at ticked
      · cases ticked
      · cases ticked
      · rename_i other reported failed
        cases ticked
        exact ⟨reported, rfl, .dispatching fetched failed, rfl⟩

/-- A run that fails ends with a tick that fails. -/
theorem faults_of_run {m final : Machine H} {fault : Fault} (ran : run link m = .error fault final) :
    ∃ last, During link 0 m last ∧ tick link last = .faulted fault final := by
  induction m using run_induction link with
  | step m ih =>
    cases ticked : tick link m with
    | running next =>
      rw [run_of_running ticked] at ran
      obtain ⟨last, during, faulted⟩ := ih next ticked ran
      exact ⟨last, during.after_tick ticked (depth_pos_of_running ticked), faulted⟩
    | halted last =>
      rw [run_of_halted ticked] at ran
      cases ran
    | faulted other last =>
      rw [run_of_faulted ticked] at ran
      cases ran
      exact ⟨m, .start, ticked⟩

theorem report_of_current {m : Machine H} {frame : Frame H} {below : List (Frame H)} (ip : Nat) (fault : Fault)
    (current : m.frames.active = frame :: below) :
    report ip fault m =
      { m with
        journal := m.journal.add
          (.failed fault frame.routine.signature.name ip (frame.routine.chunk.lineFor ip)) } := by
  unfold report Frames.current?
  rw [current]
  rfl

/-- Failures are put down to the instruction that failed. The last instruction that a failing run came to is one of the
current frame. When its failure is reported, and at the end, this frame stands one past it, the frames below are as they
were when it was fetched, and what is written down is its routine, its index and its line. -/
theorem faults_attributed {m final : Machine H} {fault : Fault} (ran : run link m = .error fault final) :
    ∃ last frame below reported, During link 0 m last ∧ tick link last = .faulted fault final ∧
      last.frames.active = frame :: below ∧ FailsAt link frame (last.movedOn frame below) fault reported ∧
      final = report frame.ip fault reported ∧
      reported.frames = ⟨{ frame with ip := frame.ip + 1 } :: below, last.frames.limit⟩ ∧
      final.frames = reported.frames ∧ final.stack = reported.stack ∧
      final.journal = reported.journal.add
        (.failed fault frame.routine.signature.name frame.ip (frame.routine.chunk.lineFor frame.ip)) := by
  obtain ⟨last, during, ticked⟩ := faults_of_run ran
  obtain ⟨frame, below, reported, current, fails, rfl⟩ := tick_eq_faulted ticked
  have frames_eq : reported.frames = ⟨frame.advanced :: below, last.frames.limit⟩ := fails.frames_eq
  have top : reported.frames.active = frame.advanced :: below := by rw [frames_eq]
  refine ⟨last, frame, below, reported, during, ticked, current, fails, rfl, frames_eq, ?_⟩
  rw [report_of_current frame.ip fault top]
  exact ⟨rfl, rfl, rfl⟩

end Machine

/-- A run that fails within so many instructions fails, if its fault is not the one that giving up is told by. -/
theorem Machine.exists_failure_of_runWithin {H : Type} {link : Linkage H} {fuel : Nat} {m : Machine H} {fault : Fault}
    (meant : fault ≠ .stackOverflow) {check : Machine H → Bool}
    (fails : (match runWithin link fuel m with
      | .ok _ _ => false
      | .error found final => decide (found = fault) && check final) = true) :
    ∃ final, run link m = .error fault final ∧ check final = true := by
  induction fuel generalizing m with
  | zero =>
    obtain ⟨same, _⟩ := Bool.and_eq_true_iff.mp fails
    exact absurd (of_decide_eq_true same).symm meant
  | succ fuel ih =>
    unfold runWithin at fails
    cases ticked : tick link m with
    | running next =>
      rw [ticked] at fails
      rw [run_of_running ticked]
      exact ih fails
    | halted last =>
      rw [ticked] at fails
      cases fails
    | faulted found last =>
      rw [ticked] at fails
      rw [run_of_faulted ticked]
      obtain ⟨same, checked⟩ := Bool.and_eq_true_iff.mp fails
      exact ⟨last, by rw [of_decide_eq_true same], checked⟩

namespace Misreturn

/-- Returns at once, and takes two objects. -/
def inner : Routine (Object Unit) where
  signature := ⟨"Inner", none, [⟨"a", .object⟩, ⟨"b", .object⟩]⟩
  chunk := { Chunk.of [.ret] ⟨#[], #[], #[]⟩ with lines := ⟨#[(0, 7)], some 0⟩ }

/-- Calls the other routine with an integer for the second object. -/
def outer : Routine (Object Unit) where
  signature := ⟨"Outer", none, []⟩
  chunk :=
    Chunk.of [.constant .object 0, .constant (.scalar .int) 8, .call 0, .ret]
      ⟨#[1, 0, 0, 0, 0, 0, 0, 0, 5, 0, 0, 0], #[.routine inner], #[0]⟩

def start : Machine Unit := ⟨⟨[⟨outer, 0, 0⟩], 4⟩, .fresh 8, .keeping (some .debug)⟩

/-- The return of the inner routine has failed, after it had released its first argument. -/
def failed (m : Machine Unit) : Bool :=
  m.frames.active.map (fun frame => (frame.routine.signature.name, frame.ip)) = [("Inner", 1), ("Outer", 3)] &&
    m.stack.liveHandles = 0 &&
    m.journal.events.back? = some (.failed (.typeMismatch .object (some (.scalar .int))) "Inner" 0 (some 7))

end Misreturn

namespace Machine

theorem faults_attributed_of_misreturn :
    ∃ (last reported final : Machine Unit) (frame : Frame Unit) (below : List (Frame Unit)),
      run Adapters.none.table.link Misreturn.start = .error (.typeMismatch .object (some (.scalar .int))) final ∧
      Misreturn.failed final ∧ last.frames.active = frame :: below ∧
      reported.frames = ⟨{ frame with ip := frame.ip + 1 } :: below, last.frames.limit⟩ ∧
      final.frames = reported.frames ∧
      final.journal = reported.journal.add (.failed (.typeMismatch .object (some (.scalar .int)))
        frame.routine.signature.name frame.ip (frame.routine.chunk.lineFor frame.ip)) := by
  obtain ⟨final, ran, failed⟩ := @exists_failure_of_runWithin Unit Adapters.none.table.link 5 Misreturn.start
    (.typeMismatch .object (some (.scalar .int))) nofun Misreturn.failed (by decide +kernel)
  obtain ⟨last, frame, below, reported, _, _, current, _, _, frames_eq, same, _, logged⟩ := faults_attributed ran
  exact ⟨last, reported, final, frame, below, ran, failed, current, frames_eq, same, logged⟩

variable {H : Type} {link : Linkage H}

theorem frames_onStack_error {α : Type} {step : StackM (Object H) α} {m final : Machine H} {fault : Fault}
    (failed : onStack step m = .error fault final) : final.frames = m.frames := by
  obtain ⟨frames, stack, journal⟩ := m
  unfold onStack at failed
  dsimp only at failed
  split at failed
  · cases failed
  · cases failed
    rfl

theorem clearingFrames_of_error {α : Type} {step : MachineM H α} {m last : Machine H} {fault : Fault}
    (failed : step m = .error fault last) :
    clearingFrames step m = .error fault { last with frames := last.frames.clear } := by
  unfold clearingFrames
  rw [failed]

theorem frames_clearingFrames_error {α : Type} {step : MachineM H α} {m final : Machine H} {fault : Fault}
    (failed : clearingFrames step m = .error fault final) : final.frames.active = [] := by
  unfold clearingFrames at failed
  split at failed
  · cases failed
  · cases failed
    rfl

/-- Arguments with which an execution gets as far as the call: there is room for them, and they take as many words as
the signature declares. -/
def Admits (m : Machine H) (routine : Routine (Object H)) (arguments : List (Argument (Object H))) : Prop :=
  totalWords (arguments.map Argument.ty) ≤ m.stack.capacity - m.stack.offset ∧
    totalWords (arguments.map Argument.ty) = routine.signature.argumentWords

/-- What comes after the check of the arguments leaves no frame if it fails: the call and the run drop the frames, and
the run of what is checked later has used them up. -/
theorem frames_of_admitted_error {routine : Routine (Object H)} {result : Option Ty} {start : Nat}
    {m final : Machine H} {fault : Fault}
    (failed : (do
      clearingFrames do
        enter routine
        run link
      onStack (checkLeft routine.signature start)
      onStack (StackM.popResult result) : MachineM H (Result (Object H) result)) m = .error fault final) :
    final.frames.active = [] := by
  rcases bind_eq_error failed with dropped | ⟨_, ended, running, failed⟩
  · exact frames_clearingFrames_error dropped
  · obtain ⟨_, entered, _, ran⟩ := bind_eq_ok (clearingFrames_eq_ok.mp running)
    have none_left := (returns_of_run ran).2
    rcases bind_eq_error failed with unchecked | ⟨_, checked, checking, unpopped⟩
    · rw [frames_onStack_error unchecked]
      exact none_left
    · rw [frames_onStack_error unpopped, frames_onStack checking]
      exact none_left

/-- An execution that fails after it has admitted its arguments leaves no frame; one that refuses them leaves the frames
as they were. -/
theorem frames_of_failed_execution {routine : Routine (Object H)} {arguments : List (Argument (Object H))}
    {result : Option Ty} {m final : Machine H} {fault : Fault}
    (failed : execute link routine arguments result m = .error fault final) :
    m.Admits routine arguments ∧ final.frames.active = [] ∨
      ¬ m.Admits routine arguments ∧ final.frames = m.frames := by
  obtain ⟨frames, stack, journal⟩ := m
  have counted : onStack StackM.offset (⟨frames, stack, journal⟩ : Machine H) =
      .ok stack.offset ⟨frames, stack, journal⟩ := rfl
  unfold execute at failed
  rw [bind_ok counted] at failed
  rcases bind_eq_error failed with full | ⟨_, pushed, pushing, failed⟩
  · refine .inr ⟨fun admits => ?_, frames_onStack_error full⟩
    obtain ⟨next, pushing⟩ := StackM.pushAll_succeeds_iff.mpr admits.1
    rw [onStack_ok pushing] at full
    cases full
  · obtain ⟨stacked, same⟩ := onStack_eq_ok pushing
    have raised := StackM.offset_pushAll stacked
    have little := StackM.pushAll_succeeds_iff.mp ⟨_, stacked⟩
    rcases bind_eq_error failed with miscounted | ⟨_, checked, checking, failed⟩
    · refine .inr ⟨fun admits => ?_, (frames_onStack_error miscounted).trans same⟩
      have passed : checkPushed routine.signature stack.offset pushed.stack = .ok () pushed.stack :=
        if_pos (by rw [raised, Nat.add_sub_cancel_left]; exact admits.2)
      rw [onStack_ok passed] at miscounted
      cases miscounted
    · have count := (checkPushed_eq_ok (onStack_eq_ok checking).1).2
      rw [raised, Nat.add_sub_cancel_left] at count
      exact .inl ⟨⟨little, count⟩, frames_of_admitted_error failed⟩

/-- After an execution that failed there are no frames if and only if there were none before or it had admitted its
arguments. One that refuses them, for lack of room or because of their number, leaves the frames that it found. -/
theorem failed_execution_clears_iff {routine : Routine (Object H)} {arguments : List (Argument (Object H))}
    {result : Option Ty} {m final : Machine H} {fault : Fault}
    (failed : execute link routine arguments result m = .error fault final) :
    (final.frames.active = [] ↔ m.frames.active = [] ∨ m.Admits routine arguments) ∧
      (¬ m.Admits routine arguments → final.frames = m.frames) := by
  rcases frames_of_failed_execution failed with ⟨admits, cleared⟩ | ⟨refuses, kept⟩
  · exact ⟨⟨fun _ => .inr admits, fun _ => cleared⟩, fun refuses => absurd admits refuses⟩
  · refine ⟨?_, fun _ => kept⟩
    rw [kept]
    exact ⟨.inl, fun empty => empty.resolve_right refuses⟩

end Machine

namespace Leftover

/-- A routine without instructions, so that every run of it fails. -/
def stuck : Routine (Object Unit) := ⟨⟨"Stuck", none, []⟩, Chunk.of [] ⟨#[], #[], #[]⟩⟩

/-- What a failed run of the routine has left, frame included. -/
def left : Machine Unit := ⟨⟨[⟨stuck, 1, 0⟩], 4⟩, .fresh 8, .silent⟩

/-- Too many arguments are refused, and the frame that a failed run has left stays. -/
theorem refused_execution_keeps_frame :
    Machine.run Adapters.none.table.link ⟨⟨[⟨stuck, 0, 0⟩], 4⟩, .fresh 8, .silent⟩ =
        .error (.program (.indexOutOfRange 0 0)) left ∧
      ∃ final,
        Machine.execute Adapters.none.table.link stuck [⟨.scalar .int, (1 : Int32)⟩] none left =
            .error (.argumentCountMismatch 0 1) final ∧
          final.frames.active ≠ [] :=
  ⟨Machine.run_of_faulted rfl, _, rfl, nofun⟩

theorem execute_stuck :
    Machine.execute Adapters.none.table.link stuck [] none left =
      .error (.program (.indexOutOfRange 0 0)) ⟨⟨[], 4⟩, .fresh 8, .silent⟩ := by
  let entered : Machine Unit := ⟨⟨[⟨stuck, 0, 0⟩, ⟨stuck, 1, 0⟩], 4⟩, .fresh 8, .silent⟩
  let ended : Machine Unit := ⟨⟨[⟨stuck, 1, 0⟩, ⟨stuck, 1, 0⟩], 4⟩, .fresh 8, .silent⟩
  have entering : Machine.enter stuck left = .ok () entered := rfl
  have ran : Machine.run Adapters.none.table.link entered = .error (.program (.indexOutOfRange 0 0)) ended :=
    Machine.run_of_faulted rfl
  have failed : (do Machine.enter stuck; Machine.run Adapters.none.table.link : MachineM Unit Unit) left =
      .error (.program (.indexOutOfRange 0 0)) ended :=
    (Machine.bind_ok entering).trans ran
  have cleared := Machine.clearingFrames_of_error failed
  have counted : Machine.onStack StackM.offset left = .ok 0 left := rfl
  have pushed : Machine.onStack (StackM.pushAll []) left = .ok () left := rfl
  have checked : Machine.onStack (Machine.checkPushed stuck.signature 0) left = .ok () left := rfl
  exact (Machine.bind_ok counted).trans
    ((Machine.bind_ok pushed).trans ((Machine.bind_ok checked).trans (Machine.bind_error cleared)))

end Leftover

namespace Machine

theorem failed_execution_clears_of_leftover : ∃ final,
    execute Adapters.none.table.link Leftover.stuck [] none Leftover.left =
        .error (.program (.indexOutOfRange 0 0)) final ∧ final.frames.active = [] := by
  have admits : Leftover.left.Admits Leftover.stuck [] := ⟨Nat.zero_le _, rfl⟩
  exact ⟨_, Leftover.execute_stuck, (failed_execution_clears_iff Leftover.execute_stuck).1.mpr (.inr admits)⟩

end Machine

end WordMachine
