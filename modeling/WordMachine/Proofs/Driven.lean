import WordMachine.Execution.Execute
import WordMachine.Proofs.Bounds
import WordMachine.Proofs.Storage

namespace WordMachine

/-- The machine that an instruction leaves behind, however it ends. -/
def Progress.machine {H : Type} : Progress H → Machine H
  | .running m => m
  | .halted m => m
  | .faulted _ m => m

/-- A step that looks at nothing but the offset, and changes nothing. -/
def StackM.LooksAtOffset {ω α : Type} (step : StackM ω α) : Prop :=
  ∃ check : Nat → Except Fault α, ∀ stack, step stack = match check stack.offset with
    | .ok value => .ok value stack
    | .error fault => .error fault stack

namespace Machine

variable {H : Type}

/-- A machine whose stack has the given capacity and whose frames are limited as given, all of it inside these
bounds. -/
structure Sound (m : Machine H) (capacity limit : Nat) : Prop where
  stack : m.stack.Sound
  capacity_eq : m.stack.capacity = capacity
  limit_eq : m.frames.limit = limit
  depth_le : m.frames.depth ≤ limit
  within : ∀ frame ∈ m.frames.active, Frame.Within frame capacity

theorem Sound.of_stays {frames : Frames H} {stack final : OperandStack (Object H)} {journal later : Journal}
    {capacity limit : Nat} (sound : Sound ⟨frames, stack, journal⟩ capacity limit)
    (stays : Access.Stays stack final) : Sound ⟨frames, final, later⟩ capacity limit where
  stack := stays.sound
  capacity_eq := stays.capacity.trans sound.capacity_eq
  limit_eq := sound.limit_eq
  depth_le := sound.depth_le
  within := sound.within

/-- A change of the frames that an instruction within the bounds asks for keeps them there. -/
theorem Sound.onFrames? {frames next : Frames H} {stack : OperandStack (Object H)} {journal : Journal}
    {capacity limit : Nat} (sound : Sound ⟨frames, stack, journal⟩ capacity limit) {change : FrameChange H}
    (within : FrameChange.Within change capacity) (changed : change.onFrames? frames = some next) :
    Sound ⟨next, stack, journal⟩ capacity limit := by
  obtain ⟨stackSound, capacity_eq, limit_eq, depth_le, inside⟩ := sound
  cases change with
  | keep =>
    cases changed
    exact ⟨stackSound, capacity_eq, limit_eq, depth_le, inside⟩
  | push frame =>
    simp only [FrameChange.onFrames?, Frames.push?] at changed
    split at changed
    · rename_i room
      cases changed
      refine ⟨stackSound, capacity_eq, limit_eq, ?_, ?_⟩
      · rw [← limit_eq]
        exact room
      · exact List.forall_mem_cons.mpr ⟨within frame rfl, inside⟩
    · cases changed
  | pop =>
    cases changed
    refine ⟨stackSound, capacity_eq, limit_eq, ?_, ?_⟩
    · change frames.active.tail.length ≤ limit
      rw [List.length_tail]
      exact Nat.le_trans (Nat.sub_le ..) depth_le
    · exact fun frame member => inside frame (List.mem_of_mem_tail member)

theorem finalState_absorb (frames : Frames H) (journal : Journal)
    (outcome : EStateM.Result Fault (OperandStack (Object H)) (FrameChange H)) :
    finalState (absorb frames journal outcome) = (Progress.after frames journal outcome).machine := by
  cases outcome with
  | error fault final => rfl
  | ok change final =>
    simp only [absorb, Progress.after]
    cases change.onFrames? frames with
    | none => rfl
    | some next =>
      dsimp only
      cases change.flow next <;> rfl

theorem Sound.after {frames : Frames H} {stack : OperandStack (Object H)} {journal : Journal}
    {capacity limit : Nat} (sound : Sound ⟨frames, stack, journal⟩ capacity limit) (later : Journal)
    {outcome : EStateM.Result Fault (OperandStack (Object H)) (FrameChange H)}
    (stays : Script.StaysWithin stack outcome) :
    (Progress.after frames later outcome).machine.Sound capacity limit := by
  cases outcome with
  | error fault final => exact sound.of_stays stays.stays
  | ok change final =>
    have kept : Sound ⟨frames, final, later⟩ capacity limit := sound.of_stays stays.stays
    have within := stays.within change final rfl
    rw [sound.capacity_eq] at within
    simp only [Progress.after]
    split
    · rename_i next changed
      split <;> exact kept.onFrames? within changed
    · exact kept

/-- The elementary operations of the next instruction, each with the stack that it finds. -/
def tickTrace (table : HostTable H) : Machine H → List (Access (Object H) × OperandStack (Object H))
  | ⟨⟨[], _⟩, _, _⟩ => []
  | ⟨⟨frame :: _, _⟩, stack, _⟩ =>
    match frame.routine.chunk.fetch frame.ip with
    | .ok instruction => (Script.effect table frame.advanced instruction).trace stack
    | .error _ => []

theorem Sound.advanced {frame : Frame H} {below : List (Frame H)} {stack : OperandStack (Object H)}
    {journal : Journal} {capacity limit most : Nat}
    (sound : Sound ⟨⟨frame :: below, most⟩, stack, journal⟩ capacity limit) (later : Journal) :
    Sound ⟨⟨frame.advanced :: below, most⟩, stack, later⟩ capacity limit where
  stack := sound.stack
  capacity_eq := sound.capacity_eq
  limit_eq := sound.limit_eq
  depth_le := sound.depth_le
  within := List.forall_mem_cons.mpr (List.forall_mem_cons.mp sound.within)

/-- One instruction touches only what lies inside the bounds, and leaves them as they are. -/
theorem Sound.tick {m : Machine H} {capacity limit : Nat} (sound : m.Sound capacity limit) (table : HostTable H) :
    (∀ entry ∈ tickTrace table m, entry.1.InBounds entry.2) ∧
      (tick table.link m).machine.Sound capacity limit := by
  obtain ⟨⟨active, most⟩, stack, journal⟩ := m
  cases active with
  | nil => exact ⟨fun entry member => (List.not_mem_nil member).elim, sound⟩
  | cons frame below =>
    cases fetched : frame.routine.chunk.fetch frame.ip with
    | error error =>
      obtain ⟨later, ticked⟩ := tick_fetch_error table.link below most stack journal fetched
      rw [ticked]
      simp only [tickTrace, fetched]
      exact ⟨fun entry member => (List.not_mem_nil member).elim, sound.advanced later⟩
    | ok instruction =>
      obtain ⟨later, ticked⟩ := tick_eq table.link below most stack journal fetched
      rw [ticked]
      simp only [tickTrace, fetched]
      obtain ⟨inBounds, stays⟩ :=
        Script.meets_iff.mp (Script.meets_effect table frame.advanced instruction sound.stack)
      rw [Script.run_effect] at stays
      exact ⟨inBounds, (sound.advanced later).after later stays⟩

/-- Steps that stay inside the bounds, however they end. -/
def KeepsSound {α : Type} (step : MachineM H α) : Prop :=
  ∀ (m : Machine H) (capacity limit : Nat), m.Sound capacity limit → (finalState (step m)).Sound capacity limit

theorem KeepsSound.bind {α β : Type} {step : MachineM H α} {next : α → MachineM H β} (first : KeepsSound step)
    (rest : ∀ value, KeepsSound (next value)) : KeepsSound (step >>= next) := by
  intro m capacity limit sound
  have middle := first m capacity limit sound
  cases ran : step m with
  | ok value final =>
    rw [ran] at middle
    rw [bind_ok ran]
    exact rest value final capacity limit middle
  | error fault final =>
    rw [ran] at middle
    rw [bind_error ran]
    exact middle

theorem keepsSound_onStack {α : Type} {step : StackM (Object H) α}
    (stays : ∀ stack : OperandStack (Object H), stack.Sound → Access.Stays stack (finalState (step stack))) :
    KeepsSound (onStack step) := by
  rintro ⟨frames, stack, journal⟩ capacity limit sound
  have kept := stays stack sound.stack
  cases ran : step stack with
  | ok value final =>
    rw [ran] at kept
    rw [onStack_ok ran]
    exact sound.of_stays kept
  | error fault final =>
    rw [ran] at kept
    rw [onStack_error ran]
    exact sound.of_stays kept

theorem keepsSound_script {α : Type} {script : Script (Object H) α} (checked : script.Checked) :
    KeepsSound (onStack script.run) :=
  keepsSound_onStack fun _ sound => (Script.meets_iff.mp (Script.meets_of_checked checked sound)).2

theorem keepsSound_enter (routine : Routine (Object H)) : KeepsSound (enter routine) := by
  rintro ⟨frames, stack, journal⟩ capacity limit sound
  obtain ⟨later, entered⟩ := enter_eq routine frames stack journal
  obtain ⟨_, stays⟩ := Script.meets_iff.mp (Script.meets_enter routine sound.stack)
  rw [Script.run_enter] at stays
  have kept : (finalState (andProceed (enter routine) ⟨frames, stack, journal⟩)).Sound capacity limit := by
    rw [entered, finalState_absorb]
    exact sound.after later stays
  unfold andProceed at kept
  cases ran : enter routine (⟨frames, stack, journal⟩ : Machine H) with
  | ok value final =>
    rw [bind_ok ran] at kept
    exact kept
  | error fault final =>
    rw [bind_error ran] at kept
    exact kept

theorem keepsSound_run (table : HostTable H) : KeepsSound (run table.link) := by
  intro m capacity limit
  induction m using run_induction table.link with
  | step m ih =>
    intro sound
    have ticked := (sound.tick table).2
    cases progress : Machine.tick table.link m with
    | running next =>
      rw [progress] at ticked
      rw [run_of_running progress]
      exact ih next progress ticked
    | halted final =>
      rw [progress] at ticked
      rw [run_of_halted progress]
      exact ticked
    | faulted fault final =>
      rw [progress] at ticked
      rw [run_of_faulted progress]
      exact ticked

theorem KeepsSound.clearingFrames {α : Type} {step : MachineM H α} (keeps : KeepsSound step) :
    KeepsSound (clearingFrames step) := by
  intro m capacity limit sound
  have kept := keeps m capacity limit sound
  unfold Machine.clearingFrames
  cases ran : step m with
  | ok value final =>
    rw [ran] at kept
    exact kept
  | error fault final =>
    rw [ran] at kept
    exact ⟨kept.stack, kept.capacity_eq, kept.limit_eq, Nat.zero_le _, fun frame member =>
      (List.not_mem_nil member).elim⟩

theorem looksAtOffset_checkPushed (signature : Signature) (start : Nat) :
    StackM.LooksAtOffset (checkPushed signature start : StackM (Object H) Unit) := by
  refine ⟨fun offset =>
    if offset - start = signature.argumentWords then .ok ()
    else .error (.argumentCountMismatch signature.argumentWords (offset - start)), fun stack => ?_⟩
  unfold checkPushed
  dsimp only
  split <;> rfl

theorem looksAtOffset_checkLeft (signature : Signature) (start : Nat) :
    StackM.LooksAtOffset (checkLeft signature start : StackM (Object H) Unit) := by
  refine ⟨fun offset =>
    if offset < start then .error .stackUnderflow
    else if offset - start = signature.returnWords then .ok ()
    else .error (.returnCountMismatch signature.name signature.returnWords (offset - start)), fun stack => ?_⟩
  unfold checkLeft
  dsimp only
  split
  · rfl
  · split <;> rfl

theorem keepsSound_of_offset {α : Type} {step : StackM (Object H) α} (looks : StackM.LooksAtOffset step) :
    KeepsSound (onStack step) := by
  obtain ⟨check, checked⟩ := looks
  refine keepsSound_onStack fun stack sound => ?_
  rw [checked]
  cases check stack.offset <;> exact .refl sound

theorem keepsSound_execute (table : HostTable H) (routine : Routine (Object H))
    (arguments : List (Argument (Object H))) (result : Option Ty) :
    KeepsSound (execute table.link routine arguments result) := by
  refine (keepsSound_of_offset ⟨Except.ok, fun _ => rfl⟩).bind fun start => KeepsSound.bind ?_ fun _ => ?_
  · rw [← Script.run_pushAll]
    exact keepsSound_script (Script.checked_pushAll arguments)
  refine (keepsSound_of_offset (looksAtOffset_checkPushed routine.signature start)).bind fun _ => ?_
  refine ((keepsSound_enter routine).bind fun _ => keepsSound_run table).clearingFrames.bind fun _ => ?_
  refine (keepsSound_of_offset (looksAtOffset_checkLeft routine.signature start)).bind fun _ => ?_
  rw [← Script.run_popResult]
  exact keepsSound_script (Script.checked_popResult result)

end Machine

/-- What a host can do with a machine. -/
inductive HostAction (H : Type)
  | operate (operation : HostOperation (Object H))
  | call (routine : Routine (Object H))
  | run
  | execute (routine : Routine (Object H)) (arguments : List (Argument (Object H))) (result : Option Ty)

namespace HostAction

variable {H : Type}

/-- What an action gives back. -/
def Reply : HostAction H → Type
  | operate operation => operation.Reply
  | call _ => Unit
  | run => Unit
  | execute _ _ result => Result (Object H) result

/-- How an action ends. -/
def outcome (table : HostTable H) :
    (action : HostAction H) → Machine H → EStateM.Result Fault (Machine H) action.Reply
  | operate operation, m => Machine.onStack operation.script.run m
  | call routine, m => Machine.enter routine m
  | run, m => Machine.run table.link m
  | execute routine arguments result, m => Machine.execute table.link routine arguments result m

/-- The machine after an action, which may have failed. -/
def after (table : HostTable H) (action : HostAction H) (m : Machine H) : Machine H :=
  finalState (action.outcome table m)

/-- The elementary operations that actions carry out, each with the stack that it finds. Those of a run are the ones
of its instructions, and an execution is made of pushes, a call, a run and the removal of the result. -/
inductive Performs (table : HostTable H) :
    HostAction H → Machine H → Access (Object H) → OperandStack (Object H) → Prop
  | operate {operation : HostOperation (Object H)} {m : Machine H} {access : Access (Object H)}
      {stack : OperandStack (Object H)} (traced : (access, stack) ∈ operation.script.trace m.stack) :
      Performs table (.operate operation) m access stack
  | call {routine : Routine (Object H)} {m : Machine H} {access : Access (Object H)}
      {stack : OperandStack (Object H)} (traced : (access, stack) ∈ (Script.enter routine).trace m.stack) :
      Performs table (.call routine) m access stack
  | tick {m : Machine H} {access : Access (Object H)} {stack : OperandStack (Object H)}
      (traced : (access, stack) ∈ m.tickTrace table) : Performs table .run m access stack
  | later {m next : Machine H} {access : Access (Object H)} {stack : OperandStack (Object H)}
      (ticked : Machine.tick table.link m = .running next) (rest : Performs table .run next access stack) :
      Performs table .run m access stack
  | pushing {routine : Routine (Object H)} {arguments : List (Argument (Object H))} {result : Option Ty}
      {m : Machine H} {access : Access (Object H)} {stack : OperandStack (Object H)}
      (traced : (access, stack) ∈ (Script.pushAll arguments).trace m.stack) :
      Performs table (.execute routine arguments result) m access stack
  | calling {routine : Routine (Object H)} {arguments : List (Argument (Object H))} {result : Option Ty}
      {m pushed : Machine H} {access : Access (Object H)} {stack : OperandStack (Object H)}
      (pushing : Machine.onStack (StackM.pushAll arguments) m = .ok () pushed)
      (rest : Performs table (.call routine) pushed access stack) :
      Performs table (.execute routine arguments result) m access stack
  | running {routine : Routine (Object H)} {arguments : List (Argument (Object H))} {result : Option Ty}
      {m pushed entered : Machine H} {access : Access (Object H)} {stack : OperandStack (Object H)}
      (pushing : Machine.onStack (StackM.pushAll arguments) m = .ok () pushed)
      (entering : Machine.enter routine pushed = .ok () entered)
      (rest : Performs table .run entered access stack) :
      Performs table (.execute routine arguments result) m access stack
  | popping {routine : Routine (Object H)} {arguments : List (Argument (Object H))} {result : Option Ty}
      {m pushed entered final : Machine H} {access : Access (Object H)} {stack : OperandStack (Object H)}
      (pushing : Machine.onStack (StackM.pushAll arguments) m = .ok () pushed)
      (entering : Machine.enter routine pushed = .ok () entered)
      (ran : Machine.run table.link entered = .ok () final)
      (traced : (access, stack) ∈ (Script.popResult result).trace final.stack) :
      Performs table (.execute routine arguments result) m access stack

theorem keepsSound_after (table : HostTable H) (action : HostAction H) {m : Machine H} {capacity limit : Nat}
    (sound : m.Sound capacity limit) : (action.after table m).Sound capacity limit := by
  cases action with
  | operate operation => exact Machine.keepsSound_script (Script.checked_operation operation) _ _ _ sound
  | call routine => exact Machine.keepsSound_enter routine _ _ _ sound
  | run => exact Machine.keepsSound_run table _ _ _ sound
  | execute routine arguments result => exact Machine.keepsSound_execute table routine arguments result _ _ _ sound

theorem inBounds_of_checked {α : Type} {script : Script (Object H) α} {m : Machine H} {capacity limit : Nat}
    {access : Access (Object H)} {stack : OperandStack (Object H)} (checked : script.Checked)
    (sound : m.Sound capacity limit) (traced : (access, stack) ∈ script.trace m.stack) : access.InBounds stack :=
  (Script.meets_iff.mp (Script.meets_of_checked checked sound.stack)).1 (access, stack) traced

/-- On a machine inside its bounds, no action touches anything outside them. -/
theorem Performs.confined {table : HostTable H} {action : HostAction H} {m : Machine H} {access : Access (Object H)}
    {stack : OperandStack (Object H)} {capacity limit : Nat} (performs : Performs table action m access stack)
    (sound : m.Sound capacity limit) : access.InBounds stack := by
  have pushes : ∀ {arguments : List (Argument (Object H))} {m pushed : Machine H}, m.Sound capacity limit →
      Machine.onStack (StackM.pushAll arguments) m = .ok () pushed → pushed.Sound capacity limit := by
    intro arguments m pushed sound pushing
    rw [← Script.run_pushAll] at pushing
    have kept := Machine.keepsSound_script (Script.checked_pushAll arguments) _ _ _ sound
    rw [pushing] at kept
    exact kept
  have enters : ∀ {routine : Routine (Object H)} {m entered : Machine H}, m.Sound capacity limit →
      Machine.enter routine m = .ok () entered → entered.Sound capacity limit := by
    intro routine m entered sound entering
    have kept := Machine.keepsSound_enter routine _ _ _ sound
    rw [entering] at kept
    exact kept
  induction performs with
  | operate traced => exact inBounds_of_checked (Script.checked_operation _) sound traced
  | call traced => exact (Script.meets_iff.mp (Script.meets_enter _ sound.stack)).1 _ traced
  | tick traced => exact (sound.tick table).1 _ traced
  | later ticked rest ih =>
    have kept := (sound.tick table).2
    rw [ticked] at kept
    exact ih kept
  | pushing traced => exact inBounds_of_checked (Script.checked_pushAll _) sound traced
  | calling pushing rest ih => exact ih (pushes sound pushing)
  | running pushing entering rest ih => exact ih (enters (pushes sound pushing) entering)
  | popping pushing entering ran traced =>
    have kept := Machine.keepsSound_run table _ _ _ (enters (pushes sound pushing) entering)
    rw [ran] at kept
    exact inBounds_of_checked (Script.checked_popResult _) kept traced

end HostAction

namespace Machine

variable {H : Type}

/-- The machines that a host can get. The first has no frames and a stack that a pool lends, and the pool holds what is
left of such machines. Then come actions of the host, and the instructions in the middle of a run. -/
inductive Driven (table : HostTable H) : Nat → Nat → Machine H → Prop
  | create {pool : StackPool (Object H)} {capacity limit : Nat} {journal : Journal}
      (origin : OperandStack (Object H) → Machine H) (capacityOf limitOf : OperandStack (Object H) → Nat)
      (driven : ∀ stored ∈ pool.free, Driven table (capacityOf stored) (limitOf stored) (origin stored))
      (recycled : ∀ stored ∈ pool.free, stored = (origin stored).stack.recycle) :
      Driven table capacity limit ⟨⟨[], limit⟩, (pool.lend capacity journal).1, journal⟩
  | act {capacity limit : Nat} {m : Machine H} (driven : Driven table capacity limit m) (action : HostAction H) :
      Driven table capacity limit (action.after table m)
  | tick {capacity limit : Nat} {m next : Machine H} (driven : Driven table capacity limit m)
      (ticked : Machine.tick table.link m = .running next) : Driven table capacity limit next

theorem Driven.sound {table : HostTable H} {capacity limit : Nat} {m : Machine H}
    (driven : Driven table capacity limit m) : m.Sound capacity limit := by
  induction driven with
  | @create pool capacity limit journal origin capacityOf limitOf driven recycled ih =>
    have lent : ((pool.lend capacity journal).1).Sound ∧ (pool.lend capacity journal).1.capacity = capacity := by
      rcases pool.lend_cases capacity journal with ⟨stored, member, fits, lent⟩ | fresh
      · have kept : stored.Sound := by
          rw [recycled stored member]
          exact (ih stored member).stack.recycle
        rw [lent]
        exact ⟨⟨kept.memory_size, kept.tags_size, Nat.zero_le _⟩, fits⟩
      · rw [fresh]
        exact ⟨.fresh capacity, rfl⟩
    exact ⟨lent.1, lent.2, rfl, Nat.zero_le _, fun frame member => (List.not_mem_nil member).elim⟩
  | act driven action ih => exact action.keepsSound_after table ih
  | tick driven ticked ih =>
    have kept := (ih.tick table).2
    rw [ticked] at kept
    exact kept

end Machine

end WordMachine
