import WordMachine.Proofs.Allocation
import WordMachine.Proofs.History

namespace WordMachine

/-- What holds of a stack whatever was done with it: its sizes fit, and its table counts the handles in use. Nothing is
said about the references on it, which may be stale after a step that failed. -/
structure OperandStack.Tended {ω : Type} (stack : OperandStack ω) : Prop where
  sound : stack.Sound
  consistent : stack.handles.Consistent

theorem OperandStack.Shelved.tended {ω : Type} {stack : OperandStack ω} (shelved : stack.Shelved) : stack.Tended :=
  ⟨shelved.sound, shelved.consistent⟩

/-- What a pool of stacks that were in use lends. -/
theorem StackPool.tended_lend {ω : Type} {pool : StackPool ω}
    (shelved : ∀ stored ∈ pool.free, stored.Shelved) (capacity : Nat) (journal : Journal) :
    (pool.lend capacity journal).1.Tended := by
  rcases pool.lend_cases capacity journal with ⟨stored, member, _, lent⟩ | fresh
  · have sound := (shelved stored member).sound
    rw [lent]
    exact ⟨⟨sound.memory_size, sound.tags_size, Nat.zero_le _⟩, (shelved stored member).consistent⟩
  · rw [fresh]
    exact (OperandStack.Shelved.fresh capacity).tended

namespace Script

variable {ω α : Type}

theorem consistent_run (script : Script ω α) {stack : OperandStack ω} (consistent : stack.handles.Consistent) :
    (finalState (script.run stack)).handles.Consistent := by
  induction script generalizing stack with
  | done value => exact consistent
  | fail fault => exact consistent
  | act access next ih =>
    have kept := (access.grown_perform consistent).consistent
    simp only [run]
    cases ran : access.perform stack with
    | ok reply final =>
      rw [ran] at kept
      exact ih (.ok reply) kept
    | error fault final =>
      rw [ran] at kept
      exact ih (.error fault) kept

theorem tended_run {script : Script ω α} (checked : script.Checked) {stack : OperandStack ω}
    (tended : stack.Tended) : (finalState (script.run stack)).Tended :=
  ⟨(meets_iff.mp (meets_of_checked checked tended.sound)).2.sound, script.consistent_run tended.consistent⟩

theorem tended_effect {H : Type} (table : HostTable H) (frame : Frame H) (instruction : Instruction)
    {stack : OperandStack (Object H)} (tended : stack.Tended) :
    (finalState ((effect table frame instruction).run stack)).Tended :=
  ⟨(meets_iff.mp (meets_effect table frame instruction tended.sound)).2.stays.sound,
    consistent_run _ tended.consistent⟩

end Script

namespace Machine

variable {H : Type}

theorem tended_tick (table : HostTable H) {m : Machine H} (tended : m.stack.Tended) :
    (tick table.link m).machine.stack.Tended := by
  rcases stack_tick table m with same | ⟨frame, instruction, ran⟩
  · rw [same]
    exact tended
  · rw [ran]
    exact Script.tended_effect table frame instruction tended

/-- Steps after which a stack is still in order, however they end. -/
def Tends {α : Type} (step : MachineM H α) : Prop :=
  ∀ m : Machine H, m.stack.Tended → (finalState (step m)).stack.Tended

theorem Tends.bind {α β : Type} {step : MachineM H α} {next : α → MachineM H β} (first : Tends step)
    (rest : ∀ value, Tends (next value)) : Tends (step >>= next) := by
  intro m tended
  have middle := first m tended
  cases ran : step m with
  | ok value final =>
    rw [ran] at middle
    rw [bind_ok ran]
    exact rest value final middle
  | error fault final =>
    rw [ran] at middle
    rw [bind_error ran]
    exact middle

theorem tends_onStack {α : Type} {step : StackM (Object H) α}
    (tends : ∀ stack : OperandStack (Object H), stack.Tended → (finalState (step stack)).Tended) :
    Tends (onStack step) := by
  rintro ⟨frames, stack, journal⟩ tended
  have kept := tends stack tended
  cases ran : step stack with
  | ok value final =>
    rw [ran] at kept
    rw [onStack_ok ran]
    exact kept
  | error fault final =>
    rw [ran] at kept
    rw [onStack_error ran]
    exact kept

theorem tends_script {α : Type} {script : Script (Object H) α} (checked : script.Checked) :
    Tends (onStack script.run) :=
  tends_onStack fun _ tended => Script.tended_run checked tended

theorem tends_enter (routine : Routine (Object H)) : Tends (enter routine) := by
  rintro ⟨frames, stack, journal⟩ tended
  rcases enter_cases routine frames stack journal with ⟨_, failed⟩ | ⟨_, later, ⟨_, failed⟩ | ⟨next, _, entered⟩⟩
  · rw [failed]
    exact tended
  · rw [failed]
    exact tended
  · rw [entered]
    exact tended

theorem tends_run (table : HostTable H) : Tends (run table.link) := by
  intro m
  induction m using run_induction table.link with
  | step m ih =>
    intro tended
    have kept := tended_tick table tended
    cases ticked : tick table.link m with
    | running next =>
      rw [ticked] at kept
      rw [run_of_running ticked]
      exact ih next ticked kept
    | halted final =>
      rw [ticked] at kept
      rw [run_of_halted ticked]
      exact kept
    | faulted fault final =>
      rw [ticked] at kept
      rw [run_of_faulted ticked]
      exact kept

theorem Tends.clearingFrames {α : Type} {step : MachineM H α} (tends : Tends step) : Tends (clearingFrames step) := by
  intro m tended
  have kept := tends m tended
  unfold Machine.clearingFrames
  cases ran : step m with
  | ok value final =>
    rw [ran] at kept
    exact kept
  | error fault final =>
    rw [ran] at kept
    exact kept

theorem tends_execute (table : HostTable H) (routine : Routine (Object H)) (arguments : List (Argument (Object H)))
    (result : Option Ty) : Tends (execute table.link routine arguments result) := by
  have checkPushed : ∀ start, Tends (onStack (checkPushed routine.signature start) : MachineM H Unit) := by
    intro start
    refine tends_onStack fun stack tended => ?_
    unfold Machine.checkPushed
    split <;> exact tended
  have checkLeft : ∀ start, Tends (onStack (checkLeft routine.signature start) : MachineM H Unit) := by
    intro start
    refine tends_onStack fun stack tended => ?_
    unfold Machine.checkLeft
    split
    · exact tended
    · split <;> exact tended
  have counted : Tends (onStack StackM.offset : MachineM H Nat) := tends_onStack fun _ tended => tended
  refine counted.bind fun start => Tends.bind ?_ fun _ => (checkPushed start).bind fun _ => ?_
  · rw [← Script.run_pushAll]
    exact tends_script (Script.checked_pushAll arguments)
  · refine ((tends_enter routine).bind fun _ => tends_run table).clearingFrames.bind fun _ =>
      (checkLeft start).bind fun _ => ?_
    rw [← Script.run_popResult]
    exact tends_script (Script.checked_popResult result)

end Machine

/-- The stacks that a host can get. A pool lends them, and it holds what is left of such stacks. Then come actions of
the host, each with whatever frames it likes, and the instructions in the middle of a run. Any of them may fail. -/
inductive OperandStack.Used {H : Type} (table : HostTable H) : OperandStack (Object H) → Prop
  | lend {pool : StackPool (Object H)} {capacity : Nat} {journal : Journal}
      (origin : OperandStack (Object H) → OperandStack (Object H))
      (used : ∀ stored ∈ pool.free, Used table (origin stored))
      (recycled : ∀ stored ∈ pool.free, stored = (origin stored).recycle) :
      Used table (pool.lend capacity journal).1
  | act {m : Machine H} (used : Used table m.stack) (action : HostAction H) : Used table (action.after table m).stack
  | tick {m next : Machine H} (used : Used table m.stack) (ticked : Machine.tick table.link m = .running next) :
      Used table next.stack

theorem OperandStack.Used.tended {H : Type} {table : HostTable H} {stack : OperandStack (Object H)}
    (used : stack.Used table) : stack.Tended := by
  induction used with
  | lend origin used recycled ih =>
    refine StackPool.tended_lend (fun stored member => ?_) _ _
    rw [recycled stored member]
    exact shelved_recycle (ih stored member).sound (ih stored member).consistent
  | act used action ih =>
    cases action with
    | operate operation => exact Machine.tends_script (Script.checked_operation operation) _ ih
    | call routine => exact Machine.tends_enter routine _ ih
    | run => exact Machine.tends_run table _ ih
    | execute routine arguments result => exact Machine.tends_execute table routine arguments result _ ih
  | tick used ticked ih =>
    have kept := Machine.tended_tick table ih
    rw [ticked] at kept
    exact kept

end WordMachine
