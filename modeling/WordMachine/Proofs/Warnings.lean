import WordMachine.Proofs.Leaks
import WordMachine.Proofs.NoDangling

namespace WordMachine

/-- The number of references that a message warns about, if it does. -/
def Event.leak? : Event → Option Nat
  | .leaked count => some count
  | _ => none

namespace Journal

/-- The warnings about references that nobody released, the oldest first. -/
def leaks (journal : Journal) : List Nat :=
  journal.events.toList.filterMap Event.leak?

/-- What a journal may become as long as nothing warns about references. -/
structure Unwarned (journal later : Journal) : Prop where
  level : later.level = journal.level
  leaks : later.leaks = journal.leaks

theorem Unwarned.refl (journal : Journal) : journal.Unwarned journal :=
  ⟨rfl, rfl⟩

theorem Unwarned.trans {first second third : Journal} (unwarned : first.Unwarned second)
    (more : second.Unwarned third) : first.Unwarned third :=
  ⟨more.level.trans unwarned.level, more.leaks.trans unwarned.leaks⟩

theorem unwarned_add (journal : Journal) {event : Event} (harmless : event.leak? = none) :
    journal.Unwarned (journal.add event) := by
  unfold add
  split
  · refine ⟨rfl, ?_⟩
    simp only [leaks, Array.toList_push, List.filterMap_append, List.filterMap_cons, harmless, List.filterMap_nil,
      List.append_nil]
  · exact .refl journal

/-- Every journal that keeps anything keeps warnings. -/
theorem leaks_add_leaked (journal : Journal) (count : Nat) :
    (journal.add (.leaked count)).leaks = journal.leaks ++ if journal.level.isSome then [count] else [] := by
  obtain ⟨level, events⟩ := journal
  cases level with
  | none => exact (List.append_nil _).symm
  | some least =>
    have kept : (⟨some least, events⟩ : Journal).keeps (Event.leaked count).level = true :=
      decide_eq_true (Nat.zero_le least.rank)
    rw [add, if_pos kept]
    simp only [leaks, Array.toList_push, List.filterMap_append, List.filterMap_cons, Event.leak?, List.filterMap_nil,
      Option.isSome_some, if_true]

end Journal

namespace Machine

variable {H : Type} {link : Linkage H}

/-- Steps that warn about no references as long as they succeed. -/
def Unwarning {α : Type} (step : MachineM H α) : Prop :=
  ∀ (m final : Machine H) (value : α), step m = .ok value final → m.journal.Unwarned final.journal

theorem Unwarning.bind {α β : Type} {step : MachineM H α} {next : α → MachineM H β} (first : Unwarning step)
    (rest : ∀ value, Unwarning (next value)) : Unwarning (step >>= next) := by
  intro m final value ran
  obtain ⟨reply, middle, stepped, followed⟩ := bind_eq_ok ran
  exact (first m middle reply stepped).trans (rest reply middle final value followed)

theorem unwarning_pure {α : Type} (value : α) : Unwarning (pure value : MachineM H α) := by
  intro m final other ran
  cases ran
  exact .refl _

theorem unwarning_onStack {α : Type} (step : StackM (Object H) α) : Unwarning (onStack step) := by
  rintro ⟨frames, stack, journal⟩ final value ran
  unfold onStack at ran
  dsimp only at ran
  split at ran
  · cases ran
    exact .refl _
  · cases ran

theorem unwarning_note (level : Level) {event : Machine H → Event} (harmless : ∀ m, (event m).leak? = none) :
    Unwarning (note level event) := by
  intro m final value ran
  unfold note at ran
  split at ran
  · cases ran
    exact m.journal.unwarned_add (harmless m)
  · cases ran
    exact .refl _

theorem unwarning_slotBelow (words : Nat) : Unwarning (slotBelow words : MachineM H Nat) := by
  intro m final value ran
  rw [eq_of_slotBelow ran]
  exact .refl _

theorem unwarning_enter (routine : Routine (Object H)) : Unwarning (enter routine) := by
  refine (unwarning_slotBelow _).bind fun base => (unwarning_note _ fun _ => rfl).bind fun _ => ?_
  intro m final value ran
  unfold pushFrame at ran
  split at ran
  · cases ran
    exact .refl _
  · cases ran

theorem unwarning_leave (frame : Frame H) : Unwarning (leave frame) := by
  refine (unwarning_onStack _).bind fun _ => (unwarning_note _ fun _ => rfl).bind fun _ =>
    (unwarning_onStack _).bind fun _ => ?_
  intro m final value ran
  cases ran
  exact .refl _

theorem unwarning_perform (frame : Frame H) (instruction : Instruction) :
    Unwarning (perform link frame instruction) := by
  have proceeding : ∀ {step : MachineM H Unit}, Unwarning step → Unwarning (andProceed step) :=
    fun unwarning => unwarning.bind fun _ => unwarning_pure _
  cases instruction with
  | constant ty position => exact proceeding (unwarning_onStack _)
  | add ty => exact proceeding (unwarning_onStack _)
  | pop ty => exact proceeding (unwarning_onStack _)
  | setLocal ty offset => exact proceeding (unwarning_onStack _)
  | getLocal ty offset => exact proceeding (unwarning_onStack _)
  | call position =>
    unfold perform
    dsimp only
    split
    · exact proceeding (unwarning_enter _)
    · exact fun _ _ _ ran => nomatch ran
  | externalCall position =>
    unfold perform
    dsimp only
    split
    · exact proceeding ((unwarning_slotBelow _).bind fun _ => (unwarning_note _ fun _ => rfl).bind fun _ =>
        (unwarning_onStack _).bind fun _ => unwarning_onStack _)
    · exact fun _ _ _ ran => nomatch ran
  | ret => exact unwarning_leave frame

theorem Advances.unwarned {m next : Machine H} (advances : Advances link m next) :
    m.journal.Unwarned next.journal := by
  obtain ⟨flow, ticked⟩ := advances
  obtain ⟨⟨active, limit⟩, stack, journal⟩ := m
  cases active with
  | nil =>
    cases flow <;> cases ticked
    exact .refl _
  | cons frame below =>
    simp only [tick] at ticked
    cases fetched : frame.routine.chunk.fetch frame.ip with
    | error error =>
      rw [fetched] at ticked
      cases flow <;> cases ticked
    | ok instruction =>
      simp only [fetched] at ticked
      have dispatching : Unwarning (dispatch link { frame with ip := frame.ip + 1 } frame.ip instruction) :=
        (unwarning_note _ fun _ => rfl).bind fun _ => unwarning_perform _ instruction
      cases dispatched : dispatch link { frame with ip := frame.ip + 1 } frame.ip instruction
          ⟨⟨{ frame with ip := frame.ip + 1 } :: below, limit⟩, stack, journal⟩ with
      | error fault final =>
        rw [dispatched] at ticked
        cases flow <;> cases ticked
      | ok going final =>
        have unwarned := dispatching _ _ _ dispatched
        rw [dispatched] at ticked
        cases going <;> cases flow <;> cases ticked <;> exact unwarned

theorem unwarning_run : Unwarning (run link) := by
  intro m final value ran
  induction m using run_induction link with
  | step m ih =>
    cases ticked : tick link m with
    | running next =>
      rw [run_of_running ticked] at ran
      exact (Advances.unwarned ⟨.proceed, ticked⟩).trans (ih next ticked ran)
    | halted last =>
      rw [run_of_halted ticked] at ran
      cases ran
      exact Advances.unwarned ⟨.halt, ticked⟩
    | faulted fault last =>
      rw [run_of_faulted ticked] at ran
      cases ran

theorem unwarning_execute (routine : Routine (Object H)) (arguments : List (Argument (Object H)))
    (result : Option Ty) : Unwarning (execute link routine arguments result) := by
  intro m final value executed
  obtain ⟨pushed, entered, last, pushing, _, entering, ran, popping⟩ := execute_eq_ok executed
  have first := unwarning_onStack _ _ _ _ pushing
  have second := unwarning_enter routine _ _ _ entering
  have third := unwarning_run _ _ _ ran
  exact ((first.trans second).trans third).trans (unwarning_onStack _ _ _ _ popping)

end Machine

namespace VM

variable {H : Type}

theorem unwarned_lent (vm : VM H) : vm.journal.Unwarned vm.lent.journal := by
  obtain ⟨config, stackPool, framePool, journal⟩ := vm
  have stacked : journal.Unwarned (stackPool.lend config.stackDepth journal).2.2 := by
    unfold StackPool.lend
    split
    · exact .refl journal
    · exact journal.unwarned_add rfl
  refine stacked.trans ?_
  change Journal.Unwarned _ (framePool.lend config.maxFrames _).2.2
  unfold FramePool.lend
  split
  · exact .refl _
  · exact Journal.unwarned_add _ rfl

theorem settle_journal (vm : VM H) (m : Machine H) :
    (vm.settle m).journal =
      if 0 < m.stack.liveHandles then m.journal.add (.leaked m.stack.liveHandles) else m.journal := by
  obtain ⟨config, stackPool, framePool, journal⟩ := vm
  rfl

/-- A call that succeeds leaves as many handles in use as it has lost, and the stack that goes back warns of them. -/
theorem Reached.leaks_call {adapters : Adapters H} {config : Config} {vm after : VM H} {routine : Routine (Object H)}
    {arguments : List (Argument (Object H))} {result : Option Ty} {value : Result (Object H) result}
    (reached : Reached adapters.table config vm)
    (called : vm.call adapters.table.link routine arguments result = (.ok value, after))
    (small : (finalState (Machine.execute adapters.table.link routine arguments result vm.lent)).stack.handles.Small) :
    after.journal.leaks = vm.journal.leaks ++
      if vm.journal.level.isSome ∧ 0 < vm.lent.lostInCall adapters.table.link routine arguments result then
        [vm.lent.lostInCall adapters.table.link routine arguments result]
      else [] := by
  have stocked := reached.stocked adapters.propagates
  obtain ⟨shelved, start, _⟩ := stocked.lent
  have empty : vm.lent.frames.active = [] := by rw [lent_frames]
  unfold VM.call at called
  split at called
  · cases called
  · rename_i matching
    obtain ⟨_, rfl⟩ := Signature.check_eq_ok matching
    rw [callUnchecked_eq] at called
    cases executed : Machine.execute adapters.table.link routine arguments routine.signature.result vm.lent with
    | error fault final =>
      rw [executed] at called
      cases called
    | ok other final =>
      rw [executed] at called small
      cases called
      have settles : vm.lent.stack.Settles final.stack _ := Machine.settles_execute shelved.tended small executed
      have height := Machine.offset_execute empty executed
      have none_before : vm.lent.stack.references = 0 := by
        rw [OperandStack.references, start]
        rfl
      have none_after : final.stack.references = 0 := by
        rw [OperandStack.references, height, start]
        rfl
      have unused : vm.lent.stack.liveHandles = 0 := shelved.live_eq
      have balance := settles.balance
      have lost : final.stack.liveHandles =
          vm.lent.lostInCall adapters.table.link routine arguments routine.signature.result := by omega
      have unwarned := vm.unwarned_lent.trans (Machine.unwarning_execute _ _ _ _ _ _ executed)
      rw [settle_journal, lost, ← unwarned.level, ← unwarned.leaks]
      split
      · rename_i some_lost
        rw [Journal.leaks_add_leaked]
        simp only [some_lost, and_true]
      · rename_i none_lost
        rw [if_neg fun both => none_lost both.2, List.append_nil]

end VM

namespace Machine

variable {H : Type}

/-- The handles in use after an execution are accounted for. Whatever was done with a stack before, an execution that
succeeds leaves in use the handles of the references that it leaves on the stack, and those that it lost: they lay under
scalars that were taken off the stack, written over, handed to host code or left behind as arguments. So an execution
that keeps to its own words gives back all handles but the lost ones, and a call of the host warns of just these.
Storing a reference releases the one in its place, and storing a scalar releases nothing. -/
theorem handles_accounted (adapters : Adapters H) :
    (∀ (m final : Machine H) (routine : Routine (Object H)) (arguments : List (Argument (Object H)))
      (result : Option Ty) (value : Result (Object H) result),
      m.stack.Used adapters.table → final.stack.handles.Small →
      execute adapters.table.link routine arguments result m = .ok value final →
      final.stack.liveHandles + m.stack.references =
        m.stack.liveHandles + final.stack.references +
          m.lostInCall adapters.table.link routine arguments result) ∧
    (∀ (m final : Machine H) (routine : Routine (Object H)) (arguments : List (Argument (Object H)))
      (value : Result (Object H) routine.signature.result),
      m.stack.Used adapters.table → m.frames.active = [] → final.stack.handles.Small →
      m.Contained adapters.table.link routine arguments →
      execute adapters.table.link routine arguments routine.signature.result m = .ok value final →
      final.stack.liveHandles =
        m.stack.liveHandles + m.lostInCall adapters.table.link routine arguments routine.signature.result) ∧
    (∀ (config : Config) (vm after : VM H) (routine : Routine (Object H)) (arguments : List (Argument (Object H)))
      (result : Option Ty) (value : Result (Object H) result), VM.Reached adapters.table config vm →
      (finalState (execute adapters.table.link routine arguments result vm.lent)).stack.handles.Small →
      vm.call adapters.table.link routine arguments result = (.ok value, after) →
      after.journal.leaks = vm.journal.leaks ++
        if vm.journal.level.isSome ∧ 0 < vm.lent.lostInCall adapters.table.link routine arguments result then
          [vm.lent.lostInCall adapters.table.link routine arguments result]
        else []) ∧
    (∀ (slot : Nat) (stack final : OperandStack (Object H)), storeLocal .object slot stack = .ok () final →
      stack.tags.get slot = some .object ∧
        (stack.handleAt slot ≠ Handle.null →
          final.handles.get (stack.handleAt slot) = .error (.invalidHandle (stack.handleAt slot)))) ∧
    ∀ (kind : Scalar) (slot : Nat) (stack final : OperandStack (Object H)),
      storeLocal kind slot stack = .ok () final → final.handles = stack.handles := by
  refine ⟨?_, ?_, ?_, ?_, ?_⟩
  · intro m final routine arguments result value used small executed
    exact (settles_execute used.tended small executed).balance
  · intro m final routine arguments value used empty small contained executed
    have balance := (settles_execute used.tended small executed).balance
    have height := offset_execute empty executed
    have same := (agreesBelow_execute empty contained executed).references height
    omega
  · intro config vm after routine arguments result value reached small called
    exact reached.leaks_call called small
  · intro slot stack final stored
    obtain ⟨_, _, _, tag, object, next, released, rfl⟩ := storeHandle_eq_ok stored
    exact ⟨tag, fun issued => HandleTable.get_released released issued⟩
  · intro kind slot stack final stored
    obtain ⟨value, popped, popping, writing⟩ := bind_eq_ok stored
    obtain ⟨_, _, rfl⟩ := StackM.popCell_eq_ok popping
    obtain ⟨_, rfl⟩ := StackM.writeCell_eq_ok writing
    rfl

end Machine

namespace Overwrite

/-- Writes an integer over a reference and discards the integer. -/
def overwrite : Routine (Object Unit) where
  signature := ⟨"Overwrite", none, []⟩
  chunk :=
    Chunk.of
      [.constant .object 0, .constant (.scalar .int) 8, .setLocal (.scalar .int) 0, .pop (.scalar .int), .ret]
      ⟨#[1, 0, 0, 0, 0, 0, 0, 0, 0, 0, 0, 0], #[.host ()], #[0]⟩

def config : Config := ⟨8, 2, 1, 1⟩

def vm : VM Unit := .create config (.keeping (some .warn))

/-- A machine on whose stack the host has left a reference. -/
def hosted : Machine Unit := finalState (Machine.onStack (StackM.pushObject (some (.host ()))) vm.lent)

/-- The same machine right after a call. -/
def entered : Machine Unit := ⟨⟨[⟨overwrite, 0, 1⟩], 2⟩, hosted.stack, hosted.journal⟩

theorem used : hosted.stack.Used Adapters.none.table := by
  have lent : vm.lent.stack.Used Adapters.none.table := by
    rw [VM.lent_stack]
    exact .lend (fun stored => stored) (fun _ member => (Array.not_mem_empty _ member).elim)
      fun _ member => (Array.not_mem_empty _ member).elim
  unfold hosted
  rw [← Script.run_pushObject]
  exact lent.act (.operate (.push .object (some (.host ()))))

theorem contained : hosted.Contained Adapters.none.table.link overwrite [] := by
  have checked : Machine.containedWithin Adapters.none.table.link 0 1 5 entered = true := by decide +kernel
  have entering : Machine.enter overwrite hosted = .ok () entered := rfl
  intro pushed reached pushing entry state during
  have same : hosted = pushed := (EStateM.Result.ok.inj pushing).2
  rw [← same, entering] at entry
  rw [← (EStateM.Result.ok.inj entry).2] at during
  exact Machine.takesAbove_of_containedWithin checked during

end Overwrite

namespace Machine

/-- One handle is lost where a scalar is written over a reference. -/
theorem handles_accounted_of_overwrite :
    ∃ final, execute Adapters.none.table.link Overwrite.overwrite [] none Overwrite.hosted = .ok () final ∧
      Overwrite.hosted.stack.liveHandles = 1 ∧ final.stack.liveHandles = 2 ∧
      Overwrite.hosted.lostInCall Adapters.none.table.link Overwrite.overwrite [] none = 1 := by
  have succeeds : (match executeWithin Adapters.none.table.link 5 Overwrite.overwrite [] none Overwrite.hosted with
    | .ok _ final => decide (final.stack.liveHandles = 2 ∧ final.stack.handles.Small)
    | .error _ _ => false) = true := by decide +kernel
  cases ran : executeWithin Adapters.none.table.link 5 Overwrite.overwrite [] none Overwrite.hosted with
  | error fault final =>
    rw [ran] at succeeds
    cases succeeds
  | ok value final =>
    rw [ran] at succeeds
    obtain ⟨two, small⟩ := of_decide_eq_true succeeds
    have executed := execute_of_executeWithin ran
    have one : Overwrite.hosted.stack.liveHandles = 1 := by decide +kernel
    have accounted := (handles_accounted Adapters.none).2.1 Overwrite.hosted final Overwrite.overwrite [] value
      Overwrite.used rfl small Overwrite.contained executed
    have lost : Overwrite.hosted.lostInCall Adapters.none.table.link Overwrite.overwrite [] none = 1 := by
      rw [one, two] at accounted
      exact Nat.add_left_cancel accounted.symm
    exact ⟨final, executed, one, two, lost⟩

end Machine

namespace Overwrite

/-- A call that succeeds leaves a handle in use, and the stack that goes back warns of it. -/
theorem overwrite_leaks :
    (vm.call Adapters.none.table.link overwrite [] none).1.isOk ∧
      vm.lent.stack.liveHandles = 0 ∧
      (finalState (Machine.execute Adapters.none.table.link overwrite [] none vm.lent)).stack.liveHandles = 1 ∧
      vm.journal.leaks = [] ∧ (vm.call Adapters.none.table.link overwrite [] none).2.journal.leaks = [1] := by
  have called := VM.call_of_callWithin (show (VM.callWithin Adapters.none.table.link 5 vm overwrite [] none).1.isOk by
    decide +kernel)
  have live : (match Machine.executeWithin Adapters.none.table.link 5 overwrite [] none vm.lent with
    | .ok _ final => decide (final.stack.liveHandles = 1)
    | .error _ _ => false) = true := by decide +kernel
  rw [called]
  refine ⟨by decide +kernel, rfl, ?_, rfl, by decide +kernel⟩
  cases ran : Machine.executeWithin Adapters.none.table.link 5 overwrite [] none vm.lent with
  | error fault final =>
    rw [ran] at live
    cases live
  | ok value final =>
    rw [ran] at live
    rw [Machine.execute_of_executeWithin ran]
    exact of_decide_eq_true live

end Overwrite

end WordMachine
