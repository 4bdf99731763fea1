import WordMachine.Proofs.History

namespace WordMachine

namespace Machine

variable {H : Type}

/-- The states that an execution comes through as long as nothing fails: while arguments are pushed, once the routine is
entered, after every instruction, between the operations of host code, and when the result has been taken. -/
inductive Visits (table : HostTable H) (routine : Routine (Object H)) (arguments : List (Argument (Object H)))
    (result : Option Ty) (start : Machine H) : Machine H → Prop
  | pushed {first rest : List (Argument (Object H))} {m : Machine H} (split : arguments = first ++ rest)
      (pushing : onStack (StackM.pushAll first) start = .ok () m) : Visits table routine arguments result start m
  | entered {pushed m : Machine H} (pushing : onStack (StackM.pushAll arguments) start = .ok () pushed)
      (entering : enter routine pushed = .ok () m) : Visits table routine arguments result start m
  | ticked {m next : Machine H} (before : Visits table routine arguments result start m)
      (ticked : tick table.link m = .running next) : Visits table routine arguments result start next
  | halted {m final : Machine H} (before : Visits table routine arguments result start m)
      (ticked : tick table.link m = .halted final) : Visits table routine arguments result start final
  | inHostCode {α : Type} {m : Machine H} {frame : Frame H} {position : Position} {code : HostCode (Object H)}
      {first : Script (Object H) α} {next : α → Script (Object H) Unit} {value : α}
      {stack : OperandStack (Object H)} (before : Visits table routine arguments result start m)
      (current : m.frames.current? = some frame)
      (fetched : frame.routine.chunk.fetch frame.ip = .ok (.externalCall position))
      (read : frame.routine.chunk.constants.readCode table position = .ok code)
      (split : code.body = first.bind next) (propagating : first.Propagating)
      (ran : first.run m.stack = .ok value stack) : Visits table routine arguments result start { m with stack }
  | finished {value : Result (Object H) result} {final : Machine H}
      (executed : execute table.link routine arguments result start = .ok value final) :
      Visits table routine arguments result start final

theorem Visits.intact {table : HostTable H} (propagates : table.Propagates) {routine : Routine (Object H)}
    {arguments : List (Argument (Object H))} {result : Option Ty} {start m : Machine H}
    (visits : Visits table routine arguments result start m) (intact : start.stack.Intact) : m.stack.Intact := by
  induction visits with
  | @pushed first rest m split pushing =>
    have upheld := upholds_pushAll first start intact
    rw [pushing] at upheld
    exact upheld
  | @entered pushed m pushing entering =>
    have first := upholds_pushAll arguments start intact
    rw [pushing] at first
    have upheld := upholds_enter routine pushed first
    rw [entering] at upheld
    exact upheld
  | ticked before ticked ih =>
    have upheld := (upheld_tick propagates ih).2
    rw [ticked] at upheld
    exact upheld
  | halted before ticked ih =>
    have upheld := (upheld_tick propagates ih).2
    rw [ticked] at upheld
    exact upheld
  | inHostCode before current fetched read split propagating ran ih =>
    have good := (Script.meets_iff.mp (propagating.meets ih)).2
    rw [ran] at good
    exact good
  | finished executed =>
    have upheld := upholds_execute propagates routine arguments result start intact
    rw [executed] at upheld
    exact upheld

end Machine

/-- On a machine with its references in order, every operation deals only with handles that refer to something. -/
theorem HostAction.Performs.honest {H : Type} {table : HostTable H} (propagates : table.Propagates)
    {action : HostAction H} {m : Machine H} {access : Access (Object H)} {stack : OperandStack (Object H)}
    (performs : HostAction.Performs table action m access stack) (intact : m.stack.Intact) :
    access.Honest stack := by
  have pushes : ∀ {arguments : List (Argument (Object H))} {m pushed : Machine H}, m.stack.Intact →
      Machine.onStack (StackM.pushAll arguments) m = .ok () pushed → pushed.stack.Intact := by
    intro arguments m pushed intact pushing
    have upheld := Machine.upholds_pushAll arguments m intact
    rw [pushing] at upheld
    exact upheld
  have enters : ∀ {routine : Routine (Object H)} {m entered : Machine H}, m.stack.Intact →
      Machine.enter routine m = .ok () entered → entered.stack.Intact := by
    intro routine m entered intact entering
    have upheld := Machine.upholds_enter routine m intact
    rw [entering] at upheld
    exact upheld
  induction performs with
  | operate traced => exact (Script.meets_iff.mp (Script.meets_operation _ intact)).1 _ traced
  | call traced => exact (Script.meets_iff.mp (Script.meets_enter_owned _ intact)).1 _ traced
  | tick traced => exact (Machine.upheld_tick propagates intact).1 _ traced
  | later ticked rest ih =>
    have upheld := (Machine.upheld_tick propagates intact).2
    rw [ticked] at upheld
    exact ih upheld
  | pushing traced => exact (Script.meets_iff.mp (Script.meets_pushAll _ intact)).1 _ traced
  | calling pushing rest ih => exact ih (pushes intact pushing)
  | running pushing entering rest ih => exact ih (enters (pushes intact pushing) entering)
  | popping pushing entering ran traced =>
    have upheld := Machine.upholds_run propagates _ (enters (pushes intact pushing) entering)
    rw [ran] at upheld
    exact (Script.meets_iff.mp (Script.meets_popResult _ upheld)).1 _ traced

theorem HandleTable.get_released {ω : Type} {table next : HandleTable ω} {handle : Handle} {object : Option ω}
    (released : table.release handle = .ok (object, next)) (issued : handle ≠ Handle.null) :
    next.get handle = .error (.invalidHandle handle) := by
  cases got : next.get handle with
  | ok found => exact absurd ⟨found, got⟩ (not_refers_release released issued)
  | error fault =>
    unfold HandleTable.get at got
    rw [if_neg issued] at got
    split at got <;> cases got
    rfl

namespace VM

variable {H : Type}

/-- Whatever the stacks in the pool were used for and whatever code is called: as long as handles have room for the
slots of the table, every live reference is null or refers to an object through a handle that no other has, no call
fails for want of a valid handle, and what is released was issued and not released before. -/
theorem Stocked.references_owned {table : HostTable H} (propagates : table.Propagates) {vm : VM H}
    (stocked : vm.Stocked) (routine : Routine (Object H)) (arguments : List (Argument (Object H)))
    (result : Option Ty) :
    (∀ m, Machine.Visits table routine arguments result vm.lent m → m.stack.handles.Small → m.stack.Owned) ∧
      ((finalState (Machine.execute table.link routine arguments result vm.lent)).stack.handles.Small →
        ∀ handle, (vm.call table.link routine arguments result).1 ≠ .error (.invalidHandle handle)) ∧
      ∀ handle stack,
        HostAction.Performs table (.execute routine arguments result) vm.lent (.release handle) stack →
        stack.handles.Small → handle ≠ Handle.null →
        ∃ object next, stack.handles.get handle = .ok (some object) ∧
          stack.handles.release handle = .ok (some object, next) ∧
          next.get handle = .error (.invalidHandle handle) := by
  have intact := stocked.intact
  refine ⟨fun m visits small => (visits.intact propagates intact).owned small, ?_, ?_⟩
  · intro small handle failed
    have upheld := Machine.upholds_execute propagates routine arguments result vm.lent intact
    unfold VM.call at failed
    split at failed
    · rename_i fault mismatch
      unfold Signature.check at mismatch
      split at mismatch
      · cases mismatch
      · cases mismatch
        cases failed
    · rw [callUnchecked_eq] at failed
      cases executed : Machine.execute table.link routine arguments result vm.lent with
      | ok value final =>
        rw [executed] at failed
        cases failed
      | error fault final =>
        rw [executed] at failed upheld small
        cases failed
        exact upheld.tame small
  · intro handle stack performs small issued
    obtain ⟨object, next, got, released⟩ := (performs.honest propagates intact small).release
    cases object with
    | none => exact absurd (HandleTable.get_eq_none_iff.mp got) issued
    | some object => exact ⟨object, next, got, released, HandleTable.get_released released issued⟩

theorem Stocked.references_owned_of_push :
    ∃ m : Machine Unit,
      Machine.Visits (fun _ => none) ⟨⟨"Main", none, [⟨"x", .object⟩]⟩, default⟩ [⟨.object, some (.host ())⟩] none
        (VM.create ⟨2, 1, 0, 0⟩ .silent).lent m ∧
      m.stack.offset = 1 ∧ m.stack.handles.Small ∧ m.stack.Owned := by
  have outcome : (match Machine.onStack (StackM.pushAll [⟨.object, some (.host ())⟩])
      (VM.create ⟨2, 1, 0, 0⟩ .silent : VM Unit).lent with
    | .ok _ m => m.stack.offset == 1 && m.stack.handles.slots.size == 1
    | .error _ _ => false) = true := by decide +kernel
  cases pushing : Machine.onStack (StackM.pushAll [⟨.object, some (.host ())⟩])
      (VM.create ⟨2, 1, 0, 0⟩ .silent : VM Unit).lent with
  | error fault m =>
    rw [pushing] at outcome
    cases outcome
  | ok value m =>
    rw [pushing] at outcome
    simp only [Bool.and_eq_true, beq_iff_eq] at outcome
    have visits : Machine.Visits (fun _ => none) ⟨⟨"Main", none, [⟨"x", .object⟩]⟩, default⟩
        [⟨.object, some (.host ())⟩] none (VM.create ⟨2, 1, 0, 0⟩ .silent).lent m :=
      .pushed (List.append_nil _).symm pushing
    have small : m.stack.handles.Small := by
      unfold HandleTable.Small
      omega
    have propagates : HostTable.Propagates (fun _ : Unit => none) := fun _ _ found => by cases found
    exact ⟨m, visits, outcome.1, small,
      (Stocked.references_owned propagates (stocked_create _ .silent) _ _ _).1 m visits small⟩

end VM

end WordMachine
