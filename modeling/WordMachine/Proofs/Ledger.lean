import WordMachine.Proofs.Activation
import WordMachine.Proofs.BalancedCalls
import WordMachine.Proofs.References

namespace WordMachine

namespace OperandStack

variable {ω : Type}

/-- The books of a stack before and after a step: the handles in use are up by as many as the references on the stack,
and by those references that went without being released. -/
structure Settles (stack final : OperandStack ω) (lost : Nat) : Prop where
  tended : final.Tended
  balance : final.liveHandles + stack.references = stack.liveHandles + final.references + lost

theorem Settles.refl {stack : OperandStack ω} (tended : stack.Tended) : stack.Settles stack 0 :=
  ⟨tended, rfl⟩

theorem Settles.trans {first second third : OperandStack ω} {lost more : Nat} (settles : first.Settles second lost)
    (rest : second.Settles third more) : first.Settles third (lost + more) := by
  have before := settles.balance
  have after := rest.balance
  exact ⟨rest.tended, by omega⟩

end OperandStack

theorem Script.tended_of_ok {ω α : Type} {script : Script ω α} {step : StackM ω α} {stack final : OperandStack ω}
    {value : α} (written : script.run = step) (checked : script.Checked) (tended : stack.Tended)
    (ran : step stack = .ok value final) : final.Tended := by
  have kept := tended_run checked tended
  rw [written, ran] at kept
  exact kept

namespace StackM

variable {ω : Type} {stack final : OperandStack ω}

theorem pushCell_eq_ok {ty : Ty} {cell : Cell ty} (pushed : pushCell ty cell stack = .ok () final) :
    stack.offset + ty.words ≤ stack.capacity ∧
      final = { stack.put stack.offset ty cell with offset := stack.offset + ty.words } := by
  rw [OperandStack.pushCell_eq] at pushed
  split at pushed
  · rename_i room
    cases pushed
    exact ⟨room, rfl⟩
  · cases pushed

theorem popCell_eq_ok {ty : Ty} {cell : Cell ty} (popped : popCell ty stack = .ok cell final) :
    ty.words ≤ stack.offset ∧ stack.tags.get (stack.offset - ty.words) = some ty ∧
      final = { stack with offset := stack.offset - ty.words } := by
  unfold popCell at popped
  split at popped
  · cases popped
  · rename_i enough
    unfold Tags.check at popped
    split at popped
    · cases popped
    · rename_i matching
      split at matching
      · rename_i tag
        cases popped
        exact ⟨Nat.not_lt.mp enough, tag, rfl⟩
      · cases matching

theorem popHandle_eq_ok {handle : Handle} (popped : popCell .object stack = .ok handle final) :
    0 < stack.offset ∧ stack.tags.get (stack.offset - 1) = some .object ∧ handle = stack.handleAt (stack.offset - 1) ∧
      final = { stack with offset := stack.offset - 1 } := by
  obtain ⟨enough, tag, lowered⟩ := popCell_eq_ok popped
  have checked : stack.tags.check (stack.offset - 1) .object = .ok () := if_pos tag
  have positive : 0 < stack.offset := enough
  rw [OperandStack.popHandle_eq, if_neg (by omega), checked] at popped
  cases popped
  exact ⟨positive, tag, rfl, rfl⟩

theorem writeCell_eq_ok {ty : Ty} {slot : Nat} {cell : Cell ty}
    (written : writeCell ty slot cell stack = .ok () final) :
    slot + ty.words ≤ stack.offset ∧ final = stack.put slot ty cell := by
  rw [OperandStack.writeCell_eq] at written
  split at written
  · cases written
  · rename_i live
    cases written
    exact ⟨Nat.not_lt.mp live, rfl⟩

theorem readCell_eq_ok {ty : Ty} {slot : Nat} {cell : Cell ty} (read : readCell ty slot stack = .ok cell final) :
    final = stack ∧ stack.cellAt ty slot = .ok cell := by
  unfold readCell at read
  split at read
  · rename_i found
    cases read
    exact ⟨rfl, found⟩
  · cases read

theorem release_eq_ok {handle : Handle} {object : Option ω} (released : release handle stack = .ok object final) :
    ∃ next, stack.handles.release handle = .ok (object, next) ∧ final = { stack with handles := next } := by
  unfold release at released
  split at released
  · cases released
  · rename_i found next taken
    cases released
    exact ⟨next, taken, rfl⟩

/-- Pushing a value adds the handle that is stored for it. -/
theorem references_pushCell {ty : Ty} {cell : Cell ty} (sound : stack.Sound)
    (pushed : pushCell ty cell stack = .ok () final) :
    final.references = stack.references + Cell.weight ty cell ∧ final.handles = stack.handles := by
  obtain ⟨room, rfl⟩ := pushCell_eq_ok pushed
  exact ⟨OperandStack.references_push sound room, rfl⟩

/-- Taking a handle back takes it off the count. -/
theorem live_release {handle : Handle} {object : Option ω} (consistent : stack.handles.Consistent)
    (released : release handle stack = .ok object final) :
    final.liveHandles + handle.weight = stack.liveHandles ∧ final.references = stack.references := by
  obtain ⟨next, taken, rfl⟩ := release_eq_ok released
  exact ⟨HandleTable.live_add_weight consistent taken, stack.referencesIn_with ..⟩

theorem live_handleFor {object : Option ω} {handle : Handle} (consistent : stack.handles.Consistent)
    (small : final.handles.Small) (issued : handleFor object stack = .ok handle final) :
    final.liveHandles = stack.liveHandles + handle.weight ∧ final.references = stack.references := by
  cases object with
  | none =>
    cases issued
    exact ⟨rfl, rfl⟩
  | some object =>
    have allocated : (.ok (stack.handles.alloc object).1 { stack with handles := (stack.handles.alloc object).2 } :
        EStateM.Result Fault (OperandStack ω) Handle) = .ok handle final := issued
    obtain ⟨rfl, rfl⟩ := EStateM.Result.ok.inj allocated
    refine ⟨?_, stack.referencesIn_with ..⟩
    rw [HandleTable.weight_alloc consistent small]
    exact stack.handles.live_alloc object

theorem settles_pushOperand {ty : Ty} {value : Operand ω ty} (tended : stack.Tended) (small : final.handles.Small)
    (pushed : pushOperand ty value stack = .ok () final) : stack.Settles final 0 := by
  have kept : final.Tended :=
    Script.tended_of_ok (Script.run_pushOperand ..) (Script.checked_pushOperand ty value) tended pushed
  refine ⟨kept, ?_⟩
  cases ty with
  | scalar kind =>
    obtain ⟨counted, same⟩ := references_pushCell tended.sound pushed
    have weightless : Cell.weight (.scalar kind) value = 0 := rfl
    unfold OperandStack.liveHandles
    rw [counted, same, weightless]
    omega
  | object =>
    obtain ⟨_, checked, room, pushed⟩ := bind_eq_ok pushed
    obtain ⟨handle, issued, issuing, pushed⟩ := bind_eq_ok pushed
    rw [eq_of_needRoom room] at issuing
    have ready : issued.Tended :=
      Script.tended_of_ok (Script.run_handleFor ..) (Script.checked_handleFor value) tended issuing
    obtain ⟨counted, same⟩ := references_pushCell ready.sound pushed
    rw [same] at small
    obtain ⟨more, unchanged⟩ := live_handleFor tended.consistent small issuing
    have weight : Cell.weight .object handle = handle.weight := rfl
    unfold OperandStack.liveHandles at more ⊢
    rw [counted, same, more, unchanged, weight]
    omega

/-- Taking a value off the top leaves words and tags as they are. -/
theorem popOperand_eq_ok {ty : Ty} {value : Operand ω ty} (popped : popOperand ty stack = .ok value final) :
    ty.words ≤ stack.offset ∧
      ∃ table, final = { stack with offset := stack.offset - ty.words, handles := table } := by
  cases ty with
  | scalar kind =>
    obtain ⟨enough, _, lowered⟩ := popCell_eq_ok popped
    exact ⟨enough, stack.handles, lowered⟩
  | object =>
    obtain ⟨handle, middle, popping, releasing⟩ := bind_eq_ok popped
    obtain ⟨enough, _, _, rfl⟩ := popHandle_eq_ok popping
    obtain ⟨next, _, lowered⟩ := release_eq_ok releasing
    exact ⟨enough, next, lowered⟩

/-- What is taken off the top is released, unless it is taken for a scalar. -/
theorem settles_popOperand {ty : Ty} {value : Operand ω ty} (tended : stack.Tended)
    (popped : popOperand ty stack = .ok value final) :
    stack.Settles final (stack.buriedAt (stack.offset - ty.words) ty) := by
  have kept : final.Tended :=
    Script.tended_of_ok (Script.run_popOperand ..) (Script.checked_popOperand ty) tended popped
  refine ⟨kept, ?_⟩
  cases ty with
  | scalar kind =>
    obtain ⟨enough, _, rfl⟩ := popCell_eq_ok popped
    rw [stack.references_lower stack.handles enough, OperandStack.buriedAt, ← Nat.add_assoc]
    rfl
  | object =>
    obtain ⟨handle, middle, popping, releasing⟩ := bind_eq_ok popped
    obtain ⟨enough, tag, rfl, rfl⟩ := popHandle_eq_ok popping
    have counted : stack.references = OperandStack.references { stack with offset := stack.offset - 1 } +
        (stack.handleAt (stack.offset - 1)).weight := by
      rw [← OperandStack.weightAt_of_tag tag]
      exact stack.references_lower stack.handles enough
    obtain ⟨fewer, unchanged⟩ := live_release (by exact tended.consistent) releasing
    have live : OperandStack.liveHandles { stack with offset := stack.offset - 1 } = stack.liveHandles := rfl
    rw [OperandStack.buriedAt]
    omega

theorem settles_pushResult {result : Option Ty} {value : Result ω result} (tended : stack.Tended)
    (small : final.handles.Small) (pushed : pushResult result value stack = .ok () final) :
    stack.Settles final 0 := by
  cases result with
  | none =>
    cases pushed
    exact .refl tended
  | some ty => exact settles_pushOperand tended small pushed

theorem settles_writeScalar {kind : Scalar} {slot : Nat} {value : Cell kind} (tended : stack.Tended)
    (written : writeCell kind slot value stack = .ok () final) : stack.Settles final (stack.buriedAt slot kind) := by
  obtain ⟨live, rfl⟩ := writeCell_eq_ok written
  have counted : (stack.put slot kind value).references + stack.buriedAt slot kind = stack.references + 0 :=
    OperandStack.references_put tended.sound live
  refine ⟨⟨tended.sound.put slot kind value, tended.consistent⟩, ?_⟩
  change stack.liveHandles + _ = _
  omega

theorem live_duplicate {handle copy : Handle} (consistent : stack.handles.Consistent) (small : final.handles.Small)
    (duplicated : duplicate handle stack = .ok copy final) :
    final.liveHandles = stack.liveHandles + copy.weight ∧ final.references = stack.references := by
  unfold duplicate at duplicated
  split at duplicated
  · cases duplicated
  · rename_i issued next found
    cases duplicated
    exact ⟨HandleTable.live_duplicate consistent small found,
      stack.referencesIn_with ..⟩

end StackM

namespace Script

variable {ω : Type}

theorem settles_popAll {types : List Ty} {values : Operands ω types} {stack final : OperandStack ω}
    (tended : stack.Tended) (popped : (popAll types).run stack = .ok values final) :
    totalWords types ≤ stack.offset ∧
      (∃ table, final = { stack with offset := stack.offset - totalWords types, handles := table }) ∧
      stack.Settles final (stack.buried (stack.offset - totalWords types) types) := by
  induction types generalizing final with
  | nil =>
    cases popped
    exact ⟨Nat.zero_le _, ⟨stack.handles, rfl⟩, .refl tended⟩
  | cons ty rest ih =>
    simp only [popAll, run_bind, run_popOperand] at popped
    obtain ⟨others, middle, first, popped⟩ := bind_eq_ok popped
    obtain ⟨value, last, second, popped⟩ := bind_eq_ok popped
    cases popped
    obtain ⟨enough, ⟨table, rfl⟩, settles⟩ := ih first
    have more := StackM.settles_popOperand settles.tended second
    obtain ⟨fits, next, rfl⟩ := StackM.popOperand_eq_ok second
    dsimp only at fits more ⊢
    have place : stack.offset - totalWords rest - ty.words = stack.offset - totalWords (ty :: rest) := by
      simp only [totalWords]
      omega
    have above : stack.offset - totalWords (ty :: rest) + ty.words = stack.offset - totalWords rest := by omega
    rw [place] at more ⊢
    rw [OperandStack.buriedAt_with] at more
    rw [OperandStack.buried, above, Nat.add_comm]
    exact ⟨by simp only [totalWords]; omega, ⟨next, rfl⟩, settles.trans more⟩

end Script

namespace Machine

variable {H : Type} {stack final : OperandStack (Object H)}

theorem settles_addScalars {kind : Scalar} {sum : kind.Value → kind.Value → Option kind.Value}
    (tended : stack.Tended) (small : final.handles.Small)
    (added : (Script.addScalars kind sum).run stack = .ok () final) :
    stack.Settles final
      (stack.buried (stack.offset - ((Ty.scalar kind).words + (Ty.scalar kind).words)) [kind, kind]) := by
  simp only [Script.addScalars, Script.run_bind, Script.run_pop] at added
  obtain ⟨b, first, popB, later⟩ := bind_eq_ok added
  obtain ⟨a, second, popA, last⟩ := bind_eq_ok later
  have poppedB : StackM.popOperand kind stack = .ok b first := popB
  have poppedA : StackM.popOperand kind first = .ok a second := popA
  have settlesB := StackM.settles_popOperand tended poppedB
  have settlesA := StackM.settles_popOperand settlesB.tended poppedA
  obtain ⟨enoughB, table, rfl⟩ := StackM.popOperand_eq_ok poppedB
  obtain ⟨enoughA, _⟩ := StackM.popOperand_eq_ok poppedA
  rw [OperandStack.buriedAt_with, Nat.sub_sub] at settlesA
  dsimp only at enoughA
  have above : stack.offset - ((Ty.scalar kind).words + (Ty.scalar kind).words) + (Ty.scalar kind).words =
      stack.offset - (Ty.scalar kind).words := by omega
  rw [OperandStack.buried, above, OperandStack.buried, OperandStack.buried, Nat.add_zero, Nat.add_comm]
  cases summed : sum a b with
  | none =>
    rw [summed] at last
    cases last
  | some total =>
    rw [summed] at last
    have pushed : StackM.pushOperand kind total second = .ok () final :=
      (congrFun (Script.run_push ..) _).symm.trans last
    exact (settlesB.trans settlesA).trans (StackM.settles_pushOperand settlesA.tended small pushed)

theorem settles_addTop {ty : Ty} (tended : stack.Tended) (small : final.handles.Small)
    (added : addTop ty stack = .ok () final) :
    stack.Settles final (stack.buried (stack.offset - (ty.words + ty.words)) [ty, ty]) := by
  rw [← Script.run_addTop] at added
  cases ty with
  | object => cases added
  | scalar kind =>
    simp only [Script.addTop] at added
    cases found : kind.sum? with
    | none =>
      rw [found] at added
      cases added
    | some sum =>
      rw [found] at added
      exact settles_addScalars tended small added

theorem settles_loadLocal {ty : Ty} {slot : Nat} (tended : stack.Tended) (small : final.handles.Small)
    (loaded : loadLocal ty slot stack = .ok () final) : stack.Settles final 0 := by
  have kept : final.Tended :=
    Script.tended_of_ok (Script.run_loadLocal ..) (Script.checked_loadLocal ty slot) tended loaded
  cases ty with
  | scalar kind =>
    obtain ⟨value, middle, read, pushed⟩ := bind_eq_ok loaded
    rw [(StackM.readCell_eq_ok read).1] at pushed
    have copied : StackM.pushOperand kind value stack = .ok () final := pushed
    exact StackM.settles_pushOperand tended small copied
  | object =>
    obtain ⟨handle, middle, read, later⟩ := bind_eq_ok loaded
    rw [(StackM.readCell_eq_ok read).1] at later
    obtain ⟨copy, copied, duplicated, last⟩ := bind_eq_ok later
    unfold pushOwned at last
    split at last
    · rename_i pushedStack pushed
      cases last
      have ready : copied.Tended :=
        Script.tended_of_ok (Script.run_duplicate handle) (Script.checked_call (by trivial)) tended duplicated
      obtain ⟨counted, same⟩ := StackM.references_pushCell ready.sound pushed
      rw [same] at small
      obtain ⟨more, unchanged⟩ := StackM.live_duplicate tended.consistent small duplicated
      have weight : Cell.weight .object copy = copy.weight := rfl
      refine ⟨kept, ?_⟩
      unfold OperandStack.liveHandles at more ⊢
      rw [counted, same, more, unchanged, weight]
      omega
    · split at last <;> cases last

/-- A reference that takes the place of another has it released. -/
theorem storeHandle_eq_ok {slot : Nat} (stored : storeLocal .object slot stack = .ok () final) :
    0 < stack.offset ∧ stack.tags.get (stack.offset - 1) = some .object ∧ slot + 1 ≤ stack.offset - 1 ∧
      stack.tags.get slot = some .object ∧
      ∃ object next, stack.handles.release (stack.handleAt slot) = .ok (object, next) ∧
        final = { OperandStack.put { stack with offset := stack.offset - 1 } slot .object
          (stack.handleAt (stack.offset - 1)) with handles := next } := by
  obtain ⟨handle, popped, popping, stored⟩ := bind_eq_ok stored
  obtain ⟨enough, topTag, rfl, rfl⟩ := StackM.popHandle_eq_ok popping
  obtain ⟨previous, read, reading, stored⟩ := bind_eq_ok stored
  obtain ⟨_, written, writing, stored⟩ := bind_eq_ok stored
  obtain ⟨object, released, releasing, stored⟩ := bind_eq_ok stored
  cases stored
  unfold replacedHandle at reading
  split at reading
  · rename_i found
    cases reading
    obtain ⟨_, tag, rfl⟩ := Script.cellAt_object found
    obtain ⟨live, rfl⟩ := StackM.writeCell_eq_ok writing
    obtain ⟨next, taken, rfl⟩ := StackM.release_eq_ok releasing
    exact ⟨enough, topTag, live, tag, object, next, taken, rfl⟩
  · split at reading <;> cases reading

theorem settles_storeLocal {ty : Ty} {slot : Nat} (tended : stack.Tended)
    (stored : storeLocal ty slot stack = .ok () final) :
    stack.Settles final (stack.buried (stack.offset - ty.words) [ty] + stack.buried slot [ty]) := by
  have kept : final.Tended :=
    Script.tended_of_ok (Script.run_storeLocal ..) (Script.checked_storeLocal ty slot) tended stored
  cases ty with
  | scalar kind =>
    obtain ⟨value, middle, popped, written⟩ := bind_eq_ok stored
    have taken : StackM.popOperand kind stack = .ok value middle := popped
    have settles := StackM.settles_popOperand tended taken
    obtain ⟨_, table, rfl⟩ := StackM.popOperand_eq_ok taken
    have more := StackM.settles_writeScalar settles.tended written
    rw [OperandStack.buriedAt_with] at more
    exact settles.trans more
  | object =>
    obtain ⟨enough, topTag, live, tag, object, next, released, rfl⟩ := storeHandle_eq_ok stored
    have sound := tended.sound
    have bound := sound.offset_le
    have fewer := HandleTable.live_add_weight tended.consistent released
    have popped : stack.references = OperandStack.references { stack with offset := stack.offset - 1 } +
        (stack.handleAt (stack.offset - 1)).weight := by
      rw [← OperandStack.weightAt_of_tag topTag]
      exact stack.references_lower stack.handles enough
    have lower : OperandStack.Sound { stack with offset := stack.offset - 1 } :=
      ⟨sound.memory_size, sound.tags_size, by dsimp only; omega⟩
    have put : (OperandStack.put { stack with offset := stack.offset - 1 } slot .object
          (stack.handleAt (stack.offset - 1))).references + (stack.handleAt slot).weight =
        OperandStack.references { stack with offset := stack.offset - 1 } +
          (stack.handleAt (stack.offset - 1)).weight := by
      rw [← OperandStack.weightAt_of_tag tag]
      exact OperandStack.references_put lower live
    have nothing : stack.buried (stack.offset - Ty.object.words) [.object] + stack.buried slot [.object] = 0 := rfl
    refine ⟨kept, ?_⟩
    generalize OperandStack.put { stack with offset := stack.offset - 1 } slot .object
      (stack.handleAt (stack.offset - 1)) = replaced at put ⊢
    have total : OperandStack.references { replaced with handles := next } = replaced.references :=
      replaced.referencesIn_with ..
    rw [nothing, total]
    unfold OperandStack.liveHandles
    dsimp only
    omega

/-- Of the references among the arguments of a frame, those under scalars are not released. -/
theorem live_releaseArguments {base start : Nat} {types : List Ty} (consistent : stack.handles.Consistent)
    (released : releaseArguments base (slotsFrom start types) stack = .ok () final) :
    ∃ table, final = { stack with handles := table } ∧ table.Consistent ∧
      table.live + stack.referencesIn (base + start) (totalWords types) =
        stack.handles.live + stack.buried (base + start) types := by
  induction types generalizing stack start with
  | nil =>
    cases released
    exact ⟨_, rfl, consistent, rfl⟩
  | cons ty rest ih =>
    have split_words := stack.referencesIn_add (base + start) ty.words (totalWords rest)
    rw [Nat.add_assoc] at split_words
    cases ty with
    | scalar kind =>
      obtain ⟨table, final_eq, kept, balance⟩ := ih consistent released
      refine ⟨table, final_eq, kept, ?_⟩
      rw [totalWords, split_words, OperandStack.buried, OperandStack.buriedAt, Nat.add_assoc base]
      omega
    | object =>
      obtain ⟨handle, read, reading, later⟩ := bind_eq_ok released
      obtain ⟨rfl, found⟩ := StackM.readCell_eq_ok reading
      obtain ⟨object, taken, taking, last⟩ := bind_eq_ok later
      obtain ⟨_, tag, rfl⟩ := Script.cellAt_object found
      obtain ⟨next, releasing, rfl⟩ := StackM.release_eq_ok taking
      obtain ⟨table, final_eq, kept, balance⟩ := ih (consistent.release releasing) last
      have fewer := HandleTable.live_add_weight consistent releasing
      have weight : read.referencesIn (base + start) Ty.object.words = (read.handleAt (base + start)).weight :=
        OperandStack.weightAt_of_tag tag
      refine ⟨table, final_eq, kept, ?_⟩
      rw [OperandStack.referencesIn_with, OperandStack.buried_with] at balance
      rw [totalWords, split_words, weight, OperandStack.buried, OperandStack.buriedAt, Nat.add_assoc base]
      dsimp only at balance
      omega

/-- A return keeps the references of its result and those below its frame, and releases those among the arguments that
it takes for references. -/
theorem settles_leave {frame : Frame H} (tended : stack.Tended) (left : leaveEffect frame stack = .ok () final) :
    stack.Settles final (stack.buried frame.base frame.routine.signature.types) := by
  have kept : final.Tended := by
    have stays := (Script.meets_iff.mp (Script.meets_leave frame tended.sound)).2
    have consistent := (Script.leave frame).consistent_run tended.consistent
    rw [Script.run_leave, left] at stays consistent
    exact ⟨stays.sound, consistent⟩
  obtain ⟨_, checked, checking, later⟩ := bind_eq_ok left
  obtain ⟨same, full⟩ := checkReturn_eq_ok checking
  rw [same] at later
  obtain ⟨_, released, releasing, moving⟩ := bind_eq_ok later
  obtain ⟨table, rfl, _, balance⟩ := live_releaseArguments tended.consistent releasing
  rw [Nat.add_zero, totalWords_types] at balance
  cases moving
  have sound : OperandStack.Sound { stack with handles := table } :=
    ⟨tended.sound.memory_size, tended.sound.tags_size, tended.sound.offset_le⟩
  have moved := OperandStack.references_moved sound
    (Nat.le_add_right frame.base frame.routine.signature.argumentWords) (Nat.le_of_eq full.symm)
  simp only [OperandStack.referencesIn_with] at moved
  have parts : stack.references = stack.referencesIn 0 frame.base +
      stack.referencesIn frame.base frame.routine.signature.argumentWords +
      stack.referencesIn (frame.base + frame.routine.signature.argumentWords) frame.routine.signature.returnWords := by
    rw [OperandStack.references, full, OperandStack.referencesIn_add, OperandStack.referencesIn_add, Nat.zero_add,
      Nat.zero_add]
  refine ⟨kept, ?_⟩
  change table.live + stack.references = stack.handles.live + (OperandStack.moved { stack with handles := table } _ _
    frame.routine.signature.returnWords).references + _
  omega

theorem settles_adapter {adapter : Adapter (Object H)} (tended : stack.Tended) (small : final.handles.Small)
    (called : externalEffect adapter.external stack = .ok () final) :
    stack.Settles final
      (stack.buried (stack.offset - totalWords adapter.parameters) adapter.parameters) := by
  obtain ⟨base, found, under, later⟩ := bind_eq_ok called
  obtain ⟨_, answered, answering, checking⟩ := bind_eq_ok later
  have unchanged : found = stack := by
    unfold slotUnder at under
    split at under
    · cases under
    · cases under
      rfl
  have checked : final = answered := by
    unfold checkExternal at checking
    split at checking
    · cases checking
      rfl
    · cases checking
  rw [unchanged] at answering
  subst checked
  have ran : adapter.script.run stack = .ok () final := answering
  simp only [Adapter.script, Script.run_bind, Script.run_pushResult] at ran
  obtain ⟨values, popped, popping, pushing⟩ := bind_eq_ok ran
  obtain ⟨_, _, settles⟩ := Script.settles_popAll tended popping
  exact settles.trans (StackM.settles_pushResult settles.tended small pushing)

end Machine

end WordMachine
