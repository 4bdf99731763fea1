import WordMachine.Proofs.Bounds
import WordMachine.Proofs.Ownership

namespace WordMachine

/-- A fault that does not blame a handle. -/
def Fault.Tame : Fault → Prop
  | .invalidHandle _ => False
  | _ => True

theorem Fault.tame_iff {fault : Fault} : fault.Tame ↔ ∀ handle, fault ≠ .invalidHandle handle := by
  cases fault <;> simp [Tame]

/-- Wherever a handle is resolved, copied or taken back, it refers to something. -/
def Access.Honest {ω : Type} : Access ω → OperandStack ω → Prop
  | .duplicate handle, stack => stack.handles.Small → stack.handles.Refers handle
  | .resolve handle, stack => stack.handles.Small → stack.handles.Refers handle
  | .release handle, stack => stack.handles.Small → stack.handles.Refers handle
  | _, _ => True

namespace Script

variable {ω α β : Type}

/-- What is left after a fault. References need not be in order then, but no handle is blamed. -/
structure Failed (fault : Fault) (final : OperandStack ω) : Prop where
  sound : final.Sound
  consistent : final.handles.Consistent
  tame : final.handles.Small → fault.Tame

/-- An outcome that is as expected, or a fault that blames no handle. -/
def Good (post : α → OperandStack ω → Prop) : EStateM.Result Fault (OperandStack ω) α → Prop
  | .ok value final => post value final
  | .error fault final => Failed fault final

theorem Meets.andThen {script : Script ω α} {next : α → Script ω β} {stack : OperandStack ω}
    {middle : α → OperandStack ω → Prop} {post : β → OperandStack ω → Prop}
    (first : script.Meets Access.Honest stack (Good middle))
    (rest : ∀ value final, middle value final → (next value).Meets Access.Honest final (Good post)) :
    (script >>= next).Meets Access.Honest stack (Good post) := by
  refine Meets.bind (first.mono ?_)
  rintro (⟨value, final⟩ | ⟨fault, final⟩) good
  · exact rest value final good
  · exact good

variable {stack : OperandStack ω} {owner : Nat → Prop} {held : Handle}

theorem failed_of_keeps {fault : Fault} (keeps : stack.Keeps owner held) (tame : fault.Tame) : Failed fault stack :=
  ⟨keeps.sound, keeps.consistent, fun _ => tame⟩

theorem cellAt_error_tame {ty : Ty} {slot : Nat} {fault : Fault} (failed : stack.cellAt ty slot = .error fault) :
    fault.Tame := by
  unfold OperandStack.cellAt at failed
  split at failed
  · cases failed
    trivial
  · cases checked : stack.tags.check slot ty with
    | ok _ =>
      rw [checked] at failed
      cases failed
    | error other =>
      rw [checked] at failed
      cases failed
      unfold Tags.check at checked
      split at checked
      · cases checked
      · cases checked
        trivial

/-- A handle that is read belongs to a live reference. -/
theorem cellAt_object {slot : Nat} {handle : Handle} (read : stack.cellAt .object slot = .ok handle) :
    slot < stack.offset ∧ stack.tags.get slot = some .object ∧ handle = stack.handleAt slot := by
  unfold OperandStack.cellAt at read
  split at read
  · cases read
  · rename_i live
    have one : Ty.object.words = 1 := rfl
    cases checked : stack.tags.check slot .object with
    | error other =>
      rw [checked] at read
      cases read
    | ok _ =>
      rw [checked] at read
      unfold Tags.check at checked
      split at checked
      · rename_i tag
        exact ⟨by omega, tag, (Except.ok.inj read).symm.trans (Bytes.ofBits_load ..)⟩
      · cases checked

theorem meets_needRoom (words : Nat) (keeps : stack.Keeps owner held) :
    (needRoom words).Meets Access.Honest stack (Good fun _ final => final = stack) := by
  refine meets_call trivial ?_
  simp only [Access.perform, StackM.needRoom]
  split
  · exact rfl
  · exact failed_of_keeps keeps trivial

theorem meets_usage :
    (usage : Script ω Usage).Meets Access.Honest stack
      (Good fun used final => final = stack ∧ used.offset = stack.offset) :=
  meets_call trivial ⟨rfl, rfl⟩

theorem meets_describe (ty : Ty) (slot : Nat) :
    (describe ty slot : Script ω String).Meets Access.Honest stack (Good fun _ final => final = stack) :=
  meets_call trivial rfl

theorem meets_pushScalar (kind : Scalar) (value : Cell kind) (intact : stack.Intact) :
    (push kind value).Meets Access.Honest stack (Good fun _ final => final.Intact) := by
  refine meets_call trivial ?_
  simp only [Access.perform, OperandStack.pushCell_eq]
  split
  · rename_i room
    have stored : (stack.put stack.offset kind value).Keeps
        (fun slot => slot < stack.offset + (Ty.scalar kind).words) Handle.null := by
      refine OperandStack.Keeps.put_scalar intact room fun place inside => ?_
      by_cases live : place < stack.offset
      · exact .inl live
      · exact .inr ⟨by omega, inside⟩
    exact stored.setOffset room
  · exact failed_of_keeps intact trivial

theorem intact_pushHandle (keeps : stack.Keeps stack.Live held) (room : stack.offset < stack.capacity) :
    OperandStack.Intact { stack.putHandle stack.offset held with offset := stack.offset + 1 } := by
  have stored : (stack.putHandle stack.offset held).Keeps (fun slot => slot < stack.offset + 1) Handle.null := by
    refine keeps.putHandle room fun place inside => ?_
    by_cases live : place < stack.offset
    · exact .inl live
    · exact .inr (by omega)
  have inside : stack.offset + 1 ≤ (stack.putHandle stack.offset held).capacity := by
    rw [OperandStack.capacity_putHandle]
    exact room
  exact stored.setOffset inside

theorem meets_pushHandle (keeps : stack.Keeps stack.Live held) :
    (push .object held).Meets Access.Honest stack (Good fun _ final => final.Intact) := by
  refine meets_call trivial ?_
  simp only [Access.perform, OperandStack.pushHandle_eq]
  split
  · exact intact_pushHandle keeps (by assumption)
  · exact failed_of_keeps keeps trivial

theorem meets_popScalar (kind : Scalar) (intact : stack.Intact) :
    (pop kind).Meets Access.Honest stack (Good fun _ final => final.Intact) := by
  refine meets_call trivial ?_
  simp only [Access.perform, StackM.popCell]
  split
  · exact failed_of_keeps intact trivial
  · cases checked : stack.tags.check (stack.offset - (Ty.scalar kind).words) kind with
    | error fault =>
      unfold Tags.check at checked
      split at checked
      · cases checked
      · cases checked
        exact failed_of_keeps intact trivial
    | ok _ =>
      have bound := intact.sound.offset_le
      have lower : stack.Keeps (fun slot => slot < stack.offset - (Ty.scalar kind).words) Handle.null :=
        intact.mono fun slot inside => Nat.lt_of_lt_of_le inside (Nat.sub_le ..)
      exact lower.setOffset (by omega)

theorem meets_popHandle (intact : stack.Intact) :
    (pop .object).Meets Access.Honest stack (Good fun handle final => final.Keeps final.Live handle) := by
  refine meets_call trivial ?_
  simp only [Access.perform, OperandStack.popHandle_eq]
  split
  · exact failed_of_keeps intact trivial
  · rename_i enough
    cases checked : stack.tags.check (stack.offset - 1) .object with
    | error fault =>
      unfold Tags.check at checked
      split at checked
      · cases checked
      · cases checked
        exact failed_of_keeps intact trivial
    | ok _ =>
      have bound := intact.sound.offset_le
      unfold Tags.check at checked
      split at checked
      · rename_i tag
        have top : stack.offset - 1 < stack.offset := by omega
        have taken := OperandStack.Keeps.take intact ⟨top, tag⟩
        have lower : stack.Keeps (fun slot => slot < stack.offset - 1) (stack.handleAt (stack.offset - 1)) :=
          taken.mono fun slot inside => ⟨Nat.lt_trans inside top, by omega⟩
        exact lower.setOffset (by omega)
      · cases checked

theorem meets_alloc (object : ω) (keeps : stack.Keeps owner Handle.null) :
    (alloc object).Meets Access.Honest stack
      (Good fun handle final => final.Keeps owner handle ∧ final.offset = stack.offset) :=
  meets_call trivial ⟨keeps.alloc object, rfl⟩

theorem meets_release (keeps : stack.Keeps owner held) :
    (release held).Meets Access.Honest stack
      (Good fun _ final => final.Keeps owner Handle.null ∧ final.offset = stack.offset) := by
  refine meets_call (fun small => (keeps.owns small).held_refers) ?_
  simp only [Access.perform, StackM.release]
  cases released : stack.handles.release held with
  | ok outcome => exact ⟨keeps.release released, rfl⟩
  | error fault =>
    refine ⟨keeps.sound, keeps.consistent, fun small => ?_⟩
    obtain ⟨object, next, _, done⟩ := (keeps.owns small).held_refers.release
    rw [released] at done
    cases done

/-- A copy of a handle is a handle of its own. -/
theorem meets_duplicate {handle : Handle} (keeps : stack.Keeps owner Handle.null)
    (refers : stack.handles.Small → stack.handles.Refers handle) :
    (duplicate handle).Meets Access.Honest stack
      (Good fun copy final => final.Keeps owner copy ∧ final.offset = stack.offset) := by
  refine meets_call refers ?_
  simp only [Access.perform, StackM.duplicate, HandleTable.duplicate]
  cases got : stack.handles.get handle with
  | error fault =>
    refine ⟨keeps.sound, keeps.consistent, fun small => ?_⟩
    obtain ⟨object, found⟩ := refers small
    rw [got] at found
    cases found
  | ok object =>
    cases object with
    | none => exact ⟨keeps, rfl⟩
    | some object => exact ⟨keeps.alloc object, rfl⟩

theorem meets_resolve {handle : Handle} (keeps : stack.Keeps owner held)
    (refers : stack.handles.Small → stack.handles.Refers handle) :
    (resolve handle).Meets Access.Honest stack (Good fun _ final => final = stack) := by
  refine meets_call refers ?_
  simp only [Access.perform]
  cases got : stack.handles.get handle with
  | ok object => exact rfl
  | error fault =>
    refine ⟨keeps.sound, keeps.consistent, fun small => ?_⟩
    obtain ⟨object, found⟩ := refers small
    rw [got] at found
    cases found

theorem meets_readScalar (kind : Scalar) (slot : Nat) (keeps : stack.Keeps owner held) :
    (read kind slot).Meets Access.Honest stack (Good fun _ final => final = stack) := by
  refine meets_call trivial ?_
  simp only [Access.perform, StackM.readCell]
  cases found : stack.cellAt kind slot with
  | ok cell => exact rfl
  | error fault => exact failed_of_keeps keeps (cellAt_error_tame found)

theorem meets_readHandle (slot : Nat) (keeps : stack.Keeps owner held) :
    (read .object slot).Meets Access.Honest stack (Good fun handle final =>
      final = stack ∧ slot < stack.offset ∧ stack.tags.get slot = some .object ∧ handle = stack.handleAt slot) := by
  refine meets_call trivial ?_
  simp only [Access.perform, StackM.readCell]
  cases found : stack.cellAt .object slot with
  | ok cell => exact ⟨rfl, cellAt_object found⟩
  | error fault => exact failed_of_keeps keeps (cellAt_error_tame found)

theorem meets_writeScalar (kind : Scalar) (slot : Nat) (value : Cell kind) (intact : stack.Intact) :
    (write kind slot value).Meets Access.Honest stack (Good fun _ final => final.Intact) := by
  refine meets_call trivial ?_
  simp only [Access.perform, OperandStack.writeCell_eq]
  split
  · exact failed_of_keeps intact trivial
  · have bound := intact.sound.offset_le
    exact OperandStack.Keeps.put_scalar intact (by omega) fun place inside => .inl inside

/-- A handle takes the place of the one that was read from a slot. -/
theorem meets_replace {slot : Nat} (keeps : stack.Keeps stack.Live held) (live : slot < stack.offset)
    (tag : stack.tags.get slot = some .object) :
    (write .object slot held).Meets Access.Honest stack
      (Good fun _ final => final.Keeps final.Live (stack.handleAt slot)) := by
  refine meets_call trivial ?_
  simp only [Access.perform, OperandStack.writeHandle_eq]
  split
  · exact failed_of_keeps keeps trivial
  · have bound := keeps.sound.offset_le
    have swapped := keeps.swap (by omega) ⟨live, tag⟩
    have same : (stack.putHandle slot held).Live = stack.Live := by
      unfold OperandStack.Live
      rw [OperandStack.offset_putHandle]
    change (stack.putHandle slot held).Keeps (stack.putHandle slot held).Live (stack.handleAt slot)
    rw [same]
    exact swapped

theorem live_congr {final : OperandStack ω} (same : final.offset = stack.offset) : final.Live = stack.Live := by
  unfold OperandStack.Live
  rw [same]

theorem intact_of_keeps {final : OperandStack ω} (keeps : final.Keeps stack.Live Handle.null)
    (same : final.offset = stack.offset) : final.Intact := by
  unfold OperandStack.Intact
  rw [live_congr same]
  exact keeps

theorem meets_pure {post : α → OperandStack ω → Prop} {value : α} (holds : post value stack) :
    (pure value : Script ω α).Meets Access.Honest stack (Good post) :=
  holds

theorem meets_raise {post : α → OperandStack ω → Prop} {fault : Fault} (keeps : stack.Keeps owner held)
    (tame : fault.Tame) : (fail fault : Script ω α).Meets Access.Honest stack (Good post) :=
  failed_of_keeps keeps tame

theorem meets_handleFor (object : Option ω) (keeps : stack.Keeps owner Handle.null) :
    (handleFor object).Meets Access.Honest stack
      (Good fun handle final => final.Keeps owner handle ∧ final.offset = stack.offset) := by
  cases object with
  | none => exact meets_pure ⟨keeps, rfl⟩
  | some object => exact meets_alloc object keeps

theorem meets_pushOperand (ty : Ty) (value : Operand ω ty) (intact : stack.Intact) :
    (pushOperand ty value).Meets Access.Honest stack (Good fun _ final => final.Intact) := by
  cases ty with
  | scalar kind => exact meets_pushScalar kind value intact
  | object =>
    refine (meets_needRoom _ intact).andThen ?_
    rintro _ _ rfl
    refine (meets_handleFor value intact).andThen ?_
    rintro handle final ⟨keeps, same⟩
    exact meets_pushHandle (live_congr same ▸ keeps)

theorem meets_popOperand (ty : Ty) (intact : stack.Intact) :
    (popOperand ty : Script ω _).Meets Access.Honest stack (Good fun _ final => final.Intact) := by
  cases ty with
  | scalar kind => exact meets_popScalar kind intact
  | object =>
    refine (meets_popHandle intact).andThen ?_
    rintro handle middle keeps
    refine (meets_release keeps).mono ?_
    rintro (⟨object, final⟩ | ⟨fault, final⟩) good
    · exact intact_of_keeps good.1 good.2
    · exact good

theorem meets_popResult (result : Option Ty) (intact : stack.Intact) :
    (popResult result : Script ω _).Meets Access.Honest stack (Good fun _ final => final.Intact) := by
  cases result with
  | none => exact meets_pure intact
  | some ty => exact meets_popOperand ty intact

theorem meets_pushAll (arguments : List (Argument ω)) (intact : stack.Intact) :
    (pushAll arguments).Meets Access.Honest stack (Good fun _ final => final.Intact) := by
  induction arguments generalizing stack with
  | nil => exact meets_pure intact
  | cons argument rest ih =>
    exact (meets_pushOperand argument.ty argument.value intact).andThen fun _ _ kept => ih kept

theorem meets_peekObject (intact : stack.Intact) :
    (peekObject : Script ω _).Meets Access.Honest stack (Good fun _ final => final.Intact) := by
  refine meets_usage.andThen ?_
  rintro used _ ⟨rfl, offset⟩
  split
  · exact meets_raise intact trivial
  · refine (meets_readHandle _ intact).andThen ?_
    rintro handle _ ⟨rfl, live, tag, rfl⟩
    refine (meets_resolve intact fun small => (intact.owns small).refers _ ⟨live, tag⟩).mono ?_
    rintro (⟨object, final⟩ | ⟨fault, final⟩) good
    · cases good
      exact intact
    · exact good

theorem meets_operation (operation : HostOperation ω) (intact : stack.Intact) :
    operation.script.Meets Access.Honest stack (Good fun _ final => final.Intact) := by
  cases operation with
  | push ty value => exact meets_pushOperand ty value intact
  | pop ty => exact meets_popOperand ty intact
  | read kind slot =>
    refine (meets_readScalar kind slot intact).mono ?_
    rintro (⟨object, final⟩ | ⟨fault, final⟩) good
    · cases good
      exact intact
    · exact good
  | write kind slot value => exact meets_writeScalar kind slot value intact
  | peek => exact meets_peekObject intact
  | usage =>
    refine meets_usage.mono ?_
    rintro (⟨object, final⟩ | ⟨fault, final⟩) good
    · cases good.1
      exact intact
    · exact good

/-- Host code that passes faults on keeps references in order. -/
theorem Propagating.meets {script : Script ω α} (propagating : script.Propagating) (intact : stack.Intact) :
    script.Meets Access.Honest stack (Good fun _ final => final.Intact) := by
  induction propagating generalizing stack with
  | done value => exact meets_pure intact
  | fail fault own => exact meets_raise intact (Fault.tame_iff.mpr own)
  | operation operation => exact meets_operation operation intact
  | bind first rest ihFirst ihRest => exact Meets.andThen (ihFirst intact) fun value _ kept => ihRest value kept

theorem meets_returning {fault : Fault} {post : α → OperandStack ω → Prop} (keeps : stack.Keeps owner held)
    (tame : fault.Tame) : (returning held fault : Script ω α).Meets Access.Honest stack (Good post) :=
  (meets_release keeps).andThen fun _ _ kept => meets_raise kept.1 tame

theorem meets_pushConstant (constants : ConstantPool ω) (ty : Ty) (position : Position) (intact : stack.Intact) :
    (pushConstant constants ty position).Meets Access.Honest stack (Good fun _ final => final.Intact) := by
  unfold pushConstant
  split
  · exact meets_pushOperand ty _ intact
  · exact meets_raise intact trivial

theorem meets_addTop (ty : Ty) (intact : stack.Intact) :
    (addTop ty : Script ω Unit).Meets Access.Honest stack (Good fun _ final => final.Intact) := by
  cases ty with
  | object => exact meets_raise intact trivial
  | scalar kind =>
    simp only [addTop]
    split
    · exact meets_raise intact trivial
    · refine (meets_popScalar kind intact).andThen fun b _ first => ?_
      refine (meets_popScalar kind first).andThen fun a _ second => ?_
      split
      · exact meets_pushScalar kind _ second
      · exact meets_raise second trivial

theorem meets_pushOwned (keeps : stack.Keeps stack.Live held) :
    (pushOwned held : Script ω Unit).Meets Access.Honest stack (Good fun _ final => final.Intact) := by
  simp only [pushOwned, Meets, Access.perform, OperandStack.pushHandle_eq]
  refine ⟨trivial, ?_⟩
  by_cases room : stack.offset < stack.capacity
  · simp only [if_pos room]
    exact intact_pushHandle keeps room
  · simp only [if_neg room]
    exact meets_returning keeps trivial

theorem meets_loadLocal (ty : Ty) (slot : Nat) (intact : stack.Intact) :
    (loadLocal ty slot : Script ω Unit).Meets Access.Honest stack (Good fun _ final => final.Intact) := by
  cases ty with
  | scalar kind =>
    refine (meets_readScalar kind slot intact).andThen ?_
    rintro value _ rfl
    exact meets_pushScalar kind value intact
  | object =>
    refine (meets_readHandle slot intact).andThen ?_
    rintro handle _ ⟨rfl, live, tag, rfl⟩
    refine (meets_duplicate intact fun small => (intact.owns small).refers slot ⟨live, tag⟩).andThen ?_
    rintro copy final ⟨keeps, same⟩
    exact meets_pushOwned (live_congr same ▸ keeps)

theorem meets_replacedHandle (slot : Nat) (keeps : stack.Keeps owner held) :
    (replacedHandle held slot : Script ω Handle).Meets Access.Honest stack (Good fun previous final =>
      final = stack ∧ slot < stack.offset ∧ stack.tags.get slot = some .object ∧
        previous = stack.handleAt slot) := by
  simp only [replacedHandle, Meets, Access.perform, StackM.readCell]
  refine ⟨trivial, ?_⟩
  cases found : stack.cellAt .object slot with
  | ok cell => exact ⟨rfl, cellAt_object found⟩
  | error fault => exact meets_returning keeps (cellAt_error_tame found)

theorem meets_storeLocal (ty : Ty) (slot : Nat) (intact : stack.Intact) :
    (storeLocal ty slot : Script ω Unit).Meets Access.Honest stack (Good fun _ final => final.Intact) := by
  cases ty with
  | scalar kind =>
    exact (meets_popScalar kind intact).andThen fun value _ popped => meets_writeScalar kind slot value popped
  | object =>
    refine (meets_popHandle intact).andThen fun handle popped keeps => ?_
    refine (meets_replacedHandle slot keeps).andThen ?_
    rintro previous _ ⟨rfl, live, tag, rfl⟩
    refine (meets_replace keeps live tag).andThen fun _ written kept => ?_
    refine (meets_release kept).andThen fun _ final done => ?_
    exact meets_pure (intact_of_keeps done.1 done.2)

theorem meets_slotUnder (words : Nat) (intact : stack.Intact) :
    (slotUnder words : Script ω Nat).Meets Access.Honest stack (Good fun _ final => final = stack) := by
  refine meets_usage.andThen ?_
  rintro used _ ⟨rfl, _⟩
  split
  · exact meets_raise intact trivial
  · exact meets_pure rfl

theorem meets_describeAll (base : Nat) (slots : List (Nat × Ty)) :
    (describeAll base slots : Script ω Unit).Meets Access.Honest stack (Good fun _ final => final = stack) := by
  induction slots with
  | nil => exact meets_pure rfl
  | cons entry rest ih =>
    refine (meets_describe entry.2 (base + entry.1)).andThen ?_
    rintro _ _ rfl
    exact ih

theorem meets_callCode {code : HostCode ω} (propagating : code.body.Propagating) (intact : stack.Intact) :
    (callCode code).Meets Access.Honest stack (Good fun _ final => final.Intact) := by
  refine (meets_slotUnder _ intact).andThen ?_
  rintro base _ rfl
  refine (propagating.meets intact).andThen fun _ final kept => ?_
  refine meets_usage.andThen ?_
  rintro used _ ⟨rfl, _⟩
  split
  · exact meets_pure kept
  · exact meets_raise kept trivial

end Script

end WordMachine
