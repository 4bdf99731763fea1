import WordMachine.Proofs.Beyond
import WordMachine.Proofs.InstructionScript

namespace WordMachine

theorem OperandStack.live_of_cellAt {ω : Type} {stack : OperandStack ω} {ty : Ty} {slot : Nat} {cell : Cell ty}
    (found : stack.cellAt ty slot = .ok cell) : slot + ty.words ≤ stack.offset := by
  refine Nat.not_lt.mp fun dead => ?_
  cases (if_pos dead).symm.trans found

namespace Access

variable {ω : Type} {stack : OperandStack ω}

/-- Whatever an operation stores or loads where it is carried out lies inside the stack. A value that it loads or
replaces is alive. -/
def Confined : Access ω → OperandStack ω → Prop
  | push ty cell, stack => ∀ reply final, (push ty cell).perform stack = .ok reply final →
    stack.Inside stack.offset ty
  | pop ty, stack => ∀ reply final, (pop ty).perform stack = .ok reply final →
    ∃ slot, slot + ty.words = stack.offset ∧ stack.Inside slot ty
  | read ty slot, stack => ∀ reply final, (read ty slot).perform stack = .ok reply final →
    slot + ty.words ≤ stack.offset ∧ stack.Inside slot ty
  | write ty slot cell, stack => ∀ reply final, (write ty slot cell).perform stack = .ok reply final →
    slot + ty.words ≤ stack.offset ∧ stack.Inside slot ty
  | describe ty slot, stack => ∀ cell, stack.cellAt ty slot = .ok cell →
    slot + ty.words ≤ stack.offset ∧ stack.Inside slot ty
  | moveDown src dst words, stack =>
    dst ≤ src ∧ src + words ≤ stack.offset ∧ (src + words) * wordSize ≤ stack.memory.size ∧
      src + words ≤ stack.tags.size
  | setOffset offset, stack => offset ≤ stack.capacity
  | _, _ => True

/-- An operation never leaves the stack: what it stores or loads lies inside, and it goes on in the same way whatever
lies behind the end, and leaves that as it is. -/
structure InBounds (access : Access ω) (stack : OperandStack ω) : Prop where
  confined : access.Confined stack
  perform_followedBy (beyond : Beyond) :
    access.perform (stack.followedBy beyond) = onState (·.followedBy beyond) (access.perform stack)

/-- Operations whose own checks are all that keeps them inside the stack. -/
def Checked : Access ω → Prop
  | moveDown _ _ _ => False
  | setOffset _ => False
  | _ => True

theorem Checked.asserted {access : Access ω} (checked : access.Checked) : access.Asserted stack := by
  cases access <;> first | exact checked.elim | exact trivial

theorem confined_of_sound {access : Access ω} (asserted : access.Asserted stack) (sound : stack.Sound) :
    access.Confined stack := by
  have used := sound.offset_le
  have reached {slot : Nat} {ty : Ty} (live : slot + ty.words ≤ stack.offset) :
      slot + ty.words ≤ stack.offset ∧ stack.Inside slot ty := ⟨live, sound.inside (by omega)⟩
  cases access with
  | push ty cell =>
    intro reply final performed
    by_cases room : stack.offset + ty.words ≤ stack.capacity
    · exact sound.inside room
    · cases (if_neg room).symm.trans performed
  | pop ty =>
    intro reply final performed
    by_cases short : stack.offset < ty.words
    · cases (if_pos short).symm.trans performed
    · exact ⟨stack.offset - ty.words, by omega, sound.inside (by omega)⟩
  | read ty slot =>
    intro reply final performed
    cases found : stack.cellAt ty slot with
    | ok cell => exact reached (OperandStack.live_of_cellAt found)
    | error fault =>
      simp only [perform, StackM.readCell, found] at performed
      cases performed
  | write ty slot cell =>
    intro reply final performed
    by_cases dead : stack.offset < slot + ty.words
    · cases (if_pos dead).symm.trans performed
    · exact reached (Nat.not_lt.mp dead)
  | describe ty slot => exact fun cell found => reached (OperandStack.live_of_cellAt found)
  | moveDown src dst words =>
    obtain ⟨down, live⟩ := asserted
    refine ⟨down, live, ?_, ?_⟩
    · rw [sound.memory_size]
      exact Nat.mul_le_mul_right _ (by omega)
    · rw [sound.tags_size]
      omega
  | setOffset offset => exact asserted
  | needRoom | alloc | duplicate | resolve | release | usage => exact trivial

theorem InBounds.asserted {access : Access ω} (inBounds : access.InBounds stack) : access.Asserted stack := by
  have confined := inBounds.confined
  cases access with
  | moveDown src dst words => exact ⟨confined.1, confined.2.1⟩
  | setOffset offset => exact confined
  | _ => exact trivial

theorem inBounds_of_sound {access : Access ω} (asserted : access.Asserted stack) (sound : stack.Sound) :
    access.InBounds stack :=
  ⟨confined_of_sound asserted sound, perform_followedBy asserted sound⟩

/-- A stack before and after a step: it stays sound and keeps its capacity. -/
structure Stays (before after : OperandStack ω) : Prop where
  sound : after.Sound
  capacity : after.capacity = before.capacity

theorem Stays.refl {stack : OperandStack ω} (sound : stack.Sound) : Stays stack stack :=
  ⟨sound, rfl⟩

theorem Stays.trans {first second third : OperandStack ω} (start : Stays first second) (rest : Stays second third) :
    Stays first third :=
  ⟨rest.sound, rest.capacity.trans start.capacity⟩

theorem stays_perform {access : Access ω} (asserted : access.Asserted stack) (sound : stack.Sound) :
    Stays stack (finalState (access.perform stack)) := by
  have used := sound.offset_le
  cases access with
  | push ty cell =>
    simp only [perform, StackM.pushCell]
    split
    · rename_i room
      refine ⟨⟨?_, ?_, room⟩, rfl⟩
      · exact (Bytes.size_store ..).trans sound.memory_size
      · exact (Tags.size_record ..).trans sound.tags_size
    · exact .refl sound
  | pop ty =>
    simp only [perform, StackM.popCell]
    split
    · exact .refl sound
    · cases stack.tags.check (stack.offset - ty.words) ty with
      | error fault => exact .refl sound
      | ok _ => exact ⟨⟨sound.memory_size, sound.tags_size, Nat.le_trans (Nat.sub_le ..) used⟩, rfl⟩
  | read ty slot =>
    simp only [perform, StackM.readCell]
    cases stack.cellAt ty slot <;> exact .refl sound
  | write ty slot cell =>
    simp only [perform, StackM.writeCell]
    split
    · exact .refl sound
    · refine ⟨⟨?_, ?_, used⟩, rfl⟩
      · exact (Bytes.size_store ..).trans sound.memory_size
      · exact (Tags.size_record ..).trans sound.tags_size
  | describe ty slot => exact .refl sound
  | needRoom words =>
    simp only [perform, StackM.needRoom]
    split <;> exact .refl sound
  | alloc object => exact ⟨⟨sound.memory_size, sound.tags_size, used⟩, rfl⟩
  | duplicate handle =>
    simp only [perform, StackM.duplicate]
    cases stack.handles.duplicate handle with
    | error fault => exact .refl sound
    | ok copy => exact ⟨⟨sound.memory_size, sound.tags_size, used⟩, rfl⟩
  | resolve handle =>
    simp only [perform]
    cases stack.handles.get handle <;> exact .refl sound
  | release handle =>
    simp only [perform, StackM.release]
    cases stack.handles.release handle with
    | error fault => exact .refl sound
    | ok object => exact ⟨⟨sound.memory_size, sound.tags_size, used⟩, rfl⟩
  | moveDown src dst words =>
    exact ⟨⟨(size_copyBlock ..).trans sound.memory_size, (size_copyBlock ..).trans sound.tags_size, used⟩, rfl⟩
  | setOffset offset => exact ⟨⟨sound.memory_size, sound.tags_size, asserted⟩, rfl⟩
  | usage => exact .refl sound

end Access

namespace Script

variable {ω α β : Type}

/-- A script whose operations all check for themselves that they stay inside the stack. -/
def Checked : Script ω α → Prop
  | done _ => True
  | fail _ => True
  | act access next => access.Checked ∧ ∀ reply, (next reply).Checked

theorem Checked.resume {script : Script ω α} {next : Except Fault α → Script ω β} (first : script.Checked)
    (rest : ∀ outcome, (next outcome).Checked) : (script.resume next).Checked := by
  induction script with
  | done value => exact rest _
  | fail fault => exact rest _
  | act access later ih => exact ⟨first.1, fun reply => ih reply (first.2 reply)⟩

theorem Checked.bind {script : Script ω α} {next : α → Script ω β} (first : script.Checked)
    (rest : ∀ value, (next value).Checked) : (script >>= next).Checked := by
  refine first.resume fun outcome => ?_
  cases outcome with
  | ok value => exact rest value
  | error fault => exact trivial

theorem checked_call {access : Access ω} (checked : access.Checked) : (call access).Checked := by
  refine ⟨checked, fun reply => ?_⟩
  cases reply <;> exact trivial

theorem meets_of_checked {script : Script ω α} {stack : OperandStack ω} (checked : script.Checked)
    (sound : stack.Sound) :
    script.Meets Access.InBounds stack fun outcome => Access.Stays stack (finalState outcome) := by
  induction script generalizing stack with
  | done value => exact .refl sound
  | fail fault => exact .refl sound
  | act access next ih =>
    simp only [Meets]
    refine ⟨Access.inBounds_of_sound checked.1.asserted sound, ?_⟩
    have stays := Access.stays_perform checked.1.asserted sound
    cases ran : access.perform stack with
    | ok reply final =>
      rw [ran] at stays
      exact (ih (.ok reply) (checked.2 _) stays.sound).mono fun _ later => stays.trans later
    | error fault final =>
      rw [ran] at stays
      exact (ih (.error fault) (checked.2 _) stays.sound).mono fun _ later => stays.trans later

theorem checked_handleFor (object : Option ω) : (handleFor object).Checked := by
  cases object with
  | none => exact trivial
  | some object => exact checked_call (by trivial)

theorem checked_pushOperand (ty : Ty) (value : Operand ω ty) : (pushOperand ty value).Checked := by
  cases ty with
  | scalar kind => exact checked_call (by trivial)
  | object =>
    exact (checked_call (by trivial)).bind fun _ => (checked_handleFor value).bind fun _ => checked_call (by trivial)

theorem checked_popOperand (ty : Ty) : (popOperand ty : Script ω _).Checked := by
  cases ty with
  | scalar kind => exact checked_call (by trivial)
  | object => exact (checked_call (by trivial)).bind fun _ => checked_call (by trivial)

theorem checked_popResult (result : Option Ty) : (popResult result : Script ω _).Checked := by
  cases result with
  | none => exact trivial
  | some ty => exact checked_popOperand ty

theorem checked_pushAll (arguments : List (Argument ω)) : (pushAll arguments).Checked := by
  induction arguments with
  | nil => exact trivial
  | cons argument rest ih => exact (checked_pushOperand argument.ty argument.value).bind fun _ => ih

theorem checked_peekObject : (peekObject : Script ω _).Checked := by
  refine (checked_call (by trivial)).bind fun used => ?_
  split
  · exact trivial
  · exact (checked_call (by trivial)).bind fun _ => checked_call (by trivial)

theorem checked_operation (operation : HostOperation ω) : operation.script.Checked := by
  cases operation with
  | push ty value => exact checked_pushOperand ty value
  | pop ty => exact checked_popOperand ty
  | read kind slot => exact checked_call (by trivial)
  | write kind slot value => exact checked_call (by trivial)
  | peek => exact checked_peekObject
  | usage => exact checked_call (by trivial)

theorem Public.checked {script : Script ω α} (isPublic : script.Public) : script.Checked := by
  induction isPublic with
  | done value => exact trivial
  | fail fault => exact trivial
  | operation operation => exact checked_operation operation
  | resume first rest ihFirst ihRest => exact ihFirst.resume ihRest

theorem checked_returning (handle : Handle) (fault : Fault) : (returning handle fault : Script ω α).Checked :=
  (checked_call (by trivial)).bind fun _ => trivial

theorem checked_slotUnder (words : Nat) : (slotUnder words : Script ω Nat).Checked := by
  refine (checked_call (by trivial)).bind fun used => ?_
  split <;> exact trivial

theorem checked_addTop (ty : Ty) : (addTop ty : Script ω Unit).Checked := by
  cases ty with
  | object => exact trivial
  | scalar kind =>
    simp only [addTop]
    split
    · exact trivial
    · refine (checked_call (by trivial)).bind fun b => (checked_call (by trivial)).bind fun a => ?_
      split
      · exact checked_call (by trivial)
      · exact trivial

theorem checked_pushConstant (constants : ConstantPool ω) (ty : Ty) (position : Position) :
    (pushConstant constants ty position).Checked := by
  unfold pushConstant
  split
  · exact checked_pushOperand ty _
  · exact trivial

theorem checked_loadLocal (ty : Ty) (slot : Nat) : (loadLocal ty slot : Script ω Unit).Checked := by
  cases ty with
  | scalar kind => exact (checked_call (by trivial)).bind fun _ => checked_call (by trivial)
  | object =>
    refine (checked_call (by trivial)).bind fun handle => (checked_call (by trivial)).bind fun copy =>
      ⟨trivial, fun reply => ?_⟩
    cases reply with
    | ok _ => exact trivial
    | error fault => exact checked_returning copy fault

theorem checked_storeLocal (ty : Ty) (slot : Nat) : (storeLocal ty slot : Script ω Unit).Checked := by
  cases ty with
  | scalar kind => exact (checked_call (by trivial)).bind fun _ => checked_call (by trivial)
  | object =>
    refine (checked_call (by trivial)).bind fun handle => Checked.bind ⟨trivial, fun reply => ?_⟩ fun previous =>
      (checked_call (by trivial)).bind fun _ => (checked_call (by trivial)).bind fun _ => trivial
    cases reply with
    | ok previous => exact trivial
    | error fault => exact checked_returning handle fault

theorem checked_describeAll (base : Nat) (slots : List (Nat × Ty)) :
    (describeAll base slots : Script ω Unit).Checked := by
  induction slots with
  | nil => exact trivial
  | cons entry rest ih => exact (checked_call (by trivial)).bind fun _ => ih

theorem checked_checkExternal (external : External ω) (base : Nat) : (checkExternal external base).Checked := by
  refine (checked_call (by trivial)).bind fun used => ?_
  split <;> exact trivial

theorem checked_callCode (code : HostCode ω) : (callCode code).Checked :=
  (checked_slotUnder _).bind fun base => code.isPublic.checked.bind fun _ => checked_checkExternal code.external base

end Script

end WordMachine
