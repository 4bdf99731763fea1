import WordMachine.Proofs.Script
import WordMachine.Proofs.Memory

namespace WordMachine

section Blocks

variable {α : Type} {xs : Array α}

theorem fillBlock_append {start count : Nat} (room : start + count ≤ xs.size) (value : α) (more : Array α) :
    fillBlock (xs ++ more) start value count = fillBlock xs start value count ++ more := by
  induction count generalizing xs start with
  | zero => rfl
  | succ count ih =>
    rw [fillBlock, fillBlock, Array.setIfInBounds_append_left (by omega)]
    exact ih (by rw [Array.size_setIfInBounds]; omega)

theorem writeBlock_append {start : Nat} {values : List α} (room : start + values.length ≤ xs.size) (more : Array α) :
    writeBlock (xs ++ more) start values = writeBlock xs start values ++ more := by
  induction values generalizing xs start with
  | nil => rfl
  | cons value rest ih =>
    rw [List.length_cons] at room
    rw [writeBlock, writeBlock, Array.setIfInBounds_append_left (by omega)]
    exact ih (by rw [Array.size_setIfInBounds]; omega)

theorem copyBlock_append {src dst count : Nat} (source : src + count ≤ xs.size) (target : dst + count ≤ xs.size)
    (more : Array α) : copyBlock (xs ++ more) src dst count = copyBlock xs src dst count ++ more := by
  have same : (xs ++ more).extract src (src + count) = xs.extract src (src + count) := by
    rw [Array.extract_append, Nat.sub_eq_zero_of_le source, Array.extract_zero, Array.append_empty]
  unfold copyBlock
  rw [same]
  refine writeBlock_append ?_ more
  simp only [Array.length_toList, Array.size_extract]
  omega

theorem getD_append {i : Nat} (inside : i < xs.size) (more : Array α) (default : α) :
    (xs ++ more).getD i default = xs.getD i default := by
  simp only [Array.getD_eq_getD_getElem?, Array.getElem?_append_left inside]

end Blocks

theorem Bytes.load_append {memory : Bytes} {start count : Nat} (room : start + count ≤ memory.size) (more : Bytes) :
    Bytes.load (memory ++ more) start count = memory.load start count :=
  load_congr fun _ _ upper => getD_append (by omega) more 0

theorem Bytes.store_append {memory : Bytes} {start count : Nat} (room : start + count ≤ memory.size) (value : Nat)
    (more : Bytes) : Bytes.store (memory ++ more) start value count = memory.store start value count ++ more := by
  induction count generalizing memory start value with
  | zero => rfl
  | succ count ih =>
    rw [store, store, Array.setIfInBounds_append_left (by omega)]
    exact ih (by rw [Array.size_setIfInBounds]; omega) _

namespace Tags

variable {tags : Tags} {slot : Nat}

theorem check_append (inside : slot < tags.size) (ty : Ty) (more : Tags) :
    Tags.check (tags ++ more) slot ty = tags.check slot ty := by
  unfold check get
  rw [getD_append inside]

theorem record_append {words : Nat} (room : slot + words ≤ tags.size) (ty : Ty) (more : Tags) :
    Tags.record (tags ++ more) slot ty words = tags.record slot ty words ++ more := by
  cases words with
  | zero => rfl
  | succ rest =>
    rw [record, record, if_pos (by rw [Array.size_append]; omega), if_pos (by omega),
      Array.setIfInBounds_append_left (by omega)]
    exact fillBlock_append (by rw [Array.size_setIfInBounds]; omega) none more

end Tags

/-- What may lie behind the end of a stack: the words of somebody else, with their tags. -/
structure Beyond where
  bytes : Bytes
  tags : Tags

namespace OperandStack

variable {ω : Type}

/-- Memory and tags are as large as the capacity says, and no more than that is in use. -/
structure Sound (stack : OperandStack ω) : Prop where
  memory_size : stack.memory.size = stack.capacity * wordSize
  tags_size : stack.tags.size = stack.capacity
  offset_le : stack.offset ≤ stack.capacity

/-- The bytes and the tags of a value at a slot lie inside the stack. -/
structure Inside (stack : OperandStack ω) (slot : Nat) (ty : Ty) : Prop where
  slot_le : slot ≤ stack.capacity
  bytes_le : slot * wordSize + ty.size ≤ stack.capacity * wordSize
  stored : slot * wordSize + ty.size ≤ stack.memory.size
  tagged : slot + ty.words ≤ stack.tags.size

theorem Sound.inside {stack : OperandStack ω} (sound : stack.Sound) {slot : Nat} {ty : Ty}
    (room : slot + ty.words ≤ stack.capacity) : stack.Inside slot ty := by
  have bytes : slot * wordSize + ty.size ≤ stack.capacity * wordSize := by
    calc slot * wordSize + ty.size ≤ slot * wordSize + ty.words * wordSize :=
          Nat.add_le_add_left ty.size_le_words _
      _ = (slot + ty.words) * wordSize := (Nat.add_mul ..).symm
      _ ≤ stack.capacity * wordSize := Nat.mul_le_mul_right _ room
  exact ⟨by omega, bytes, by rw [sound.memory_size]; exact bytes, by rw [sound.tags_size]; exact room⟩

theorem Sound.fresh (capacity : Nat) : (fresh capacity : OperandStack ω).Sound where
  memory_size := Array.size_replicate ..
  tags_size := Array.size_replicate ..
  offset_le := Nat.zero_le _

theorem Sound.recycle {stack : OperandStack ω} (sound : stack.Sound) : stack.recycle.Sound where
  memory_size := sound.memory_size
  tags_size := (Array.size_replicate ..).trans sound.tags_size
  offset_le := Nat.zero_le _

/-- The same stack in a memory that does not end where the stack does. Whoever gets past the end finds the words behind
it there, and changes them. -/
def followedBy (stack : OperandStack ω) (beyond : Beyond) : OperandStack ω :=
  { stack with
    memory := stack.memory ++ beyond.bytes
    tags := stack.tags ++ beyond.tags }

variable {stack : OperandStack ω}

@[simp]
theorem followedBy_offset (beyond : Beyond) : (stack.followedBy beyond).offset = stack.offset :=
  rfl

@[simp]
theorem followedBy_handles (beyond : Beyond) : (stack.followedBy beyond).handles = stack.handles :=
  rfl

theorem cellAt_followedBy (sound : stack.Sound) (beyond : Beyond) (ty : Ty) (slot : Nat) :
    (stack.followedBy beyond).cellAt ty slot = stack.cellAt ty slot := by
  have used := sound.offset_le
  have positive := ty.words_pos
  unfold cellAt
  by_cases dead : stack.offset < slot + ty.words
  · rw [if_pos dead, if_pos (show (stack.followedBy beyond).offset < slot + ty.words from dead), followedBy_offset]
  · rw [if_neg dead, if_neg (show ¬(stack.followedBy beyond).offset < slot + ty.words from dead)]
    have inside : stack.Inside slot ty := sound.inside (by omega)
    have tagged := inside.tagged
    have checked := Tags.check_append (show slot < stack.tags.size by omega) ty beyond.tags
    have loaded := Bytes.load_append inside.stored beyond.bytes
    simp only [followedBy, checked, loaded]

theorem describe_followedBy (sound : stack.Sound) (beyond : Beyond) (slot : Nat) (ty : Ty) :
    (stack.followedBy beyond).describe slot ty = stack.describe slot ty := by
  unfold describe
  rw [cellAt_followedBy sound]

end OperandStack

namespace Access

variable {ω : Type} {stack : OperandStack ω}

/-- What has to hold where an operation is asked for that checks nothing by itself. -/
def Asserted : Access ω → OperandStack ω → Prop
  | moveDown src dst words, stack => dst ≤ src ∧ src + words ≤ stack.offset
  | setOffset offset, stack => offset ≤ stack.capacity
  | _, _ => True

/-- No operation looks behind the end of a stack or changes anything there. -/
theorem perform_followedBy {access : Access ω} (asserted : access.Asserted stack) (sound : stack.Sound)
    (beyond : Beyond) :
    access.perform (stack.followedBy beyond) = onState (·.followedBy beyond) (access.perform stack) := by
  have used := sound.offset_le
  cases access with
  | push ty cell =>
    simp only [perform, StackM.pushCell]
    by_cases room : stack.offset + ty.words ≤ stack.capacity
    · rw [if_pos room, if_pos (by exact room)]
      have inside := sound.inside room
      have stored := Bytes.store_append inside.stored (Cell.bits ty cell) beyond.bytes
      have recorded := Tags.record_append inside.tagged ty beyond.tags
      simp only [onState, OperandStack.followedBy, stored, recorded]
      rfl
    · rw [if_neg room, if_neg (by exact room)]
      rfl
  | pop ty =>
    simp only [perform, StackM.popCell]
    by_cases short : stack.offset < ty.words
    · rw [if_pos short, if_pos (by exact short)]
      rfl
    · rw [if_neg short, if_neg (by exact short)]
      have inside : stack.Inside (stack.offset - ty.words) ty := sound.inside (by omega)
      have tagged := inside.tagged
      have positive := ty.words_pos
      have checked := Tags.check_append (show stack.offset - ty.words < stack.tags.size by omega) ty beyond.tags
      have loaded := Bytes.load_append inside.stored beyond.bytes
      simp only [OperandStack.followedBy, checked, loaded]
      cases stack.tags.check (stack.offset - ty.words) ty <;> rfl
  | read ty slot =>
    simp only [perform, StackM.readCell, OperandStack.cellAt_followedBy sound]
    cases stack.cellAt ty slot <;> rfl
  | write ty slot cell =>
    simp only [perform, StackM.writeCell]
    by_cases dead : stack.offset < slot + ty.words
    · rw [if_pos dead, if_pos (by exact dead)]
      rfl
    · rw [if_neg dead, if_neg (by exact dead)]
      have inside : stack.Inside slot ty := sound.inside (by omega)
      have stored := Bytes.store_append inside.stored (Cell.bits ty cell) beyond.bytes
      have recorded := Tags.record_append inside.tagged ty beyond.tags
      simp only [onState, OperandStack.followedBy, stored, recorded]
      rfl
  | describe ty slot =>
    simp only [perform, OperandStack.describe_followedBy sound]
    rfl
  | needRoom words =>
    simp only [perform, StackM.needRoom]
    by_cases room : stack.offset + words ≤ stack.capacity
    · rw [if_pos room, if_pos (by exact room)]
      rfl
    · rw [if_neg room, if_neg (by exact room)]
      rfl
  | duplicate handle =>
    simp only [perform, StackM.duplicate, OperandStack.followedBy_handles]
    cases stack.handles.duplicate handle <;> rfl
  | resolve handle =>
    simp only [perform, OperandStack.followedBy_handles]
    cases stack.handles.get handle <;> rfl
  | release handle =>
    simp only [perform, StackM.release, OperandStack.followedBy_handles]
    cases stack.handles.release handle <;> rfl
  | moveDown src dst words =>
    obtain ⟨down, live⟩ := asserted
    have bytes : (src + words) * wordSize ≤ stack.memory.size := by
      rw [sound.memory_size]
      exact Nat.mul_le_mul_right _ (by omega)
    rw [Nat.add_mul] at bytes
    have lower := Nat.mul_le_mul_right wordSize down
    have tagged : src + words ≤ stack.tags.size := by
      rw [sound.tags_size]
      omega
    have moved := copyBlock_append bytes (show dst * wordSize + words * wordSize ≤ _ by omega) beyond.bytes
    have copied := copyBlock_append tagged (show dst + words ≤ _ by omega) beyond.tags
    simp only [perform, StackM.moveDown, Tags.copy, onState, OperandStack.followedBy, moved, copied]
    rfl
  | alloc | setOffset | usage => rfl

end Access

end WordMachine
