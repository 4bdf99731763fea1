import WordMachine.Proofs.Tended

namespace WordMachine

/-- One for a handle to something, none for the null handle. -/
def Handle.weight (handle : Handle) : Nat :=
  if handle = Handle.null then 0 else 1

/-- How many handles to something are stored for a value. -/
def Cell.weight : (ty : Ty) → Cell ty → Nat
  | .scalar _, _ => 0
  | .object, handle => Handle.weight handle

namespace HandleTable

variable {ω : Type}

theorem weight_alloc {table : HandleTable ω} {object : ω} (consistent : table.Consistent)
    (small : (table.alloc object).2.Small) : (table.alloc object).1.weight = 1 := by
  obtain ⟨⟨index, issued⟩, _, _⟩ := consistent.locate?_alloc small
  exact if_neg (ne_null_of_locate? issued)

/-- A handle that is issued for the object of another counts if that one does. -/
theorem live_duplicate {table next : HandleTable ω} {handle copy : Handle} (consistent : table.Consistent)
    (small : next.Small) (duplicated : table.duplicate handle = .ok (copy, next)) :
    next.live = table.live + copy.weight := by
  unfold duplicate at duplicated
  split at duplicated
  · cases duplicated
  · cases duplicated
    rfl
  · rename_i object got
    have same : table.alloc object = (copy, next) := Except.ok.inj duplicated
    have small' : (table.alloc object).2.Small := by rwa [same]
    have issued := weight_alloc consistent small'
    have more := table.live_alloc object
    rw [same] at issued more
    rw [more, issued]

/-- A handle that is taken back no longer counts. -/
theorem live_add_weight {table next : HandleTable ω} {handle : Handle} {object : Option ω}
    (consistent : table.Consistent) (released : table.release handle = .ok (object, next)) :
    next.live + handle.weight = table.live := by
  rcases release_cases released with ⟨rfl, _, rfl⟩ | ⟨index, found, located, _, rfl⟩
  · rfl
  · obtain ⟨generation, _, _, filled⟩ := locate?_eq_some_iff.mp located
    have positive := consistent.live_pos filled
    have one : handle.weight = 1 := if_neg (ne_null_of_locate? located)
    change table.live - 1 + handle.weight = table.live
    omega

end HandleTable

namespace OperandStack

variable {ω : Type}

/-- One for a word that holds a handle to something, none for any other word. -/
def weightAt (stack : OperandStack ω) (slot : Nat) : Nat :=
  if stack.tags.get slot = some .object then (stack.handleAt slot).weight else 0

/-- How many of the words from a slot on hold handles to something. -/
def referencesIn (stack : OperandStack ω) (start : Nat) : Nat → Nat
  | 0 => 0
  | count + 1 => stack.weightAt start + stack.referencesIn (start + 1) count

/-- How many live words hold handles to something. -/
def references (stack : OperandStack ω) : Nat :=
  stack.referencesIn 0 stack.offset

theorem weightAt_congr {stack other : OperandStack ω} {slot place : Nat}
    (tags : other.tags.get place = stack.tags.get slot) (handles : other.handleAt place = stack.handleAt slot) :
    other.weightAt place = stack.weightAt slot := by
  unfold weightAt
  rw [tags, handles]

theorem weightAt_of_tag {stack : OperandStack ω} {slot : Nat} (tag : stack.tags.get slot = some .object) :
    stack.weightAt slot = (stack.handleAt slot).weight :=
  if_pos tag

theorem referencesIn_add (stack : OperandStack ω) (start first second : Nat) :
    stack.referencesIn start (first + second) =
      stack.referencesIn start first + stack.referencesIn (start + first) second := by
  induction first generalizing start with
  | zero => rw [Nat.zero_add, referencesIn, Nat.zero_add, Nat.add_zero]
  | succ first ih =>
    have shifted : start + (first + 1) = start + 1 + first := by omega
    rw [Nat.succ_add, referencesIn, referencesIn, ih, shifted]
    omega

theorem referencesIn_one (stack : OperandStack ω) (slot : Nat) : stack.referencesIn slot 1 = stack.weightAt slot :=
  rfl

/-- Words with the same handles hold as many. -/
theorem referencesIn_congr {stack other : OperandStack ω} {start begin count : Nat}
    (same : ∀ k < count, other.weightAt (begin + k) = stack.weightAt (start + k)) :
    other.referencesIn begin count = stack.referencesIn start count := by
  induction count generalizing start begin with
  | zero => rfl
  | succ count ih =>
    have first := same 0 (Nat.succ_pos count)
    have rest : other.referencesIn (begin + 1) count = stack.referencesIn (start + 1) count := by
      refine ih fun k inside => ?_
      have next := same (k + 1) (Nat.succ_lt_succ inside)
      rwa [show begin + (k + 1) = begin + 1 + k by omega, show start + (k + 1) = start + 1 + k by omega] at next
    rw [referencesIn, referencesIn, rest]
    exact congrArg (· + _) first

theorem referencesIn_eq_zero {stack : OperandStack ω} {start count : Nat}
    (none_there : ∀ k < count, stack.weightAt (start + k) = 0) : stack.referencesIn start count = 0 := by
  induction count generalizing start with
  | zero => rfl
  | succ count ih =>
    have first : stack.weightAt start = 0 := none_there 0 (Nat.succ_pos count)
    have rest : stack.referencesIn (start + 1) count = 0 := by
      refine ih fun k inside => ?_
      have next := none_there (k + 1) (Nat.succ_lt_succ inside)
      rwa [show start + (k + 1) = start + 1 + k by omega] at next
    rw [referencesIn, first, rest]

/-- Only words and tags count. -/
theorem referencesIn_with (stack : OperandStack ω) (offset : Nat) (table : HandleTable ω) (start count : Nat) :
    referencesIn { stack with offset := offset, handles := table } start count = stack.referencesIn start count :=
  referencesIn_congr fun _ _ => rfl

/-- Taking words off the top takes the handles in them off. -/
theorem references_lower (stack : OperandStack ω) {words : Nat} (table : HandleTable ω)
    (enough : words ≤ stack.offset) :
    stack.references =
      references { stack with offset := stack.offset - words, handles := table } +
        stack.referencesIn (stack.offset - words) words := by
  have split_offset : stack.offset = stack.offset - words + words := (Nat.sub_add_cancel enough).symm
  have lower : references { stack with offset := stack.offset - words, handles := table } =
      stack.referencesIn 0 (stack.offset - words) := stack.referencesIn_with ..
  rw [lower, references]
  conv_lhs => rw [split_offset]
  rw [referencesIn_add, Nat.zero_add]

theorem weightAt_put_outside {stack : OperandStack ω} {slot place : Nat} {ty : Ty} {cell : Cell ty}
    (apart : place < slot ∨ slot + ty.words ≤ place) :
    (stack.put slot ty cell).weightAt place = stack.weightAt place :=
  weightAt_congr (tag_put_outside apart) (handleAt_put_outside apart)

/-- The words of a stored value hold a handle only if it is one. -/
theorem referencesIn_put_self {stack : OperandStack ω} {slot : Nat} {ty : Ty} {cell : Cell ty} (sound : stack.Sound)
    (room : slot + ty.words ≤ stack.capacity) :
    (stack.put slot ty cell).referencesIn slot ty.words = Cell.weight ty cell := by
  cases ty with
  | scalar kind =>
    refine referencesIn_eq_zero fun k inside => if_neg fun tag => ?_
    by_cases first : k = 0
    · rw [first, Nat.add_zero, tag_put_self sound room] at tag
      cases tag
    · rw [tag_put_rest sound room (by omega) (by omega)] at tag
      cases tag
  | object =>
    have tag : (stack.put slot .object cell).tags.get slot = some .object := tag_put_self sound room
    rw [show Ty.object.words = 1 from rfl, referencesIn_one, weightAt_of_tag tag]
    exact congrArg Handle.weight (handleAt_putHandle_self sound room)

/-- A value stored in live words takes the place of the handles that were there. -/
theorem references_put {stack : OperandStack ω} {slot : Nat} {ty : Ty} {cell : Cell ty} (sound : stack.Sound)
    (live : slot + ty.words ≤ stack.offset) :
    (stack.put slot ty cell).references + stack.referencesIn slot ty.words =
      stack.references + Cell.weight ty cell := by
  have bound := sound.offset_le
  obtain ⟨rest, offset_eq⟩ := Nat.exists_eq_add_of_le live
  have parts : ∀ other : OperandStack ω, other.referencesIn 0 stack.offset =
      other.referencesIn 0 slot + other.referencesIn slot ty.words +
        other.referencesIn (slot + ty.words) rest := by
    intro other
    rw [offset_eq, referencesIn_add, referencesIn_add, Nat.zero_add, Nat.zero_add]
  have before : (stack.put slot ty cell).referencesIn 0 slot = stack.referencesIn 0 slot :=
    referencesIn_congr fun k inside => weightAt_put_outside (.inl (by omega))
  have after : (stack.put slot ty cell).referencesIn (slot + ty.words) rest =
      stack.referencesIn (slot + ty.words) rest :=
    referencesIn_congr fun k _ => weightAt_put_outside (.inr (by omega))
  have stored : (stack.put slot ty cell).referencesIn slot ty.words = Cell.weight ty cell :=
    referencesIn_put_self sound (Nat.le_trans live bound)
  have total : (stack.put slot ty cell).references = (stack.put slot ty cell).referencesIn 0 stack.offset := rfl
  rw [total, references, parts, parts, before, after, stored]
  omega

/-- A value stored on top adds the handle in it. -/
theorem references_push {stack : OperandStack ω} {ty : Ty} {cell : Cell ty} (sound : stack.Sound)
    (room : stack.offset + ty.words ≤ stack.capacity) :
    references { stack.put stack.offset ty cell with offset := stack.offset + ty.words } =
      stack.references + Cell.weight ty cell := by
  have total : references { stack.put stack.offset ty cell with offset := stack.offset + ty.words } =
      (stack.put stack.offset ty cell).referencesIn 0 (stack.offset + ty.words) := referencesIn_with ..
  have before : (stack.put stack.offset ty cell).referencesIn 0 stack.offset = stack.references :=
    referencesIn_congr fun k inside => weightAt_put_outside (.inl (by omega))
  rw [total, referencesIn_add, before, Nat.zero_add, referencesIn_put_self sound room]

/-- Words that are moved down keep their handles, and what lay between is gone. -/
theorem references_moved {stack : OperandStack ω} {src dst words : Nat} (sound : stack.Sound) (below : dst ≤ src)
    (used : src + words ≤ stack.offset) :
    (stack.moved src dst words).references = stack.referencesIn 0 dst + stack.referencesIn src words := by
  have lower : (stack.moved src dst words).referencesIn 0 dst = stack.referencesIn 0 dst := by
    refine referencesIn_congr fun k inside => ?_
    have low : 0 + k < dst := by omega
    exact weightAt_congr (tag_moved_below sound used low)
      (Bytes.handleAt_congr (load_moved_below sound used low (Nat.le_refl 8)))
  have upper : (stack.moved src dst words).referencesIn dst words = stack.referencesIn src words :=
    referencesIn_congr fun k inside => weightAt_congr (tag_moved_inside sound below used inside)
      (Bytes.handleAt_congr (load_moved_inside sound below used inside (Nat.le_refl 8)))
  have total : (stack.moved src dst words).references = (stack.moved src dst words).referencesIn 0 (dst + words) := rfl
  rw [total, referencesIn_add, Nat.zero_add, lower, upper]

/-- The references under a value of a type at a slot that is taken for a scalar. -/
def buriedAt (stack : OperandStack ω) (slot : Nat) : Ty → Nat
  | .scalar kind => stack.referencesIn slot (Ty.scalar kind).words
  | .object => 0

/-- The references under values that are taken for scalars, where values of the given types lie from a slot on. -/
def buried (stack : OperandStack ω) (slot : Nat) : List Ty → Nat
  | [] => 0
  | ty :: rest => stack.buriedAt slot ty + stack.buried (slot + ty.words) rest

theorem buriedAt_with (stack : OperandStack ω) (offset : Nat) (table : HandleTable ω) (slot : Nat) (ty : Ty) :
    buriedAt { stack with offset := offset, handles := table } slot ty = stack.buriedAt slot ty := by
  cases ty with
  | scalar kind => exact stack.referencesIn_with ..
  | object => rfl

theorem buried_with (stack : OperandStack ω) (offset : Nat) (table : HandleTable ω) (slot : Nat) (types : List Ty) :
    buried { stack with offset := offset, handles := table } slot types = stack.buried slot types := by
  induction types generalizing slot with
  | nil => rfl
  | cons ty rest ih => rw [buried, buried, buriedAt_with, ih]

end OperandStack

end WordMachine
