import WordMachine.Memory.OperandStack

namespace WordMachine

theorem size_writeBlock {α : Type} (xs : Array α) (start : Nat) (values : List α) :
    (writeBlock xs start values).size = xs.size := by
  induction values generalizing xs start with
  | nil => rfl
  | cons value rest ih => rw [writeBlock, ih, Array.size_setIfInBounds]

theorem size_fillBlock {α : Type} (xs : Array α) (start : Nat) (value : α) (count : Nat) :
    (fillBlock xs start value count).size = xs.size := by
  induction count generalizing xs start with
  | zero => rfl
  | succ count ih => rw [fillBlock, ih, Array.size_setIfInBounds]

theorem size_copyBlock {α : Type} (xs : Array α) (src dst count : Nat) :
    (copyBlock xs src dst count).size = xs.size :=
  size_writeBlock ..

theorem getD_replicate {α : Type} (count i : Nat) (value : α) : (Array.replicate count value).getD i value = value := by
  rw [Array.getD_eq_getD_getElem?, Array.getElem?_replicate]
  split <;> rfl

theorem getD_setIfInBounds_ne {α : Type} {xs : Array α} {i j : Nat} {value default : α} (different : i ≠ j) :
    (xs.setIfInBounds i value).getD j default = xs.getD j default := by
  simp only [Array.getD_eq_getD_getElem?]
  rw [Array.getElem?_setIfInBounds_ne different]

theorem getD_setIfInBounds_self {α : Type} {xs : Array α} {i : Nat} {value default : α} (inside : i < xs.size) :
    (xs.setIfInBounds i value).getD i default = value := by
  simp only [Array.getD_eq_getD_getElem?]
  rw [Array.getElem?_setIfInBounds_self_of_lt inside]
  rfl

theorem getD_writeBlock_outside {α : Type} {xs : Array α} {start i : Nat} {values : List α} {default : α}
    (outside : i < start ∨ start + values.length ≤ i) :
    (writeBlock xs start values).getD i default = xs.getD i default := by
  induction values generalizing xs start with
  | nil => rfl
  | cons value rest ih =>
    simp only [List.length_cons] at outside
    rw [writeBlock, ih (by omega), getD_setIfInBounds_ne (by omega)]

theorem getD_writeBlock_inside {α : Type} {xs : Array α} {start k : Nat} {values : List α} {default : α}
    (room : start + values.length ≤ xs.size) (inside : k < values.length) :
    (writeBlock xs start values).getD (start + k) default = values.getD k default := by
  induction values generalizing xs start k with
  | nil => simp at inside
  | cons value rest ih =>
    simp only [List.length_cons] at room inside
    rw [writeBlock]
    cases k with
    | zero =>
      rw [getD_writeBlock_outside (by omega), Nat.add_zero, getD_setIfInBounds_self (by omega)]
      rfl
    | succ k =>
      have shifted : start + (k + 1) = start + 1 + k := by omega
      rw [shifted, ih (by rw [Array.size_setIfInBounds]; omega) (by omega)]
      rfl

theorem getD_fillBlock_outside {α : Type} {xs : Array α} {start count i : Nat} {value default : α}
    (outside : i < start ∨ start + count ≤ i) :
    (fillBlock xs start value count).getD i default = xs.getD i default := by
  induction count generalizing xs start with
  | zero => rfl
  | succ count ih => rw [fillBlock, ih (by omega), getD_setIfInBounds_ne (by omega)]

theorem getD_fillBlock_inside {α : Type} {xs : Array α} {start count i : Nat} {value default : α}
    (room : start + count ≤ xs.size) (lower : start ≤ i) (upper : i < start + count) :
    (fillBlock xs start value count).getD i default = value := by
  induction count generalizing xs start with
  | zero => omega
  | succ count ih =>
    rw [fillBlock]
    by_cases first : i = start
    · subst first
      rw [getD_fillBlock_outside (by omega), getD_setIfInBounds_self (by omega)]
    · exact ih (by rw [Array.size_setIfInBounds]; omega) (by omega) (by omega)

/-- Entries outside the target of a copy stay as they are. -/
theorem getD_copyBlock_outside {α : Type} {xs : Array α} {src dst count i : Nat} {default : α}
    (room : src + count ≤ xs.size) (outside : i < dst ∨ dst + count ≤ i) :
    (copyBlock xs src dst count).getD i default = xs.getD i default := by
  refine getD_writeBlock_outside ?_
  simp only [Array.length_toList, Array.size_extract]
  omega

/-- The target of a copy holds what the source held before. -/
theorem getD_copyBlock_inside {α : Type} {xs : Array α} {src dst count k : Nat} {default : α}
    (room : src + count ≤ xs.size) (below : dst ≤ src) (inside : k < count) :
    (copyBlock xs src dst count).getD (dst + k) default = xs.getD (src + k) default := by
  have length : (xs.extract src (src + count)).toList.length = count := by
    simp only [Array.length_toList, Array.size_extract]
    omega
  unfold copyBlock
  rw [getD_writeBlock_inside (by omega) (by omega)]
  simp only [List.getD_eq_getElem?_getD, Array.getElem?_toList, Array.getD_eq_getD_getElem?]
  rw [Array.getElem?_extract]
  rw [if_pos (by omega)]

namespace Ty

theorem words_pos (ty : Ty) : 0 < ty.words := by
  cases ty with
  | object => decide
  | scalar kind => cases kind <;> decide

/-- The words of a value have room for its bytes. -/
theorem size_le_words (ty : Ty) : ty.size ≤ ty.words * wordSize := by
  cases ty with
  | object => decide
  | scalar kind => cases kind <;> decide

/-- A value that takes two words fills them. -/
theorem size_of_two_words {ty : Ty} (wide : ty.words = 2) : ty.size = 2 * wordSize := by
  cases ty with
  | object => cases wide
  | scalar kind => cases kind <;> first | rfl | cases wide

end Ty

namespace Bytes

theorem getD_store_of_ge {memory : Bytes} {start value count i : Nat} (after : start + count ≤ i) :
    (memory.store start value count).getD i 0 = memory.getD i 0 := by
  induction count generalizing memory start value with
  | zero => rfl
  | succ count ih => rw [store, ih (by omega), getD_setIfInBounds_ne (by omega)]

/-- Numbers in different memories are equal if their bytes are. -/
theorem load_shift {memory other : Bytes} {start begin count : Nat}
    (same : ∀ k, k < count → memory.getD (start + k) 0 = other.getD (begin + k) 0) :
    memory.load start count = other.load begin count := by
  induction count generalizing start begin with
  | zero => rfl
  | succ count ih =>
    have first := same 0 (by omega)
    rw [Nat.add_zero, Nat.add_zero] at first
    have rest : memory.load (start + 1) count = other.load (begin + 1) count := by
      refine ih fun k inside => ?_
      have next := same (k + 1) (by omega)
      rwa [show start + (k + 1) = start + 1 + k by omega, show begin + (k + 1) = begin + 1 + k by omega] at next
    rw [load, load, first, rest]

end Bytes

namespace Tags

theorem size_record (tags : Tags) (slot : Nat) (ty : Ty) (words : Nat) :
    (tags.record slot ty words).size = tags.size := by
  cases words with
  | zero => rfl
  | succ rest =>
    rw [record]
    split
    · rw [size_fillBlock, Array.size_setIfInBounds]
    · rfl

theorem get_record_self {tags : Tags} {slot words : Nat} {ty : Ty} (positive : 0 < words)
    (room : slot + words ≤ tags.size) : (tags.record slot ty words).get slot = some ty := by
  cases words with
  | zero => omega
  | succ rest =>
    rw [record, get, if_pos (by omega), getD_fillBlock_outside (by omega), getD_setIfInBounds_self (by omega)]

theorem get_record_rest {tags : Tags} {slot words i : Nat} {ty : Ty} (room : slot + words ≤ tags.size)
    (lower : slot < i) (upper : i < slot + words) : (tags.record slot ty words).get i = none := by
  cases words with
  | zero => omega
  | succ rest =>
    rw [record, get, if_pos (by omega),
      getD_fillBlock_inside (by rw [Array.size_setIfInBounds]; omega) (by omega) (by omega)]

theorem get_record_outside {tags : Tags} {slot words i : Nat} {ty : Ty} (outside : i < slot ∨ slot + words ≤ i) :
    (tags.record slot ty words).get i = tags.get i := by
  cases words with
  | zero => rfl
  | succ rest =>
    rw [record, get]
    split
    · rw [getD_fillBlock_outside (by omega), getD_setIfInBounds_ne (by omega), get]
    · rfl

end Tags

end WordMachine
