import Mathlib.Data.List.Nodup
import Mathlib.Data.List.Perm.Subperm
import WordMachine.Memory.Handles

namespace WordMachine

namespace HandleTable

variable {ω : Type}

/-- Few enough slots for every index to fit in the lower half of a handle. -/
def Small (table : HandleTable ω) : Prop :=
  table.slots.size < 2 ^ 32 - 1

instance (table : HandleTable ω) : Decidable table.Small :=
  inferInstanceAs (Decidable (table.slots.size < 2 ^ 32 - 1))

/-- The free list enumerates the empty slots, each of them once, and the live count is that of the others. -/
structure Consistent (table : HandleTable ω) : Prop where
  free_nodup : table.free.Nodup
  mem_free : ∀ index, index ∈ table.free ↔ ∃ generation, table.slots[index]? = some ⟨generation, none⟩
  live_eq : table.live + table.free.length = table.slots.size

theorem toNat_and_indexMask (word : UInt64) : (word &&& indexMask).toNat = word.toNat % 2 ^ 32 := by
  have mask : indexMask.toNat = 2 ^ 32 - 1 := rfl
  rw [UInt64.toNat_and, mask, Nat.and_two_pow_sub_one_eq_mod]

theorem toNat_shiftRight_half (word : UInt64) : (word >>> 32).toNat = word.toNat / 2 ^ 32 := by
  rw [UInt64.toNat_shiftRight, Nat.shiftRight_eq_div_pow]
  rfl

/-- The halves of a handle do not overlap, so they add up. -/
theorem toNat_pack {index : Nat} {generation : UInt64} (fits : index + 1 < 2 ^ 32) :
    (pack index generation).bits.toNat = generation.toNat % 2 ^ 32 * 2 ^ 32 + (index + 1) := by
  have lower : (UInt64.ofNat (index + 1)).toNat = index + 1 := by
    rw [UInt64.toNat_ofNat']
    omega
  have upper : ((generation &&& indexMask) <<< 32).toNat = 2 ^ 32 * (generation.toNat % 2 ^ 32) := by
    rw [UInt64.toNat_shiftLeft, toNat_and_indexMask, Nat.shiftLeft_eq]
    change generation.toNat % 2 ^ 32 * 2 ^ 32 % 2 ^ 64 = _
    omega
  rw [pack, UInt64.toNat_or, upper, lower, ← Nat.two_pow_add_eq_or_of_lt fits, Nat.mul_comm]

/-- Reading a handle as a number splits it into the two halves. -/
theorem unpack?_eq (handle : Handle) :
    unpack? handle =
      if handle.bits.toNat % 2 ^ 32 = 0 then none
      else some (handle.bits.toNat % 2 ^ 32 - 1, handle.bits >>> 32) := by
  unfold unpack?
  rw [toNat_and_indexMask]
  generalize handle.bits.toNat % 2 ^ 32 = low
  cases low with
  | zero => rfl
  | succ index => rw [if_neg (Nat.succ_ne_zero index), Nat.add_sub_cancel]

/-- A handle is that of a slot in a generation if it has the index and the lower half of the generation. -/
theorem unpack?_eq_some_iff {handle : Handle} {index : Nat} {generation : UInt64} :
    unpack? handle = some (index, generation &&& indexMask) ↔
      index + 1 < 2 ^ 32 ∧ handle = pack index generation := by
  rw [unpack?_eq]
  constructor
  · intro unpacked
    split at unpacked
    · cases unpacked
    · obtain ⟨rfl, same⟩ := Prod.mk.inj (Option.some.inj unpacked)
      have fits : handle.bits.toNat % 2 ^ 32 - 1 + 1 < 2 ^ 32 := by omega
      have upper : handle.bits.toNat / 2 ^ 32 = generation.toNat % 2 ^ 32 := by
        rw [← toNat_shiftRight_half, same, toNat_and_indexMask]
      have value : handle.bits.toNat = (pack (handle.bits.toNat % 2 ^ 32 - 1) generation).bits.toNat := by
        rw [toNat_pack fits]
        omega
      exact ⟨fits, congrArg Handle.mk (UInt64.toNat_inj.mp value)⟩
  · rintro ⟨fits, rfl⟩
    have remainder : (pack index generation).bits.toNat % 2 ^ 32 = index + 1 := by
      rw [toNat_pack fits]
      omega
    have quotient : (pack index generation).bits >>> 32 = generation &&& indexMask := by
      rw [← UInt64.toNat_inj, toNat_shiftRight_half, toNat_and_indexMask, toNat_pack fits]
      omega
    rw [remainder, quotient, if_neg (Nat.succ_ne_zero index), Nat.add_sub_cancel]

theorem pack_inj {index other : Nat} {generation current : UInt64} (fits : index + 1 < 2 ^ 32)
    (within : other + 1 < 2 ^ 32) (same : pack index generation = pack other current) :
    index = other ∧ generation &&& indexMask = current &&& indexMask := by
  have place := unpack?_eq_some_iff.mpr ⟨within, same⟩
  rw [unpack?_eq_some_iff.mpr ⟨fits, rfl⟩] at place
  exact Prod.mk.inj (Option.some.inj place)

theorem pack_ne_null {index : Nat} {generation : UInt64} (fits : index + 1 < 2 ^ 32) :
    pack index generation ≠ Handle.null := by
  intro equal
  have value : (pack index generation).bits.toNat = _ := toNat_pack fits
  have zero : Handle.null.bits.toNat = 0 := rfl
  rw [equal, zero] at value
  omega

/-- A handle refers to the object in its slot if the slot is still in the handle's generation. -/
theorem locate?_eq_some_iff {table : HandleTable ω} {handle : Handle} {index : Nat} {object : ω} :
    table.locate? handle = some (index, object) ↔
      ∃ generation, index + 1 < 2 ^ 32 ∧ handle = pack index generation ∧
        table.slots[index]? = some ⟨generation, some object⟩ := by
  constructor
  · intro located
    unfold locate? at located
    split at located
    · cases located
    · rename_i place wanted unpacked
      split at located
      · rename_i current found at_place
        split at located
        · rename_i same
          obtain ⟨rfl, rfl⟩ := Prod.mk.inj (Option.some.inj located)
          subst same
          obtain ⟨fits, packed⟩ := unpack?_eq_some_iff.mp unpacked
          exact ⟨current, fits, packed, at_place⟩
        · cases located
      · cases located
  · rintro ⟨generation, fits, packed, at_index⟩
    have unpacked := unpack?_eq_some_iff.mpr ⟨fits, packed⟩
    simp only [locate?, unpacked, at_index, if_true]

theorem ne_null_of_locate? {table : HandleTable ω} {handle : Handle} {index : Nat} {object : ω}
    (located : table.locate? handle = some (index, object)) : handle ≠ Handle.null := by
  obtain ⟨generation, fits, packed, _⟩ := locate?_eq_some_iff.mp located
  rw [packed]
  exact pack_ne_null fits

theorem get_of_locate? {table : HandleTable ω} {handle : Handle} {index : Nat} {object : ω}
    (located : table.locate? handle = some (index, object)) : table.get handle = .ok (some object) := by
  simp only [get, if_neg (ne_null_of_locate? located), located]

theorem get_null (table : HandleTable ω) : table.get Handle.null = .ok none :=
  if_pos rfl

theorem get_eq_none_iff {table : HandleTable ω} {handle : Handle} :
    table.get handle = .ok none ↔ handle = Handle.null := by
  constructor
  · intro got
    unfold get at got
    split at got
    · assumption
    · split at got <;> cases got
  · rintro rfl
    exact table.get_null

theorem get_eq_some_iff {table : HandleTable ω} {handle : Handle} {object : ω} :
    table.get handle = .ok (some object) ↔ ∃ index, table.locate? handle = some (index, object) := by
  constructor
  · intro got
    unfold get at got
    split at got
    · cases got
    · split at got
      · rename_i index found located
        cases got
        exact ⟨index, located⟩
      · cases got
  · rintro ⟨index, located⟩
    exact get_of_locate? located

/-- Tables that locate the same for a handle get the same for it. -/
theorem get_congr {table other : HandleTable ω} {handle : Handle}
    (same : table.locate? handle = other.locate? handle) : table.get handle = other.get handle := by
  simp only [get, same]

theorem lt_size_of_slot {table : HandleTable ω} {index : Nat} {slot : Slot ω}
    (at_index : table.slots[index]? = some slot) : index < table.slots.size :=
  (Array.getElem?_eq_some_iff.mp at_index).1

/-- An index that is not free belongs to an object. -/
theorem Consistent.occupied {table : HandleTable ω} (consistent : table.Consistent) {index : Nat}
    (inside : index < table.slots.size) (taken : index ∉ table.free) :
    ∃ generation object, table.slots[index]? = some ⟨generation, some object⟩ := by
  have at_index := Array.getElem?_eq_getElem inside
  cases content : table.slots[index] with
  | mk generation object =>
    rw [content] at at_index
    cases object with
    | some object => exact ⟨generation, object, at_index⟩
    | none => exact absurd ((consistent.mem_free index).mpr ⟨generation, at_index⟩) taken

/-- As long as an object is stored, the live count is positive. -/
theorem Consistent.live_pos {table : HandleTable ω} (consistent : table.Consistent) {index : Nat}
    {generation : UInt64} {object : ω} (at_index : table.slots[index]? = some ⟨generation, some object⟩) :
    0 < table.live := by
  have taken : index ∉ table.free := by
    intro free
    obtain ⟨other, empty⟩ := (consistent.mem_free index).mp free
    rw [at_index] at empty
    cases empty
  have distinct : (index :: table.free).Nodup := List.nodup_cons.mpr ⟨taken, consistent.free_nodup⟩
  have inside : index :: table.free ⊆ List.range table.slots.size := by
    intro i member
    rw [List.mem_range]
    rcases List.mem_cons.mp member with rfl | free
    · exact lt_size_of_slot at_index
    · obtain ⟨other, empty⟩ := (consistent.mem_free i).mp free
      exact lt_size_of_slot empty
  have bound := (List.subperm_of_subset distinct inside).length_le
  rw [List.length_cons, List.length_range] at bound
  have balance := consistent.live_eq
  omega

theorem empty_consistent : (empty : HandleTable ω).Consistent where
  free_nodup := List.nodup_nil
  mem_free := by
    intro index
    simp [empty]
  live_eq := rfl

/-- Where an issued handle points to. -/
theorem alloc_slot {table : HandleTable ω} (consistent : table.Consistent) (object : ω) :
    ∃ index generation, (table.alloc object).1 = pack index generation ∧
      (table.alloc object).2.slots[index]? = some ⟨generation, some object⟩ ∧
      (table.slots[index]? = none ∨ table.slots[index]? = some ⟨generation, none⟩) ∧
      (∀ other, other ≠ index → (table.alloc object).2.slots[other]? = table.slots[other]?) := by
  obtain ⟨slots, free, live⟩ := table
  cases free with
  | nil =>
    refine ⟨slots.size, 0, rfl, ?_, .inl ?_, ?_⟩
    · simp [alloc]
    · simp
    · intro other different
      simp only [alloc, Array.getElem?_push]
      rw [if_neg different]
  | cons index rest =>
    obtain ⟨generation, empty⟩ := (consistent.mem_free index).mp (List.mem_cons_self ..)
    dsimp only at empty
    have inside := (Array.getElem?_eq_some_iff.mp empty).1
    refine ⟨index, generation, ?_, ?_, .inr empty, ?_⟩
    · simp [alloc, empty]
    · simp [alloc, empty, Array.getElem?_setIfInBounds_self_of_lt inside]
    · intro other different
      simp only [alloc]
      rw [Array.getElem?_setIfInBounds_ne (Ne.symm different)]

theorem size_le_alloc (table : HandleTable ω) (object : ω) :
    table.slots.size ≤ (table.alloc object).2.slots.size := by
  obtain ⟨slots, free, live⟩ := table
  cases free with
  | nil => simp [alloc]
  | cons index rest => simp [alloc]

/-- A table grows only when every slot is taken. -/
theorem Consistent.size_alloc {table : HandleTable ω} (consistent : table.Consistent) (object : ω) :
    (table.alloc object).2.slots.size ≤ max table.slots.size (table.live + 1) := by
  have balance := consistent.live_eq
  obtain ⟨slots, free, live⟩ := table
  cases free with
  | nil =>
    simp only [alloc, Array.size_push, List.length_nil] at balance ⊢
    omega
  | cons index rest =>
    simp only [alloc, Array.size_setIfInBounds]
    omega

theorem live_alloc (table : HandleTable ω) (object : ω) : (table.alloc object).2.live = table.live + 1 := by
  obtain ⟨slots, free, live⟩ := table
  cases free <;> rfl

theorem Consistent.alloc {table : HandleTable ω} (consistent : table.Consistent) (object : ω) :
    (table.alloc object).2.Consistent := by
  obtain ⟨slots, free, live⟩ := table
  have nodup := consistent.free_nodup
  have balance := consistent.live_eq
  have members := consistent.mem_free
  dsimp only at nodup balance members
  cases free with
  | nil =>
    refine ⟨List.nodup_nil, ?_, ?_⟩
    · intro index
      simp only [HandleTable.alloc, Array.getElem?_push]
      constructor
      · intro member
        cases member
      · rintro ⟨generation, empty⟩
        split at empty
        · cases empty
        · exact (members index).mpr ⟨generation, empty⟩
    · simp only [HandleTable.alloc, Array.size_push, List.length_nil] at balance ⊢
      omega
  | cons first rest =>
    obtain ⟨generation, empty⟩ := (members first).mp (List.mem_cons_self ..)
    have inside := (Array.getElem?_eq_some_iff.mp empty).1
    obtain ⟨absent, nodupRest⟩ := List.nodup_cons.mp nodup
    refine ⟨nodupRest, ?_, ?_⟩
    · intro index
      simp only [HandleTable.alloc]
      by_cases same : index = first
      · subst same
        rw [Array.getElem?_setIfInBounds_self_of_lt inside]
        constructor
        · intro member
          exact absurd member absent
        · rintro ⟨other, filled⟩
          cases filled
      · rw [Array.getElem?_setIfInBounds_ne (Ne.symm same), ← members index, List.mem_cons]
        simp only [same, false_or]
    · simp only [HandleTable.alloc, Array.size_setIfInBounds, List.length_cons] at balance ⊢
      omega

/-- An issued handle is new and refers to its object; all other handles refer to what they did before. The last index
that fits in the lower half of a handle may be the one that is issued. -/
theorem Consistent.locate?_alloc_of_lt {table : HandleTable ω} (consistent : table.Consistent) {object : ω}
    (room : (table.alloc object).2.slots.size < 2 ^ 32) :
    (∃ index, (table.alloc object).2.locate? (table.alloc object).1 = some (index, object)) ∧
      table.locate? (table.alloc object).1 = none ∧
      ∀ handle, handle ≠ (table.alloc object).1 →
        (table.alloc object).2.locate? handle = table.locate? handle := by
  obtain ⟨index, generation, issued, filled, before, others⟩ := alloc_slot consistent object
  have inside := lt_size_of_slot filled
  have fits : index + 1 < 2 ^ 32 := by omega
  have unpacked := unpack?_eq_some_iff.mpr ⟨fits, issued⟩
  refine ⟨⟨index, locate?_eq_some_iff.mpr ⟨generation, fits, issued, filled⟩⟩, ?_, ?_⟩
  · rcases before with absent | empty
    · simp only [locate?, unpacked, absent]
    · simp only [locate?, unpacked, empty]
  · intro handle different
    unfold locate?
    cases target : unpack? handle with
    | none => rfl
    | some place =>
      obtain ⟨other, wanted⟩ := place
      dsimp only
      by_cases same : other = index
      · subst same
        have stale : generation &&& indexMask ≠ wanted := by
          rintro rfl
          exact different ((unpack?_eq_some_iff.mp target).2.trans issued.symm)
        rw [filled]
        simp only [if_neg stale]
        rcases before with absent | empty
        · rw [absent]
        · rw [empty]
      · rw [others other same]

theorem Consistent.locate?_alloc {table : HandleTable ω} (consistent : table.Consistent) {object : ω}
    (small : (table.alloc object).2.Small) :
    (∃ index, (table.alloc object).2.locate? (table.alloc object).1 = some (index, object)) ∧
      table.locate? (table.alloc object).1 = none ∧
      ∀ handle, handle ≠ (table.alloc object).1 →
        (table.alloc object).2.locate? handle = table.locate? handle := by
  have room : (table.alloc object).2.slots.size < 2 ^ 32 := by
    unfold Small at small
    omega
  exact consistent.locate?_alloc_of_lt room

theorem slot_vacate {table : HandleTable ω} {index : Nat} {generation : UInt64} {object : ω}
    (at_index : table.slots[index]? = some ⟨generation, some object⟩) :
    (table.vacate index).slots[index]? = some ⟨generation + 1, none⟩ := by
  obtain ⟨slots, free, live⟩ := table
  dsimp only at at_index
  simp [vacate, Array.getElem?_modify, at_index, Slot.vacate]

theorem slot_vacate_ne {table : HandleTable ω} {index other : Nat} (different : other ≠ index) :
    (table.vacate index).slots[other]? = table.slots[other]? := by
  obtain ⟨slots, free, live⟩ := table
  simp [vacate, Array.getElem?_modify, Ne.symm different]

theorem size_vacate (table : HandleTable ω) (index : Nat) :
    (table.vacate index).slots.size = table.slots.size := by
  obtain ⟨slots, free, live⟩ := table
  simp [vacate]

theorem Consistent.vacate {table : HandleTable ω} (consistent : table.Consistent) {index : Nat}
    {generation : UInt64} {object : ω} (at_index : table.slots[index]? = some ⟨generation, some object⟩) :
    (table.vacate index).Consistent := by
  have positive := consistent.live_pos at_index
  have balance := consistent.live_eq
  have taken : index ∉ table.free := by
    intro free
    obtain ⟨other, empty⟩ := (consistent.mem_free index).mp free
    rw [at_index] at empty
    cases empty
  refine ⟨List.nodup_cons.mpr ⟨taken, consistent.free_nodup⟩, ?_, ?_⟩
  · intro i
    change i ∈ index :: table.free ↔ _
    rw [List.mem_cons]
    by_cases same : i = index
    · subst same
      exact ⟨fun _ => ⟨generation + 1, slot_vacate at_index⟩, fun _ => .inl rfl⟩
    · rw [slot_vacate_ne same, ← consistent.mem_free i]
      simp only [same, false_or]
  · rw [size_vacate]
    change table.live - 1 + (index :: table.free).length = _
    rw [List.length_cons]
    omega

theorem release_of_locate? {table : HandleTable ω} {handle : Handle} {index : Nat} {object : ω}
    (located : table.locate? handle = some (index, object)) :
    table.release handle = .ok (some object, table.vacate index) := by
  simp only [release, if_neg (ne_null_of_locate? located), located]

theorem release_null (table : HandleTable ω) : table.release Handle.null = .ok (none, table) :=
  if_pos rfl

/-- What is answered for a handle is an object, nothing for the null handle, or that the handle is invalid. -/
theorem get_cases (table : HandleTable ω) (handle : Handle) :
    (handle = Handle.null ∧ table.get handle = .ok none) ∨
      (handle ≠ Handle.null ∧ ∃ object, table.get handle = .ok (some object)) ∨
      (handle ≠ Handle.null ∧ table.get handle = .error (.invalidHandle handle)) := by
  by_cases null : handle = Handle.null
  · subst null
    exact .inl ⟨rfl, table.get_null⟩
  · right
    unfold get
    rw [if_neg null]
    split
    · rename_i object _
      exact .inl ⟨null, object, rfl⟩
    · exact .inr ⟨null, rfl⟩

theorem release_of_get_error {table : HandleTable ω} {handle : Handle} (issued : handle ≠ Handle.null)
    (invalid : table.get handle = .error (.invalidHandle handle)) :
    table.release handle = .error (.invalidHandle handle) := by
  unfold get at invalid
  unfold release
  rw [if_neg issued] at invalid ⊢
  split at invalid
  · cases invalid
  · rfl

/-- A released handle is stale; all other handles refer to what they did before. -/
theorem locate?_vacate {table : HandleTable ω} {handle : Handle} {index : Nat} {object : ω}
    (located : table.locate? handle = some (index, object)) :
    (table.vacate index).locate? handle = none ∧
      ∀ other, other ≠ handle → (table.vacate index).locate? other = table.locate? other := by
  obtain ⟨generation, fits, packed, at_index⟩ := locate?_eq_some_iff.mp located
  have emptied := slot_vacate at_index
  constructor
  · have unpacked := unpack?_eq_some_iff.mpr ⟨fits, packed⟩
    simp only [locate?, unpacked, emptied]
  · intro other different
    unfold locate?
    cases target : unpack? other with
    | none => rfl
    | some place =>
      obtain ⟨i, wanted⟩ := place
      dsimp only
      by_cases same : i = index
      · subst same
        have stale : generation &&& indexMask ≠ wanted := by
          rintro rfl
          exact different ((unpack?_eq_some_iff.mp target).2.trans packed.symm)
        rw [emptied, at_index]
        simp only [if_neg stale]
      · rw [slot_vacate_ne same]

theorem object_vacate (slot : Slot ω) : slot.vacate.object = none := by
  obtain ⟨generation, object⟩ := slot
  cases object <;> rfl

theorem size_clear (table : HandleTable ω) : table.clear.slots.size = table.slots.size :=
  Array.size_map ..

/-- After a clearing every slot is empty. -/
theorem slot_clear {table : HandleTable ω} {index : Nat} (inside : index < table.slots.size) :
    ∃ generation, table.clear.slots[index]? = some ⟨generation, none⟩ := by
  refine ⟨table.slots[index].vacate.generation, ?_⟩
  have emptied := object_vacate table.slots[index]
  simp only [clear, Array.getElem?_map, Array.getElem?_eq_getElem inside, Option.map_some]
  rw [← emptied]

theorem mem_occupied {table : HandleTable ω} {index : Nat} :
    index ∈ table.occupied ↔ ∃ generation object, table.slots[index]? = some ⟨generation, some object⟩ := by
  simp only [occupied, List.mem_reverse, List.mem_filter, List.mem_range]
  constructor
  · rintro ⟨inside, filled⟩
    cases at_index : table.slots[index]? with
    | none => simp [at_index] at filled
    | some slot =>
      obtain ⟨generation, object⟩ := slot
      cases object with
      | none => simp [at_index] at filled
      | some object => exact ⟨generation, object, rfl⟩
  · rintro ⟨generation, object, at_index⟩
    exact ⟨lt_size_of_slot at_index, by simp [at_index]⟩

/-- Clearing keeps the table in order, whatever was still stored in it. -/
theorem Consistent.clear {table : HandleTable ω} (consistent : table.Consistent) : table.clear.Consistent := by
  have distinct : (table.occupied ++ table.free).Nodup := by
    refine List.nodup_append.mpr ⟨?_, consistent.free_nodup, ?_⟩
    · exact List.nodup_reverse.mpr (List.nodup_range.filter _)
    · rintro index occupied _ free rfl
      obtain ⟨generation, object, filled⟩ := mem_occupied.mp occupied
      obtain ⟨other, empty⟩ := (consistent.mem_free index).mp free
      rw [filled] at empty
      cases empty
  have members : ∀ index, index ∈ table.occupied ++ table.free ↔ index < table.slots.size := by
    intro index
    rw [List.mem_append, mem_occupied, consistent.mem_free]
    constructor
    · rintro (⟨generation, object, filled⟩ | ⟨generation, empty⟩)
      · exact lt_size_of_slot filled
      · exact lt_size_of_slot empty
    · intro inside
      by_cases free : index ∈ table.free
      · exact .inr ((consistent.mem_free index).mp free)
      · exact .inl (consistent.occupied inside free)
  refine ⟨distinct, ?_, ?_⟩
  · intro index
    change index ∈ table.occupied ++ table.free ↔ _
    rw [members]
    constructor
    · exact slot_clear
    · rintro ⟨generation, empty⟩
      rw [← table.size_clear]
      exact lt_size_of_slot empty
  · have same : (table.occupied ++ table.free).Perm (List.range table.slots.size) :=
      (List.perm_ext_iff_of_nodup distinct List.nodup_range).mpr fun index => by rw [members, List.mem_range]
    rw [size_clear]
    change 0 + (table.occupied ++ table.free).length = _
    rw [same.length_eq, List.length_range, Nat.zero_add]

theorem locate?_clear (table : HandleTable ω) (handle : Handle) : table.clear.locate? handle = none := by
  cases located : table.clear.locate? handle with
  | none => rfl
  | some place =>
    obtain ⟨index, object⟩ := place
    obtain ⟨generation, _, _, filled⟩ := locate?_eq_some_iff.mp located
    have inside := lt_size_of_slot filled
    rw [size_clear] at inside
    obtain ⟨other, empty⟩ := slot_clear inside
    rw [filled] at empty
    cases empty

end HandleTable

end WordMachine
