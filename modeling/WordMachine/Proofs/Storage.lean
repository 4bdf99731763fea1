import WordMachine.Host.Supply

namespace WordMachine

namespace Pool

variable {α : Type}

/-- A search that finds something finds an entry that fits. -/
theorem lastFit?_eq_some {fits : α → Bool} {free : Array α} {count index : Nat} {value : α}
    (found : lastFit? fits free count = some (index, value)) : free[index]? = some value ∧ fits value = true := by
  induction count with
  | zero => cases found
  | succ count ih =>
    rw [lastFit?] at found
    split at found
    · rename_i candidate at_count
      split at found
      · rename_i suitable
        cases found
        exact ⟨at_count, suitable⟩
      · exact ih found
    · exact ih found

/-- No entry goes up when another is removed. -/
theorem exists_of_swapRemove {free : Array α} {index place : Nat} {value : α}
    (entry : (swapRemove free index)[place]? = some value) : ∃ former, place ≤ former ∧ free[former]? = some value := by
  unfold swapRemove at entry
  split at entry
  · rename_i last at_back
    rw [Array.getElem?_pop] at entry
    split at entry
    · rename_i inside
      rw [Array.size_setIfInBounds] at inside
      by_cases moved : index = place
      · subst moved
        rw [Array.getElem?_setIfInBounds_self_of_lt (by omega)] at entry
        cases entry
        rw [Array.back?_eq_getElem?] at at_back
        exact ⟨free.size - 1, by omega, at_back⟩
      · rw [Array.getElem?_setIfInBounds_ne moved] at entry
        exact ⟨place, Nat.le_refl _, entry⟩
    · cases entry
  · exact ⟨place, Nat.le_refl _, entry⟩

theorem mem_of_swapRemove {free : Array α} {index : Nat} {value : α} (member : value ∈ swapRemove free index) :
    value ∈ free := by
  obtain ⟨place, entry⟩ := Array.mem_iff_getElem?.mp member
  obtain ⟨former, _, found⟩ := exists_of_swapRemove entry
  exact Array.mem_of_getElem? found

/-- What a pool hands out was in it and fits, and nothing comes into the pool by that. -/
theorem mem_of_take? {pool rest : Pool α} {fits : α → Bool} {value : α}
    (taken : pool.take? fits = some (value, rest)) :
    value ∈ pool.free ∧ fits value = true ∧ ∀ other ∈ rest.free, other ∈ pool.free := by
  obtain ⟨retain, free, stats⟩ := pool
  rw [take?] at taken
  split at taken
  · rename_i index found at_index
    cases taken
    obtain ⟨entry, suitable⟩ := lastFit?_eq_some at_index
    exact ⟨Array.mem_of_getElem? entry, suitable, fun other kept => mem_of_swapRemove kept⟩
  · cases taken

theorem mem_of_release {pool : Pool α} {value other : α} (member : other ∈ (pool.release value).free) :
    other ∈ pool.free ∨ other = value := by
  obtain ⟨retain, free, stats⟩ := pool
  rw [release] at member
  split at member
  · exact Array.mem_push.mp member
  · exact .inl member

end Pool

namespace StackPool

variable {ω : Type}

/-- A stack is lent from the pool or made for the purpose. -/
theorem lend_cases (pool : StackPool ω) (capacity : Nat) (journal : Journal) :
    (∃ stored ∈ pool.free, stored.capacity = capacity ∧
      (pool.lend capacity journal).1 = { stored with offset := 0 }) ∨
      (pool.lend capacity journal).1 = OperandStack.fresh capacity := by
  unfold lend
  split
  · rename_i stored rest taken
    obtain ⟨member, suitable, _⟩ := Pool.mem_of_take? taken
    exact .inl ⟨stored, member, eq_of_beq suitable, rfl⟩
  · exact .inr rfl

theorem mem_of_lend {pool : StackPool ω} {capacity : Nat} {journal : Journal} {stored : OperandStack ω}
    (member : stored ∈ (pool.lend capacity journal).2.1.free) : stored ∈ pool.free := by
  unfold lend at member
  split at member
  · rename_i stack rest taken
    exact (Pool.mem_of_take? taken).2.2 stored member
  · exact member

end StackPool

/-- Frames are lent empty. -/
theorem FramePool.lend_eq {H : Type} (pool : FramePool H) (limit : Nat) (journal : Journal) :
    (pool.lend limit journal).1 = ⟨[], limit⟩ := by
  unfold FramePool.lend
  split <;> rfl

end WordMachine
