import Mathlib.Data.Rat.Cast.Order
import Mathlib.Tactic.FieldSimp
import Mathlib.Tactic.Linarith
import Mathlib.Tactic.Ring
import WordMachine.Value.Decimal

namespace WordMachine

namespace Decimal

/-- The number with a mantissa and a scale. -/
def number (mantissa : Int) (scale : Nat) : ℚ :=
  mantissa / 10 ^ scale

/-- The number that a decimal stands for. -/
def value (d : Decimal) : ℚ :=
  number d.mantissa d.scale

theorem number_eq_iff {mantissa other : Int} {scale otherScale : Nat} :
    number mantissa scale = number other otherScale ↔ mantissa * 10 ^ otherScale = other * 10 ^ scale := by
  unfold number
  rw [div_eq_div_iff (by positivity) (by positivity)]
  norm_cast

/-- More digits after the point, all of them zeros, are the same number. -/
theorem number_mul_pow (mantissa : Int) (scale digits : Nat) :
    number (mantissa * 10 ^ digits) (scale + digits) = number mantissa scale := by
  rw [number_eq_iff]
  ring

theorem number_add (mantissa other : Int) (scale : Nat) :
    number (mantissa + other) scale = number mantissa scale + number other scale := by
  unfold number
  push_cast
  exact add_div ..

theorem natAbs_pow_ten (digits : Nat) : ((10 : Int) ^ digits).natAbs = 10 ^ digits :=
  Int.natAbs_pow 10 digits

theorem natAbs_le_mul_pow (mantissa : Int) (digits : Nat) : mantissa.natAbs ≤ (mantissa * 10 ^ digits).natAbs := by
  rw [Int.natAbs_mul, natAbs_pow_ten]
  exact Nat.le_mul_of_pos_right _ (by positivity)

theorem magnitude_le (d : Decimal) : d.magnitude ≤ maxMantissa := by
  have high := d.hi.toNat_lt
  have low := d.lo.toNat_lt
  unfold magnitude maxMantissa
  omega

theorem natAbs_mantissa (d : Decimal) : d.mantissa.natAbs = d.magnitude := by
  unfold mantissa
  split <;> omega

theorem natAbs_mantissa_le (d : Decimal) : d.mantissa.natAbs ≤ maxMantissa := by
  rw [natAbs_mantissa]
  exact d.magnitude_le

theorem scale_le (d : Decimal) : d.scale ≤ maxScale :=
  Nat.min_le_right _ _

/-- Parts that fit are read back from the decimal that is made of them. -/
theorem make?_of_fits {mantissa : Int} {scale : Nat} (few : scale ≤ maxScale)
    (fits : mantissa.natAbs ≤ maxMantissa) :
    ∃ d, make? mantissa scale = some d ∧ d.mantissa = mantissa ∧ d.scale = scale := by
  refine ⟨_, if_pos ⟨few, fits⟩, ?_, ?_⟩
  · unfold maxMantissa at fits
    unfold maxScale at few
    simp only [Decimal.mantissa, hasSign, magnitude, UInt32.toNat_ofNat', UInt64.toNat_ofNat']
    by_cases negative : mantissa < 0
    · simp only [if_pos negative]
      rw [if_pos (by simp only [decide_eq_true_eq]; omega)]
      omega
    · simp only [if_neg negative]
      rw [if_neg (by simp only [decide_eq_true_eq]; omega)]
      omega
  · unfold maxScale at few
    simp only [Decimal.scale, maxScale, UInt32.toNat_ofNat']
    split <;> omega

theorem fits_of_make? {mantissa : Int} {scale : Nat} {d : Decimal} (made : make? mantissa scale = some d) :
    scale ≤ maxScale ∧ mantissa.natAbs ≤ maxMantissa := by
  refine Decidable.byContradiction fun refused => ?_
  rw [make?, if_neg refused] at made
  cases made

theorem parts_of_make? {mantissa : Int} {scale : Nat} {d : Decimal} (made : make? mantissa scale = some d) :
    d.mantissa = mantissa ∧ d.scale = scale := by
  obtain ⟨few, fits⟩ := fits_of_make? made
  obtain ⟨_, again, parts⟩ := make?_of_fits few fits
  rw [made] at again
  cases again
  exact parts

/-- No zero can be taken off after the point. -/
def Reduced (mantissa : Int) (scale : Nat) : Prop :=
  scale = 0 ∨ ¬10 ∣ mantissa

theorem strip_reduced (mantissa : Int) (scale : Nat) :
    Reduced (strip mantissa scale).1 (strip mantissa scale).2 := by
  induction scale generalizing mantissa with
  | zero => exact Or.inl rfl
  | succ scale ih =>
    rw [strip]
    split
    · exact ih (mantissa / 10)
    · rename_i rest
      exact Or.inr fun divides => rest (Int.emod_eq_zero_of_dvd divides)

/-- Stripping takes off zeros only. -/
theorem strip_eq (mantissa : Int) (scale : Nat) :
    ∃ zeros, scale = (strip mantissa scale).2 + zeros ∧ mantissa = (strip mantissa scale).1 * 10 ^ zeros := by
  induction scale generalizing mantissa with
  | zero => exact ⟨0, rfl, (Int.mul_one mantissa).symm⟩
  | succ scale ih =>
    rw [strip]
    split
    · rename_i divisible
      obtain ⟨zeros, scales, mantissas⟩ := ih (mantissa / 10)
      refine ⟨zeros + 1, congrArg (· + 1) scales, ?_⟩
      calc mantissa = mantissa / 10 * 10 := (Int.ediv_mul_cancel (Int.dvd_of_emod_eq_zero divisible)).symm
        _ = (strip (mantissa / 10) scale).1 * 10 ^ zeros * 10 := congrArg (· * 10) mantissas
        _ = (strip (mantissa / 10) scale).1 * 10 ^ (zeros + 1) := by rw [pow_succ, mul_assoc]
    · exact ⟨0, rfl, (Int.mul_one mantissa).symm⟩

/-- A number that has more digits than another form of it ends in a zero. -/
theorem dvd_of_more_digits {mantissa other : Int} {scale otherScale : Nat} (fewer : scale < otherScale)
    (same : mantissa * 10 ^ otherScale = other * 10 ^ scale) : 10 ∣ other := by
  obtain ⟨more, rfl⟩ := Nat.exists_eq_add_of_lt fewer
  have positive : (10 : Int) ^ scale ≠ 0 := by positivity
  refine ⟨mantissa * 10 ^ more, mul_right_cancel₀ positive ?_⟩
  rw [← same]
  ring

/-- A number has one form without zeros at its end. -/
theorem Reduced.unique {mantissa other : Int} {scale otherScale : Nat} (reduced : Reduced mantissa scale)
    (otherReduced : Reduced other otherScale) (same : mantissa * 10 ^ otherScale = other * 10 ^ scale) :
    mantissa = other ∧ scale = otherScale := by
  have scales : scale = otherScale := by
    rcases Nat.lt_trichotomy scale otherScale with fewer | equal | more
    · have divides := dvd_of_more_digits fewer same
      exact (otherReduced.resolve_left (by omega) divides).elim
    · exact equal
    · have divides := dvd_of_more_digits more same.symm
      exact (reduced.resolve_left (by omega) divides).elim
  have positive : (10 : Int) ^ otherScale ≠ 0 := by positivity
  rw [scales] at same
  exact ⟨mul_right_cancel₀ positive same, scales⟩

/-- What is left after stripping are the parts of a decimal. -/
theorem make?_strip (d : Decimal) :
    make? (strip d.mantissa d.scale).1 (strip d.mantissa d.scale).2 = some d.normalize := by
  obtain ⟨zeros, scales, mantissas⟩ := strip_eq d.mantissa d.scale
  have few : (strip d.mantissa d.scale).2 ≤ maxScale := by
    have := d.scale_le
    omega
  have fits : (strip d.mantissa d.scale).1.natAbs ≤ maxMantissa := by
    refine (natAbs_le_mul_pow _ zeros).trans ?_
    rw [← mantissas]
    exact d.natAbs_mantissa_le
  obtain ⟨_, made, _⟩ := make?_of_fits few fits
  rw [normalize, ofParts, made]
  rfl

theorem normalize_parts (d : Decimal) :
    d.normalize.mantissa = (strip d.mantissa d.scale).1 ∧ d.normalize.scale = (strip d.mantissa d.scale).2 :=
  parts_of_make? d.make?_strip

theorem value_normalize (d : Decimal) : d.normalize.value = d.value := by
  obtain ⟨zeros, scales, mantissas⟩ := strip_eq d.mantissa d.scale
  obtain ⟨mantissa, scale⟩ := d.normalize_parts
  calc d.normalize.value = number (strip d.mantissa d.scale).1 (strip d.mantissa d.scale).2 := by
        rw [value, mantissa, scale]
    _ = number ((strip d.mantissa d.scale).1 * 10 ^ zeros) ((strip d.mantissa d.scale).2 + zeros) :=
        (number_mul_pow ..).symm
    _ = d.value := by rw [← mantissas, ← scales, value]

theorem normalize_reduced (d : Decimal) : Reduced d.normalize.mantissa d.normalize.scale := by
  obtain ⟨mantissa, scale⟩ := d.normalize_parts
  rw [mantissa, scale]
  exact strip_reduced d.mantissa d.scale

theorem parts_normalize_of_value {a b : Decimal} (same : a.value = b.value) :
    a.normalize.mantissa = b.normalize.mantissa ∧ a.normalize.scale = b.normalize.scale := by
  refine a.normalize_reduced.unique b.normalize_reduced (number_eq_iff.mp ?_)
  exact a.value_normalize.trans (same.trans b.value_normalize.symm)

/-- Equal numbers are stripped to the very same bits. -/
theorem normalize_eq_iff {a b : Decimal} : a.normalize = b.normalize ↔ a.value = b.value := by
  constructor
  · intro same
    rw [← a.value_normalize, same, b.value_normalize]
  · intro same
    obtain ⟨mantissas, scales⟩ := parts_normalize_of_value same
    rw [a.normalize_parts.1, b.normalize_parts.1] at mantissas
    rw [a.normalize_parts.2, b.normalize_parts.2] at scales
    have made := a.make?_strip
    rw [mantissas, scales, b.make?_strip] at made
    exact (Option.some.inj made).symm

theorem equal_iff {a b : Decimal} : a.equal b = true ↔ a.value = b.value := by
  rw [equal, Bool.and_eq_true, beq_iff_eq, beq_iff_eq]
  constructor
  · rintro ⟨mantissas, scales⟩
    rw [← a.value_normalize, value, mantissas, scales]
    exact b.value_normalize
  · exact parts_normalize_of_value

/-- Decimals are equal exactly if they are the same number, whatever bits they are made of. A decimal is normalized to
the same number with no zero at its end. The parts that are left fit, so that they always make a decimal. It has the
same bits for all forms of a number, and normalizing it again changes nothing. -/
theorem normalize_canonical (a b : Decimal) :
    (a.equal b = true ↔ a.mantissa * 10 ^ b.scale = b.mantissa * 10 ^ a.scale) ∧
    a.normalize.mantissa * 10 ^ a.scale = a.mantissa * 10 ^ a.normalize.scale ∧
    (a.normalize.scale = 0 ∨ ¬10 ∣ a.normalize.mantissa) ∧
    (a.normalize = b.normalize ↔ a.mantissa * 10 ^ b.scale = b.mantissa * 10 ^ a.scale) ∧
    a.normalize.normalize = a.normalize ∧
    make? (strip a.mantissa a.scale).1 (strip a.mantissa a.scale).2 = some a.normalize := by
  have cross : a.value = b.value ↔ a.mantissa * 10 ^ b.scale = b.mantissa * 10 ^ a.scale := number_eq_iff
  refine ⟨equal_iff.trans cross, ?_, a.normalize_reduced, normalize_eq_iff.trans cross, ?_, a.make?_strip⟩
  · exact number_eq_iff.mp a.value_normalize
  · exact normalize_eq_iff.mpr a.value_normalize

-- a zero with a sign, a scale beyond the largest and bits that carry nothing
example : normalize ⟨0xFFFFFFFF, 0, 0⟩ = zero := by decide

end Decimal

end WordMachine
