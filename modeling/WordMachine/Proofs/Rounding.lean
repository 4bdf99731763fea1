import Mathlib.Algebra.Order.Field.Basic
import WordMachine.Proofs.Normalization

namespace WordMachine

namespace Decimal

/-- A result that dropping digits one after the other may leave, if each of them goes to a nearest number. At most half
a unit is lost at every digit, so that all of them together lose less than five ninths of a unit of the last one. -/
def Rounds (value : Int) (digits : Nat) (result : Int) : Prop :=
  9 * (result * 10 ^ digits - value).natAbs + 5 ≤ 5 * 10 ^ digits

namespace Rounds

theorem refl (value : Int) : Rounds value 0 value := by
  simp [Rounds]

theorem trans {value middle result : Int} {digits more : Nat} (first : Rounds value digits middle)
    (second : Rounds middle more result) : Rounds value (digits + more) result := by
  have parts : result * 10 ^ (digits + more) - value =
      (result * 10 ^ more - middle) * 10 ^ digits + (middle * 10 ^ digits - value) := by ring
  have triangle := Int.natAbs_add_le ((result * 10 ^ more - middle) * 10 ^ digits) (middle * 10 ^ digits - value)
  rw [← parts, Int.natAbs_mul, natAbs_pow_ten] at triangle
  unfold Rounds at first second ⊢
  -- the first errors count a `10 ^ more`th of a unit each: this is the step of the geometric series
  calc 9 * (result * 10 ^ (digits + more) - value).natAbs + 5
      ≤ 9 * (result * 10 ^ more - middle).natAbs * 10 ^ digits + (9 * (middle * 10 ^ digits - value).natAbs + 5) := by
        linarith
    _ ≤ 9 * (result * 10 ^ more - middle).natAbs * 10 ^ digits + 5 * 10 ^ digits := by omega
    _ = (9 * (result * 10 ^ more - middle).natAbs + 5) * 10 ^ digits := by ring
    _ ≤ 5 * 10 ^ more * 10 ^ digits := Nat.mul_le_mul_right _ second
    _ = 5 * 10 ^ (digits + more) := by ring

/-- A summand that ends in zeros adds no error. -/
theorem add_exact {value result : Int} {digits : Nat} (rounds : Rounds value digits result) (summand : Int) :
    Rounds (summand * 10 ^ digits + value) digits (summand + result) := by
  have same : (summand + result) * 10 ^ digits - (summand * 10 ^ digits + value) = result * 10 ^ digits - value := by
    ring
  unfold Rounds
  rw [same]
  exact rounds

/-- Rounding does not lead beyond a bound that is a whole number. -/
theorem natAbs_le {value result : Int} {digits bound : Nat} (rounds : Rounds value digits result)
    (small : value.natAbs ≤ bound) : result.natAbs ≤ bound := by
  refine Nat.not_lt.mp fun beyond => ?_
  have scaled : (bound + 1) * 10 ^ digits ≤ result.natAbs * 10 ^ digits := Nat.mul_le_mul_right _ beyond
  have grown : bound ≤ bound * 10 ^ digits := Nat.le_mul_of_pos_right _ (by positivity)
  have triangle := Int.natAbs_add_le (result * 10 ^ digits - value) value
  rw [sub_add_cancel, Int.natAbs_mul, natAbs_pow_ten] at triangle
  rw [Nat.add_mul] at scaled
  unfold Rounds at rounds
  omega

theorem number_error {value result : Int} {digits : Nat} (rounds : Rounds value digits result) (scale : Nat) :
    |number result scale - number value (scale + digits)| < 5 / 9 * (1 / 10 ^ scale) := by
  have difference : number result scale - number value (scale + digits) =
      ((result * 10 ^ digits - value : Int) : ℚ) / (10 ^ scale * 10 ^ digits) := by
    unfold number
    rw [pow_add]
    push_cast
    field_simp
  have small : |((result * 10 ^ digits - value : Int) : ℚ)| < 5 / 9 * 10 ^ digits := by
    have strict : 9 * (result * 10 ^ digits - value).natAbs < 5 * 10 ^ digits := by
      unfold Rounds at rounds
      omega
    have casted : (9 : ℚ) * ((result * 10 ^ digits - value).natAbs : ℕ) < 5 * 10 ^ digits := by
      exact_mod_cast strict
    rw [Nat.cast_natAbs, Int.cast_abs] at casted
    linarith
  have positive : (0 : ℚ) < 10 ^ scale * 10 ^ digits := by positivity
  rw [difference, abs_div, abs_of_pos positive, div_lt_iff₀ positive]
  calc |((result * 10 ^ digits - value : Int) : ℚ)| < 5 / 9 * 10 ^ digits := small
    _ = 5 / 9 * (1 / 10 ^ scale) * (10 ^ scale * 10 ^ digits) := by field_simp

end Rounds

theorem divRound_neg (value : Int) : divRound (-value) = -divRound value := by
  unfold divRound
  simp only [Int.neg_tdiv, Int.neg_tmod, Int.natAbs_neg, Int.sign_neg, ne_eq, neg_eq_zero]
  split
  · ring
  · rfl

theorem divRound_error (value : Int) : (divRound value * 10 - value).natAbs ≤ 5 := by
  wlog positive : 0 < value generalizing value
  · by_cases zero : value = 0
    · subst zero
      decide
    · have mirrored := this (-value) (by omega)
      rw [divRound_neg] at mirrored
      omega
  · have quotient : value.tdiv 10 = value / 10 := Int.tdiv_eq_ediv_of_nonneg positive.le
    have remainder : value.tmod 10 = value % 10 := Int.tmod_eq_emod_of_nonneg positive.le
    simp only [divRound, quotient, remainder, Int.sign_eq_one_of_pos positive]
    split <;> omega

theorem divRound_rounds (value : Int) : Rounds value 1 (divRound value) := by
  have error := divRound_error value
  unfold Rounds
  rw [pow_one]
  omega

theorem divRound_mul_ten (value : Int) : divRound (value * 10) = value := by
  have error := divRound_error (value * 10)
  omega

theorem natAbs_divRound_le (value : Int) : (divRound value).natAbs ≤ value.natAbs := by
  have error := divRound_error value
  omega

theorem natAbs_lower_le (value : Int) (digits : Nat) : (lower value digits).natAbs ≤ value.natAbs := by
  induction digits generalizing value with
  | zero => exact Nat.le_refl _
  | succ digits ih => exact (ih (divRound value)).trans (natAbs_divRound_le value)

theorem lower_rounds (value : Int) (digits : Nat) : Rounds value digits (lower value digits) := by
  induction digits generalizing value with
  | zero => exact .refl value
  | succ digits ih =>
    rw [lower, Nat.add_comm]
    exact (divRound_rounds value).trans (ih (divRound value))

/-- Zeros at the end are dropped first, and without an error. -/
theorem lower_mul_pow (value : Int) (zeros digits : Nat) :
    lower (value * 10 ^ zeros) (zeros + digits) = lower value digits := by
  induction zeros with
  | zero => rw [pow_zero, mul_one, Nat.zero_add]
  | succ zeros ih => rw [pow_succ, ← mul_assoc, Nat.add_right_comm, lower, divRound_mul_ten, ih]

theorem shrink_of_fits {value : Int} (fits : value.natAbs ≤ maxMantissa) (scale : Nat) :
    shrink value scale = (value, scale) := by
  cases scale with
  | zero => rfl
  | succ scale => rw [shrink, if_neg (Nat.not_lt.mpr fits)]

/-- Shrinking drops digits, and goes on unless the rest fits or none is left after the point. -/
theorem shrink_eq (value : Int) (scale : Nat) :
    ∃ left digits, scale = left + digits ∧ shrink value scale = (lower value digits, left) ∧
      (left = 0 ∨ (lower value digits).natAbs ≤ maxMantissa) := by
  induction scale generalizing value with
  | zero => exact ⟨0, 0, rfl, rfl, Or.inl rfl⟩
  | succ scale ih =>
    rw [shrink]
    split
    · obtain ⟨left, digits, scales, shrunk, ended⟩ := ih (divRound value)
      exact ⟨left, digits + 1, congrArg (· + 1) scales, shrunk, ended⟩
    · rename_i fits
      exact ⟨scale + 1, 0, rfl, rfl, Or.inr (Nat.not_lt.mp fits)⟩

/-- Zeros at the end of a mantissa do not change the number that it is shrunk to: they are dropped unless they fit. -/
theorem shrink_mul_pow (value : Int) (scale zeros : Nat) :
    ∃ kept, shrink (value * 10 ^ zeros) (scale + zeros) =
        ((shrink value scale).1 * 10 ^ kept, (shrink value scale).2 + kept) ∧
      (kept = 0 ∨ ((shrink value scale).1 * 10 ^ kept).natAbs ≤ maxMantissa) := by
  induction zeros with
  | zero => exact ⟨0, by simp, Or.inl rfl⟩
  | succ zeros ih =>
    rw [← Nat.add_assoc, shrink]
    split
    · rw [pow_succ, ← mul_assoc, divRound_mul_ten]
      exact ih
    · rename_i notLarger
      have allFit : (value * 10 ^ (zeros + 1)).natAbs ≤ maxMantissa := Nat.not_lt.mp notLarger
      rw [shrink_of_fits ((natAbs_le_mul_pow ..).trans allFit)]
      exact ⟨zeros + 1, rfl, Or.inr allFit⟩

end Decimal

end WordMachine
