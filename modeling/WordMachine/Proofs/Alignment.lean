import Mathlib.Data.Nat.Find
import WordMachine.Proofs.Rounding

namespace WordMachine

namespace Decimal

theorem abs_number_mul_pow (mantissa : Int) (scale : Nat) :
    |number mantissa scale| * 10 ^ scale = (mantissa.natAbs : ℚ) := by
  have positive : (0 : ℚ) < 10 ^ scale := by positivity
  rw [number, abs_div, abs_of_pos positive, div_mul_cancel₀ _ positive.ne', Nat.cast_natAbs, Int.cast_abs]

/-- Whether a number is small enough for a mantissa at a scale. -/
def FitsAt (d : Decimal) (scale : Nat) : Prop :=
  |d.value| * 10 ^ scale ≤ maxMantissa

instance (d : Decimal) (scale : Nat) : Decidable (d.FitsAt scale) :=
  inferInstanceAs (Decidable (_ ≤ _))

theorem FitsAt.mono {d : Decimal} {scale fewer : Nat} (fits : d.FitsAt scale) (le : fewer ≤ scale) :
    d.FitsAt fewer := by
  have powers : (10 : ℚ) ^ fewer ≤ 10 ^ scale := pow_le_pow_right₀ (by norm_num) le
  exact (mul_le_mul_of_nonneg_left powers (abs_nonneg _)).trans fits

theorem FitsAt.congr {a b : Decimal} {scale : Nat} (same : a.value = b.value) (fits : a.FitsAt scale) :
    b.FitsAt scale := by
  unfold FitsAt at fits ⊢
  rw [← same]
  exact fits

theorem fitsAt_iff {d : Decimal} {mantissa : Int} {scale : Nat} (form : d.value = number mantissa scale) :
    d.FitsAt scale ↔ mantissa.natAbs ≤ maxMantissa := by
  unfold FitsAt
  rw [form, abs_number_mul_pow, Nat.cast_le]

theorem fitsAt_scale (d : Decimal) : d.FitsAt d.scale :=
  (fitsAt_iff rfl).mpr d.natAbs_mantissa_le

/-- The mantissa of a number at a scale, where digits that have no place are rounded away one after the other. -/
def rounded (d : Decimal) (scale : Nat) : Int :=
  lower (d.mantissa * 10 ^ (scale - d.scale)) (d.scale - scale)

theorem rounded_of_ge {d : Decimal} {scale : Nat} (enough : d.scale ≤ scale) :
    d.rounded scale = d.mantissa * 10 ^ (scale - d.scale) := by
  rw [rounded, Nat.sub_eq_zero_of_le enough, lower]

theorem rounded_of_le {d : Decimal} {scale : Nat} (few : scale ≤ d.scale) :
    d.rounded scale = lower d.mantissa (d.scale - scale) := by
  rw [rounded, Nat.sub_eq_zero_of_le few, pow_zero, mul_one]

theorem rounded_add {d : Decimal} {scale : Nat} (enough : d.scale ≤ scale) (more : Nat) :
    d.rounded (scale + more) = d.rounded scale * 10 ^ more := by
  rw [rounded_of_ge enough, rounded_of_ge (by omega), Nat.sub_add_comm enough, pow_add, mul_assoc]

theorem value_eq_rounded {d : Decimal} {scale : Nat} (enough : d.scale ≤ scale) :
    d.value = number (d.rounded scale) scale := by
  rw [rounded_of_ge enough, value, ← number_mul_pow d.mantissa d.scale (scale - d.scale), Nat.add_sub_cancel' enough]

/-- Zeros may be written to the end of a mantissa before it is rounded. -/
theorem rounded_eq_lower {d : Decimal} {scale zeros : Nat} (enough : scale ≤ d.scale + zeros) :
    d.rounded scale = lower (d.mantissa * 10 ^ zeros) (d.scale + zeros - scale) := by
  obtain ⟨extra, zerosEq⟩ := Nat.exists_eq_add_of_le (show scale - d.scale ≤ zeros by omega)
  have digits : d.scale + zeros - scale = extra + (d.scale - scale) := by omega
  rw [rounded, digits, zerosEq, pow_add, ← mul_assoc, lower_mul_pow]

/-- All forms of a number are rounded to the same mantissa. -/
theorem rounded_congr {a b : Decimal} (same : a.value = b.value) (scale : Nat) : a.rounded scale = b.rounded scale := by
  have cross : a.mantissa * 10 ^ b.scale = b.mantissa * 10 ^ a.scale := number_eq_iff.mp same
  -- both are written with as many digits as they have together, and `scale` more
  have left := @rounded_eq_lower a scale (b.scale + scale) (by omega)
  have right := @rounded_eq_lower b scale (a.scale + scale) (by omega)
  have mantissas : a.mantissa * 10 ^ (b.scale + scale) = b.mantissa * 10 ^ (a.scale + scale) := by
    rw [pow_add, pow_add, ← mul_assoc, ← mul_assoc, cross]
  have digits : a.scale + (b.scale + scale) - scale = b.scale + (a.scale + scale) - scale := by omega
  rw [left, right, mantissas, digits]

/-- The scale at which two decimals are added: the largest one at which both fit, up to the larger one of their own. -/
def meeting (a b : Decimal) : Nat :=
  Nat.findGreatest (fun scale => a.FitsAt scale ∧ b.FitsAt scale) (max a.scale b.scale)

theorem meeting_comm (a b : Decimal) : meeting a b = meeting b a := by
  unfold meeting
  rw [max_comm]
  congr 1
  funext scale
  exact propext And.comm

theorem meeting_le (a b : Decimal) : meeting a b ≤ max a.scale b.scale :=
  Nat.findGreatest_le _

theorem meeting_few (a b : Decimal) : meeting a b ≤ maxScale :=
  (meeting_le a b).trans (Nat.max_le.mpr ⟨a.scale_le, b.scale_le⟩)

theorem le_meeting {a b : Decimal} {scale : Nat} (few : scale ≤ max a.scale b.scale) (left : a.FitsAt scale)
    (right : b.FitsAt scale) : scale ≤ meeting a b :=
  Nat.le_findGreatest few ⟨left, right⟩

theorem min_le_meeting (a b : Decimal) : min a.scale b.scale ≤ meeting a b :=
  le_meeting (by omega) (a.fitsAt_scale.mono (by omega)) (b.fitsAt_scale.mono (by omega))

theorem fitsAt_meeting (a b : Decimal) : a.FitsAt (meeting a b) ∧ b.FitsAt (meeting a b) :=
  Nat.findGreatest_spec (P := fun scale => a.FitsAt scale ∧ b.FitsAt scale) (m := min a.scale b.scale) (by omega)
    ⟨a.fitsAt_scale.mono (by omega), b.fitsAt_scale.mono (by omega)⟩

/-- Raising writes zeros to the end, and goes on unless it has taken all steps or one more zero does not fit. -/
theorem raise_eq (mantissa : Int) (scale steps : Nat) (fits : mantissa.natAbs ≤ maxMantissa) :
    ∃ zeros rest, steps = zeros + rest ∧ raise mantissa scale steps = (mantissa * 10 ^ zeros, scale + zeros) ∧
      (mantissa * 10 ^ zeros).natAbs ≤ maxMantissa ∧
      (rest = 0 ∨ maxMantissa < (mantissa * 10 ^ (zeros + 1)).natAbs) := by
  induction steps generalizing mantissa scale with
  | zero => exact ⟨0, 0, rfl, by simp [raise], by simpa using fits, Or.inl rfl⟩
  | succ steps ih =>
    rw [raise]
    split
    · rename_i more
      obtain ⟨zeros, rest, counted, raised, still, ended⟩ := ih (mantissa * 10) (scale + 1) more
      have written (count : Nat) : mantissa * 10 * 10 ^ count = mantissa * 10 ^ (count + 1) := by ring
      rw [written] at raised still ended
      exact ⟨zeros + 1, rest, by omega, by rw [raised]; congr 1; omega, still, ended⟩
    · rename_i tooLarge
      exact ⟨0, steps + 1, by omega, by simp, by simpa using fits, Or.inr (by simpa using tooLarge)⟩

theorem natAbs_raise_le {mantissa : Int} (fits : mantissa.natAbs ≤ maxMantissa) (scale steps : Nat) :
    (raise mantissa scale steps).1.natAbs ≤ maxMantissa := by
  obtain ⟨_, _, _, raised, still, _⟩ := raise_eq mantissa scale steps fits
  rw [raised]
  exact still

/-- The operand with fewer digits is raised to the scale at which the two meet. -/
theorem raise_eq_meeting {a b : Decimal} (fewer : a.scale ≤ b.scale) :
    raise a.mantissa a.scale (b.scale - a.scale) = (a.rounded (meeting a b), meeting a b) := by
  obtain ⟨zeros, rest, counted, raised, fits, ended⟩ :=
    raise_eq a.mantissa a.scale (b.scale - a.scale) a.natAbs_mantissa_le
  have form (count : Nat) : a.value = number (a.mantissa * 10 ^ count) (a.scale + count) :=
    (number_mul_pow a.mantissa a.scale count).symm
  have met : meeting a b = a.scale + zeros := by
    refine Nat.le_antisymm (Nat.not_lt.mp fun beyond => ?_) ?_
    · have within := meeting_le a b
      have longer : a.FitsAt (a.scale + (zeros + 1)) := (fitsAt_meeting a b).1.mono beyond
      rw [fitsAt_iff (form (zeros + 1))] at longer
      omega
    · exact le_meeting (by omega) ((fitsAt_iff (form zeros)).mpr fits) (b.fitsAt_scale.mono (by omega))
  rw [raised, met, rounded_of_ge (Nat.le_add_right _ _), Nat.add_sub_cancel_left]

/-- The sum of two decimals that are rounded to a scale, as a mantissa and a scale. -/
def sumAt (a b : Decimal) (scale : Nat) : Int × Nat :=
  shrink (a.rounded scale + b.rounded scale) scale

theorem sumAt_comm (a b : Decimal) (scale : Nat) : sumAt a b scale = sumAt b a scale := by
  rw [sumAt, add_comm, sumAt]

theorem add?_of_le {a b : Decimal} (fewer : a.scale ≤ b.scale) :
    add? a b = make? (sumAt a b (meeting a b)).1 (sumAt a b (meeting a b)).2 := by
  have within : meeting a b ≤ b.scale := by
    have := meeting_le a b
    omega
  rw [add?, raise_eq_meeting fewer]
  simp only [Nat.sub_eq_zero_of_le within, raise, Nat.min_eq_left within, lower]
  rw [← rounded_of_le within]
  rfl

theorem add?_of_lt {a b : Decimal} (fewer : b.scale < a.scale) :
    add? a b = make? (sumAt a b (meeting a b)).1 (sumAt a b (meeting a b)).2 := by
  have within : meeting b a ≤ a.scale := by
    have := meeting_le b a
    omega
  rw [add?, Nat.sub_eq_zero_of_le fewer.le, meeting_comm]
  simp only [raise, raise_eq_meeting fewer.le, Nat.sub_eq_zero_of_le within, Nat.min_eq_right within, lower]
  rw [← rounded_of_le within]
  rfl

/-- Two decimals are rounded to the scale at which they meet and added there. -/
theorem add?_eq (a b : Decimal) :
    add? a b = make? (sumAt a b (meeting a b)).1 (sumAt a b (meeting a b)).2 := by
  rcases Nat.lt_or_ge b.scale a.scale with fewer | more
  · exact add?_of_lt fewer
  · exact add?_of_le more

theorem add?_comm (a b : Decimal) : add? a b = add? b a := by
  rw [add?_eq, add?_eq, meeting_comm, sumAt_comm]

theorem sumAt_scale_le (a b : Decimal) (scale : Nat) : (sumAt a b scale).2 ≤ scale := by
  obtain ⟨left, digits, scales, shrunk, _⟩ := shrink_eq (a.rounded scale + b.rounded scale) scale
  rw [sumAt, shrunk]
  omega

theorem sumAt_congr {a b a' b' : Decimal} (left : a.value = a'.value) (right : b.value = b'.value) (scale : Nat) :
    sumAt a b scale = sumAt a' b' scale := by
  rw [sumAt, sumAt, rounded_congr left, rounded_congr right]

/-- At a scale with more digits than the operands have, the sum is the same but for zeros at its end. -/
theorem sumAt_add {a b : Decimal} {scale : Nat} (enough : max a.scale b.scale ≤ scale) (more : Nat) :
    ∃ zeros, sumAt a b (scale + more) = ((sumAt a b scale).1 * 10 ^ zeros, (sumAt a b scale).2 + zeros) ∧
      (zeros = 0 ∨ ((sumAt a b scale).1 * 10 ^ zeros).natAbs ≤ maxMantissa) := by
  have sums : a.rounded (scale + more) + b.rounded (scale + more) =
      (a.rounded scale + b.rounded scale) * 10 ^ more := by
    rw [rounded_add (by omega), rounded_add (by omega), add_mul]
  simp only [sumAt, sums]
  exact shrink_mul_pow ..

/-- Two results agree if both are missing or both are the same number. -/
abbrev Agree : Option Decimal → Option Decimal → Prop :=
  Option.Rel fun result other => result.equal other = true

theorem Agree.refl (result : Option Decimal) : Agree result result := by
  cases result with
  | none => exact .none
  | some d => exact .some (equal_iff.mpr rfl)

theorem Agree.symm {result other : Option Decimal} (agree : Agree result other) : Agree other result := by
  cases agree with
  | none => exact .none
  | some same => exact .some (equal_iff.mpr (equal_iff.mp same).symm)

theorem make?_agree {mantissa : Int} {scale zeros : Nat} (few : scale + zeros ≤ maxScale)
    (fits : zeros = 0 ∨ (mantissa * 10 ^ zeros).natAbs ≤ maxMantissa) :
    Agree (make? mantissa scale) (make? (mantissa * 10 ^ zeros) (scale + zeros)) := by
  rcases fits with rfl | longFits
  · rw [pow_zero, mul_one]
    exact Agree.refl _
  · have shortFits : mantissa.natAbs ≤ maxMantissa := (natAbs_le_mul_pow ..).trans longFits
    obtain ⟨short, madeShort, shortMantissa, shortScale⟩ := make?_of_fits (by omega : scale ≤ maxScale) shortFits
    obtain ⟨long, madeLong, longMantissa, longScale⟩ := make?_of_fits few longFits
    rw [madeShort, madeLong]
    refine .some (equal_iff.mpr ?_)
    rw [value, value, shortMantissa, shortScale, longMantissa, longScale, number_mul_pow]

/-- If other forms of two numbers meet at more digits, then these have all the digits that they need. -/
theorem meeting_cases {a b a' b' : Decimal} (left : a.value = a'.value) (right : b.value = b'.value)
    (ordered : meeting a b ≤ meeting a' b') :
    meeting a b = meeting a' b' ∨ max a.scale b.scale ≤ meeting a b := by
  rcases Nat.eq_or_lt_of_le ordered with same | before
  · exact Or.inl same
  · refine Or.inr (Nat.not_lt.mp fun stopped => ?_)
    obtain ⟨leftFits, rightFits⟩ := fitsAt_meeting a' b'
    have next : meeting a b + 1 ≤ meeting a b :=
      le_meeting stopped ((leftFits.mono before).congr left.symm) ((rightFits.mono before).congr right.symm)
    omega

theorem add?_agree_of_le {a b a' b' : Decimal} (left : a.value = a'.value) (right : b.value = b'.value)
    (ordered : meeting a b ≤ meeting a' b') : Agree (add? a b) (add? a' b') := by
  rw [add?_eq a b, add?_eq a' b', ← sumAt_congr left right]
  rcases meeting_cases left right ordered with same | enough
  · rw [same]
    exact Agree.refl _
  · obtain ⟨more, met⟩ := Nat.exists_eq_add_of_le ordered
    obtain ⟨zeros, sums, fits⟩ := sumAt_add enough more
    have few : (sumAt a b (meeting a b)).2 + zeros ≤ maxScale := by
      have scale := sumAt_scale_le a b (meeting a b + more)
      have bound := meeting_few a' b'
      rw [sums] at scale
      omega
    rw [met, sums]
    exact make?_agree few fits

/-- A sum depends on the numbers that are added and not on their forms: with other forms of the operands there is either
no sum again or the same number, although other digits may have been dropped on the way. The order of the operands does
not matter either, not even for the bits of the sum. -/
theorem add_respects_equality (a b : Decimal) :
    (∀ a' b' : Decimal, a.equal a' = true → b.equal b' = true → Agree (add? a b) (add? a' b')) ∧
    add? a b = add? b a := by
  refine ⟨fun a' b' sameLeft sameRight => ?_, add?_comm a b⟩
  have left := equal_iff.mp sameLeft
  have right := equal_iff.mp sameRight
  rcases Nat.le_total (meeting a b) (meeting a' b') with ordered | ordered
  · exact add?_agree_of_le left right ordered
  · exact (add?_agree_of_le left.symm right.symm ordered).symm

end Decimal

end WordMachine
