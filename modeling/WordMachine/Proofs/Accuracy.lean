import WordMachine.Proofs.WideWords

namespace WordMachine

namespace Decimal

/-- The exact sum of two decimals as a mantissa at the larger one of their scales. -/
def exactSum (a b : Decimal) : Int :=
  a.mantissa * 10 ^ (max a.scale b.scale - a.scale) + b.mantissa * 10 ^ (max a.scale b.scale - b.scale)

theorem exactSum_eq_rounded (a b : Decimal) :
    exactSum a b = a.rounded (max a.scale b.scale) + b.rounded (max a.scale b.scale) := by
  rw [exactSum, rounded_of_ge (le_max_left ..), rounded_of_ge (le_max_right ..)]

theorem exactSum_comm (a b : Decimal) : exactSum a b = exactSum b a := by
  rw [exactSum_eq_rounded, exactSum_eq_rounded, max_comm, add_comm]

theorem number_exactSum (a b : Decimal) : number (exactSum a b) (max a.scale b.scale) = a.value + b.value := by
  rw [exactSum_eq_rounded, number_add, ← value_eq_rounded (le_max_left ..), ← value_eq_rounded (le_max_right ..)]

/-- Where two decimals meet only one of them has lost digits, so that their sum is off by no more than this one. -/
theorem rounds_at_meeting (a b : Decimal) :
    Rounds (exactSum a b) (max a.scale b.scale - meeting a b) (a.rounded (meeting a b) + b.rounded (meeting a b)) := by
  wlog fewer : a.scale ≤ b.scale generalizing a b
  · have mirrored := this b a (by omega)
    rw [exactSum_comm, max_comm, meeting_comm, add_comm] at mirrored
    exact mirrored
  · have larger : max a.scale b.scale = b.scale := by omega
    have least := min_le_meeting a b
    have most := meeting_le a b
    have digits : meeting a b + (b.scale - meeting a b) = b.scale := by omega
    have raised : a.rounded b.scale = a.rounded (meeting a b) * 10 ^ (b.scale - meeting a b) := by
      rw [← rounded_add (by omega), digits]
    have whole : b.rounded b.scale = b.mantissa := by
      rw [rounded_of_le (Nat.le_refl _), Nat.sub_self, lower]
    have lowered : Rounds b.mantissa (b.scale - meeting a b) (b.rounded (meeting a b)) := by
      rw [rounded_of_le (by omega)]
      exact lower_rounds ..
    rw [exactSum_eq_rounded, larger, raised, whole]
    exact lowered.add_exact _

/-- The parts of a sum: the exact sum with some digits dropped, which fits unless no digit is left after the point. -/
theorem sumAt_rounds (a b : Decimal) :
    ∃ digits, max a.scale b.scale = (sumAt a b (meeting a b)).2 + digits ∧
      Rounds (exactSum a b) digits (sumAt a b (meeting a b)).1 ∧
      ((sumAt a b (meeting a b)).2 = 0 ∨ (sumAt a b (meeting a b)).1.natAbs ≤ maxMantissa) := by
  obtain ⟨left, dropped, scales, shrunk, ended⟩ :=
    shrink_eq (a.rounded (meeting a b) + b.rounded (meeting a b)) (meeting a b)
  have most := meeting_le a b
  have rounds := (rounds_at_meeting a b).trans (lower_rounds _ dropped)
  rw [sumAt, shrunk]
  exact ⟨max a.scale b.scale - meeting a b + dropped, by omega, rounds, ended⟩

theorem sumAt_error (a b : Decimal) :
    |number (sumAt a b (meeting a b)).1 (sumAt a b (meeting a b)).2 - (a.value + b.value)| <
      5 / 9 * (1 / 10 ^ (sumAt a b (meeting a b)).2) := by
  obtain ⟨digits, scales, rounds, _⟩ := sumAt_rounds a b
  rw [← number_exactSum, scales]
  exact rounds.number_error _

theorem sumAt_few (a b : Decimal) : (sumAt a b (meeting a b)).2 ≤ maxScale :=
  (sumAt_scale_le ..).trans (meeting_few a b)

theorem add?_error {a b sum : Decimal} (added : add? a b = some sum) :
    sum.scale ≤ max a.scale b.scale ∧ |sum.value - (a.value + b.value)| < 5 / 9 * (1 / 10 ^ sum.scale) := by
  rw [add?_eq] at added
  obtain ⟨mantissa, scale⟩ := parts_of_make? added
  rw [value, mantissa, scale]
  exact ⟨(sumAt_scale_le ..).trans (meeting_le a b), sumAt_error a b⟩

theorem cast_maxMantissa : (maxMantissa : ℚ) = 2 ^ 96 - 1 := by
  norm_num [maxMantissa]

theorem abs_value_le (d : Decimal) : |d.value| ≤ 2 ^ 96 - 1 := by
  have fits : |d.value| * 10 ^ 0 ≤ maxMantissa := d.fitsAt_scale.mono (Nat.zero_le _)
  rw [pow_zero, mul_one, cast_maxMantissa] at fits
  exact fits

/-- If there is no sum, then the exact one is rounded to a whole number that is too large. -/
theorem lt_abs_of_overflow {a b : Decimal} (overflow : add? a b = none) : 2 ^ 96 - 1 < |a.value + b.value| := by
  rw [add?_eq] at overflow
  have tooLarge : maxMantissa < (sumAt a b (meeting a b)).1.natAbs := by
    refine Nat.not_le.mp fun fits => ?_
    obtain ⟨_, made, _⟩ := make?_of_fits (sumAt_few a b) fits
    rw [made] at overflow
    cases overflow
  obtain ⟨_, _, _, ended⟩ := sumAt_rounds a b
  have whole : (sumAt a b (meeting a b)).2 = 0 := ended.resolve_right (Nat.not_le.mpr tooLarge)
  have magnitude : 2 ^ 96 ≤ |number (sumAt a b (meeting a b)).1 0| := by
    have scaled := abs_number_mul_pow (sumAt a b (meeting a b)).1 0
    rw [pow_zero, mul_one] at scaled
    rw [scaled]
    exact_mod_cast tooLarge
  have error := sumAt_error a b
  rw [whole, pow_zero] at error
  have triangle := abs_sub_abs_le_abs_sub (number (sumAt a b (meeting a b)).1 0) (a.value + b.value)
  linarith

theorem abs_lt_of_sum {a b sum : Decimal} (added : add? a b = some sum) : |a.value + b.value| < 2 ^ 96 := by
  obtain ⟨_, error⟩ := add?_error added
  have unit : 1 / (10 : ℚ) ^ sum.scale ≤ 1 := by
    rw [div_le_one (by positivity)]
    exact one_le_pow₀ (by norm_num)
  have bound := abs_value_le sum
  have triangle := abs_sub_abs_le_abs_sub (a.value + b.value) sum.value
  rw [abs_sub_comm] at triangle
  linarith

/-- A sum has no more digits after the point than its operands and differs from the exact sum by less than five ninths
of a unit of its last digit. It is missing only if the exact sum is beyond the largest mantissa, and it is missing
whenever that is so by one or more. No operation on the way overflows a signed word of 128 bits. -/
theorem add_faithful (a b : Decimal) :
    (∀ sum, add? a b = some sum →
      sum.scale ≤ max a.scale b.scale ∧ |sum.value - (a.value + b.value)| < 5 / 9 * (1 / 10 ^ sum.scale)) ∧
    (add? a b = none → 2 ^ 96 - 1 < |a.value + b.value|) ∧
    (2 ^ 96 ≤ |a.value + b.value| → add? a b = none) ∧
    Wide.add? a b = some (add? a b) := by
  refine ⟨fun sum added => add?_error added, lt_abs_of_overflow, fun large => ?_, Wide.add?_eq a b⟩
  cases added : add? a b with
  | none => rfl
  | some sum => exact (not_le.mpr (abs_lt_of_sum added) large).elim

/-- A decimal has all its digits at a scale. -/
def ExactAt (d : Decimal) (scale : Nat) : Prop :=
  d.value = number (d.rounded scale) scale

theorem ExactAt.congr {a b : Decimal} {scale : Nat} (exact : a.ExactAt scale) (same : a.value = b.value) :
    b.ExactAt scale := by
  unfold ExactAt at exact ⊢
  rw [← same, ← rounded_congr same]
  exact exact

/-- Where two decimals meet, their sum is exact only if neither of them has lost digits. -/
theorem exactAt_of_sum {a b : Decimal}
    (exact : number (a.rounded (meeting a b) + b.rounded (meeting a b)) (meeting a b) = a.value + b.value) :
    a.ExactAt (meeting a b) ∧ b.ExactAt (meeting a b) := by
  wlog fewer : a.scale ≤ b.scale generalizing a b
  · rw [meeting_comm, add_comm, add_comm a.value] at exact
    have mirrored := this exact (by omega)
    rw [meeting_comm] at mirrored
    exact mirrored.symm
  · have least := min_le_meeting a b
    have left : a.value = number (a.rounded (meeting a b)) (meeting a b) := value_eq_rounded (by omega)
    rw [number_add, ← left] at exact
    exact ⟨left, (add_left_cancel exact).symm⟩

/-- Other forms of two decimals with one scale show that neither of them loses digits where they meet. -/
theorem exactAt_of_forms {a b a' b' : Decimal} (left : a.value = a'.value) (right : b.value = b'.value)
    (scales : a'.scale = b'.scale) : a.ExactAt (meeting a b) ∧ b.ExactAt (meeting a b) := by
  have met : meeting a' b' = a'.scale := by
    have least := min_le_meeting a' b'
    have most := meeting_le a' b'
    omega
  have byForms (enough : a'.scale ≤ meeting a b) : a.ExactAt (meeting a b) ∧ b.ExactAt (meeting a b) :=
    ⟨ExactAt.congr (value_eq_rounded enough) left.symm,
      ExactAt.congr (value_eq_rounded (by omega)) right.symm⟩
  rcases Nat.le_total (meeting a' b') (meeting a b) with before | after
  · exact byForms (by omega)
  · rcases meeting_cases left right after with same | enough
    · exact byForms (by omega)
    · exact ⟨value_eq_rounded (by omega), value_eq_rounded (by omega)⟩

theorem exists_form {d : Decimal} {scale : Nat} (few : scale ≤ maxScale) (fits : d.FitsAt scale)
    (exact : d.ExactAt scale) : ∃ form : Decimal, d.value = form.value ∧ form.scale = scale := by
  obtain ⟨form, _, mantissa, formScale⟩ := make?_of_fits few ((fitsAt_iff exact).mp fits)
  refine ⟨form, ?_, formScale⟩
  rw [exact, value, mantissa, formScale]

theorem exactAt_iff_forms (a b : Decimal) :
    a.ExactAt (meeting a b) ∧ b.ExactAt (meeting a b) ↔
      ∃ a' b' : Decimal, a.value = a'.value ∧ b.value = b'.value ∧ a'.scale = b'.scale := by
  constructor
  · rintro ⟨left, right⟩
    obtain ⟨leftFits, rightFits⟩ := fitsAt_meeting a b
    obtain ⟨a', leftValue, leftScale⟩ := exists_form (meeting_few a b) leftFits left
    obtain ⟨b', rightValue, rightScale⟩ := exists_form (meeting_few a b) rightFits right
    exact ⟨a', b', leftValue, rightValue, leftScale.trans rightScale.symm⟩
  · rintro ⟨a', b', left, right, scales⟩
    exact exactAt_of_forms left right scales

/-- Operands of one sign fit wherever their sum does. -/
theorem forms_of_same_sign {a b : Decimal} (fits : (exactSum a b).natAbs ≤ maxMantissa)
    (sameSign : 0 ≤ a.mantissa * b.mantissa) :
    ∃ a' b' : Decimal, a.value = a'.value ∧ b.value = b'.value ∧ a'.scale = b'.scale := by
  have left : a.ExactAt (max a.scale b.scale) := value_eq_rounded (le_max_left ..)
  have right : b.ExactAt (max a.scale b.scale) := value_eq_rounded (le_max_right ..)
  have product : 0 ≤ a.rounded (max a.scale b.scale) * b.rounded (max a.scale b.scale) := by
    rw [rounded_of_ge (le_max_left ..), rounded_of_ge (le_max_right ..), mul_mul_mul_comm]
    positivity
  have few : max a.scale b.scale ≤ maxScale := Nat.max_le.mpr ⟨a.scale_le, b.scale_le⟩
  rw [exactSum_eq_rounded] at fits
  rw [mul_nonneg_iff] at product
  obtain ⟨a', leftValue, leftScale⟩ := exists_form few ((fitsAt_iff left).mpr (by omega)) left
  obtain ⟨b', rightValue, rightScale⟩ := exists_form few ((fitsAt_iff right).mpr (by omega)) right
  exact ⟨a', b', leftValue, rightValue, leftScale.trans rightScale.symm⟩

/-- Two decimals whose exact sum fits always have a sum. It is exact just if they have forms with one scale, as two
decimals of the same sign always have. Otherwise the operand with fewer digits cannot be raised far enough, and digits
of the other one are rounded away although the exact sum has room for them. -/
theorem add_exact_iff (a b : Decimal) (fits : (exactSum a b).natAbs ≤ maxMantissa) :
    ∃ sum, add? a b = some sum ∧
      (sum.value = a.value + b.value ↔
        ∃ a' b' : Decimal, a.equal a' = true ∧ b.equal b' = true ∧ a'.scale = b'.scale) ∧
      (0 ≤ a.mantissa * b.mantissa → sum.value = a.value + b.value) := by
  have room := (rounds_at_meeting a b).natAbs_le fits
  obtain ⟨sum, made, mantissa, scale⟩ := make?_of_fits (meeting_few a b) room
  have exact_iff : sum.value = a.value + b.value ↔
      ∃ a' b' : Decimal, a.value = a'.value ∧ b.value = b'.value ∧ a'.scale = b'.scale := by
    rw [← exactAt_iff_forms, value, mantissa, scale]
    constructor
    · exact exactAt_of_sum
    · rintro ⟨left, right⟩
      rw [number_add, ← left, ← right]
  refine ⟨sum, ?_, ?_, fun sameSign => exact_iff.mpr (forms_of_same_sign fits sameSign)⟩
  · rw [add?_eq, sumAt, shrink_of_fits room]
    exact made
  · simp only [equal_iff]
    exact exact_iff

namespace Cancellation

/-- A whole number with so many digits that not even a zero can be written to its end. -/
def minuend : Decimal :=
  ofParts (10 ^ 28) 0

/-- A number to take away from it, with one digit after the point. The sum has this digit too, and it fits. -/
def subtrahend (lastDigit : Int) : Decimal :=
  ofParts (-(3 * 10 ^ 28 + lastDigit)) 1

/-- A last digit that is zero is dropped without an error. -/
theorem add_exact_iff_of_zero : (exactSum minuend (subtrahend 0)).natAbs ≤ maxMantissa ∧
    ∃ sum, add? minuend (subtrahend 0) = some sum ∧ sum.value = minuend.value + (subtrahend 0).value := by
  have fits : (exactSum minuend (subtrahend 0)).natAbs ≤ maxMantissa := by decide +kernel
  have forms : minuend.equal minuend = true ∧ (subtrahend 0).equal (ofParts (-(3 * 10 ^ 27)) 0) = true ∧
      minuend.scale = (ofParts (-(3 * 10 ^ 27)) 0).scale := by decide +kernel
  obtain ⟨sum, added, exact_iff, _⟩ := add_exact_iff minuend (subtrahend 0) fits
  exact ⟨fits, sum, added, exact_iff.mpr ⟨minuend, _, forms⟩⟩

/-- Another one is lost, although the exact sum fits. -/
theorem cancelled_sum_rounds : (exactSum minuend (subtrahend 1)).natAbs ≤ maxMantissa ∧
    ¬∃ sum, add? minuend (subtrahend 1) = some sum ∧ sum.value = minuend.value + (subtrahend 1).value := by
  have added : add? minuend (subtrahend 1) = some (ofParts (7 * 10 ^ 27) 0) := by decide +kernel
  refine ⟨by decide +kernel, ?_⟩
  rintro ⟨sum, again, exact⟩
  rw [added] at again
  cases again
  revert exact
  decide +kernel

end Cancellation

end Decimal

end WordMachine
