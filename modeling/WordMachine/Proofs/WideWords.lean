import WordMachine.Proofs.Alignment

namespace WordMachine

namespace Decimal

/-- A result that is kept in a signed word of 128 bits; nothing if it overflows. -/
def wide? (result : Int) : Option Int :=
  if -2 ^ 127 ≤ result ∧ result < 2 ^ 127 then some result else none

theorem wide?_of_natAbs_lt {result : Int} (small : result.natAbs < 2 ^ 127) : wide? result = some result :=
  if_pos (by omega)

namespace Wide

-- The functions that make up a sum once more, with the result of every operation kept in such a word. Each of them
-- gives nothing as soon as an operation overflows.

def mantissa? (d : Decimal) : Option Int := do
  let high ← wide? (d.hi.toNat * 2 ^ 64)
  let magnitude ← wide? (high + d.lo.toNat)
  if d.hasSign then wide? (-magnitude) else pure magnitude

def raise? (mantissa : Int) (scale : Nat) : Nat → Option (Int × Nat)
  | 0 => pure (mantissa, scale)
  | steps + 1 => do
    let raised ← wide? (mantissa * 10)
    if raised.natAbs ≤ maxMantissa then raise? raised (scale + 1) steps else pure (mantissa, scale)

def divRound? (value : Int) : Option Int := do
  let quotient ← wide? (value.tdiv 10)
  let rest ← wide? (value.tmod 10)
  let remainder ← wide? rest.natAbs
  let parity ← wide? (quotient.tmod 2)
  if 5 < remainder ∨ remainder = 5 ∧ parity ≠ 0 then wide? (quotient + value.sign) else pure quotient

def lower? (value : Int) : Nat → Option Int
  | 0 => pure value
  | steps + 1 => do
    let quotient ← divRound? value
    lower? quotient steps

def shrink? (value : Int) : Nat → Option (Int × Nat)
  | 0 => pure (value, 0)
  | scale + 1 =>
    if maxMantissa < value.natAbs then do
      let quotient ← divRound? value
      shrink? quotient scale
    else pure (value, scale + 1)

def add? (a b : Decimal) : Option (Option Decimal) := do
  let leftMantissa ← mantissa? a
  let rightMantissa ← mantissa? b
  let left ← raise? leftMantissa a.scale (b.scale - a.scale)
  let right ← raise? rightMantissa b.scale (left.2 - b.scale)
  let leftLowered ← lower? left.1 (left.2 - right.2)
  let rightLowered ← lower? right.1 (right.2 - left.2)
  let sum ← wide? (leftLowered + rightLowered)
  let parts ← shrink? sum (min left.2 right.2)
  pure (make? parts.1 parts.2)

theorem mantissa?_eq (d : Decimal) : mantissa? d = some d.mantissa := by
  have high := d.hi.toNat_lt
  have low := d.lo.toNat_lt
  rw [mantissa?, wide?_of_natAbs_lt (by omega), Option.bind_eq_bind, Option.bind_some,
    wide?_of_natAbs_lt (by omega), Option.bind_some, Decimal.mantissa, magnitude]
  split
  · rw [wide?_of_natAbs_lt (by omega)]
    push_cast
    rfl
  · push_cast
    rfl

theorem raise?_eq {mantissa : Int} (fits : mantissa.natAbs ≤ maxMantissa) (scale steps : Nat) :
    raise? mantissa scale steps = some (raise mantissa scale steps) := by
  have limit : maxMantissa < 2 ^ 96 := by decide
  induction steps generalizing mantissa scale with
  | zero => rfl
  | succ steps ih =>
    rw [raise?, wide?_of_natAbs_lt (by omega), Option.bind_eq_bind, Option.bind_some, raise]
    split
    · rename_i more
      exact ih more (scale + 1)
    · rfl

theorem divRound?_eq {value : Int} (small : value.natAbs ≤ 2 * maxMantissa) :
    divRound? value = some (divRound value) := by
  -- no result is further from zero than the value and one more
  have inside {result : Int} (near : result.natAbs ≤ value.natAbs + 1) : wide? result = some result := by
    have limit : 2 * maxMantissa + 1 < 2 ^ 127 := by decide
    exact wide?_of_natAbs_lt (by omega)
  have quotient : (value.tdiv 10).natAbs ≤ value.natAbs := by
    rw [Int.natAbs_tdiv]
    exact Nat.div_le_self _ _
  have remainder : (value.tmod 10).natAbs ≤ value.natAbs := by
    rw [Int.natAbs_tmod]
    exact Nat.mod_le _ _
  have parity : ((value.tdiv 10).tmod 2).natAbs ≤ (value.tdiv 10).natAbs := by
    rw [Int.natAbs_tmod]
    exact Nat.mod_le _ _
  have next : (value.tdiv 10 + value.sign).natAbs ≤ value.natAbs + 1 := by
    have sign : value.sign.natAbs ≤ 1 := by
      rw [Int.natAbs_sign]
      split <;> omega
    have sum := Int.natAbs_add_le (value.tdiv 10) value.sign
    omega
  rw [divRound?, inside (by omega), Option.bind_eq_bind, Option.bind_some, inside (by omega), Option.bind_some,
    inside (by omega), Option.bind_some, inside (by omega), Option.bind_some, inside next, divRound]
  by_cases up : 5 < (value.tmod 10).natAbs ∨ (value.tmod 10).natAbs = 5 ∧ (value.tdiv 10).tmod 2 ≠ 0
  · rw [if_pos up, if_pos (by omega)]
  · rw [if_neg up, if_neg (by omega)]
    rfl

theorem lower?_eq {value : Int} (small : value.natAbs ≤ 2 * maxMantissa) (steps : Nat) :
    lower? value steps = some (lower value steps) := by
  induction steps generalizing value with
  | zero => rfl
  | succ steps ih =>
    rw [lower?, divRound?_eq small, Option.bind_eq_bind, Option.bind_some, lower]
    exact ih ((natAbs_divRound_le value).trans small)

theorem shrink?_eq {value : Int} (small : value.natAbs ≤ 2 * maxMantissa) (scale : Nat) :
    shrink? value scale = some (shrink value scale) := by
  induction scale generalizing value with
  | zero => rfl
  | succ scale ih =>
    rw [shrink?, shrink]
    split
    · rw [divRound?_eq small, Option.bind_eq_bind, Option.bind_some]
      exact ih ((natAbs_divRound_le value).trans small)
    · rfl

theorem natAbs_sum_le {left right : Int} (leftFits : left.natAbs ≤ maxMantissa)
    (rightFits : right.natAbs ≤ maxMantissa) (digits more : Nat) :
    (lower left digits + lower right more).natAbs ≤ 2 * maxMantissa := by
  have sum := Int.natAbs_add_le (lower left digits) (lower right more)
  have first := natAbs_lower_le left digits
  have second := natAbs_lower_le right more
  omega

/-- No operation of a sum overflows. -/
theorem add?_eq (a b : Decimal) : add? a b = some (Decimal.add? a b) := by
  have limit : 2 * maxMantissa < 2 ^ 127 := by decide
  have left := natAbs_raise_le a.natAbs_mantissa_le a.scale (b.scale - a.scale)
  have right := natAbs_raise_le b.natAbs_mantissa_le b.scale
    ((raise a.mantissa a.scale (b.scale - a.scale)).2 - b.scale)
  have sum := natAbs_sum_le left right
  simp only [add?, Option.bind_eq_bind]
  rw [mantissa?_eq, Option.bind_some, mantissa?_eq, Option.bind_some, raise?_eq a.natAbs_mantissa_le, Option.bind_some,
    raise?_eq b.natAbs_mantissa_le, Option.bind_some, lower?_eq (by omega), Option.bind_some, lower?_eq (by omega),
    Option.bind_some, wide?_of_natAbs_lt ((sum _ _).trans_lt limit), Option.bind_some, shrink?_eq (sum _ _),
    Option.bind_some]
  rfl

end Wide

end Decimal

end WordMachine
