import WordMachine.Arithmetic
import WordMachine.Text.Numeral

namespace WordMachine

/-- A positive binary fraction `significand * 2 ^ exponent` together with the numbers that round to it: those between
the midpoints to its neighbours. The lower neighbour is half as far away when `narrow` holds. The midpoints themselves
round to it exactly if the significand is even. -/
structure BinaryFraction where
  significand : Nat
  exponent : Int
  narrow : Bool

/-- Decimal digits and the power of ten that the last of them counts. -/
structure DecimalDigits where
  digits : Nat
  exponent : Int

namespace BinaryFraction

/-- The power of two that makes the fraction and its midpoints whole numbers of quarters over a common denominator. -/
def denominator (x : BinaryFraction) : Nat :=
  4 * 2 ^ (-x.exponent).toNat

/-- One unit of the significand, in quarters of it. -/
def unit (x : BinaryFraction) : Nat :=
  2 ^ x.exponent.toNat

def numerator (x : BinaryFraction) : Nat :=
  4 * x.significand * x.unit

def upper (x : BinaryFraction) : Nat :=
  x.numerator + 2 * x.unit

def lower (x : BinaryFraction) : Nat :=
  if x.narrow then x.numerator - x.unit else x.numerator - 2 * x.unit

/-- The number `p` with `10 ^ (p - 1) ≤ x < 10 ^ p`. -/
def magnitude (x : BinaryFraction) : Int :=
  if x.denominator ≤ x.numerator then
    (Nat.toDigits 10 (x.numerator / x.denominator)).length
  else
    1 - ((Nat.toDigits 10 ((x.denominator - 1) / x.numerator)).length : Int)

/-- Whether `digits * 10 ^ exponent` rounds to the fraction. -/
def roundsTo (x : BinaryFraction) (d : DecimalDigits) : Bool :=
  let point := d.digits * 10 ^ d.exponent.toNat * x.denominator
  let low := x.lower * 10 ^ (-d.exponent).toNat
  let high := x.upper * 10 ^ (-d.exponent).toNat
  if x.significand % 2 = 0 then low ≤ point && point ≤ high else low < point && point < high

/-- The largest multiple of `10 ^ exponent` that is not above the fraction. -/
def below (x : BinaryFraction) (exponent : Int) : Nat :=
  x.numerator * 10 ^ (-exponent).toNat / (10 ^ exponent.toNat * x.denominator)

/-- Whether the next multiple of `10 ^ exponent` is at least as near as the one below; of two equally near ones the
upper is taken. -/
def nearerAbove (x : BinaryFraction) (exponent : Int) : Bool :=
  let digits := x.below exponent
  let point := (2 * digits + 1) * (10 ^ exponent.toNat * x.denominator)
  point ≤ 2 * x.numerator * 10 ^ (-exponent).toNat

/-- The multiple of `10 ^ exponent` next to the fraction that rounds to it, the nearer one if both do. -/
def onGrid? (x : BinaryFraction) (exponent : Int) : Option DecimalDigits :=
  let down : DecimalDigits := ⟨x.below exponent, exponent⟩
  let up : DecimalDigits := ⟨x.below exponent + 1, exponent⟩
  match x.roundsTo down, x.roundsTo up with
  | true, true => some (if x.nearerAbove exponent then up else down)
  | true, false => some down
  | false, true => some up
  | false, false => none

/-- Tries finer and finer grids and takes the first that has a number rounding to the fraction. -/
def firstGrid (x : BinaryFraction) (exponent : Int) : Nat → DecimalDigits
  | 0 => ⟨x.below exponent, exponent⟩
  | tries + 1 =>
    match x.onGrid? exponent with
    | some found => found
    | none => x.firstGrid (exponent - 1) tries

/-- The fewest decimal digits that round to the fraction, and of those the nearest. Seventeen always suffice for the
formats in use. -/
def shortest (x : BinaryFraction) : DecimalDigits :=
  x.firstGrid (x.magnitude - 1) 17

end BinaryFraction

/-- Positional notation, never with an exponent, and with a point only if digits follow it. -/
def DecimalDigits.positional (d : DecimalDigits) : String :=
  let digits := Nat.toDigits 10 d.digits
  if 0 ≤ d.exponent then
    String.ofList (digits ++ List.replicate d.exponent.toNat '0')
  else
    let places := (-d.exponent).toNat
    let padded := List.replicate (places + 1 - digits.length) '0' ++ digits
    let fraction := trimZeros (padded.drop (padded.length - places))
    let point := if fraction.isEmpty then [] else '.' :: fraction
    String.ofList (padded.take (padded.length - places) ++ point)

end WordMachine
