import WordMachine.Arithmetic

namespace WordMachine

/-- A decimal number as its sixteen stored bytes: flags, then the high 32 and the low 64 bits of the mantissa.
Bit 31 of the flags is the sign and bits 16 to 23 are the scale; the other bits carry nothing. Every pattern stands for
a number. -/
structure Decimal where
  flags : UInt32
  hi : UInt32
  lo : UInt64
deriving DecidableEq, Inhabited

namespace Decimal

/-- Most digits after the point. -/
def maxScale : Nat := 28

/-- Largest magnitude of a mantissa. -/
def maxMantissa : Nat := 2 ^ 96 - 1

def zero : Decimal := ⟨0, 0, 0⟩

def one : Decimal := ⟨0, 0, 1⟩

def hasSign (d : Decimal) : Bool :=
  2 ^ 31 ≤ d.flags.toNat

def magnitude (d : Decimal) : Nat :=
  d.hi.toNat * 2 ^ 64 + d.lo.toNat

/-- The signed mantissa; the number is `mantissa * 10 ^ (-scale)`. -/
def mantissa (d : Decimal) : Int :=
  if d.hasSign then -(d.magnitude : Int) else d.magnitude

/-- Digits after the point. A stored scale beyond the largest counts as the largest. -/
def scale (d : Decimal) : Nat :=
  min (d.flags.toNat / 2 ^ 16 % 256) maxScale

/-- A zero is never negative, whatever its sign bit. -/
def isNegative (d : Decimal) : Bool :=
  d.hasSign && d.mantissa != 0

/-- The decimal `mantissa * 10 ^ (-scale)`, unless the mantissa or the scale is too large. -/
def make? (mantissa : Int) (scale : Nat) : Option Decimal :=
  if scale ≤ maxScale ∧ mantissa.natAbs ≤ maxMantissa then
    some
      { flags := UInt32.ofNat (scale * 2 ^ 16 + if mantissa < 0 then 2 ^ 31 else 0)
        hi := UInt32.ofNat (mantissa.natAbs / 2 ^ 64)
        lo := UInt64.ofNat (mantissa.natAbs % 2 ^ 64) }
  else
    none

/-- The decimal with parts that are known to fit. -/
def ofParts (mantissa : Int) (scale : Nat) : Decimal :=
  (make? mantissa scale).getD zero

/-- A whole number of at most 64 bits. -/
def ofInt (value : Int) : Decimal :=
  ofParts value 0

/-- Divides the mantissa by ten as long as it is divisible and digits after the point are left. -/
def strip (mantissa : Int) : Nat → Int × Nat
  | 0 => (mantissa, 0)
  | scale + 1 => if mantissa % 10 = 0 then strip (mantissa / 10) scale else (mantissa, scale + 1)

/-- The same number without trailing zeros after the point. -/
def normalize (d : Decimal) : Decimal :=
  let parts := strip d.mantissa d.scale
  ofParts parts.1 parts.2

/-- Whether two decimals are the same number. -/
def equal (a b : Decimal) : Bool :=
  a.normalize.mantissa == b.normalize.mantissa && a.normalize.scale == b.normalize.scale

/-- Multiplies the mantissa by ten, up to `steps` times, as long as it still fits. -/
def raise (mantissa : Int) (scale : Nat) : Nat → Int × Nat
  | 0 => (mantissa, scale)
  | steps + 1 =>
    if (mantissa * 10).natAbs ≤ maxMantissa then raise (mantissa * 10) (scale + 1) steps else (mantissa, scale)

/-- Divides by ten; a half goes to the even neighbour. -/
def divRound (value : Int) : Int :=
  let quotient := value.tdiv 10
  let remainder := (value.tmod 10).natAbs
  if 5 < remainder ∨ remainder = 5 ∧ quotient.tmod 2 ≠ 0 then quotient + value.sign else quotient

/-- Drops `steps` digits, rounding at each of them. -/
def lower (value : Int) : Nat → Int
  | 0 => value
  | steps + 1 => lower (divRound value) steps

/-- Drops digits after the point until the mantissa fits or none is left. -/
def shrink (value : Int) : Nat → Int × Nat
  | 0 => (value, 0)
  | scale + 1 => if maxMantissa < value.natAbs then shrink (divRound value) scale else (value, scale + 1)

/-- The sum, rounded where it has more digits than fit; `none` if its whole part does not fit. The operand with the
smaller scale is raised towards the other as far as it goes, and the other is lowered to meet it. -/
def add? (a b : Decimal) : Option Decimal :=
  let left := raise a.mantissa a.scale (b.scale - a.scale)
  let right := raise b.mantissa b.scale (left.2 - b.scale)
  let sum := lower left.1 (left.2 - right.2) + lower right.1 (right.2 - left.2)
  let parts := shrink sum (min left.2 right.2)
  make? parts.1 parts.2

/-- The digits of the mantissa with zeros in front, so that at least one digit stands before the point. -/
def paddedDigits (d : Decimal) : List Char :=
  let digits := Nat.toDigits 10 d.mantissa.natAbs
  List.replicate (d.scale + 1 - digits.length) '0' ++ digits

/-- Positional text with exactly `scale` digits after the point, and no point when there are none. -/
def text (d : Decimal) : String :=
  let digits := d.paddedDigits
  let whole := digits.take (digits.length - d.scale)
  let fraction := digits.drop (digits.length - d.scale)
  let sign := if d.isNegative then ['-'] else []
  let point := if fraction.isEmpty then [] else '.' :: fraction
  String.ofList (sign ++ whole ++ point)

/-- The text as a diagnostic record. -/
def recordText (d : Decimal) : String :=
  "Decimal(" ++ d.text ++ ")"

/-- The stored bytes as one little-endian number. -/
def bits (d : Decimal) : Nat :=
  d.flags.toNat + 2 ^ 32 * d.hi.toNat + 2 ^ 64 * d.lo.toNat

def ofBits (bits : Nat) : Decimal :=
  ⟨UInt32.ofNat bits, UInt32.ofNat (bits / 2 ^ 32), UInt64.ofNat (bits / 2 ^ 64)⟩

theorem ofBits_bits (d : Decimal) : ofBits d.bits = d := by
  obtain ⟨flags, hi, lo⟩ := d
  have flagsBound := flags.toNat_lt
  have hiBound := hi.toNat_lt
  simp only [ofBits, bits, mk.injEq]
  refine ⟨?_, ?_, ?_⟩
  · apply UInt32.toNat_inj.mp
    rw [UInt32.toNat_ofNat']
    omega
  · apply UInt32.toNat_inj.mp
    rw [UInt32.toNat_ofNat']
    omega
  · apply UInt64.toNat_inj.mp
    rw [UInt64.toNat_ofNat']
    have loBound := lo.toNat_lt
    omega

end Decimal

end WordMachine
