import WordMachine.Value.Shortest

namespace WordMachine

/-- A 64-bit binary floating-point number, as its bits. -/
structure Binary64 where
  bits : UInt64
deriving DecidableEq, Inhabited

/-- A 32-bit binary floating-point number, as its bits. -/
structure Binary32 where
  bits : UInt32
deriving DecidableEq, Inhabited

/-- The parts of a binary floating-point number: its sign, its exponent field and its fraction field. -/
structure BinaryFields where
  negative : Bool
  exponent : Nat
  fraction : Nat

/-- How a format divides its bits: so many for the exponent and so many for the fraction, with the sign in front. -/
structure BinaryFormat where
  exponentBits : Nat
  fractionBits : Nat

namespace BinaryFormat

def double : BinaryFormat := ⟨11, 52⟩

def single : BinaryFormat := ⟨8, 23⟩

def fields (format : BinaryFormat) (bits : Nat) : BinaryFields where
  negative := 2 ^ (format.exponentBits + format.fractionBits) ≤ bits
  exponent := bits / 2 ^ format.fractionBits % 2 ^ format.exponentBits
  fraction := bits % 2 ^ format.fractionBits

/-- The exponent field of infinities and of numbers that are not one. -/
def specialExponent (format : BinaryFormat) : Nat :=
  2 ^ format.exponentBits - 1

def isNaN (format : BinaryFormat) (bits : Nat) : Bool :=
  let fields := format.fields bits
  fields.exponent == format.specialExponent && fields.fraction != 0

/-- The magnitude of a finite number that is not zero. -/
def magnitude (format : BinaryFormat) (fields : BinaryFields) : BinaryFraction :=
  let least : Int := 2 - 2 ^ (format.exponentBits - 1) - format.fractionBits
  if fields.exponent = 0 then
    ⟨fields.fraction, least, false⟩
  else
    ⟨fields.fraction + 2 ^ format.fractionBits, least + fields.exponent - 1,
      fields.fraction == 0 && 1 < fields.exponent⟩

/-- Shortest positional digits that read back; a zero keeps its sign. -/
def text (format : BinaryFormat) (bits : Nat) : String :=
  let fields := format.fields bits
  let sign := if fields.negative then "-" else ""
  if fields.exponent = format.specialExponent then
    if fields.fraction = 0 then sign ++ "inf" else "NaN"
  else if fields.exponent = 0 ∧ fields.fraction = 0 then
    sign ++ "0"
  else
    sign ++ (format.magnitude fields).shortest.positional

end BinaryFormat

namespace Binary64

def isNaN (x : Binary64) : Bool :=
  BinaryFormat.double.isNaN x.bits.toNat

/-- The same number, or its quiet form if it is not a number. -/
def quiet (x : Binary64) : Binary64 :=
  ⟨x.bits ||| 0x0008000000000000⟩

/-- What an operation without a meaningful result gives. -/
def indefinite : Binary64 := ⟨0xfff8000000000000⟩

/-- Rounds the exact sum to the nearest number, a tie to the even one. The first operand that is not a number is
passed on, and opposite infinities have no sum. -/
def add (a b : Binary64) : Binary64 :=
  if a.isNaN then a.quiet
  else if b.isNaN then b.quiet
  else
    let sum : Binary64 := ⟨(Float.ofBits a.bits + Float.ofBits b.bits).toBits⟩
    if sum.isNaN then indefinite else sum

def text (x : Binary64) : String :=
  BinaryFormat.double.text x.bits.toNat

end Binary64

namespace Binary32

def isNaN (x : Binary32) : Bool :=
  BinaryFormat.single.isNaN x.bits.toNat

/-- The same number, or its quiet form if it is not a number. -/
def quiet (x : Binary32) : Binary32 :=
  ⟨x.bits ||| 0x00400000⟩

/-- What an operation without a meaningful result gives. -/
def indefinite : Binary32 := ⟨0xffc00000⟩

/-- Rounds the exact sum to the nearest number, a tie to the even one. The first operand that is not a number is
passed on, and opposite infinities have no sum. -/
def add (a b : Binary32) : Binary32 :=
  if a.isNaN then a.quiet
  else if b.isNaN then b.quiet
  else
    let sum : Binary32 := ⟨(Float32.ofBits a.bits + Float32.ofBits b.bits).toBits⟩
    if sum.isNaN then indefinite else sum

def text (x : Binary32) : String :=
  BinaryFormat.single.text x.bits.toNat

end Binary32

end WordMachine
