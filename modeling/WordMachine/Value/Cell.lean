import WordMachine.Text.Numeral
import WordMachine.Value.Binary
import WordMachine.Value.Decimal
import WordMachine.Value.Type

namespace WordMachine

/-- A reference as it stands in a word: zero for no object, otherwise an entry of a handle table. -/
structure Handle where
  bits : UInt64
deriving DecidableEq, Inhabited

namespace Handle

def null : Handle := ⟨0⟩

/-- Hexadecimal digits after `0x`. -/
def text (handle : Handle) : String :=
  "0x" ++ hexText handle.bits.toNat

/-- A reference as log messages show it. -/
def shown (handle : Handle) : String :=
  if handle = null then "null" else "object@" ++ handle.text

end Handle

/-- A word as a diagnostic record. -/
def wordRecord (word : UInt64) : String :=
  "Word(0x" ++ hexText word.toNat ++ ")"

namespace Scalar

/-- The values of a scalar kind. -/
def Value : Scalar → Type
  | bool => Bool
  | byte => UInt8
  | sbyte => Int8
  | char => Char
  | decimal => Decimal
  | double => Binary64
  | float => Binary32
  | int => Int32
  | uint => UInt32
  | long => Int64
  | ulong => UInt64
  | short => Int16
  | ushort => UInt16

/-- The stored bytes of a value as one little-endian number. -/
def bits : (kind : Scalar) → kind.Value → Nat
  | bool, v => Bool.toNat v
  | byte, v => UInt8.toNat v
  | sbyte, v => (Int8.toUInt8 v).toNat
  | char, v => Char.toNat v
  | decimal, v => Decimal.bits v
  | double, v => (Binary64.bits v).toNat
  | float, v => (Binary32.bits v).toNat
  | int, v => (Int32.toUInt32 v).toNat
  | uint, v => UInt32.toNat v
  | long, v => (Int64.toUInt64 v).toNat
  | ulong, v => UInt64.toNat v
  | short, v => (Int16.toUInt16 v).toNat
  | ushort, v => UInt16.toNat v

/-- The character with a code, or the replacement character if the code belongs to none. -/
def charOfCode (code : Nat) : Char :=
  if code.isValidChar then Char.ofNat code else '\ufffd'

/-- The value that stored bytes stand for. Every pattern stands for one. -/
def ofBits : (kind : Scalar) → Nat → kind.Value
  | bool, n => decide (n ≠ 0)
  | byte, n => UInt8.ofNat n
  | sbyte, n => (UInt8.ofNat n).toInt8
  | char, n => charOfCode n
  | decimal, n => Decimal.ofBits n
  | double, n => Binary64.mk (UInt64.ofNat n)
  | float, n => Binary32.mk (UInt32.ofNat n)
  | int, n => (UInt32.ofNat n).toInt32
  | uint, n => UInt32.ofNat n
  | long, n => (UInt64.ofNat n).toInt64
  | ulong, n => UInt64.ofNat n
  | short, n => (UInt16.ofNat n).toInt16
  | ushort, n => UInt16.ofNat n

def boolText (b : Bool) : String :=
  if b then "true" else "false"

/-- A value as log messages show it. -/
def valueText : (kind : Scalar) → kind.Value → String
  | bool, v => boolText v
  | byte, v => toString (UInt8.toNat v)
  | sbyte, v => toString (Int8.toInt v)
  | char, v => Char.toString v
  | decimal, v => Decimal.text v
  | double, v => Binary64.text v
  | float, v => Binary32.text v
  | int, v => toString (Int32.toInt v)
  | uint, v => toString (UInt32.toNat v)
  | long, v => toString (Int64.toInt v)
  | ulong, v => toString (UInt64.toNat v)
  | short, v => toString (Int16.toInt v)
  | ushort, v => toString (UInt16.toNat v)

/-- The sum of two values of one kind: integers wrap, floating-point numbers round, decimals may overflow. The result
is `none` for the kinds that have no sum. -/
def sum? : (kind : Scalar) → Option (kind.Value → kind.Value → Option kind.Value)
  | bool => none
  | char => none
  | decimal => some Decimal.add?
  | double => some fun a b => some (Binary64.add a b)
  | float => some fun a b => some (Binary32.add a b)
  | byte => some fun a b => some (UInt8.add a b)
  | sbyte => some fun a b => some (Int8.add a b)
  | int => some fun a b => some (Int32.add a b)
  | uint => some fun a b => some (UInt32.add a b)
  | long => some fun a b => some (Int64.add a b)
  | ulong => some fun a b => some (UInt64.add a b)
  | short => some fun a b => some (Int16.add a b)
  | ushort => some fun a b => some (UInt16.add a b)

theorem charOfCode_toNat (c : Char) : charOfCode c.toNat = c := by
  have valid : c.toNat.isValidChar := c.valid
  rw [charOfCode, if_pos valid, Char.ofNat_toNat]

/-- A value is recovered from its stored bytes. -/
theorem ofBits_bits (kind : Scalar) (value : kind.Value) : kind.ofBits (kind.bits value) = value := by
  cases kind with
  | bool => cases value <;> rfl
  | byte => exact UInt8.ofNat_toNat
  | sbyte => exact (congrArg UInt8.toInt8 UInt8.ofNat_toNat).trans (Int8.toInt8_toUInt8 value)
  | char => exact charOfCode_toNat value
  | decimal => exact Decimal.ofBits_bits value
  | double => exact congrArg Binary64.mk UInt64.ofNat_toNat
  | float => exact congrArg Binary32.mk UInt32.ofNat_toNat
  | int => exact (congrArg UInt32.toInt32 UInt32.ofNat_toNat).trans (Int32.toInt32_toUInt32 value)
  | uint => exact UInt32.ofNat_toNat
  | long => exact (congrArg UInt64.toInt64 UInt64.ofNat_toNat).trans (Int64.toInt64_toUInt64 value)
  | ulong => exact UInt64.ofNat_toNat
  | short => exact (congrArg UInt16.toInt16 UInt16.ofNat_toNat).trans (Int16.toInt16_toUInt16 value)
  | ushort => exact UInt16.ofNat_toNat

theorem bits_lt (kind : Scalar) (value : kind.Value) : kind.bits value < 256 ^ kind.size := by
  cases kind with
  | bool => cases value <;> decide
  | byte => exact UInt8.toNat_lt value
  | sbyte => exact UInt8.toNat_lt _
  | char =>
    have bound : Char.toNat value < UInt32.size := (Char.val value).toNat_lt
    exact bound
  | decimal =>
    have flagsBound := (Decimal.flags value).toNat_lt
    have hiBound := (Decimal.hi value).toNat_lt
    have loBound := (Decimal.lo value).toNat_lt
    simp only [bits, size, Decimal.bits]
    omega
  | double => exact UInt64.toNat_lt _
  | float => exact UInt32.toNat_lt _
  | int => exact UInt32.toNat_lt _
  | uint => exact UInt32.toNat_lt _
  | long => exact UInt64.toNat_lt _
  | ulong => exact UInt64.toNat_lt _
  | short => exact UInt16.toNat_lt _
  | ushort => exact UInt16.toNat_lt _

end Scalar

/-- What is stored for a value of a type: the value itself, or the handle of a reference. -/
def Cell : Ty → Type
  | .scalar kind => kind.Value
  | .object => Handle

namespace Cell

/-- The stored bytes as one little-endian number. -/
def bits : (ty : Ty) → Cell ty → Nat
  | .scalar kind, value => kind.bits value
  | .object, handle => (Handle.bits handle).toNat

def ofBits : (ty : Ty) → Nat → Cell ty
  | .scalar kind, n => kind.ofBits n
  | .object, n => Handle.mk (UInt64.ofNat n)

/-- A value as log messages show it; a reference is shown by its handle. -/
def text : (ty : Ty) → Cell ty → String
  | .scalar kind, value => kind.valueText value
  | .object, handle => Handle.shown handle

theorem ofBits_bits (ty : Ty) (cell : Cell ty) : ofBits ty (bits ty cell) = cell := by
  cases ty with
  | scalar kind => exact Scalar.ofBits_bits kind cell
  | object => exact congrArg Handle.mk UInt64.ofNat_toNat

theorem bits_lt (ty : Ty) (cell : Cell ty) : bits ty cell < 256 ^ ty.size := by
  cases ty with
  | scalar kind => exact Scalar.bits_lt kind cell
  | object => exact UInt64.toNat_lt _

end Cell

end WordMachine
