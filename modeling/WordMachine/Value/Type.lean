namespace WordMachine

/-- Bytes in one machine word. -/
def wordSize : Nat := 8

/-- Words that hold `bytes` bytes. -/
def requiredWords (bytes : Nat) : Nat :=
  (bytes + (wordSize - 1)) / wordSize

/-- The kinds of value that are copied byte for byte. -/
inductive Scalar
  | bool
  | byte
  | sbyte
  | char
  | decimal
  | double
  | float
  | int
  | uint
  | long
  | ulong
  | short
  | ushort
deriving DecidableEq, Inhabited

/-- What a word can be tagged with: a scalar, or a reference that is held through a handle. -/
inductive Ty
  | scalar (kind : Scalar)
  | object
deriving DecidableEq, Inhabited

instance : Coe Scalar Ty := ⟨Ty.scalar⟩

namespace Scalar

/-- Every scalar, in the order of the tags. -/
def all : List Scalar :=
  [bool, byte, sbyte, char, decimal, double, float, int, uint, long, ulong, short, ushort]

def tag : Scalar → UInt8
  | bool => 0
  | byte => 1
  | sbyte => 2
  | char => 3
  | decimal => 4
  | double => 5
  | float => 6
  | int => 7
  | uint => 8
  | long => 9
  | ulong => 10
  | short => 11
  | ushort => 12

/-- Bytes that a value occupies. -/
def size : Scalar → Nat
  | bool => 1
  | byte => 1
  | sbyte => 1
  | char => 4
  | decimal => 16
  | double => 8
  | float => 4
  | int => 4
  | uint => 4
  | long => 8
  | ulong => 8
  | short => 2
  | ushort => 2

def name : Scalar → String
  | bool => "bool"
  | byte => "byte"
  | sbyte => "sbyte"
  | char => "char"
  | decimal => "decimal"
  | double => "double"
  | float => "float"
  | int => "int"
  | uint => "uint"
  | long => "long"
  | ulong => "ulong"
  | short => "short"
  | ushort => "ushort"

/-- The spelling used in diagnostic records. -/
def label : Scalar → String
  | bool => "Bool"
  | byte => "Byte"
  | sbyte => "SByte"
  | char => "Char"
  | decimal => "Decimal"
  | double => "Double"
  | float => "Float"
  | int => "Int"
  | uint => "UInt"
  | long => "Long"
  | ulong => "ULong"
  | short => "Short"
  | ushort => "UShort"

end Scalar

/-- Bytes of a reference handle, in constant pools and on the stack alike. -/
def handleSize : Nat := 8

namespace Ty

/-- Every type, in the order of the tags: the scalars, then the reference type. -/
def all : List Ty :=
  Scalar.all.map Ty.scalar ++ [object]

def tag : Ty → UInt8
  | scalar kind => kind.tag
  | object => 13

def ofTag? (tag : UInt8) : Option Ty :=
  all[tag.toNat]?

/-- Bytes that a value occupies; a reference occupies the bytes of its handle. -/
def size : Ty → Nat
  | scalar kind => kind.size
  | object => handleSize

/-- Stack words that a value occupies. -/
def words (ty : Ty) : Nat :=
  requiredWords ty.size

def isReference : Ty → Bool
  | scalar _ => false
  | object => true

def name : Ty → String
  | scalar kind => kind.name
  | object => "object"

/-- The spelling used in diagnostic records. -/
def label : Ty → String
  | scalar kind => kind.label
  | object => "Object"

end Ty

/-- The name of a result type, where no type means that nothing is returned. -/
def resultName (result : Option Ty) : String :=
  match result with
  | some ty => ty.name
  | none => "void"

/-- Words that a result occupies. -/
def resultWords (result : Option Ty) : Nat :=
  match result with
  | some ty => ty.words
  | none => 0

end WordMachine
