import WordMachine.Memory.Bytes
import WordMachine.Program.Instruction
import WordMachine.Value.Operand

namespace WordMachine

/-- The constants of a chunk. Every value starts at a multiple of its own size; an object is stored as its number in
the list of objects, counted from one, and no object as zero. -/
structure ConstantPool (ω : Type) where
  bytes : Bytes
  objects : Array ω
  handlePositions : Array Position

/-- Steps of filling a pool. -/
abbrev PoolM (ω : Type) := EStateM ProgramError (ConstantPool ω)

namespace ConstantPool

variable {ω : Type}

def empty : ConstantPool ω := ⟨#[], #[], #[]⟩

instance : Inhabited (ConstantPool ω) := ⟨empty⟩

def length (pool : ConstantPool ω) : Nat :=
  pool.bytes.size

/-- The first multiple of `size` that is not below `length`. -/
def nextStart (length size : Nat) : Nat :=
  (length + (size - 1)) / size * size

/-- Where a value of `size` bytes goes in a pool of the given length. It has to start at a position that two bytes can
hold. -/
def reserve (length size : Nat) : Except ProgramError Position :=
  if nextStart length size < 2 ^ 16 then
    .ok (UInt16.ofNat (nextStart length size))
  else
    .error (.constantPoolFull length)

/-- The bytes, made longer with zeros up to the end of a value that is then stored in them. -/
def extend (bytes : Bytes) (position : Position) (value size : Nat) : Bytes :=
  (bytes ++ Bytes.zeros (position.toNat + size - bytes.size)).store position.toNat value size

/-- Appends a value and returns its position. -/
def write (kind : Scalar) (value : kind.Value) : PoolM ω Position := fun ⟨bytes, objects, handlePositions⟩ =>
  match reserve bytes.size kind.size with
  | .error error => .error error ⟨bytes, objects, handlePositions⟩
  | .ok position => .ok position ⟨extend bytes position (kind.bits value) kind.size, objects, handlePositions⟩

/-- Appends a reference to an object, or to none, and returns its position. -/
def writeObject (object : Option ω) : PoolM ω Position := fun ⟨bytes, objects, handlePositions⟩ =>
  match reserve bytes.size handleSize with
  | .error error => .error error ⟨bytes, objects, handlePositions⟩
  | .ok position =>
    match object with
    | none => .ok position ⟨extend bytes position 0 handleSize, objects, handlePositions⟩
    | some object =>
      .ok position
        ⟨extend bytes position (objects.size + 1) handleSize, objects.push object, handlePositions.push position⟩

/-- Appends a value of any type and returns its position. -/
def writeOperand : (ty : Ty) → Operand ω ty → PoolM ω Position
  | .scalar kind, value => write kind value
  | .object, object => writeObject object

/-- The offset of a value of `size` bytes, if it is aligned and inside the pool. -/
def check (pool : ConstantPool ω) (position : Position) (size : Nat) : Except ProgramError Nat :=
  let offset := position.toNat
  if offset % size ≠ 0 then
    .error (.alignment offset size)
  else if pool.length < offset + size then
    .error (.indexOutOfRange (offset + size) pool.length)
  else
    .ok offset

/-- The value at a position, whatever was written there. -/
def read (pool : ConstantPool ω) (kind : Scalar) (position : Position) : Except ProgramError kind.Value :=
  match pool.check position kind.size with
  | .error error => .error error
  | .ok offset => .ok (kind.ofBits (pool.bytes.load offset kind.size))

/-- The object that the bytes at a position number, or none for the number zero. -/
def readObject (pool : ConstantPool ω) (position : Position) : Except ProgramError (Option ω) :=
  match pool.check position handleSize with
  | .error error => .error error
  | .ok offset =>
    match pool.bytes.load offset handleSize with
    | 0 => .ok none
    | index + 1 =>
      match pool.objects[index]? with
      | some object => .ok (some object)
      | none => .error (.invalidConstant position.toNat "object handle")

/-- The value of any type at a position. -/
def readOperand (pool : ConstantPool ω) (position : Position) : (ty : Ty) → Except ProgramError (Operand ω ty)
  | .scalar kind => pool.read kind position
  | .object => pool.readObject position

/-- An object of the kind that `view` recognises. -/
def readAs {α : Type} (pool : ConstantPool ω) (view : ω → Option α) (expected : String) (position : Position) :
    Except ProgramError α :=
  match pool.readObject position with
  | .error error => .error error
  | .ok object =>
    match object.bind view with
    | some found => .ok found
    | none => .error (.invalidConstant position.toNat expected)

end ConstantPool

end WordMachine
