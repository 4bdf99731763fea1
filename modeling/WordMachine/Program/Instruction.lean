import WordMachine.Fault

namespace WordMachine

/-- A byte offset in a constant pool. -/
abbrev Position := UInt16

/-- How a position is written in listings. -/
def positionText (position : Position) : String :=
  s!"#{position.toNat}"

/-- Four bytes as they stand in the code: the opcode tag and three bytes of payload. -/
structure RawInstruction where
  tag : UInt8
  first : UInt8
  second : UInt8
  third : UInt8
deriving DecidableEq, Inhabited

namespace RawInstruction

def bytes (raw : RawInstruction) : List UInt8 :=
  [raw.tag, raw.first, raw.second, raw.third]

/-- The four bytes as a diagnostic record. -/
def record (raw : RawInstruction) : String :=
  s!"RawInstruction({byteText raw.tag} {byteText raw.first} {byteText raw.second} {byteText raw.third})"

end RawInstruction

/-- Instructions with their operands. Local offsets are counted in words from the frame base. -/
inductive Instruction
  | constant (ty : Ty) (position : Position)
  | add (ty : Ty)
  | ret
  | call (position : Position)
  | pop (ty : Ty)
  | setLocal (ty : Ty) (offset : UInt8)
  | getLocal (ty : Ty) (offset : UInt8)
  | externalCall (position : Position)
deriving DecidableEq, Inhabited

namespace Instruction

def opcode : Instruction → Opcode
  | constant _ _ => .constant
  | add _ => .add
  | ret => .ret
  | call _ => .call
  | pop _ => .pop
  | setLocal _ _ => .setLocal
  | getLocal _ _ => .getLocal
  | externalCall _ => .externalCall

/-- The four bytes of an instruction. A position takes the last two bytes, low byte first; bytes without a use are
zero. -/
def encode (instruction : Instruction) : RawInstruction :=
  let tag := instruction.opcode.tag
  match instruction with
  | constant ty position => ⟨tag, ty.tag, position.toUInt8, (position >>> 8).toUInt8⟩
  | add ty => ⟨tag, ty.tag, 0, 0⟩
  | ret => ⟨tag, 0, 0, 0⟩
  | call position => ⟨tag, 0, position.toUInt8, (position >>> 8).toUInt8⟩
  | pop ty => ⟨tag, ty.tag, 0, 0⟩
  | setLocal ty offset => ⟨tag, ty.tag, offset, 0⟩
  | getLocal ty offset => ⟨tag, ty.tag, offset, 0⟩
  | externalCall position => ⟨tag, 0, position.toUInt8, (position >>> 8).toUInt8⟩

/-- The type named by the first payload byte. -/
def typeOperand (raw : RawInstruction) : Except ProgramError Ty :=
  match Ty.ofTag? raw.first with
  | some ty => .ok ty
  | none => .error (.unknownTypeTag raw.first)

/-- The position in the last two payload bytes. -/
def positionOperand (raw : RawInstruction) : Position :=
  raw.second.toUInt16 ||| (raw.third.toUInt16 <<< 8)

/-- Reads an instruction; bytes that its opcode does not use are ignored. -/
def decode (raw : RawInstruction) : Except ProgramError Instruction :=
  match Opcode.ofTag? raw.tag with
  | none => .error (.unknownOpcode raw.tag)
  | some .constant => (typeOperand raw).map fun ty => constant ty (positionOperand raw)
  | some .add => (typeOperand raw).map add
  | some .ret => .ok ret
  | some .call => .ok (call (positionOperand raw))
  | some .pop => (typeOperand raw).map pop
  | some .setLocal => (typeOperand raw).map fun ty => setLocal ty raw.second
  | some .getLocal => (typeOperand raw).map fun ty => getLocal ty raw.second
  | some .externalCall => .ok (externalCall (positionOperand raw))

/-- The instruction as listings show it. -/
def text (instruction : Instruction) : String :=
  let name := instruction.opcode.name
  match instruction with
  | constant ty position => s!"{name} {ty.name} {positionText position}"
  | add ty => s!"{name} {ty.name}"
  | ret => name
  | call position => s!"{name} {positionText position}"
  | pop ty => s!"{name} {ty.name}"
  | setLocal ty offset => s!"{name} {ty.name} [{offset.toNat}]"
  | getLocal ty offset => s!"{name} {ty.name} [{offset.toNat}]"
  | externalCall position => s!"{name} {positionText position}"

end Instruction

end WordMachine
