import WordMachine.Program.ConstantPool
import WordMachine.Program.LineTable

namespace WordMachine

/-- Code that is being written, with the room set aside for it. -/
structure CodeBuffer where
  code : Array RawInstruction
  capacity : Nat

namespace CodeBuffer

/-- Least number of instructions that room is set aside for. -/
def minCapacity : Nat := 8

def withCapacity (capacity : Nat) : CodeBuffer :=
  ⟨#[], max capacity minCapacity⟩

/-- Appends an instruction; full room is doubled first. -/
def push (buffer : CodeBuffer) (raw : RawInstruction) : CodeBuffer where
  capacity := if buffer.code.size = buffer.capacity then 2 * buffer.capacity else buffer.capacity
  code := buffer.code.push raw

end CodeBuffer

/-- The instruction at an index, still encoded. -/
def instructionAt (code : Array RawInstruction) (ip : Nat) : Except ProgramError RawInstruction :=
  match code[ip]? with
  | some raw => .ok raw
  | none => .error (.indexOutOfRange ip code.size)

/-- Code with the constants it refers to and the source lines it comes from. -/
structure Chunk (ω : Type) where
  code : Array RawInstruction
  constants : ConstantPool ω
  lines : LineTable

namespace Chunk

variable {ω : Type}

instance : Inhabited (Chunk ω) := ⟨⟨#[], .empty, .empty⟩⟩

/-- Fetches and decodes an instruction. -/
def fetch (chunk : Chunk ω) (ip : Nat) : Except ProgramError Instruction :=
  match instructionAt chunk.code ip with
  | .error error => .error error
  | .ok raw => Instruction.decode raw

def lineFor (chunk : Chunk ω) (ip : Nat) : Option Nat :=
  chunk.lines.lineFor ip

/-- One line of a listing: index, source line, instruction. -/
def listingLine (lines : LineTable) (ip : Nat) (raw : RawInstruction) : String :=
  let place :=
    match lines.lineFor ip with
    | some line => padLeft ' ' 4 (toString line)
    | none => "   -"
  let shown :=
    match Instruction.decode raw with
    | .ok instruction => instruction.text
    | .error error => s!"<{error.message}>"
  s!"{indexText ip} {place} {shown}"

/-- One line for each instruction. -/
def listing (chunk : Chunk ω) : List String :=
  chunk.code.toList.zipIdx.map fun entry => listingLine chunk.lines entry.2 entry.1

end Chunk

end WordMachine
