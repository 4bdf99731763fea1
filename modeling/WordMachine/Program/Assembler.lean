import WordMachine.Program.Chunk

namespace WordMachine

/-- A chunk under construction, with the source line that new instructions are attributed to. -/
structure Assembler (ω : Type) where
  chunk : Chunk ω
  line : Option Nat

/-- Steps of assembling. A step that fails keeps what it had already done. -/
abbrev AssemblerM (ω : Type) := EStateM ProgramError (Assembler ω)

namespace Assembler

variable {ω : Type}

def empty : Assembler ω := ⟨default, none⟩

/-- From now on, instructions come from this line. -/
def setLine (line : Nat) : AssemblerM ω Unit := fun a =>
  .ok () { a with line := some line }

/-- Appends an instruction, already encoded, and returns its index. -/
def append (raw : RawInstruction) : AssemblerM ω Nat := fun ⟨⟨code, constants, lines⟩, line⟩ =>
  .ok code.size ⟨⟨code.push raw, constants, lines⟩, line⟩

/-- Enters the next instruction in the line table, if a line is set. -/
def markLine : AssemblerM ω Unit := fun ⟨⟨code, constants, lines⟩, line⟩ =>
  match line with
  | none => .ok () ⟨⟨code, constants, lines⟩, none⟩
  | some current =>
    match lines.add code.size current with
    | .error error => .error error ⟨⟨code, constants, lines⟩, some current⟩
    | .ok lines => .ok () ⟨⟨code, constants, lines⟩, some current⟩

/-- Appends an instruction and returns its index. -/
def emit (instruction : Instruction) : AssemblerM ω Nat := do
  markLine
  append instruction.encode

/-- Writes a constant without an instruction that uses it. -/
def write (ty : Ty) (value : Operand ω ty) : AssemblerM ω Position := fun ⟨⟨code, constants, lines⟩, line⟩ =>
  match ConstantPool.writeOperand ty value constants with
  | .error error constants => .error error ⟨⟨code, constants, lines⟩, line⟩
  | .ok position constants => .ok position ⟨⟨code, constants, lines⟩, line⟩

/-- Writes a constant and pushes it. -/
def constant (ty : Ty) (value : Operand ω ty) : AssemblerM ω Nat := do
  let position ← write ty value
  emit (.constant ty position)

def add (ty : Ty) : AssemblerM ω Nat :=
  emit (.add ty)

def pop (ty : Ty) : AssemblerM ω Nat :=
  emit (.pop ty)

def getLocal (ty : Ty) (offset : UInt8) : AssemblerM ω Nat :=
  emit (.getLocal ty offset)

def setLocal (ty : Ty) (offset : UInt8) : AssemblerM ω Nat :=
  emit (.setLocal ty offset)

/-- Calls a routine, which is stored as an object constant. -/
def call (routine : ω) : AssemblerM ω Nat := do
  let position ← write .object (some routine)
  emit (.call position)

/-- Calls host code, which is stored as an object constant. -/
def externalCall (target : ω) : AssemblerM ω Nat := do
  let position ← write .object (some target)
  emit (.externalCall position)

def ret : AssemblerM ω Nat :=
  emit .ret

end Assembler

/-- What a sequence of assembling steps leaves behind. -/
def assemble {ω α : Type} (steps : AssemblerM ω α) : EStateM.Result ProgramError (Assembler ω) α :=
  steps Assembler.empty

end WordMachine
