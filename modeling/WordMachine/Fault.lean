import WordMachine.Program.Opcode
import WordMachine.Text.Quoted
import WordMachine.Text.Record
import WordMachine.Value.Cell

namespace WordMachine

/-- What can be wrong with a program while it is put together or read. -/
inductive ProgramError
  | unknownOpcode (tag : UInt8)
  | unknownTypeTag (tag : UInt8)
  | alignment (position size : Nat)
  | indexOutOfRange (index length : Nat)
  | constantPoolFull (length : Nat)
  | invalidConstant (position : Nat) (expected : String)
  | lineOutOfOrder (line previous : Nat)
  | offsetOutOfOrder (offset previous : Nat)
deriving DecidableEq

/-- What can end an execution. -/
inductive Fault
  | stackOverflow
  | stackUnderflow
  | slotOutOfRange (slot offset : Nat)
  | callStackOverflow (depth : Nat)
  | typeMismatch (expected : Ty) (found : Option Ty)
  | argumentCountMismatch (expected found : Nat)
  | returnCountMismatch (routine : String) (expected found : Nat)
  | signatureMismatch (routine found : String)
  | invalidHandle (handle : Handle)
  | invalidOperand (op : Opcode) (ty : Ty)
  | arithmeticOverflow (op : Opcode) (ty : Ty)
  | nativeCall (message : String)
  | program (error : ProgramError)
deriving DecidableEq

instance : Coe ProgramError Fault := ⟨Fault.program⟩

/-- The name of the type that was found, if any was. -/
def foundName (found : Option Ty) : String :=
  match found with
  | some ty => ty.name
  | none => "nothing"

namespace ProgramError

def message : ProgramError → String
  | unknownOpcode tag => s!"unknown opcode 0x{byteText tag}"
  | unknownTypeTag tag => s!"unknown type tag 0x{byteText tag}"
  | alignment position size => s!"constant pool read of {size} bytes at position {position} is not aligned"
  | indexOutOfRange index length => s!"index {index} out of range for length {length}"
  | constantPoolFull length => s!"constant pool is full ({length} bytes)"
  | invalidConstant position expected => s!"constant at position {position} is not a {expected}"
  | lineOutOfOrder line previous => s!"line {line} recorded after line {previous}"
  | offsetOutOfOrder offset previous => s!"instruction {offset} recorded after instruction {previous}"

/-- The error as a diagnostic record. -/
def record : ProgramError → String
  | unknownOpcode tag => s!"UnknownOpcode({tag.toNat})"
  | unknownTypeTag tag => s!"UnknownTypeTag({tag.toNat})"
  | alignment position size =>
    recordText "Alignment" [("position", toString position), ("size", toString size)]
  | indexOutOfRange index length =>
    recordText "IndexOutOfRange" [("index", toString index), ("len", toString length)]
  | constantPoolFull length => recordText "ConstantPoolFull" [("len", toString length)]
  | invalidConstant position expected =>
    recordText "InvalidConstant" [("position", toString position), ("expected", quoted expected)]
  | lineOutOfOrder line previous =>
    recordText "LineOutOfOrder" [("line", toString line), ("previous", toString previous)]
  | offsetOutOfOrder offset previous =>
    recordText "OffsetOutOfOrder" [("offset", toString offset), ("previous", toString previous)]

end ProgramError

namespace Fault

def message : Fault → String
  | stackOverflow => "operand stack overflow"
  | stackUnderflow => "operand stack underflow"
  | slotOutOfRange slot offset => s!"slot {slot} is not below the stack offset {offset}"
  | callStackOverflow depth => s!"call stack overflow ({depth} frames)"
  | typeMismatch expected found => s!"type mismatch: expected {expected.name}, found {foundName found}"
  | argumentCountMismatch expected found => s!"expected {expected} argument words, found {found}"
  | returnCountMismatch routine expected found => s!"{routine} left {found} words on return, expected {expected}"
  | signatureMismatch routine found => s!"cannot call `{routine}` as `{found}`"
  | invalidHandle handle => s!"invalid or released object handle {handle.text}"
  | invalidOperand op ty => s!"{op.name} is not defined for {ty.name}"
  | arithmeticOverflow op ty => s!"arithmetic overflow in {ty.name} {op.name}"
  | nativeCall message => s!"native call failed: {message}"
  | program error => error.message

/-- The fault as a diagnostic record. -/
def record : Fault → String
  | stackOverflow => "StackOverflow"
  | stackUnderflow => "StackUnderflow"
  | slotOutOfRange slot offset =>
    recordText "SlotOutOfRange" [("slot", toString slot), ("offset", toString offset)]
  | callStackOverflow depth => recordText "CallStackOverflow" [("depth", toString depth)]
  | typeMismatch expected found =>
    recordText "TypeMismatch" [("expected", expected.label), ("found", quoted (foundName found))]
  | argumentCountMismatch expected found =>
    recordText "ArgumentCountMismatch" [("expected", toString expected), ("found", toString found)]
  | returnCountMismatch routine expected found =>
    recordText "ReturnCountMismatch"
      [("function", quoted routine), ("expected", toString expected), ("found", toString found)]
  | signatureMismatch routine found =>
    recordText "SignatureMismatch" [("function", quoted routine), ("found", quoted found)]
  | invalidHandle handle => s!"InvalidHandle({handle.bits.toNat})"
  | invalidOperand op ty => recordText "InvalidOperand" [("op", op.label), ("ty", ty.label)]
  | arithmeticOverflow op ty => recordText "ArithmeticOverflow" [("op", op.label), ("ty", ty.label)]
  | nativeCall message => s!"NativeCall({quoted message})"
  | program error => s!"Bytecode({error.record})"

end Fault

end WordMachine
