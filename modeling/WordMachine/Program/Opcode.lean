namespace WordMachine

/-- What an instruction does. -/
inductive Opcode
  | constant
  | add
  | ret
  | call
  | pop
  | setLocal
  | getLocal
  | externalCall
deriving DecidableEq, Inhabited

namespace Opcode

/-- Every opcode, in the order of the tags. -/
def all : List Opcode :=
  [constant, add, ret, call, pop, setLocal, getLocal, externalCall]

def tag : Opcode → UInt8
  | constant => 0
  | add => 1
  | ret => 2
  | call => 3
  | pop => 4
  | setLocal => 5
  | getLocal => 6
  | externalCall => 7

def ofTag? (tag : UInt8) : Option Opcode :=
  all[tag.toNat]?

def name : Opcode → String
  | constant => "CONSTANT"
  | add => "ADD"
  | ret => "RETURN"
  | call => "CALL"
  | pop => "POP"
  | setLocal => "SET_LOCAL"
  | getLocal => "GET_LOCAL"
  | externalCall => "EXTERNAL_CALL"

/-- The spelling used in diagnostic records. -/
def label : Opcode → String
  | constant => "Constant"
  | add => "Add"
  | ret => "Return"
  | call => "Call"
  | pop => "Pop"
  | setLocal => "SetLocal"
  | getLocal => "GetLocal"
  | externalCall => "ExternalCall"

/-- Whether the second byte of the instruction is a type tag. -/
def hasTypeOperand : Opcode → Bool
  | constant => true
  | add => true
  | pop => true
  | setLocal => true
  | getLocal => true
  | ret => false
  | call => false
  | externalCall => false

end Opcode

end WordMachine
