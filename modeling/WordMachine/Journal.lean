import WordMachine.Program.Instruction

namespace WordMachine

/-- How much a message matters, from the most to the least. -/
inductive Level
  | warn
  | debug
  | trace
deriving DecidableEq

namespace Level

def rank : Level → Nat
  | warn => 0
  | debug => 1
  | trace => 2

def name : Level → String
  | warn => "WARN"
  | debug => "DEBUG"
  | trace => "TRACE"

end Level

/-- What pools keep for reuse. -/
inductive Resource
  | operandStack
  | frameStack
deriving DecidableEq

namespace Resource

def name : Resource → String
  | operandStack => "slate::stack::StackStorage"
  | frameStack => "alloc::vec::Vec<slate::frame::Frame>"

end Resource

/-- What happens during an execution that may be worth a message. -/
inductive Event
  /-- A pool had nothing to hand out. -/
  | poolMiss (resource : Resource)
  /-- A stack went back with references that nobody released. -/
  | leaked (count : Nat)
  /-- A frame is about to be pushed for a routine with these arguments. -/
  | entered (routine : String) (arguments : List String)
  /-- A routine is about to return a value. -/
  | exited (routine : String) (value : String)
  /-- Host code is about to be called. -/
  | externalCall (declaration : String)
  /-- An instruction is about to be carried out. -/
  | dispatched (routine : String) (ip : Nat) (instruction : Instruction)
  /-- An instruction failed. -/
  | failed (fault : Fault) (routine : String) (ip : Nat) (line : Option Nat)
deriving DecidableEq

namespace Event

def level : Event → Level
  | poolMiss _ => .debug
  | leaked _ => .warn
  | entered _ _ => .debug
  | exited _ _ => .debug
  | externalCall _ => .debug
  | dispatched _ _ _ => .trace
  | failed _ _ _ _ => .debug

def message : Event → String
  | poolMiss resource => s!"pool miss for {resource.name}"
  | leaked count => s!"recycling operand stack with {count} unreleased object handles"
  | entered routine arguments => s!"enter {routine}(" ++ String.intercalate ", " arguments ++ ")"
  | exited routine value => s!"exit {routine} -> {value}"
  | externalCall declaration => s!"extern {declaration}"
  | dispatched routine ip instruction => s!"{routine}:{indexText ip} {instruction.text}"
  | failed fault routine ip none => s!"{fault.message} in {routine} at {indexText ip}"
  | failed fault routine ip (some line) => s!"{fault.message} in {routine} at {indexText ip} (line {line})"

def text (event : Event) : String :=
  s!"{event.level.name} {event.message}"

end Event

/-- The events that were important enough to be kept, the oldest first. -/
structure Journal where
  level : Option Level
  events : Array Event

namespace Journal

/-- A journal that keeps nothing. -/
def silent : Journal := ⟨none, #[]⟩

/-- An empty journal that keeps events down to a level. -/
def keeping (level : Option Level) : Journal := ⟨level, #[]⟩

def keeps (journal : Journal) (level : Level) : Bool :=
  match journal.level with
  | some least => level.rank ≤ least.rank
  | none => false

/-- Adds an event, if events of its level are kept. -/
def add (journal : Journal) (event : Event) : Journal :=
  if journal.keeps event.level then { journal with events := journal.events.push event } else journal

def lines (journal : Journal) : List String :=
  journal.events.toList.map Event.text

end Journal

end WordMachine
