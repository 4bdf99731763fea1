import WordMachine.Memory.Bytes
import WordMachine.Memory.Handles
import WordMachine.Memory.Tags

namespace WordMachine

/-- A stack of words with a fixed capacity. A value occupies consecutive words from its slot on. References are kept in
the stack's own handle table, and the words hold only handles. Nothing at or above the offset is alive. -/
structure OperandStack (ω : Type) where
  capacity : Nat
  offset : Nat
  memory : Bytes
  tags : Tags
  handles : HandleTable ω

/-- Steps that work on a stack. A step that fails keeps what it had already done. -/
abbrev StackM (ω : Type) := EStateM Fault (OperandStack ω)

namespace OperandStack

variable {ω : Type}

/-- Words that a handle occupies. -/
def handleWords : Nat := Ty.object.words

/-- A stack on memory that nobody has used before. -/
def fresh (capacity : Nat) : OperandStack ω where
  capacity := capacity
  offset := 0
  memory := Bytes.zeros (capacity * wordSize)
  tags := Tags.blank capacity
  handles := .empty

/-- Handles on this stack that were not released. -/
def liveHandles (stack : OperandStack ω) : Nat :=
  stack.handles.live

/-- The live value that starts at a slot. -/
def cellAt (stack : OperandStack ω) (ty : Ty) (slot : Nat) : Except Fault (Cell ty) :=
  if stack.offset < slot + ty.words then
    .error (.slotOutOfRange slot stack.offset)
  else
    match stack.tags.check slot ty with
    | .error fault => .error fault
    | .ok () => .ok (Cell.ofBits ty (stack.memory.load (slot * wordSize) ty.size))

/-- The object that the handle on top refers to. -/
def topObject (stack : OperandStack ω) : Except Fault (Option ω) :=
  if stack.offset < handleWords then
    .error .stackUnderflow
  else
    match stack.cellAt .object (stack.offset - handleWords) with
    | .error fault => .error fault
    | .ok handle => stack.handles.get handle

/-- The value at a slot as log messages show it, or else why there is none. -/
def describe (stack : OperandStack ω) (slot : Nat) (ty : Ty) : String :=
  match stack.cellAt ty slot with
  | .ok cell => Cell.text ty cell
  | .error fault => s!"<{fault.message}>"

/-- The memory of the stack after it was used: no reference is left and no slot is readable, but the words are not
wiped. -/
def recycle (stack : OperandStack ω) : OperandStack ω :=
  { stack with
    offset := 0
    tags := Tags.blank stack.tags.size
    handles := stack.handles.clear }

/-- The stack as a diagnostic record. -/
def record (stack : OperandStack ω) : String :=
  recordText "OperandStack"
    [("offset", toString stack.offset), ("capacity", toString stack.capacity),
      ("live_handles", toString stack.liveHandles)]

end OperandStack

namespace StackM

variable {ω : Type}

def fail {α : Type} (fault : Fault) : StackM ω α := fun stack =>
  .error fault stack

/-- The number of words in use. -/
def offset : StackM ω Nat := fun stack =>
  .ok stack.offset stack

/-- Puts what is stored for a value on top. -/
def pushCell (ty : Ty) (cell : Cell ty) : StackM ω Unit := fun stack =>
  if stack.offset + ty.words ≤ stack.capacity then
    .ok ()
      { stack with
        memory := stack.memory.store (stack.offset * wordSize) (Cell.bits ty cell) ty.size
        tags := stack.tags.record stack.offset ty ty.words
        offset := stack.offset + ty.words }
  else
    .error .stackOverflow stack

/-- Takes what is stored for a value from the top, if a value of the type is there. -/
def popCell (ty : Ty) : StackM ω (Cell ty) := fun stack =>
  if stack.offset < ty.words then
    .error .stackUnderflow stack
  else
    match stack.tags.check (stack.offset - ty.words) ty with
    | .error fault => .error fault stack
    | .ok () =>
      .ok (Cell.ofBits ty (stack.memory.load ((stack.offset - ty.words) * wordSize) ty.size))
        { stack with offset := stack.offset - ty.words }

/-- Reads what is stored for the live value at a slot. -/
def readCell (ty : Ty) (slot : Nat) : StackM ω (Cell ty) := fun stack =>
  match stack.cellAt ty slot with
  | .ok cell => .ok cell stack
  | .error fault => .error fault stack

/-- Stores a value in live words. -/
def writeCell (ty : Ty) (slot : Nat) (cell : Cell ty) : StackM ω Unit := fun stack =>
  if stack.offset < slot + ty.words then
    .error (.slotOutOfRange slot stack.offset) stack
  else
    .ok ()
      { stack with
        memory := stack.memory.store (slot * wordSize) (Cell.bits ty cell) ty.size
        tags := stack.tags.record slot ty ty.words }

def push (kind : Scalar) (value : kind.Value) : StackM ω Unit :=
  pushCell kind value

def pop (kind : Scalar) : StackM ω kind.Value :=
  popCell kind

/-- Reads the live value at a slot. -/
def read (kind : Scalar) (slot : Nat) : StackM ω kind.Value :=
  readCell kind slot

/-- Writes a value over live words. -/
def write (kind : Scalar) (slot : Nat) (value : kind.Value) : StackM ω Unit :=
  writeCell kind slot value

/-- Issues a handle to an object. -/
def alloc (object : ω) : StackM ω Handle := fun stack =>
  let (handle, handles) := stack.handles.alloc object
  .ok handle { stack with handles := handles }

/-- Issues a second handle to the object of a handle. -/
def duplicate (handle : Handle) : StackM ω Handle := fun stack =>
  match stack.handles.duplicate handle with
  | .error fault => .error fault stack
  | .ok (copy, handles) => .ok copy { stack with handles := handles }

/-- Takes a handle back. -/
def release (handle : Handle) : StackM ω (Option ω) := fun stack =>
  match stack.handles.release handle with
  | .error fault => .error fault stack
  | .ok (object, handles) => .ok object { stack with handles := handles }

/-- Fails if a number of words has no room left. -/
def needRoom (words : Nat) : StackM ω Unit := fun stack =>
  if stack.offset + words ≤ stack.capacity then .ok () stack else .error .stackOverflow stack

/-- The handle for an object to be pushed: a new one, or the null handle for none. -/
def handleFor (object : Option ω) : StackM ω Handle :=
  match object with
  | some object => alloc object
  | none => pure Handle.null

/-- Puts a new handle to an object on top, or the null handle for none. -/
def pushObject (object : Option ω) : StackM ω Unit := do
  needRoom OperandStack.handleWords
  let handle ← handleFor object
  pushCell .object handle

/-- Takes the handle from the top and hands its object over. -/
def popObject : StackM ω (Option ω) := do
  let handle ← popCell .object
  release handle

/-- The object that the handle on top refers to. -/
def peekObject : StackM ω (Option ω) := fun stack =>
  match stack.topObject with
  | .ok object => .ok object stack
  | .error fault => .error fault stack

/-- Copies words with their tags to a lower place. -/
def moveDown (src dst words : Nat) : StackM ω Unit := fun stack =>
  .ok ()
    { stack with
      memory := copyBlock stack.memory (src * wordSize) (dst * wordSize) (words * wordSize)
      tags := stack.tags.copy src dst words }

def setOffset (offset : Nat) : StackM ω Unit := fun stack =>
  .ok () { stack with offset := offset }

end StackM

end WordMachine
