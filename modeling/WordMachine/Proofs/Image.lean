import WordMachine.Proofs.Adapter
import WordMachine.Proofs.Known

namespace WordMachine

/-- What a word of a stack stands for: the start of a scalar with as many of its bytes as fit, a reference, or eight
bytes that no value starts with. -/
inductive Word (ω : Type)
  | scalar (kind : Scalar) (bits : Nat)
  | object (object : Option ω)
  | rest (bits : Nat)

namespace Word

variable {ω : Type}

def tag : Word ω → Option Ty
  | scalar kind _ => some kind
  | object _ => some .object
  | rest _ => none

/-- All eight bytes of a word, if it stands for them. A narrow scalar covers only some of them, and the bytes of a
reference are those of a handle. -/
def whole? : Word ω → Option Nat
  | scalar kind bits => if wordSize ≤ kind.size then some bits else none
  | object _ => none
  | rest bits => some bits

end Word

/-- The words of a value. -/
def Operand.words {ω : Type} : (ty : Ty) → Operand ω ty → List (Word ω)
  | .scalar kind, value =>
    if kind.size ≤ wordSize then
      [.scalar kind (kind.bits value)]
    else
      [.scalar kind (kind.bits value % 256 ^ wordSize), .rest (kind.bits value / 256 ^ wordSize)]
  | .object, object => [.object object]

/-- How many handles a value needs. -/
def Operand.handles {ω : Type} : (ty : Ty) → Operand ω ty → Nat
  | .object, some _ => 1
  | _, _ => 0

/-- What is known of a memory after a value is stored at a slot: the bytes of a scalar or of the null handle, but not
those of any other handle. -/
def Known.put {ω : Type} (known : Known) (slot : Nat) : (ty : Ty) → Operand ω ty → Known
  | .scalar kind, value => known.store (slot * wordSize) (kind.bits value) kind.size
  | .object, none => known.store (slot * wordSize) (Cell.bits .object Handle.null) Ty.object.size
  | .object, some _ => known.forget (slot * wordSize) Ty.object.size

/-- What stands on a stack, without the handles behind it, and what is known of the memory below and above its top. -/
structure Image (ω : Type) where
  capacity : Nat
  live : Nat
  words : List (Word ω)
  known : Known

/-- Why there is no next image: a fault, or a value some of whose bytes are not known. -/
inductive Trouble
  | fault (fault : Fault)
  | torn
deriving DecidableEq

/-- Steps that work on an image. -/
abbrev ImageM (ω : Type) := EStateM Trouble (Image ω)

namespace Image

variable {ω : Type}

def fail {α : Type} (fault : Fault) : ImageM ω α := fun image =>
  .error (.fault fault) image

/-- The value of a type that the given words start with. If that needs a second word that stands for something else,
what is known of its bytes decides. -/
def decode (second : Option Nat) : (ty : Ty) → List (Word ω) → Except Trouble (Operand ω ty)
  | .object, .object object :: _ => .ok object
  | .scalar kind, .scalar found low :: rest =>
    if found = kind then
      if kind.size ≤ wordSize then
        .ok (kind.ofBits low)
      else
        match (rest.head?.bind Word.whole?).or second with
        | some high => .ok (kind.ofBits (low + 256 ^ wordSize * high))
        | none => .error .torn
    else
      .error (.fault (.typeMismatch kind (some found)))
  | ty, word :: _ => .error (.fault (.typeMismatch ty word.tag))
  | _, [] => .error .torn

/-- The value of a type that stands at a slot. -/
def valueAt (image : Image ω) (ty : Ty) (slot : Nat) : Except Trouble (Operand ω ty) :=
  decode (image.known.load? ((slot + 1) * wordSize) wordSize) ty (image.words.drop slot)

/-- Forgets the handle of a value. -/
def release (ty : Ty) (value : Operand ω ty) : ImageM ω Unit := fun image =>
  .ok () { image with live := image.live - Operand.handles ty value }

def push (ty : Ty) (value : Operand ω ty) : ImageM ω Unit := fun image =>
  if image.words.length + ty.words ≤ image.capacity then
    .ok ()
      { image with
        live := image.live + Operand.handles ty value
        words := image.words ++ Operand.words ty value
        known := image.known.put image.words.length ty value }
  else
    .error (.fault .stackOverflow) image

/-- Takes a value from the top and keeps its handle. -/
def take (ty : Ty) : ImageM ω (Operand ω ty) := fun image =>
  if image.words.length < ty.words then
    .error (.fault .stackUnderflow) image
  else
    match image.valueAt ty (image.words.length - ty.words) with
    | .ok value => .ok value { image with words := image.words.take (image.words.length - ty.words) }
    | .error trouble => .error trouble image

def pop (ty : Ty) : ImageM ω (Operand ω ty) := do
  let value ← take ty
  release ty value
  pure value

def read (ty : Ty) (slot : Nat) : ImageM ω (Operand ω ty) := fun image =>
  if image.words.length < slot + ty.words then
    .error (.fault (.slotOutOfRange slot image.words.length)) image
  else
    match image.valueAt ty slot with
    | .ok value => .ok value image
    | .error trouble => .error trouble image

/-- Puts the words of a value in the place of others. -/
def write (ty : Ty) (slot : Nat) (value : Operand ω ty) : ImageM ω Unit := fun image =>
  if image.words.length < slot + ty.words then
    .error (.fault (.slotOutOfRange slot image.words.length)) image
  else
    .ok ()
      { image with
        words := image.words.take slot ++ Operand.words ty value ++ image.words.drop (slot + ty.words)
        known := image.known.put slot ty value }

def pushResult : (result : Option Ty) → Result ω result → ImageM ω Unit
  | some ty, value => push ty value
  | none, _ => pure ()

def popResult : (result : Option Ty) → ImageM ω (Result ω result)
  | some ty => pop ty
  | none => pure ()

def pushAll : List (Argument ω) → ImageM ω Unit
  | [] => pure ()
  | argument :: rest => do
    push argument.ty argument.value
    pushAll rest

def popAll : (types : List Ty) → ImageM ω (Operands ω types)
  | [] => pure ()
  | ty :: rest => do
    let values ← popAll rest
    let value ← pop ty
    pure (value, values)

def pushConstant (constants : ConstantPool ω) (ty : Ty) (position : Position) : ImageM ω Unit :=
  match constants.readOperand position ty with
  | .ok value => push ty value
  | .error error => fail error

def discard (ty : Ty) : ImageM ω Unit := do
  let _ ← pop ty

def addTop : Ty → ImageM ω Unit
  | .object => fail (.invalidOperand .add .object)
  | .scalar kind =>
    match kind.sum? with
    | none => fail (.invalidOperand .add kind)
    | some sum => do
      let b ← pop kind
      let a ← pop kind
      match sum a b with
      | some total => push kind total
      | none => fail (.arithmeticOverflow .add kind)

def loadLocal (ty : Ty) (slot : Nat) : ImageM ω Unit := do
  let value ← read ty slot
  push ty value

/-- A scalar is written over whatever lies there, a reference only over another, whose handle is forgotten. -/
def storeLocal : Ty → Nat → ImageM ω Unit
  | .scalar kind, slot => do
    let value ← pop kind
    write kind slot value
  | .object, slot => do
    let object ← take .object
    let previous ← read .object slot
    write .object slot object
    release .object previous

/-- The slot that lies `words` below the top. -/
def slotUnder (words : Nat) : ImageM ω Nat := fun image =>
  if image.words.length < words then .error (.fault .stackUnderflow) image
  else .ok (image.words.length - words) image

def checkExternal (external : External ω) (base : Nat) : ImageM ω Unit := fun image =>
  if image.words.length = base + external.returnWords then
    .ok () image
  else
    .error (.fault (.returnCountMismatch external.name external.returnWords (image.words.length - base))) image

def applyAdapter (adapter : Adapter ω) : ImageM ω Unit := do
  let values ← popAll adapter.parameters
  pushResult adapter.result (adapter.apply values)

def callAdapter (adapter : Adapter ω) : ImageM ω Unit := do
  let base ← slotUnder adapter.external.argumentWords
  applyAdapter adapter
  checkExternal adapter.external base

def checkReturn (signature : Signature) (base : Nat) : ImageM ω Unit := fun image =>
  let localsEnd := base + signature.argumentWords
  if image.words.length < localsEnd + signature.returnWords then
    .error (.fault .stackUnderflow) image
  else if localsEnd + signature.returnWords < image.words.length then
    .error
      (.fault (.returnCountMismatch signature.name signature.returnWords (image.words.length - localsEnd))) image
  else
    .ok () image

/-- Forgets the handles of the references among the arguments. -/
def releaseArguments (base : Nat) : List (Nat × Ty) → ImageM ω Unit
  | [] => pure ()
  | (_, .scalar _) :: rest => releaseArguments base rest
  | (slot, .object) :: rest => do
    let object ← read .object (base + slot)
    release .object object
    releaseArguments base rest

/-- Removes the arguments under a result. -/
def dropArguments (base words : Nat) : ImageM ω Unit := fun image =>
  .ok ()
    { image with
      words := image.words.take base ++ image.words.drop (base + words)
      known :=
        image.known.copy ((base + words) * wordSize) (base * wordSize)
          ((image.words.length - (base + words)) * wordSize) }

end Image

namespace Image

variable {H : Type}

def leave (frame : Frame H) : ImageM (Object H) Unit := do
  checkReturn frame.routine.signature frame.base
  releaseArguments frame.base frame.routine.signature.argumentSlots
  dropArguments frame.base frame.routine.signature.argumentWords

def keeping (step : ImageM (Object H) Unit) : ImageM (Object H) (FrameChange H) := do
  step
  pure .keep

def enter (routine : Routine (Object H)) : ImageM (Object H) (FrameChange H) := do
  let base ← slotUnder routine.signature.argumentWords
  pure (.push ⟨routine, 0, base⟩)

/-- What an instruction does to an image. -/
def effect (adapters : Adapters H) (frame : Frame H) (instruction : Instruction) :
    ImageM (Object H) (FrameChange H) :=
  let constants := frame.routine.chunk.constants
  match instruction with
  | .constant ty position => keeping (pushConstant constants ty position)
  | .add ty => keeping (addTop ty)
  | .pop ty => keeping (discard ty)
  | .setLocal ty offset => keeping (storeLocal ty (frame.base + offset.toNat))
  | .getLocal ty offset => keeping (loadLocal ty (frame.base + offset.toNat))
  | .call position =>
    match constants.readRoutine position with
    | .ok callee => enter callee
    | .error error => fail error
  | .externalCall position =>
    match adapters.read constants position with
    | .ok adapter => keeping (callAdapter adapter)
    | .error error => fail error
  | .ret => do
    leave frame
    pure .pop

end Image

end WordMachine
