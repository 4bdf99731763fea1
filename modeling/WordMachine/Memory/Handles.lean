import WordMachine.Fault

namespace WordMachine

/-- A place for one object. The generation counts, up to wrapping around, how often the place was vacated. -/
structure Slot (ω : Type) where
  generation : UInt64
  object : Option ω

/-- Takes the object out, if there is one, so that handles to it become stale. -/
def Slot.vacate {ω : Type} (slot : Slot ω) : Slot ω :=
  match slot.object with
  | some _ => ⟨slot.generation + 1, none⟩
  | none => slot

/-- The objects that the references on one stack refer to. A handle names a slot together with the generation in which
it was issued, so a handle that was released is told from a later one to the same slot. -/
structure HandleTable (ω : Type) where
  slots : Array (Slot ω)
  /-- The empty slots, the next one to be filled first. -/
  free : List Nat
  /-- How many handles were issued and not released. -/
  live : Nat

namespace HandleTable

variable {ω : Type}

def empty : HandleTable ω := ⟨#[], [], 0⟩

instance : Inhabited (HandleTable ω) := ⟨empty⟩

/-- The lower half of a word. -/
def indexMask : UInt64 := 0xFFFFFFFF

/-- The handle of a slot: what fits of the generation in the upper half, the index and one in the lower. -/
def pack (index : Nat) (generation : UInt64) : Handle :=
  ⟨(generation &&& indexMask) <<< 32 ||| UInt64.ofNat (index + 1)⟩

/-- The index in a handle, and what it has of a generation. -/
def unpack? (handle : Handle) : Option (Nat × UInt64) :=
  match (handle.bits &&& indexMask).toNat with
  | 0 => none
  | index + 1 => some (index, handle.bits >>> 32)

/-- Stores an object and issues a handle to it. The slot that was vacated last is used first. -/
def alloc : HandleTable ω → ω → Handle × HandleTable ω
  | ⟨slots, free, live⟩, object =>
    match free with
    | index :: rest =>
      let generation := (slots[index]?.map Slot.generation).getD 0
      (pack index generation, ⟨slots.setIfInBounds index ⟨generation, some object⟩, rest, live + 1⟩)
    | [] => (pack slots.size 0, ⟨slots.push ⟨0, some object⟩, [], live + 1⟩)

/-- The slot and the object that a handle refers to. -/
def locate? (table : HandleTable ω) (handle : Handle) : Option (Nat × ω) :=
  match unpack? handle with
  | none => none
  | some (index, generation) =>
    match table.slots[index]? with
    | some ⟨current, some object⟩ => if current &&& indexMask = generation then some (index, object) else none
    | _ => none

/-- The object that a handle refers to; the null handle refers to none. -/
def get (table : HandleTable ω) (handle : Handle) : Except Fault (Option ω) :=
  if handle = Handle.null then
    .ok none
  else
    match table.locate? handle with
    | some (_, object) => .ok (some object)
    | none => .error (.invalidHandle handle)

/-- Issues a second handle to the object of a handle. -/
def duplicate (table : HandleTable ω) (handle : Handle) : Except Fault (Handle × HandleTable ω) :=
  match table.get handle with
  | .error fault => .error fault
  | .ok none => .ok (Handle.null, table)
  | .ok (some object) => .ok (table.alloc object)

/-- Vacates the slot with an index. -/
def vacate : HandleTable ω → Nat → HandleTable ω
  | ⟨slots, free, live⟩, index => ⟨slots.modify index Slot.vacate, index :: free, live - 1⟩

/-- Takes a handle back, and with it the object that it referred to. -/
def release (table : HandleTable ω) (handle : Handle) : Except Fault (Option ω × HandleTable ω) :=
  if handle = Handle.null then
    .ok (none, table)
  else
    match table.locate? handle with
    | some (index, object) => .ok (some object, table.vacate index)
    | none => .error (.invalidHandle handle)

/-- The slots that hold an object, the last one first. -/
def occupied (table : HandleTable ω) : List Nat :=
  ((List.range table.slots.size).filter fun index => (table.slots[index]?.bind Slot.object).isSome).reverse

/-- Takes every handle back. -/
def clear (table : HandleTable ω) : HandleTable ω where
  free := table.occupied ++ table.free
  slots := table.slots.map Slot.vacate
  live := 0

end HandleTable

end WordMachine
