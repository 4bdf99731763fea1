import WordMachine.Proofs.Handles
import WordMachine.Proofs.Sound

namespace WordMachine

theorem Bytes.load_store_outside {memory : Bytes} {start value count place length : Nat}
    (apart : place + length ≤ start ∨ start + count ≤ place) :
    (memory.store start value count).load place length = memory.load place length := by
  refine Bytes.load_congr fun i lower upper => ?_
  rcases apart with before | after
  · exact Bytes.getD_store_of_lt (by omega)
  · exact Bytes.getD_store_of_ge (by omega)

/-- The handle that the word at a slot holds, if it holds one. -/
def Bytes.handleAt (memory : Bytes) (slot : Nat) : Handle :=
  Cell.ofBits .object (memory.load (slot * wordSize) Ty.object.size)

theorem Bytes.handleAt_congr {memory other : Bytes} {slot place : Nat}
    (same : memory.load (slot * wordSize) Ty.object.size = other.load (place * wordSize) Ty.object.size) :
    memory.handleAt slot = other.handleAt place :=
  congrArg (Cell.ofBits .object) same

theorem Bytes.handleAt_of_bits {memory : Bytes} {slot : Nat} {handle : Handle}
    (stored : memory.load (slot * wordSize) Ty.object.size = Cell.bits .object handle) :
    memory.handleAt slot = handle :=
  (congrArg (Cell.ofBits .object) stored).trans (Cell.ofBits_bits .object handle)

theorem Bytes.ofBits_load (memory : Bytes) (slot : Nat) :
    Cell.ofBits .object (memory.load (slot * wordSize) Ty.object.size) = memory.handleAt slot :=
  rfl

attribute [irreducible] Bytes.handleAt

namespace HandleTable

variable {ω : Type}

/-- The null handle, or one that was issued and not released. -/
def Refers (table : HandleTable ω) (handle : Handle) : Prop :=
  ∃ object, table.get handle = .ok object

theorem refers_null (table : HandleTable ω) : table.Refers Handle.null :=
  ⟨none, table.get_null⟩

theorem refers_iff {table : HandleTable ω} {handle : Handle} :
    table.Refers handle ↔ handle = Handle.null ∨ ∃ index object, table.locate? handle = some (index, object) := by
  constructor
  · rintro ⟨object, got⟩
    cases object with
    | none => exact .inl (get_eq_none_iff.mp got)
    | some object =>
      obtain ⟨index, located⟩ := get_eq_some_iff.mp got
      exact .inr ⟨index, object, located⟩
  · rintro (rfl | ⟨index, object, located⟩)
    · exact table.refers_null
    · exact ⟨some object, get_of_locate? located⟩

/-- A handle that is in use is not the next one to be issued. -/
theorem Refers.ne_alloc {table : HandleTable ω} {handle : Handle} {object : ω} (refers : table.Refers handle)
    (consistent : table.Consistent) (small : (table.alloc object).2.Small) : handle ≠ (table.alloc object).1 := by
  obtain ⟨⟨index, issued⟩, unused, _⟩ := consistent.locate?_alloc small
  rintro rfl
  rcases refers_iff.mp refers with null | ⟨place, found, located⟩
  · exact ne_null_of_locate? issued null
  · rw [unused] at located
    cases located

/-- Issuing a handle changes nothing for the handles in use. -/
theorem Refers.get_alloc {table : HandleTable ω} {handle : Handle} {object : ω} (refers : table.Refers handle)
    (consistent : table.Consistent) (small : (table.alloc object).2.Small) :
    (table.alloc object).2.get handle = table.get handle :=
  get_congr ((consistent.locate?_alloc small).2.2 handle (refers.ne_alloc consistent small))

/-- What can come of taking a handle back. -/
theorem release_cases {table next : HandleTable ω} {handle : Handle} {object : Option ω}
    (released : table.release handle = .ok (object, next)) :
    (handle = Handle.null ∧ object = none ∧ next = table) ∨
      ∃ index found, table.locate? handle = some (index, found) ∧ object = some found ∧
        next = table.vacate index := by
  unfold release at released
  split at released
  · rename_i null
    cases released
    exact .inl ⟨null, rfl, rfl⟩
  · split at released
    · rename_i index found located
      cases released
      exact .inr ⟨index, found, located, rfl, rfl⟩
    · cases released

theorem Refers.release {table : HandleTable ω} {handle : Handle} (refers : table.Refers handle) :
    ∃ object next, table.get handle = .ok object ∧ table.release handle = .ok (object, next) := by
  rcases refers_iff.mp refers with rfl | ⟨index, object, located⟩
  · exact ⟨none, table, table.get_null, table.release_null⟩
  · exact ⟨some object, table.vacate index, get_of_locate? located, release_of_locate? located⟩

theorem Consistent.release {table next : HandleTable ω} {handle : Handle} {object : Option ω}
    (consistent : table.Consistent) (released : table.release handle = .ok (object, next)) : next.Consistent := by
  rcases release_cases released with ⟨_, _, rfl⟩ | ⟨index, found, located, _, rfl⟩
  · exact consistent
  · obtain ⟨generation, _, _, filled⟩ := locate?_eq_some_iff.mp located
    exact consistent.vacate filled

theorem size_release {table next : HandleTable ω} {handle : Handle} {object : Option ω}
    (released : table.release handle = .ok (object, next)) : next.slots.size = table.slots.size := by
  rcases release_cases released with ⟨_, _, rfl⟩ | ⟨index, found, located, _, rfl⟩
  · rfl
  · exact table.size_vacate index

/-- Taking a handle back changes nothing for the others. -/
theorem get_release {table next : HandleTable ω} {handle other : Handle} {object : Option ω}
    (released : table.release handle = .ok (object, next)) (apart : other = handle → handle = Handle.null) :
    next.get other = table.get other := by
  rcases release_cases released with ⟨_, _, rfl⟩ | ⟨index, found, located, _, rfl⟩
  · rfl
  · refine get_congr ((locate?_vacate located).2 other ?_)
    intro same
    exact ne_null_of_locate? located (apart same)

/-- A handle that was taken back refers to nothing any more. -/
theorem not_refers_release {table next : HandleTable ω} {handle : Handle} {object : Option ω}
    (released : table.release handle = .ok (object, next)) (issued : handle ≠ Handle.null) :
    ¬ next.Refers handle := by
  intro refers
  rcases release_cases released with ⟨null, _⟩ | ⟨index, found, located, _, rfl⟩
  · exact issued null
  · rcases refers_iff.mp refers with null | ⟨place, other, again⟩
    · exact issued null
    · rw [(locate?_vacate located).1] at again
      cases again

end HandleTable

namespace OperandStack

variable {ω : Type}

def handleAt (stack : OperandStack ω) (slot : Nat) : Handle :=
  stack.memory.handleAt slot

/-- The stack with a value stored at a slot, whatever lies there. -/
def put (stack : OperandStack ω) (slot : Nat) (ty : Ty) (cell : Cell ty) : OperandStack ω :=
  { stack with
    memory := stack.memory.store (slot * wordSize) (Cell.bits ty cell) ty.size
    tags := stack.tags.record slot ty ty.words }

theorem Sound.put {stack : OperandStack ω} (sound : stack.Sound) (slot : Nat) (ty : Ty) (cell : Cell ty) :
    (stack.put slot ty cell).Sound where
  memory_size := (Bytes.size_store ..).trans sound.memory_size
  tags_size := (Tags.size_record ..).trans sound.tags_size
  offset_le := sound.offset_le

theorem load_put_outside {stack : OperandStack ω} {slot place length : Nat} {ty : Ty} {cell : Cell ty}
    (apart : place < slot ∨ slot + ty.words ≤ place) (short : length ≤ wordSize) :
    (stack.put slot ty cell).memory.load (place * wordSize) length =
      stack.memory.load (place * wordSize) length := by
  have bytes := ty.size_le_words
  refine Bytes.load_store_outside ?_
  unfold wordSize at bytes short ⊢
  rcases apart with before | after
  · exact .inl (by omega)
  · exact .inr (by omega)

theorem handleAt_put_outside {stack : OperandStack ω} {slot place : Nat} {ty : Ty} {cell : Cell ty}
    (apart : place < slot ∨ slot + ty.words ≤ place) : (stack.put slot ty cell).handleAt place = stack.handleAt place :=
  Bytes.handleAt_congr (load_put_outside apart (Nat.le_refl 8))

theorem tag_put_outside {stack : OperandStack ω} {slot place : Nat} {ty : Ty} {cell : Cell ty}
    (apart : place < slot ∨ slot + ty.words ≤ place) :
    (stack.put slot ty cell).tags.get place = stack.tags.get place :=
  Tags.get_record_outside apart

theorem tag_put_self {stack : OperandStack ω} {slot : Nat} {ty : Ty} {cell : Cell ty} (sound : stack.Sound)
    (room : slot + ty.words ≤ stack.capacity) : (stack.put slot ty cell).tags.get slot = some ty :=
  Tags.get_record_self ty.words_pos (by rw [sound.tags_size]; exact room)

theorem tag_put_rest {stack : OperandStack ω} {slot place : Nat} {ty : Ty} {cell : Cell ty} (sound : stack.Sound)
    (room : slot + ty.words ≤ stack.capacity) (lower : slot < place) (upper : place < slot + ty.words) :
    (stack.put slot ty cell).tags.get place = none :=
  Tags.get_record_rest (by rw [sound.tags_size]; exact room) lower upper

theorem load_put_self {stack : OperandStack ω} {slot : Nat} {ty : Ty} {cell : Cell ty} (sound : stack.Sound)
    (room : slot + ty.words ≤ stack.capacity) :
    (stack.put slot ty cell).memory.load (slot * wordSize) ty.size = Cell.bits ty cell := by
  have inside : slot * wordSize + ty.size ≤ stack.memory.size := (sound.inside room).stored
  exact (Bytes.load_store inside).trans (Nat.mod_eq_of_lt (Cell.bits_lt ty cell))

/-- The stack with a handle stored at a slot, whatever lies there. -/
def putHandle (stack : OperandStack ω) (slot : Nat) (handle : Handle) : OperandStack ω :=
  stack.put slot .object handle

@[simp]
theorem handles_putHandle (stack : OperandStack ω) (slot : Nat) (handle : Handle) :
    (stack.putHandle slot handle).handles = stack.handles := by
  simp only [putHandle, put]

@[simp]
theorem capacity_putHandle (stack : OperandStack ω) (slot : Nat) (handle : Handle) :
    (stack.putHandle slot handle).capacity = stack.capacity := by
  simp only [putHandle, put]

@[simp]
theorem offset_putHandle (stack : OperandStack ω) (slot : Nat) (handle : Handle) :
    (stack.putHandle slot handle).offset = stack.offset := by
  simp only [putHandle, put]

theorem tag_putHandle_self {stack : OperandStack ω} {slot : Nat} {handle : Handle} (sound : stack.Sound)
    (room : slot < stack.capacity) : (stack.putHandle slot handle).tags.get slot = some .object :=
  tag_put_self sound room

theorem tag_putHandle_ne {stack : OperandStack ω} {slot place : Nat} {handle : Handle} (different : place ≠ slot) :
    (stack.putHandle slot handle).tags.get place = stack.tags.get place :=
  tag_put_outside (Nat.lt_or_gt_of_ne different)

theorem handleAt_putHandle_self {stack : OperandStack ω} {slot : Nat} {handle : Handle} (sound : stack.Sound)
    (room : slot < stack.capacity) : (stack.putHandle slot handle).handleAt slot = handle :=
  Bytes.handleAt_of_bits (load_put_self sound room)

theorem handleAt_putHandle_ne {stack : OperandStack ω} {slot place : Nat} {handle : Handle}
    (different : place ≠ slot) : (stack.putHandle slot handle).handleAt place = stack.handleAt place :=
  handleAt_put_outside (Nat.lt_or_gt_of_ne different)

/-- The stack with the words from `src` on moved down to `dst`, where they are the last. -/
def moved (stack : OperandStack ω) (src dst words : Nat) : OperandStack ω :=
  { stack with
    offset := dst + words
    memory := copyBlock stack.memory (src * wordSize) (dst * wordSize) (words * wordSize)
    tags := stack.tags.copy src dst words }

theorem Sound.copy_tags {stack : OperandStack ω} {src words : Nat} (sound : stack.Sound)
    (used : src + words ≤ stack.offset) : src + words ≤ stack.tags.size := by
  rw [sound.tags_size]
  exact Nat.le_trans used sound.offset_le

theorem Sound.copy_bytes {stack : OperandStack ω} {src words : Nat} (sound : stack.Sound)
    (used : src + words ≤ stack.offset) : src * wordSize + words * wordSize ≤ stack.memory.size := by
  rw [sound.memory_size, ← Nat.add_mul]
  exact Nat.mul_le_mul_right _ (Nat.le_trans used sound.offset_le)

theorem tag_moved_outside {stack : OperandStack ω} {src dst words slot : Nat} (sound : stack.Sound)
    (used : src + words ≤ stack.offset) (outside : slot < dst ∨ dst + words ≤ slot) :
    (stack.moved src dst words).tags.get slot = stack.tags.get slot :=
  getD_copyBlock_outside (sound.copy_tags used) outside

theorem tag_moved_below {stack : OperandStack ω} {src dst words slot : Nat} (sound : stack.Sound)
    (used : src + words ≤ stack.offset) (low : slot < dst) :
    (stack.moved src dst words).tags.get slot = stack.tags.get slot :=
  tag_moved_outside sound used (.inl low)

theorem tag_moved_inside {stack : OperandStack ω} {src dst words k : Nat} (sound : stack.Sound) (below : dst ≤ src)
    (used : src + words ≤ stack.offset) (inside : k < words) :
    (stack.moved src dst words).tags.get (dst + k) = stack.tags.get (src + k) :=
  getD_copyBlock_inside (sound.copy_tags used) below inside

theorem load_moved_outside {stack : OperandStack ω} {src dst words slot count : Nat} (sound : stack.Sound)
    (used : src + words ≤ stack.offset) (outside : slot < dst ∨ dst + words ≤ slot) (short : count ≤ wordSize) :
    (stack.moved src dst words).memory.load (slot * wordSize) count = stack.memory.load (slot * wordSize) count := by
  refine Bytes.load_congr fun i lower upper => getD_copyBlock_outside (sound.copy_bytes used) ?_
  unfold wordSize at lower upper short ⊢
  omega

theorem load_moved_below {stack : OperandStack ω} {src dst words slot count : Nat} (sound : stack.Sound)
    (used : src + words ≤ stack.offset) (low : slot < dst) (short : count ≤ wordSize) :
    (stack.moved src dst words).memory.load (slot * wordSize) count = stack.memory.load (slot * wordSize) count :=
  load_moved_outside sound used (.inl low) short

theorem load_moved_inside {stack : OperandStack ω} {src dst words k count : Nat} (sound : stack.Sound)
    (below : dst ≤ src) (used : src + words ≤ stack.offset) (inside : k < words) (short : count ≤ wordSize) :
    (stack.moved src dst words).memory.load ((dst + k) * wordSize) count =
      stack.memory.load ((src + k) * wordSize) count := by
  refine Bytes.load_shift fun j inWord => ?_
  have room := sound.copy_bytes used
  rw [Nat.add_mul, Nat.add_mul, Nat.add_assoc, Nat.add_assoc]
  refine getD_copyBlock_inside room (Nat.mul_le_mul_right _ below) ?_
  unfold wordSize at short ⊢
  omega

theorem pushCell_eq (ty : Ty) (cell : Cell ty) (stack : OperandStack ω) :
    StackM.pushCell ty cell stack =
      if stack.offset + ty.words ≤ stack.capacity then
        .ok () { stack.put stack.offset ty cell with offset := stack.offset + ty.words }
      else
        .error .stackOverflow stack := by
  simp only [StackM.pushCell, put]

theorem writeCell_eq (ty : Ty) (slot : Nat) (cell : Cell ty) (stack : OperandStack ω) :
    StackM.writeCell ty slot cell stack =
      if stack.offset < slot + ty.words then .error (.slotOutOfRange slot stack.offset) stack
      else .ok () (stack.put slot ty cell) := by
  simp only [StackM.writeCell, put]

theorem pushHandle_eq (handle : Handle) (stack : OperandStack ω) :
    StackM.pushCell .object handle stack =
      if stack.offset < stack.capacity then
        .ok () { stack.putHandle stack.offset handle with offset := stack.offset + 1 }
      else
        .error .stackOverflow stack :=
  pushCell_eq .object handle stack

theorem writeHandle_eq (slot : Nat) (handle : Handle) (stack : OperandStack ω) :
    StackM.writeCell .object slot handle stack =
      if stack.offset < slot + 1 then .error (.slotOutOfRange slot stack.offset) stack
      else .ok () (stack.putHandle slot handle) :=
  writeCell_eq .object slot handle stack

theorem popHandle_eq (stack : OperandStack ω) :
    StackM.popCell .object stack =
      if stack.offset < 1 then .error .stackUnderflow stack
      else
        match stack.tags.check (stack.offset - 1) .object with
        | .error fault => .error fault stack
        | .ok () => .ok (stack.handleAt (stack.offset - 1)) { stack with offset := stack.offset - 1 } := by
  have loaded : Cell.ofBits .object (stack.memory.load ((stack.offset - 1) * wordSize) Ty.object.size) =
      stack.handleAt (stack.offset - 1) := Bytes.ofBits_load ..
  rw [← loaded]
  rfl

/-- A reference among the words that `owner` picks out. -/
def Reference (stack : OperandStack ω) (owner : Nat → Prop) (slot : Nat) : Prop :=
  owner slot ∧ stack.tags.get slot = some .object

/-- Every reference among the words that `owner` picks out is null or refers to an object through a handle of its own,
and so does a handle that is held outside the stack. -/
structure Owns (stack : OperandStack ω) (owner : Nat → Prop) (held : Handle) : Prop where
  refers : ∀ slot, stack.Reference owner slot → stack.handles.Refers (stack.handleAt slot)
  apart : ∀ slot other, stack.Reference owner slot → stack.Reference owner other →
    stack.handleAt slot = stack.handleAt other → stack.handleAt slot ≠ Handle.null → slot = other
  held_refers : stack.handles.Refers held
  held_apart : ∀ slot, stack.Reference owner slot → stack.handleAt slot = held → held = Handle.null

/-- Every live reference is null or refers to an object, and no two of them share a handle. -/
structure Owned (stack : OperandStack ω) : Prop where
  refers : ∀ slot < stack.offset, stack.tags.get slot = some .object →
    stack.handleAt slot = Handle.null ∨ ∃ object, stack.handles.get (stack.handleAt slot) = .ok (some object)
  apart : ∀ slot < stack.offset, ∀ other < stack.offset, stack.tags.get slot = some .object →
    stack.tags.get other = some .object → stack.handleAt slot = stack.handleAt other →
    stack.handleAt slot ≠ Handle.null → slot = other

/-- The slots below the offset. -/
def Live (stack : OperandStack ω) (slot : Nat) : Prop :=
  slot < stack.offset

theorem owned_iff {stack : OperandStack ω} : stack.Owned ↔ stack.Owns stack.Live Handle.null := by
  constructor
  · rintro ⟨refers, apart⟩
    refine ⟨?_, ?_, stack.handles.refers_null, fun _ _ _ => rfl⟩
    · rintro slot ⟨live, tag⟩
      rcases refers slot live tag with null | ⟨object, got⟩
      · rw [null]
        exact stack.handles.refers_null
      · exact ⟨some object, got⟩
    · rintro slot other ⟨live, tag⟩ ⟨otherLive, otherTag⟩
      exact apart slot live other otherLive tag otherTag
  · rintro ⟨refers, apart, _, _⟩
    refine ⟨?_, fun slot live other otherLive tag otherTag => apart slot other ⟨live, tag⟩ ⟨otherLive, otherTag⟩⟩
    intro slot live tag
    obtain ⟨object, got⟩ := refers slot ⟨live, tag⟩
    cases object with
    | none => exact .inl (HandleTable.get_eq_none_iff.mp got)
    | some object => exact .inr ⟨object, got⟩

namespace Owns

theorem mono {stack : OperandStack ω} {owner fewer : Nat → Prop} {held : Handle} (owns : stack.Owns owner held)
    (less : ∀ slot, fewer slot → owner slot) : stack.Owns fewer held where
  refers slot reference := owns.refers slot ⟨less slot reference.1, reference.2⟩
  apart slot other reference otherReference :=
    owns.apart slot other ⟨less slot reference.1, reference.2⟩ ⟨less other otherReference.1, otherReference.2⟩
  held_refers := owns.held_refers
  held_apart slot reference := owns.held_apart slot ⟨less slot reference.1, reference.2⟩

/-- A handle can be taken from its word. -/
theorem take {stack : OperandStack ω} {owner : Nat → Prop} {slot : Nat} (owns : stack.Owns owner Handle.null)
    (reference : stack.Reference owner slot) :
    stack.Owns (fun other => owner other ∧ other ≠ slot) (stack.handleAt slot) := by
  have rest : stack.Owns (fun other => owner other ∧ other ≠ slot) Handle.null := owns.mono fun _ kept => kept.1
  refine ⟨rest.refers, rest.apart, owns.refers slot reference, ?_⟩
  rintro other ⟨⟨inside, different⟩, tag⟩ same
  by_contra issued
  exact different (owns.apart other slot ⟨inside, tag⟩ reference same (by rw [same]; exact issued))

theorem release {stack : OperandStack ω} {owner : Nat → Prop} {held : Handle} {object : Option ω}
    {next : HandleTable ω} (owns : stack.Owns owner held)
    (released : stack.handles.release held = .ok (object, next)) :
    Owns { stack with handles := next } owner Handle.null := by
  refine ⟨?_, owns.apart, next.refers_null, fun _ _ _ => rfl⟩
  intro slot reference
  obtain ⟨found, got⟩ := owns.refers slot reference
  exact ⟨found, (HandleTable.get_release released (owns.held_apart slot reference)).trans got⟩

theorem alloc {stack : OperandStack ω} {owner : Nat → Prop} {object : ω} (owns : stack.Owns owner Handle.null)
    (consistent : stack.handles.Consistent) (small : (stack.handles.alloc object).2.Small) :
    Owns { stack with handles := (stack.handles.alloc object).2 } owner (stack.handles.alloc object).1 := by
  refine ⟨?_, owns.apart, ?_, ?_⟩
  · intro slot reference
    have refers := owns.refers slot reference
    obtain ⟨found, got⟩ := refers
    exact ⟨found, (HandleTable.Refers.get_alloc ⟨found, got⟩ consistent small).trans got⟩
  · obtain ⟨⟨index, issued⟩, _, _⟩ := consistent.locate?_alloc small
    exact ⟨some object, HandleTable.get_of_locate? issued⟩
  · intro slot reference same
    exact absurd same ((owns.refers slot reference).ne_alloc consistent small)

/-- References are kept where they stay in their words, or move without being copied. -/
theorem transport {stack next : OperandStack ω} {owner wanted : Nat → Prop} {held : Handle}
    (owns : stack.Owns owner held) (origin : Nat → Nat) (handles : next.handles = stack.handles)
    (injective : ∀ slot other, wanted slot → wanted other → origin slot = origin other → slot = other)
    (moved : ∀ slot, next.Reference wanted slot →
      stack.Reference owner (origin slot) ∧ next.handleAt slot = stack.handleAt (origin slot)) :
    next.Owns wanted held := by
  refine ⟨?_, ?_, ?_, ?_⟩
  · intro slot reference
    obtain ⟨before, same⟩ := moved slot reference
    rw [handles, same]
    exact owns.refers _ before
  · intro slot other reference otherReference equal issued
    obtain ⟨before, same⟩ := moved slot reference
    obtain ⟨otherBefore, otherSame⟩ := moved other otherReference
    rw [same, otherSame] at equal
    rw [same] at issued
    exact injective slot other reference.1 otherReference.1 (owns.apart _ _ before otherBefore equal issued)
  · rw [handles]
    exact owns.held_refers
  · intro slot reference equal
    obtain ⟨before, same⟩ := moved slot reference
    rw [same] at equal
    exact owns.held_apart _ before equal

/-- A scalar can be stored anywhere. -/
theorem put_scalar {stack : OperandStack ω} {owner wanted : Nat → Prop} {held : Handle} {slot : Nat} {kind : Scalar}
    {value : Cell kind} (owns : stack.Owns owner held) (sound : stack.Sound)
    (room : slot + (Ty.scalar kind).words ≤ stack.capacity)
    (more : ∀ place, wanted place → owner place ∨ (slot ≤ place ∧ place < slot + (Ty.scalar kind).words)) :
    (stack.put slot kind value).Owns wanted held := by
  refine owns.transport id rfl (fun _ _ _ _ same => same) ?_
  rintro place ⟨inside, tag⟩
  by_cases outside : place < slot ∨ slot + (Ty.scalar kind).words ≤ place
  · rw [tag_put_outside outside] at tag
    refine ⟨⟨?_, tag⟩, handleAt_put_outside outside⟩
    rcases more place inside with before | within
    · exact before
    · omega
  · -- the words of the scalar are not references
    exfalso
    by_cases first : place = slot
    · rw [first, tag_put_self sound room] at tag
      cases tag
    · rw [tag_put_rest sound room (by omega) (by omega)] at tag
      cases tag

/-- The held handle can be stored anywhere. -/
theorem putHandle {stack : OperandStack ω} {owner wanted : Nat → Prop} {held : Handle} {slot : Nat}
    (owns : stack.Owns owner held) (sound : stack.Sound) (room : slot < stack.capacity)
    (more : ∀ place, wanted place → owner place ∨ place = slot) :
    (stack.putHandle slot held).Owns wanted Handle.null := by
  have elsewhere : ∀ place, place ≠ slot → (stack.putHandle slot held).Reference wanted place →
      stack.Reference owner place ∧ (stack.putHandle slot held).handleAt place = stack.handleAt place := by
    rintro place different ⟨inside, tag⟩
    rw [tag_putHandle_ne different] at tag
    exact ⟨⟨(more place inside).resolve_right different, tag⟩, handleAt_putHandle_ne different⟩
  have stored : (stack.putHandle slot held).handleAt slot = held := handleAt_putHandle_self sound room
  refine ⟨?_, ?_, HandleTable.refers_null _, fun _ _ _ => rfl⟩
  · intro place reference
    rw [handles_putHandle]
    by_cases here : place = slot
    · rw [here, stored]
      exact owns.held_refers
    · obtain ⟨before, same⟩ := elsewhere place here reference
      rw [same]
      exact owns.refers place before
  · intro place other reference otherReference equal issued
    by_cases here : place = slot
    · by_cases there : other = slot
      · rw [here, there]
      · obtain ⟨before, same⟩ := elsewhere other there otherReference
        rw [here, stored] at equal issued
        exact absurd (owns.held_apart other before (same.symm.trans equal.symm)) issued
    · obtain ⟨before, same⟩ := elsewhere place here reference
      rw [same] at equal issued
      by_cases there : other = slot
      · rw [there, stored] at equal
        exact absurd (owns.held_apart place before equal) (by rw [← equal]; exact issued)
      · obtain ⟨otherBefore, otherSame⟩ := elsewhere other there otherReference
        exact owns.apart place other before otherBefore (equal.trans otherSame) issued

/-- The held handle can take the place of another, which is then the one that is held. -/
theorem swap {stack : OperandStack ω} {owner : Nat → Prop} {held : Handle} {slot : Nat}
    (owns : stack.Owns owner held) (sound : stack.Sound) (room : slot < stack.capacity)
    (reference : stack.Reference owner slot) :
    (stack.putHandle slot held).Owns owner (stack.handleAt slot) := by
  have put : (stack.putHandle slot held).Owns owner Handle.null :=
    owns.putHandle sound room fun _ inside => .inl inside
  refine ⟨put.refers, put.apart, (handles_putHandle ..).symm ▸ owns.refers slot reference, ?_⟩
  rintro place ⟨inside, tag⟩ same
  by_cases here : place = slot
  · rw [here, handleAt_putHandle_self sound room] at same
    rw [← same]
    exact owns.held_apart slot reference same.symm
  · rw [tag_putHandle_ne here] at tag
    rw [handleAt_putHandle_ne here] at same
    by_contra issued
    exact here (owns.apart place slot ⟨inside, tag⟩ reference same (by rw [same]; exact issued))

end Owns

/-- What every operation keeps up. References can be relied on only as long as handles have room for the slots of the
table. -/
structure Keeps (stack : OperandStack ω) (owner : Nat → Prop) (held : Handle) : Prop where
  sound : stack.Sound
  consistent : stack.handles.Consistent
  owns : stack.handles.Small → stack.Owns owner held

/-- Nothing is held, and all live references are in order. -/
def Intact (stack : OperandStack ω) : Prop :=
  stack.Keeps stack.Live Handle.null

theorem Intact.owned {stack : OperandStack ω} (intact : stack.Intact) (small : stack.handles.Small) : stack.Owned :=
  owned_iff.mpr (intact.owns small)

namespace Keeps

theorem mono {stack : OperandStack ω} {owner fewer : Nat → Prop} {held : Handle} (keeps : stack.Keeps owner held)
    (less : ∀ slot, fewer slot → owner slot) : stack.Keeps fewer held :=
  ⟨keeps.sound, keeps.consistent, fun small => (keeps.owns small).mono less⟩

theorem setOffset {stack : OperandStack ω} {owner : Nat → Prop} {held : Handle} {offset : Nat}
    (keeps : stack.Keeps owner held) (room : offset ≤ stack.capacity) :
    Keeps { stack with offset := offset } owner held where
  sound := ⟨keeps.sound.memory_size, keeps.sound.tags_size, room⟩
  consistent := keeps.consistent
  owns small :=
    have owns := keeps.owns small
    ⟨owns.refers, owns.apart, owns.held_refers, owns.held_apart⟩

theorem take {stack : OperandStack ω} {owner : Nat → Prop} {slot : Nat} (keeps : stack.Keeps owner Handle.null)
    (reference : stack.Reference owner slot) :
    stack.Keeps (fun other => owner other ∧ other ≠ slot) (stack.handleAt slot) :=
  ⟨keeps.sound, keeps.consistent, fun small => (keeps.owns small).take reference⟩

theorem alloc {stack : OperandStack ω} {owner : Nat → Prop} (keeps : stack.Keeps owner Handle.null) (object : ω) :
    Keeps { stack with handles := (stack.handles.alloc object).2 } owner (stack.handles.alloc object).1 where
  sound := ⟨keeps.sound.memory_size, keeps.sound.tags_size, keeps.sound.offset_le⟩
  consistent := keeps.consistent.alloc object
  owns small := by
    have before : stack.handles.Small := Nat.lt_of_le_of_lt (stack.handles.size_le_alloc object) small
    exact (keeps.owns before).alloc keeps.consistent small

theorem release {stack : OperandStack ω} {owner : Nat → Prop} {held : Handle} {object : Option ω}
    {next : HandleTable ω} (keeps : stack.Keeps owner held)
    (released : stack.handles.release held = .ok (object, next)) :
    Keeps { stack with handles := next } owner Handle.null where
  sound := ⟨keeps.sound.memory_size, keeps.sound.tags_size, keeps.sound.offset_le⟩
  consistent := keeps.consistent.release released
  owns small := by
    have before : stack.handles.Small := by
      unfold HandleTable.Small at small ⊢
      rw [← HandleTable.size_release released]
      exact small
    exact (keeps.owns before).release released

theorem put_scalar {stack : OperandStack ω} {owner wanted : Nat → Prop} {held : Handle} {slot : Nat} {kind : Scalar}
    {value : Cell kind} (keeps : stack.Keeps owner held) (room : slot + (Ty.scalar kind).words ≤ stack.capacity)
    (more : ∀ place, wanted place → owner place ∨ (slot ≤ place ∧ place < slot + (Ty.scalar kind).words)) :
    (stack.put slot kind value).Keeps wanted held :=
  ⟨keeps.sound.put slot kind value, keeps.consistent, fun small =>
    (keeps.owns small).put_scalar keeps.sound room more⟩

theorem putHandle {stack : OperandStack ω} {owner wanted : Nat → Prop} {held : Handle} {slot : Nat}
    (keeps : stack.Keeps owner held) (room : slot < stack.capacity)
    (more : ∀ place, wanted place → owner place ∨ place = slot) :
    (stack.putHandle slot held).Keeps wanted Handle.null := by
  refine ⟨keeps.sound.put slot .object held, ?_, fun small => ?_⟩
  · rw [handles_putHandle]
    exact keeps.consistent
  · rw [handles_putHandle] at small
    exact (keeps.owns small).putHandle keeps.sound room more

theorem swap {stack : OperandStack ω} {owner : Nat → Prop} {held : Handle} {slot : Nat}
    (keeps : stack.Keeps owner held) (room : slot < stack.capacity) (reference : stack.Reference owner slot) :
    (stack.putHandle slot held).Keeps owner (stack.handleAt slot) := by
  refine ⟨keeps.sound.put slot .object held, ?_, fun small => ?_⟩
  · rw [handles_putHandle]
    exact keeps.consistent
  · rw [handles_putHandle] at small
    exact (keeps.owns small).swap keeps.sound room reference

/-- The words from `src` on can be moved down over words that own nothing. -/
theorem moveDown {stack : OperandStack ω} {src dst words : Nat} (below : dst ≤ src)
    (used : src + words ≤ stack.offset)
    (keeps : stack.Keeps (fun slot => slot < dst ∨ (src ≤ slot ∧ slot < src + words)) Handle.null) :
    (stack.moved src dst words).Keeps (fun slot => slot < dst + words) Handle.null := by
  have sound := keeps.sound
  have bound := sound.offset_le
  refine ⟨⟨?_, ?_, ?_⟩, keeps.consistent, fun small => ?_⟩
  · exact (size_copyBlock ..).trans sound.memory_size
  · exact (size_copyBlock ..).trans sound.tags_size
  · change dst + words ≤ stack.capacity
    omega
  refine (keeps.owns small).transport (fun slot => if slot < dst then slot else src + (slot - dst)) rfl ?_ ?_
  · intro slot other inside otherInside same
    split at same <;> split at same <;> omega
  · rintro slot ⟨inside, tag⟩
    split
    · rename_i low
      rw [tag_moved_below sound used low] at tag
      exact ⟨⟨.inl low, tag⟩, Bytes.handleAt_congr (load_moved_below sound used low (Nat.le_refl 8))⟩
    · rename_i high
      obtain ⟨k, rfl⟩ := Nat.exists_eq_add_of_le (Nat.le_of_not_lt high)
      rw [Nat.add_sub_cancel_left]
      rw [tag_moved_inside sound below used (by omega)] at tag
      exact ⟨⟨.inr (by omega), tag⟩,
        Bytes.handleAt_congr (load_moved_inside sound below used (by omega) (Nat.le_refl 8))⟩

end Keeps

end OperandStack

end WordMachine
