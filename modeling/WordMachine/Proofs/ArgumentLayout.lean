import Mathlib.Data.List.Chain
import WordMachine.Proofs.FrameIsolation
import WordMachine.Proofs.Ledger
import WordMachine.Proofs.TypedStack

namespace WordMachine

/-- Slots of values that lie one after the other and fill the words from `start` up to `stop`. -/
structure Tiles (slots : List (Nat × Ty)) (start stop : Nat) : Prop where
  first : ∀ entry ∈ slots.head?, entry.1 = start
  next : slots.IsChain fun entry next => next.1 = entry.1 + entry.2.words
  apart : slots.Pairwise fun entry other => entry.1 + entry.2.words ≤ other.1
  cover : ∀ word, start ≤ word ∧ word < stop ↔ ∃ entry ∈ slots, entry.1 ≤ word ∧ word < entry.1 + entry.2.words

theorem le_of_mem_slotsFrom {start : Nat} {types : List Ty} {entry : Nat × Ty}
    (member : entry ∈ slotsFrom start types) : start ≤ entry.1 := by
  induction types generalizing start with
  | nil => cases member
  | cons ty rest ih =>
    rcases List.mem_cons.mp member with rfl | later
    · exact Nat.le_refl _
    · exact Nat.le_trans (Nat.le_add_right ..) (ih later)

theorem tiles_slotsFrom (start : Nat) (types : List Ty) :
    Tiles (slotsFrom start types) start (start + totalWords types) := by
  induction types generalizing start with
  | nil =>
    refine ⟨nofun, .nil, .nil, fun word => ⟨fun inside => ?_, nofun⟩⟩
    simp only [totalWords] at inside
    omega
  | cons ty rest ih =>
    have more := ih (start + ty.words)
    refine ⟨?_, List.isChain_cons.mpr ⟨more.first, more.next⟩, ?_, fun word => ?_⟩
    · rintro entry ⟨⟩
      rfl
    · exact List.pairwise_cons.mpr ⟨fun other later => le_of_mem_slotsFrom later, more.apart⟩
    · have positive := ty.words_pos
      simp only [slotsFrom, List.exists_mem_cons_iff, ← more.cover, totalWords]
      omega

theorem map_snd_slotsFrom (start : Nat) (types : List Ty) : (slotsFrom start types).map Prod.snd = types := by
  induction types generalizing start with
  | nil => rfl
  | cons ty rest ih => rw [slotsFrom, List.map_cons, ih]

namespace Signature

variable {name : String} {start slot : Nat} {parameters : List Parameter}

theorem wordIndexFrom_eq_none_iff :
    wordIndexFrom name start parameters = none ↔ ∀ parameter ∈ parameters, parameter.name ≠ name := by
  induction parameters generalizing start with
  | nil => simp [wordIndexFrom]
  | cons parameter rest ih =>
    rw [wordIndexFrom, List.forall_mem_cons]
    split
    · rename_i named
      simp [named]
    · rename_i other
      rw [ih]
      exact ⟨fun later => ⟨other, later⟩, And.right⟩

/-- A name stands for the first parameter that has it, and its word is where this parameter's argument starts. -/
theorem wordIndexFrom_eq_some_iff :
    wordIndexFrom name start parameters = some slot ↔
      ∃ before parameter after, parameters = before ++ parameter :: after ∧ parameter.name = name ∧
        (∀ earlier ∈ before, earlier.name ≠ name) ∧
        (slotsFrom start (parameters.map Parameter.ty))[before.length]? = some (slot, parameter.ty) := by
  induction parameters generalizing start with
  | nil =>
    refine ⟨nofun, ?_⟩
    rintro ⟨before, parameter, after, division, _⟩
    cases before <;> cases division
  | cons parameter rest ih =>
    rw [wordIndexFrom]
    split
    · rename_i named
      constructor
      · rintro ⟨⟩
        exact ⟨[], parameter, rest, rfl, named, nofun, rfl⟩
      · rintro ⟨before, found, after, division, _, unnamed, at_slot⟩
        cases before with
        | nil =>
          cases division
          cases at_slot
          rfl
        | cons first before =>
          cases division
          exact absurd named (unnamed _ (.head _))
    · rename_i other
      rw [ih]
      constructor
      · rintro ⟨before, found, after, rfl, named, unnamed, at_slot⟩
        exact ⟨parameter :: before, found, after, rfl, named, List.forall_mem_cons.mpr ⟨other, unnamed⟩, at_slot⟩
      · rintro ⟨before, found, after, division, named, unnamed, at_slot⟩
        cases before with
        | nil =>
          cases division
          exact absurd named other
        | cons first before =>
          cases division
          exact ⟨before, found, after, rfl, named, (List.forall_mem_cons.mp unnamed).2, at_slot⟩

end Signature

theorem HandleTable.Refers.of_get_eq {ω : Type} {table later : HandleTable ω} {handle : Handle}
    (refers : table.Refers handle) (same : later.get handle = table.get handle) : later.Refers handle := by
  obtain ⟨object, got⟩ := refers
  exact ⟨object, same.trans got⟩

namespace OperandStack

variable {ω : Type} {stack final : OperandStack ω}

/-- The live value that starts at a slot, as the host sees it: for a reference, the object of its handle. -/
def operandAt (stack : OperandStack ω) : (ty : Ty) → Nat → Except Fault (Operand ω ty)
  | .scalar kind, slot => stack.cellAt kind slot
  | .object, slot =>
    match stack.cellAt .object slot with
    | .ok handle => stack.handles.get handle
    | .error fault => .error fault

theorem cellAt_eq_ok_iff {ty : Ty} {slot : Nat} {cell : Cell ty} :
    stack.cellAt ty slot = .ok cell ↔ slot + ty.words ≤ stack.offset ∧ stack.tags.get slot = some ty ∧
      Cell.ofBits ty (stack.memory.load (slot * wordSize) ty.size) = cell := by
  unfold cellAt Tags.check
  by_cases beyond : stack.offset < slot + ty.words
  · rw [if_pos beyond]
    exact ⟨nofun, fun found => absurd found.1 (Nat.not_le.mpr beyond)⟩
  · rw [if_neg beyond]
    by_cases tag : stack.tags.get slot = some ty
    · rw [if_pos tag]
      exact ⟨fun same => ⟨Nat.not_lt.mp beyond, tag, Except.ok.inj same⟩, fun found => congrArg _ found.2.2⟩
    · rw [if_neg tag]
      exact ⟨nofun, fun found => absurd found.2.1 tag⟩

theorem operandAt_object_eq_ok_iff {slot : Nat} {object : Option ω} :
    stack.operandAt .object slot = .ok object ↔
      ∃ handle, stack.cellAt .object slot = .ok handle ∧ stack.handles.get handle = .ok object := by
  simp only [operandAt]
  cases stack.cellAt .object slot with
  | ok handle => exact ⟨fun got => ⟨handle, rfl, got⟩, fun ⟨_, same, got⟩ => Except.ok.inj same ▸ got⟩
  | error fault => exact ⟨nofun, nofun⟩

/-- Stacks that agree below a slot of both read the same there. -/
theorem AgreesBelow.cellAt_eq {base slot : Nat} {ty : Ty} (agrees : stack.AgreesBelow final base)
    (before : base ≤ stack.offset) (after : base ≤ final.offset) (low : slot + ty.words ≤ base) :
    final.cellAt ty slot = stack.cellAt ty slot := by
  have positive := ty.words_pos
  have bytes : (slot + ty.words) * wordSize ≤ base * wordSize := Nat.mul_le_mul_right _ low
  have size := ty.size_le_words
  rw [Nat.add_mul] at bytes
  have loaded : final.memory.load (slot * wordSize) ty.size = stack.memory.load (slot * wordSize) ty.size :=
    Bytes.load_congr fun i lower upper => agrees.words i (by omega)
  have inside : ¬ stack.offset < slot + ty.words := by omega
  have stillInside : ¬ final.offset < slot + ty.words := by omega
  unfold cellAt Tags.check
  rw [if_neg inside, if_neg stillInside, agrees.tags slot (by omega), loaded]

/-- An argument can be read at a slot. Of an object this is said as long as its handle can be told from others. -/
def Holds (stack : OperandStack ω) (slot : Nat) (argument : Argument ω) : Prop :=
  (argument.ty = .object → stack.handles.Small) → stack.operandAt argument.ty slot = .ok argument.value

/-- A stack that still holds all that another one did, below whatever was added. Its table has to be small for the
handles of the other one to be told from those that were issued since. -/
structure Retains (final stack : OperandStack ω) : Prop where
  tended : final.Tended
  offset_le : stack.offset ≤ final.offset
  agrees : stack.AgreesBelow final stack.offset
  size_le : stack.handles.slots.size ≤ final.handles.slots.size
  get_eq : final.handles.Small → ∀ handle, stack.handles.Refers handle →
    final.handles.get handle = stack.handles.get handle

namespace Retains

theorem refl (tended : stack.Tended) : stack.Retains stack :=
  ⟨tended, Nat.le_refl _, .refl stack _, Nat.le_refl _, fun _ _ _ => rfl⟩

theorem trans {middle : OperandStack ω} (later : final.Retains middle) (earlier : middle.Retains stack) :
    final.Retains stack where
  tended := later.tended
  offset_le := Nat.le_trans earlier.offset_le later.offset_le
  agrees := earlier.agrees.trans (later.agrees.mono earlier.offset_le)
  size_le := Nat.le_trans earlier.size_le later.size_le
  get_eq small handle refers := by
    have same := earlier.get_eq (Nat.lt_of_le_of_lt later.size_le small) handle refers
    exact (later.get_eq small handle (refers.of_get_eq same)).trans same

theorem holds {slot : Nat} {argument : Argument ω} (retains : final.Retains stack) (held : stack.Holds slot argument) :
    final.Holds slot argument := by
  intro small
  have found := held fun object => Nat.lt_of_le_of_lt retains.size_le (small object)
  have same {ty : Ty} {cell : Cell ty} (read : stack.cellAt ty slot = .ok cell) : final.cellAt ty slot = .ok cell :=
    (retains.agrees.cellAt_eq (Nat.le_refl _) retains.offset_le (cellAt_eq_ok_iff.mp read).1).trans read
  obtain ⟨ty, value⟩ := argument
  cases ty with
  | scalar kind => exact same found
  | object =>
    obtain ⟨handle, read, got⟩ := operandAt_object_eq_ok_iff.mp found
    exact operandAt_object_eq_ok_iff.mpr
      ⟨handle, same read, (retains.get_eq (small rfl) handle ⟨value, got⟩).trans got⟩

end Retains

end OperandStack

namespace StackM

variable {ω : Type} {stack final : OperandStack ω}

theorem retains_pushCell {ty : Ty} {cell : Cell ty} (tended : stack.Tended)
    (pushed : pushCell ty cell stack = .ok () final) : final.Retains stack := by
  obtain ⟨room, rfl⟩ := pushCell_eq_ok pushed
  have kept := stack.agreesBelow_put ty cell (Nat.le_refl stack.offset)
  have sound := tended.sound.put stack.offset ty cell
  exact ⟨⟨⟨sound.memory_size, sound.tags_size, room⟩, tended.consistent⟩, Nat.le_add_right ..,
    ⟨kept.words, kept.tags⟩, Nat.le_refl _, fun _ _ _ => rfl⟩

theorem cellAt_pushCell {ty : Ty} {cell : Cell ty} (tended : stack.Tended)
    (pushed : pushCell ty cell stack = .ok () final) : final.cellAt ty stack.offset = .ok cell := by
  obtain ⟨room, rfl⟩ := pushCell_eq_ok pushed
  have tag : (stack.put stack.offset ty cell).tags.get stack.offset = some ty :=
    OperandStack.tag_put_self tended.sound room
  refine OperandStack.cellAt_eq_ok_iff.mpr ⟨Nat.le_refl _, tag, ?_⟩
  exact (congrArg (Cell.ofBits ty) (OperandStack.load_put_self tended.sound room)).trans (Cell.ofBits_bits ty cell)

theorem handleFor_eq_ok {object : Option ω} {handle : Handle} (tended : stack.Tended)
    (issued : handleFor object stack = .ok handle final) :
    final.Retains stack ∧ (final.handles.Small → final.handles.get handle = .ok object) := by
  cases object with
  | none =>
    cases issued
    exact ⟨.refl tended, fun _ => stack.handles.get_null⟩
  | some object =>
    cases issued
    refine ⟨⟨⟨⟨tended.sound.memory_size, tended.sound.tags_size, tended.sound.offset_le⟩,
      tended.consistent.alloc object⟩, Nat.le_refl _, ⟨fun _ _ => rfl, fun _ _ => rfl⟩,
      stack.handles.size_le_alloc object, fun small handle refers => refers.get_alloc tended.consistent small⟩, ?_⟩
    intro small
    obtain ⟨⟨index, located⟩, _⟩ := tended.consistent.locate?_alloc small
    exact HandleTable.get_of_locate? located

/-- A push leaves what was on the stack and adds a value that can be read where the top was. -/
theorem pushOperand_eq_ok {ty : Ty} {value : Operand ω ty} (tended : stack.Tended)
    (pushed : pushOperand ty value stack = .ok () final) :
    final.Retains stack ∧ final.Holds stack.offset ⟨ty, value⟩ := by
  cases ty with
  | scalar kind => exact ⟨retains_pushCell tended pushed, fun _ => cellAt_pushCell tended pushed⟩
  | object =>
    obtain ⟨_, checked, room, pushed⟩ := bind_eq_ok pushed
    obtain ⟨handle, issued, issuing, pushed⟩ := bind_eq_ok pushed
    rw [eq_of_needRoom room] at issuing
    obtain ⟨earlier, refers⟩ := handleFor_eq_ok tended issuing
    have later := retains_pushCell earlier.tended pushed
    refine ⟨later.trans earlier, fun small => ?_⟩
    have read := cellAt_pushCell earlier.tended pushed
    have got := refers (Nat.lt_of_le_of_lt later.size_le (small rfl))
    rw [offset_handleFor issuing] at read
    exact OperandStack.operandAt_object_eq_ok_iff.mpr
      ⟨handle, read, (later.get_eq (small rfl) handle ⟨value, got⟩).trans got⟩

theorem pushCell_of_room (ty : Ty) (cell : Cell ty) (room : stack.offset + ty.words ≤ stack.capacity) :
    ∃ next, pushCell ty cell stack = .ok () next ∧ next.capacity = stack.capacity :=
  ⟨_, if_pos room, rfl⟩

theorem pushOperand_of_room {ty : Ty} (value : Operand ω ty) (room : stack.offset + ty.words ≤ stack.capacity) :
    ∃ next, pushOperand ty value stack = .ok () next ∧ next.capacity = stack.capacity := by
  cases ty with
  | scalar kind => exact pushCell_of_room kind value room
  | object =>
    have checked : needRoom OperandStack.handleWords stack = .ok () stack := if_pos room
    cases value with
    | none =>
      have issued : handleFor none stack = .ok Handle.null stack := rfl
      obtain ⟨next, pushed, same⟩ := pushCell_of_room .object Handle.null room
      exact ⟨next, (Machine.bind_ok checked).trans ((Machine.bind_ok issued).trans pushed), same⟩
    | some object =>
      let issued : OperandStack ω := { stack with handles := (stack.handles.alloc object).2 }
      have issuing : handleFor (some object) stack = .ok (stack.handles.alloc object).1 issued := rfl
      have left : issued.offset + Ty.object.words ≤ issued.capacity := room
      obtain ⟨next, pushed, same⟩ := pushCell_of_room .object (stack.handles.alloc object).1 left
      exact ⟨next, (Machine.bind_ok checked).trans ((Machine.bind_ok issuing).trans pushed), same⟩

/-- Arguments find room together if they fit between the offset and the capacity. -/
theorem pushAll_succeeds_iff {arguments : List (Argument ω)} :
    (∃ next, pushAll arguments stack = .ok () next) ↔
      totalWords (arguments.map Argument.ty) ≤ stack.capacity - stack.offset := by
  induction arguments generalizing stack with
  | nil => exact ⟨fun _ => Nat.zero_le _, fun _ => ⟨stack, rfl⟩⟩
  | cons argument rest ih =>
    have positive := argument.ty.words_pos
    rw [List.map_cons, totalWords]
    by_cases room : stack.offset + argument.ty.words ≤ stack.capacity
    · obtain ⟨middle, pushed, same⟩ := pushOperand_of_room argument.value room
      have raised := offset_pushOperand pushed
      have onward : pushAll (argument :: rest) stack = pushAll rest middle := Machine.bind_ok pushed
      rw [onward, ih]
      omega
    · have full : pushAll (argument :: rest) stack = .error .stackOverflow stack :=
        Machine.bind_error (OperandStack.pushOperand_full argument.value (Nat.not_le.mp room))
      rw [full]
      constructor
      · rintro ⟨next, pushed⟩
        cases pushed
      · intro fits
        omega

/-- Every argument can be read where the words of those before it end. -/
theorem pushAll_eq_ok {arguments : List (Argument ω)} {base start : Nat} (tended : stack.Tended)
    (place : base + start = stack.offset) (pushed : pushAll arguments stack = .ok () final) :
    final.Retains stack ∧
      List.Forall₂ (fun entry argument => entry.2 = argument.ty ∧ final.Holds (base + entry.1) argument)
        (slotsFrom start (arguments.map Argument.ty)) arguments := by
  induction arguments generalizing stack start with
  | nil =>
    cases pushed
    exact ⟨.refl tended, .nil⟩
  | cons argument rest ih =>
    obtain ⟨_, middle, first, pushed⟩ := bind_eq_ok pushed
    obtain ⟨earlier, held⟩ := pushOperand_eq_ok tended first
    have raised := offset_pushOperand first
    have onward : base + (start + argument.ty.words) = middle.offset := by omega
    obtain ⟨later, others⟩ := ih earlier.tended onward pushed
    -- the pushes that follow leave the argument where it is
    rw [← place] at held
    exact ⟨later.trans earlier, .cons ⟨rfl, later.holds held⟩ others⟩

end StackM

namespace Machine

variable {H : Type}

theorem enter_of_room {routine : Routine (Object H)} {m : Machine H}
    (enough : routine.signature.argumentWords ≤ m.stack.offset) (room : m.frames.depth < m.frames.limit) :
    ∃ entered, enter routine m = .ok () entered := by
  obtain ⟨frames, stack, journal⟩ := m
  rcases enter_cases routine frames stack journal with ⟨low, _⟩ | ⟨_, later, ⟨full, _⟩ | ⟨next, _, entered⟩⟩
  · exact absurd low (Nat.not_lt.mpr enough)
  · rw [Frames.push?, if_pos room] at full
    cases full
  · exact ⟨_, entered⟩

/-- Host and frame agree on where arguments lie. The slots of a signature fill its words without gaps or overlaps;
after arguments of the declared types were pushed and the routine was called, each of them can be read at its slot above
the frame base; and a name stands for the slot of the first parameter that has it. -/
theorem arguments_laid_out (routine : Routine (Object H)) :
    (routine.signature.argumentSlots.map Prod.snd = routine.signature.types ∧
      Tiles routine.signature.argumentSlots 0 routine.signature.argumentWords) ∧
    (∀ (m : Machine H) (arguments : List (Argument (Object H))), m.stack.Tended →
      arguments.map Argument.ty = routine.signature.types →
      m.stack.offset + routine.signature.argumentWords ≤ m.stack.capacity → m.frames.depth < m.frames.limit →
      ∃ pushed entered, onStack (StackM.pushAll arguments) m = .ok () pushed ∧ enter routine pushed = .ok () entered ∧
        entered.frames.active = ⟨routine, 0, m.stack.offset⟩ :: m.frames.active ∧
        List.Forall₂
          (fun entry argument => entry.2 = argument.ty ∧ entered.stack.Holds (m.stack.offset + entry.1) argument)
          routine.signature.argumentSlots arguments) ∧
    ∀ name,
      (routine.signature.wordIndexOf name = none ↔
        ∀ parameter ∈ routine.signature.parameters, parameter.name ≠ name) ∧
      ∀ slot, routine.signature.wordIndexOf name = some slot ↔
        ∃ before parameter after, routine.signature.parameters = before ++ parameter :: after ∧
          parameter.name = name ∧ (∀ earlier ∈ before, earlier.name ≠ name) ∧
          routine.signature.argumentSlots[before.length]? = some (slot, parameter.ty) := by
  refine ⟨⟨map_snd_slotsFrom 0 _, ?_⟩, ?_, fun name =>
    ⟨Signature.wordIndexFrom_eq_none_iff, fun slot => Signature.wordIndexFrom_eq_some_iff⟩⟩
  · have tiles := tiles_slotsFrom 0 routine.signature.types
    rwa [Nat.zero_add, totalWords_types] at tiles
  · intro m arguments tended matching fits room
    have words : totalWords (arguments.map Argument.ty) = routine.signature.argumentWords := by
      rw [matching, totalWords_types]
    have little : totalWords (arguments.map Argument.ty) ≤ m.stack.capacity - m.stack.offset := by omega
    obtain ⟨stack, pushing⟩ := StackM.pushAll_succeeds_iff.mpr little
    have raised := StackM.offset_pushAll pushing
    obtain ⟨retains, held⟩ := StackM.pushAll_eq_ok tended (Nat.add_zero _) pushing
    have enough : routine.signature.argumentWords ≤ stack.offset := by omega
    have deep : (⟨m.frames, stack, m.journal⟩ : Machine H).frames.depth < m.frames.limit := room
    obtain ⟨entered, entering⟩ := enter_of_room enough deep
    obtain ⟨_, same, frames_eq⟩ := enter_eq_ok entering
    have base : stack.offset - routine.signature.argumentWords = m.stack.offset := by omega
    refine ⟨_, entered, onStack_ok pushing, entering, ?_, ?_⟩
    · rw [frames_eq]
      exact congrArg (fun place => Frame.mk routine 0 place :: m.frames.active) base
    · rw [same, Signature.argumentSlots, ← matching]
      exact held

end Machine

namespace Mixed

/-- A routine with narrow and wide arguments, two of them of one name. -/
def routine : Routine (Object Unit) where
  signature :=
    ⟨"Mixed", none,
      [⟨"a", .scalar .bool⟩, ⟨"b", .scalar .decimal⟩, ⟨"c", .object⟩, ⟨"a", .scalar .long⟩]⟩
  chunk := Chunk.of [.ret] ⟨#[], #[], #[]⟩

def arguments : List (Argument (Object Unit)) :=
  [⟨.scalar .bool, true⟩, ⟨.scalar .decimal, (⟨0, 1, 2⟩ : Decimal)⟩, ⟨.object, some (.host ())⟩,
    ⟨.scalar .long, (7 : Int64)⟩]

/-- A stack with an integer on it. -/
def stack : OperandStack (Object Unit) :=
  finalState (StackM.pushOperand (.scalar .int) (5 : Int32) (.fresh 8))

theorem tended_stack : stack.Tended := by
  have pushed : StackM.pushOperand (.scalar .int) (5 : Int32) (.fresh 8) = .ok () stack := rfl
  exact (StackM.pushOperand_eq_ok (OperandStack.Shelved.fresh 8).tended pushed).1.tended

end Mixed

namespace Machine

theorem arguments_laid_out_of_mixed :
    ∃ pushed entered, onStack (StackM.pushAll Mixed.arguments) ⟨⟨[], 1⟩, Mixed.stack, .silent⟩ = .ok () pushed ∧
      enter Mixed.routine pushed = .ok () entered ∧ entered.frames.active = [⟨Mixed.routine, 0, 1⟩] ∧
      entered.stack.operandAt (.scalar .decimal) 2 = .ok (⟨0, 1, 2⟩ : Decimal) ∧
      entered.stack.operandAt .object 4 = .ok (some (.host ())) ∧
      entered.stack.operandAt (.scalar .long) 5 = .ok (7 : Int64) ∧
      Mixed.routine.signature.wordIndexOf "a" = some 0 := by
  obtain ⟨_, laid, named⟩ := arguments_laid_out Mixed.routine
  obtain ⟨pushed, entered, pushing, entering, frames_eq, held⟩ :=
    laid ⟨⟨[], 1⟩, Mixed.stack, .silent⟩ Mixed.arguments Mixed.tended_stack rfl (by decide) (by decide)
  have small : (finalState (StackM.pushAll Mixed.arguments Mixed.stack)).handles.Small := by decide +kernel
  rw [(onStack_eq_ok pushing).1] at small
  rw [← (enter_eq_ok entering).2.1] at small
  have slots : Mixed.routine.signature.argumentSlots =
      [(0, .scalar .bool), (1, .scalar .decimal), (3, .object), (4, .scalar .long)] := by decide
  rw [slots] at held
  obtain ⟨_, _ | ⟨⟨_, wide⟩, _ | ⟨⟨_, object⟩, _ | ⟨⟨_, long⟩, _⟩⟩⟩⟩ := List.forall₂_cons.mp held
  refine ⟨pushed, entered, pushing, entering, frames_eq, wide nofun, object fun _ => small, long nofun, ?_⟩
  exact ((named "a").2 0).mpr ⟨[], _, _, rfl, rfl, nofun, by rw [slots]; rfl⟩

end Machine

end WordMachine
