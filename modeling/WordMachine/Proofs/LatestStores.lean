import WordMachine.Proofs.AdapterCalls

namespace WordMachine

instance (ty : Ty) : DecidableEq (Cell ty) := fun cell other =>
  decidable_of_iff (Cell.bits ty cell = Cell.bits ty other)
    ⟨fun same => by rw [← Cell.ofBits_bits ty cell, same, Cell.ofBits_bits], congrArg _⟩

/-- What is written to the words of a stack: a value, or words that stood somewhere else. -/
inductive StackWrite
  | store (ty : Ty) (slot : Nat) (cell : Cell ty)
  | move (src dst words : Nat)
deriving DecidableEq

/-- Every word of a value has some of its bytes. -/
theorem Ty.words_lt_size (ty : Ty) : ty.words * wordSize < ty.size + wordSize := by
  cases ty with
  | object => decide
  | scalar kind => cases kind <;> decide

theorem Ty.words_eq_one {ty : Ty} (narrow : ty ≠ .scalar .decimal) : ty.words = 1 := by
  cases ty with
  | object => rfl
  | scalar kind =>
    cases kind with
    | decimal => exact absurd rfl narrow
    | _ => rfl

/-- A value of one word has no more bytes than that. -/
theorem Ty.size_le_wordSize {ty : Ty} (narrow : ty.words = 1) : ty.size ≤ wordSize := by
  have bytes := ty.size_le_words
  rwa [narrow, Nat.one_mul] at bytes

namespace StackWrite

/-- The bytes that are written. -/
def Covers : StackWrite → Nat → Prop
  | store ty slot _, byte => slot * wordSize ≤ byte ∧ byte < slot * wordSize + ty.size
  | move _ dst words, byte => dst * wordSize ≤ byte ∧ byte < (dst + words) * wordSize

/-- A byte of the word at a slot is written. -/
def Touches (write : StackWrite) (slot : Nat) : Prop :=
  ∃ byte, byte / wordSize = slot ∧ write.Covers byte

theorem touches_store_iff {ty : Ty} {start slot : Nat} {cell : Cell ty} :
    (store ty start cell).Touches slot ↔ start ≤ slot ∧ slot < start + ty.words := by
  have most := ty.size_le_words
  have least := ty.words_lt_size
  simp only [Touches, Covers]
  unfold wordSize at most least ⊢
  constructor
  · rintro ⟨byte, rfl, lower, upper⟩
    omega
  · rintro ⟨lower, upper⟩
    exact ⟨slot * 8, by omega, by omega, by omega⟩

theorem touches_move_iff {src dst words slot : Nat} :
    (move src dst words).Touches slot ↔ dst ≤ slot ∧ slot < dst + words := by
  simp only [Touches, Covers]
  unfold wordSize
  constructor
  · rintro ⟨byte, rfl, lower, upper⟩
    omega
  · rintro ⟨lower, upper⟩
    exact ⟨slot * 8, by omega, by omega, by omega⟩

theorem touches_store_self {ty : Ty} {slot : Nat} {cell : Cell ty} : (store ty slot cell).Touches slot := by
  have positive := ty.words_pos
  exact touches_store_iff.mpr ⟨Nat.le_refl slot, by omega⟩

end StackWrite

/-- The value is the last one that was stored at the word, and no byte of the word was written since. Words that were
moved are followed back to where they stood before. The latest write comes first. -/
inductive Latest : List StackWrite → Nat → (ty : Ty) → Cell ty → Prop
  | stored {ty : Ty} {cell : Cell ty} {slot : Nat} {earlier : List StackWrite} :
      Latest (.store ty slot cell :: earlier) slot ty cell
  | moved {ty : Ty} {cell : Cell ty} {src dst words slot : Nat} {earlier : List StackWrite} (lower : dst ≤ slot)
      (upper : slot < dst + words) (latest : Latest earlier (src + (slot - dst)) ty cell) :
      Latest (.move src dst words :: earlier) slot ty cell
  | passed {ty : Ty} {cell : Cell ty} {write : StackWrite} {slot : Nat} {earlier : List StackWrite}
      (untouched : ¬ write.Touches slot) (latest : Latest earlier slot ty cell) : Latest (write :: earlier) slot ty cell

namespace Latest

variable {ty : Ty} {cell : Cell ty} {slot : Nat} {earlier : List StackWrite}

theorem of_untouched {write : StackWrite} (latest : Latest (write :: earlier) slot ty cell)
    (untouched : ¬ write.Touches slot) : Latest earlier slot ty cell := by
  cases latest with
  | stored => exact absurd StackWrite.touches_store_self untouched
  | moved lower upper latest => exact absurd (StackWrite.touches_move_iff.mpr ⟨lower, upper⟩) untouched
  | passed _ latest => exact latest

theorem of_move {src dst words : Nat} (latest : Latest (.move src dst words :: earlier) slot ty cell)
    (lower : dst ≤ slot) (upper : slot < dst + words) : Latest earlier (src + (slot - dst)) ty cell := by
  cases latest with
  | moved _ _ latest => exact latest
  | passed untouched latest => exact absurd (StackWrite.touches_move_iff.mpr ⟨lower, upper⟩) untouched

end Latest

namespace OperandStack

variable {ω : Type} {stack : OperandStack ω}

/-- The tags say what was stored last at every word, and a word with the tag of a one-word value holds that value. -/
structure Attests (stack : OperandStack ω) (history : List StackWrite) : Prop where
  tagged : ∀ slot ty, stack.tags.get slot = some ty → ∃ cell, Latest history slot ty cell
  held : ∀ slot ty (cell : Cell ty), Latest history slot ty cell → stack.tags.get slot = some ty ∧
    (ty.words = 1 → stack.memory.load (slot * wordSize) ty.size = Cell.bits ty cell)

namespace Attests

variable {history : List StackWrite}

theorem of_blank (blank : ∀ slot, stack.tags.get slot = none) : stack.Attests [] where
  tagged slot ty tag := by
    rw [blank slot] at tag
    cases tag
  held slot ty cell latest := by cases latest

theorem congr {final : OperandStack ω} (attests : stack.Attests history) (memory : final.memory = stack.memory)
    (tags : final.tags = stack.tags) : final.Attests history := by
  obtain ⟨tagged, held⟩ := attests
  rw [← tags] at tagged
  rw [← tags, ← memory] at held
  exact ⟨tagged, held⟩

theorem put {slot : Nat} {ty : Ty} {cell : Cell ty} (attests : stack.Attests history) (sound : stack.Sound)
    (room : slot + ty.words ≤ stack.capacity) : (stack.put slot ty cell).Attests (.store ty slot cell :: history) := by
  have touched {place : Nat} := @StackWrite.touches_store_iff ty slot place cell
  constructor
  · intro place kind tag
    by_cases inside : slot ≤ place ∧ place < slot + ty.words
    · by_cases first : place = slot
      · subst first
        rw [tag_put_self sound room] at tag
        cases tag
        exact ⟨cell, .stored⟩
      · rw [tag_put_rest sound room (by omega) inside.2] at tag
        cases tag
    · rw [tag_put_outside (by omega)] at tag
      obtain ⟨value, latest⟩ := attests.tagged place kind tag
      exact ⟨value, .passed (fun touches => inside (touched.mp touches)) latest⟩
  · intro place kind value latest
    by_cases inside : slot ≤ place ∧ place < slot + ty.words
    · cases latest with
      | stored => exact ⟨tag_put_self sound room, fun _ => load_put_self sound room⟩
      | passed untouched latest => exact absurd (touched.mpr inside) untouched
    · obtain ⟨tag, loaded⟩ := attests.held place kind value
        (latest.of_untouched fun touches => inside (touched.mp touches))
      rw [tag_put_outside (by omega)]
      refine ⟨tag, fun narrow => ?_⟩
      rw [load_put_outside (by omega) (Ty.size_le_wordSize narrow)]
      exact loaded narrow

theorem moved {src dst words : Nat} (attests : stack.Attests history) (sound : stack.Sound) (below : dst ≤ src)
    (used : src + words ≤ stack.offset) :
    (stack.moved src dst words).Attests (.move src dst words :: history) := by
  have touched {place : Nat} := @StackWrite.touches_move_iff src dst words place
  constructor
  · intro place kind tag
    by_cases inside : dst ≤ place ∧ place < dst + words
    · have same := tag_moved_inside sound below used (show place - dst < words by omega)
      rw [Nat.add_sub_cancel' inside.1, tag] at same
      obtain ⟨value, latest⟩ := attests.tagged _ kind same.symm
      exact ⟨value, .moved inside.1 inside.2 latest⟩
    · rw [tag_moved_outside sound used (by omega)] at tag
      obtain ⟨value, latest⟩ := attests.tagged place kind tag
      exact ⟨value, .passed (fun touches => inside (touched.mp touches)) latest⟩
  · intro place kind value latest
    by_cases inside : dst ≤ place ∧ place < dst + words
    · obtain ⟨tag, loaded⟩ := attests.held _ kind value (latest.of_move inside.1 inside.2)
      have shorter : place - dst < words := by omega
      have same := tag_moved_inside sound below used shorter
      rw [Nat.add_sub_cancel' inside.1] at same
      refine ⟨same.trans tag, fun narrow => ?_⟩
      have word := load_moved_inside sound below used shorter (Ty.size_le_wordSize narrow)
      rw [Nat.add_sub_cancel' inside.1] at word
      exact word.trans (loaded narrow)
    · obtain ⟨tag, loaded⟩ := attests.held place kind value
        (latest.of_untouched fun touches => inside (touched.mp touches))
      rw [tag_moved_outside sound used (by omega)]
      refine ⟨tag, fun narrow => ?_⟩
      rw [load_moved_outside sound used (by omega) (Ty.size_le_wordSize narrow)]
      exact loaded narrow

/-- What can be read at a word is what was stored there last. -/
theorem cellAt_eq_ok_iff {slot : Nat} {ty : Ty} {cell : Cell ty} (attests : stack.Attests history)
    (narrow : ty.words = 1) : stack.cellAt ty slot = .ok cell ↔ slot < stack.offset ∧ Latest history slot ty cell := by
  rw [OperandStack.cellAt_eq_ok_iff, narrow, Nat.add_one_le_iff]
  refine and_congr_right fun _ => ⟨?_, ?_⟩
  · rintro ⟨tag, rfl⟩
    obtain ⟨cell, latest⟩ := attests.tagged slot ty tag
    rw [(attests.held slot ty cell latest).2 narrow, Cell.ofBits_bits]
    exact latest
  · intro latest
    obtain ⟨tag, loaded⟩ := attests.held slot ty cell latest
    rw [loaded narrow]
    exact ⟨tag, Cell.ofBits_bits ty cell⟩

end Attests

end OperandStack

namespace Access

variable {ω : Type}

/-- What an operation writes to the words of a stack, if it succeeds. -/
def written? : Access ω → OperandStack ω → Option StackWrite
  | push ty cell, stack =>
    match StackM.pushCell ty cell stack with
    | .ok _ _ => some (.store ty stack.offset cell)
    | .error _ _ => none
  | write ty slot cell, stack =>
    match StackM.writeCell ty slot cell stack with
    | .ok _ _ => some (.store ty slot cell)
    | .error _ _ => none
  | moveDown src dst words, _ => some (.move src dst words)
  | _, _ => none

end Access

namespace OperandStack

variable {ω : Type} {stack : OperandStack ω} {history : List StackWrite}

/-- Every operation keeps words and tags in step. -/
theorem Attests.perform (attests : stack.Attests history) (sound : stack.Sound) {access : Access ω}
    (asserted : access.Asserted stack) :
    (finalState (access.perform stack)).Attests ((access.written? stack).toList ++ history) := by
  cases access with
  | push ty cell =>
    simp only [Access.written?, Access.perform, pushCell_eq]
    by_cases room : stack.offset + ty.words ≤ stack.capacity
    · simp only [if_pos room]
      exact (attests.put sound room).congr rfl rfl
    · simp only [if_neg room]
      exact attests
  | write ty slot cell =>
    simp only [Access.written?, Access.perform, writeCell_eq]
    by_cases beyond : stack.offset < slot + ty.words
    · simp only [if_pos beyond]
      exact attests
    · have used := sound.offset_le
      simp only [if_neg beyond]
      exact attests.put sound (by omega)
  | moveDown src dst words => exact (attests.moved sound asserted.1 asserted.2).congr rfl rfl
  | pop ty =>
    simp only [Access.perform, StackM.popCell]
    split
    · exact attests
    · cases stack.tags.check (stack.offset - ty.words) ty <;> exact attests.congr rfl rfl
  | read ty slot =>
    simp only [Access.perform, StackM.readCell]
    cases stack.cellAt ty slot <;> exact attests
  | needRoom words =>
    simp only [Access.perform, StackM.needRoom]
    split <;> exact attests
  | duplicate handle =>
    simp only [Access.perform, StackM.duplicate]
    cases stack.handles.duplicate handle <;> exact attests.congr rfl rfl
  | resolve handle =>
    simp only [Access.perform]
    cases stack.handles.get handle <;> exact attests
  | release handle =>
    simp only [Access.perform, StackM.release]
    cases stack.handles.release handle <;> exact attests.congr rfl rfl
  | describe | alloc | setOffset | usage => exact attests.congr rfl rfl

/-- A stack together with all that was written to its words since it was lent, the latest write first. A pool lends it,
and the pool holds what is left of such stacks. Then come operations, which may fail. Only moves and changes of the
offset check nothing by themselves and have to be asked for within what is used; object operations, natives and
instructions are scripts of operations, for which `Script.recorded_run` goes on with the record. -/
inductive Recorded : OperandStack ω → List StackWrite → Prop
  | lend {pool : StackPool ω} {capacity : Nat} {journal : Journal} (origin : OperandStack ω → OperandStack ω)
      (historyOf : OperandStack ω → List StackWrite)
      (recorded : ∀ stored ∈ pool.free, Recorded (origin stored) (historyOf stored))
      (recycled : ∀ stored ∈ pool.free, stored = (origin stored).recycle) :
      Recorded (pool.lend capacity journal).1 []
  | perform {stack : OperandStack ω} {history : List StackWrite} (recorded : Recorded stack history) (access : Access ω)
      (asserted : access.Asserted stack) :
      Recorded (finalState (access.perform stack)) ((access.written? stack).toList ++ history)

namespace Recorded

theorem sound (recorded : stack.Recorded history) : stack.Sound := by
  induction recorded with
  | @lend pool capacity journal origin historyOf recorded recycled ih =>
    rcases pool.lend_cases capacity journal with ⟨stored, member, _, lent⟩ | fresh
    · have kept : stored.Sound := by
        rw [recycled stored member]
        exact (ih stored member).recycle
      rw [lent]
      exact ⟨kept.memory_size, kept.tags_size, Nat.zero_le _⟩
    · rw [fresh]
      exact .fresh capacity
  | perform recorded access asserted ih => exact (Access.stays_perform asserted ih).sound

theorem attests (recorded : stack.Recorded history) : stack.Attests history := by
  induction recorded with
  | @lend pool capacity journal origin historyOf recorded recycled ih =>
    refine .of_blank fun slot => ?_
    rcases pool.lend_cases capacity journal with ⟨stored, member, _, lent⟩ | fresh
    · rw [lent, recycled stored member]
      exact getD_replicate ..
    · rw [fresh]
      exact getD_replicate ..
  | perform recorded access asserted ih => exact ih.perform recorded.sound asserted

end Recorded

end OperandStack

namespace Script

variable {ω α : Type} {stack : OperandStack ω} {history : List StackWrite}

/-- All that a script writes to the words of a stack, the latest write first. -/
def written : Script ω α → OperandStack ω → List StackWrite
  | done _, _ => []
  | fail _, _ => []
  | act access next, stack =>
    (match access.perform stack with
      | .ok reply stack => (next (.ok reply)).written stack
      | .error fault stack => (next (.error fault)).written stack) ++ (access.written? stack).toList

/-- Whatever is made of operations inside the bounds goes on with the record. -/
theorem recorded_run (script : Script ω α) (recorded : stack.Recorded history)
    (inBounds : ∀ entry ∈ script.trace stack, entry.1.InBounds entry.2) :
    (finalState (script.run stack)).Recorded (script.written stack ++ history) := by
  induction script generalizing stack history with
  | done value => exact recorded
  | fail fault => exact recorded
  | act access next ih =>
    simp only [trace, List.forall_mem_cons] at inBounds
    have performed := recorded.perform access inBounds.1.asserted
    rw [written, List.append_assoc]
    simp only [run]
    cases ran : access.perform stack with
    | ok reply final =>
      rw [ran] at performed inBounds
      exact ih (.ok reply) performed inBounds.2
    | error fault final =>
      rw [ran] at performed inBounds
      exact ih (.error fault) performed inBounds.2

theorem recorded_of_checked {script : Script ω α} (checked : script.Checked) (recorded : stack.Recorded history) :
    (finalState (script.run stack)).Recorded (script.written stack ++ history) :=
  script.recorded_run recorded (meets_iff.mp (meets_of_checked checked recorded.sound)).1

/-- The instructions of a routine go on with the record, a return among them. -/
theorem recorded_effect {H : Type} {stack : OperandStack (Object H)} (table : HostTable H) (frame : Frame H)
    (instruction : Instruction) (recorded : stack.Recorded history) :
    (finalState ((effect table frame instruction).run stack)).Recorded
      ((effect table frame instruction).written stack ++ history) :=
  recorded_run _ recorded (meets_iff.mp (meets_effect table frame instruction recorded.sound)).1

end Script

namespace StackM

variable {ω : Type} {stack final : OperandStack ω} {ty : Ty} {cell : Cell ty}

theorem readCell_eq_ok_iff {slot : Nat} :
    readCell ty slot stack = .ok cell final ↔ final = stack ∧ stack.cellAt ty slot = .ok cell := by
  refine ⟨readCell_eq_ok, ?_⟩
  rintro ⟨rfl, found⟩
  simp only [readCell, found]

theorem popCell_eq_ok_iff :
    popCell ty stack = .ok cell final ↔ ty.words ≤ stack.offset ∧
      stack.cellAt ty (stack.offset - ty.words) = .ok cell ∧
      final = { stack with offset := stack.offset - ty.words } := by
  constructor
  · intro popped
    obtain ⟨enough, _, same⟩ := popCell_eq_ok popped
    exact ⟨enough, cellAt_of_popCell popped, same⟩
  · rintro ⟨enough, found, rfl⟩
    obtain ⟨_, tag, rfl⟩ := OperandStack.cellAt_eq_ok_iff.mp found
    have checked : stack.tags.check (stack.offset - ty.words) ty = .ok () := if_pos tag
    unfold popCell
    rw [if_neg (Nat.not_lt.mpr enough), checked]

end StackM

/-- Whatever a stack was used for: a value of any type but the wide one is found at a word exactly if the word is alive
and the value is the last one that was stored there, with no byte of the word written since. -/
theorem OperandStack.Recorded.reads_latest {ω : Type} {stack : OperandStack ω} {history : List StackWrite}
    (recorded : stack.Recorded history) {ty : Ty} (narrow : ty ≠ .scalar .decimal) :
    (∀ slot cell final, StackM.readCell ty slot stack = .ok cell final ↔
      final = stack ∧ slot < stack.offset ∧ Latest history slot ty cell) ∧
    ∀ cell final, StackM.popCell ty stack = .ok cell final ↔
      ∃ slot, stack.offset = slot + 1 ∧ final = { stack with offset := slot } ∧ Latest history slot ty cell := by
  have one := Ty.words_eq_one narrow
  have found {slot : Nat} {cell : Cell ty} :=
    @Attests.cellAt_eq_ok_iff ω stack history slot ty cell recorded.attests one
  constructor
  · intro slot cell final
    rw [StackM.readCell_eq_ok_iff, found]
  · intro cell final
    rw [StackM.popCell_eq_ok_iff, found, one]
    constructor
    · rintro ⟨enough, ⟨_, latest⟩, same⟩
      exact ⟨stack.offset - 1, by omega, same, latest⟩
    · rintro ⟨slot, offset, rfl, latest⟩
      have top : stack.offset - 1 = slot := by omega
      rw [top]
      exact ⟨by omega, ⟨by omega, latest⟩, rfl⟩

namespace Returned

/-- A routine whose result is narrower than its arguments. -/
def routine : Routine (Object Unit) where
  signature := ⟨"Returned", some (.scalar .int), [⟨"a", .scalar .decimal⟩, ⟨"b", .object⟩]⟩
  chunk := Chunk.of [.ret] ⟨#[], #[], #[]⟩

/-- The arguments of the routine and its result. -/
def values : List (Argument (Object Unit)) :=
  [⟨.scalar .decimal, (⟨0, 1, 2⟩ : Decimal)⟩, ⟨.object, some (.host ())⟩, ⟨.scalar .int, (7 : Int32)⟩]

/-- Storage whose words were written before. -/
def soiled : OperandStack (Object Unit) :=
  finalState ((Script.pushAll values).run (StackPool.lend (Pool.empty 0) 4 .silent).1)

def pool : StackPool (Object Unit) := ⟨1, #[soiled.recycle], .zero⟩

/-- The stack before the routine returns. -/
def full : OperandStack (Object Unit) :=
  finalState ((Script.pushAll values).run (pool.lend 4 .silent).1)

/-- The stack after the routine has returned. -/
def stack : OperandStack (Object Unit) :=
  finalState ((Script.effect (fun _ => none) ⟨routine, 1, 0⟩ .ret).run full)

/-- The result was moved down over the first word of the decimal. -/
def history : List StackWrite :=
  [.move 3 0 1, .store (.scalar .int) 3 (7 : Int32), .store .object 2 (⟨0x100000001⟩ : Handle),
    .store (.scalar .decimal) 0 (⟨0, 1, 2⟩ : Decimal)]

theorem recorded : stack.Recorded history := by
  have fresh : (StackPool.lend (Pool.empty 0 : StackPool (Object Unit)) 4 .silent).1.Recorded [] :=
    .lend id (fun _ => []) (fun _ member => (Array.not_mem_empty _ member).elim)
      fun _ member => (Array.not_mem_empty _ member).elim
  have before : soiled.Recorded _ := Script.recorded_of_checked (Script.checked_pushAll values) fresh
  have lent : (pool.lend 4 .silent).1.Recorded [] := by
    refine .lend (fun _ => soiled) _ (fun _ _ => before) fun stored member => ?_
    exact Array.mem_singleton.mp member
  have pushed : full.Recorded _ := Script.recorded_of_checked (Script.checked_pushAll values) lent
  have returned : stack.Recorded _ := Script.recorded_effect (fun _ => none) ⟨routine, 1, 0⟩ .ret pushed
  have writes : (Script.effect (fun _ => none) ⟨routine, 1, 0⟩ .ret).written full ++
      ((Script.pushAll values).written (pool.lend 4 .silent).1 ++ []) = history := by decide +kernel
  exact writes ▸ returned

end Returned

/-- The caller gets the result that was pushed, although it stands in a word that a wide value was stored to. -/
theorem OperandStack.Recorded.reads_latest_of_return :
    Returned.stack.Recorded Returned.history ∧
      StackM.readCell (.scalar .int) 0 Returned.stack = .ok (7 : Int32) Returned.stack ∧
      StackM.popCell (.scalar .int) Returned.stack = .ok (7 : Int32) { Returned.stack with offset := 0 } ∧
      Latest Returned.history 0 (.scalar .int) (7 : Int32) := by
  obtain ⟨reads, pops⟩ := Returned.recorded.reads_latest (show Ty.scalar .int ≠ .scalar .decimal by decide)
  have latest : Latest Returned.history 0 (.scalar .int) (7 : Int32) := .moved (by decide) (by decide) .stored
  have offset : Returned.stack.offset = 0 + 1 := by decide +kernel
  exact ⟨Returned.recorded, (reads 0 _ _).mpr ⟨rfl, by omega, latest⟩, (pops _ _).mpr ⟨0, offset, rfl, latest⟩, latest⟩

end WordMachine
