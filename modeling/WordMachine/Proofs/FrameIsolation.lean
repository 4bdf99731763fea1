import WordMachine.Proofs.BalancedCalls

namespace WordMachine

namespace OperandStack

variable {ω : Type}

/-- Two stacks whose words and tags below a slot are the same. -/
structure AgreesBelow (stack other : OperandStack ω) (base : Nat) : Prop where
  words : ∀ i < base * wordSize, other.memory.getD i 0 = stack.memory.getD i 0
  tags : ∀ slot < base, other.tags.get slot = stack.tags.get slot

namespace AgreesBelow

theorem refl (stack : OperandStack ω) (base : Nat) : stack.AgreesBelow stack base :=
  ⟨fun _ _ => rfl, fun _ _ => rfl⟩

theorem trans {first second third : OperandStack ω} {base : Nat} (agrees : first.AgreesBelow second base)
    (more : second.AgreesBelow third base) : first.AgreesBelow third base :=
  ⟨fun i low => (more.words i low).trans (agrees.words i low),
    fun slot low => (more.tags slot low).trans (agrees.tags slot low)⟩

theorem mono {stack other : OperandStack ω} {base lower : Nat} (agrees : stack.AgreesBelow other base)
    (less : lower ≤ base) : stack.AgreesBelow other lower := by
  have fewer : lower * wordSize ≤ base * wordSize := Nat.mul_le_mul_right _ less
  exact ⟨fun i low => agrees.words i (by omega), fun slot low => agrees.tags slot (by omega)⟩

end AgreesBelow

/-- Storing a value above a slot leaves what lies below it alone. -/
theorem agreesBelow_put (stack : OperandStack ω) {base slot : Nat} (ty : Ty) (cell : Cell ty) (above : base ≤ slot) :
    stack.AgreesBelow (stack.put slot ty cell) base := by
  have start : base * wordSize ≤ slot * wordSize := Nat.mul_le_mul_right _ above
  exact ⟨fun i low => Bytes.getD_store_of_lt (by omega), fun place low => tag_put_outside (.inl (by omega))⟩

/-- A stack after a step that left the words below a slot alone, with at least so many words above it. -/
structure Spared (stack final : OperandStack ω) (base spare : Nat) : Prop where
  above : base + spare ≤ final.offset
  agrees : stack.AgreesBelow final base

theorem Spared.refl {stack : OperandStack ω} {base spare : Nat} (above : base + spare ≤ stack.offset) :
    stack.Spared stack base spare :=
  ⟨above, .refl stack base⟩

theorem Spared.trans {first second third : OperandStack ω} {base spare rest : Nat}
    (spared : first.Spared second base spare) (more : second.Spared third base rest) :
    first.Spared third base rest :=
  ⟨more.above, spared.agrees.trans more.agrees⟩

end OperandStack

namespace Access

variable {ω : Type}

/-- The words that an operation takes off the stack. -/
def taken : Access ω → Nat
  | pop ty => ty.words
  | _ => 0

/-- Operations that write only from a slot on, and lower the offset only by what they take. -/
def WritesAbove (base : Nat) : Access ω → Prop
  | write _ slot _ => base ≤ slot
  | moveDown _ _ _ => False
  | setOffset _ => False
  | _ => True

theorem spared_perform {access : Access ω} {base spare : Nat} {stack : OperandStack ω}
    (writes : access.WritesAbove base) (enough : base + access.taken + spare ≤ stack.offset) :
    stack.Spared (finalState (access.perform stack)) base spare := by
  have same : stack.Spared stack base spare := .refl (by omega)
  cases access with
  | push ty cell =>
    simp only [perform, OperandStack.pushCell_eq]
    split
    · have kept := stack.agreesBelow_put ty cell (show base ≤ stack.offset by omega)
      refine ⟨?_, kept.words, kept.tags⟩
      change base + spare ≤ stack.offset + ty.words
      omega
    · exact same
  | pop ty =>
    simp only [taken] at enough
    simp only [perform, StackM.popCell]
    split
    · exact same
    · cases stack.tags.check (stack.offset - ty.words) ty with
      | error fault => exact same
      | ok checked =>
        refine ⟨?_, fun _ _ => rfl, fun _ _ => rfl⟩
        change base + spare ≤ stack.offset - ty.words
        omega
  | read ty slot =>
    simp only [perform, StackM.readCell]
    cases stack.cellAt ty slot <;> exact same
  | write ty slot cell =>
    simp only [perform, OperandStack.writeCell_eq]
    split
    · exact same
    · exact ⟨same.above, stack.agreesBelow_put ty cell writes⟩
  | needRoom words =>
    simp only [perform, StackM.needRoom]
    split <;> exact same
  | alloc object => exact ⟨same.above, fun _ _ => rfl, fun _ _ => rfl⟩
  | duplicate handle =>
    simp only [perform, StackM.duplicate]
    cases stack.handles.duplicate handle with
    | error fault => exact same
    | ok copied => exact ⟨same.above, fun _ _ => rfl, fun _ _ => rfl⟩
  | resolve handle =>
    simp only [perform]
    cases stack.handles.get handle <;> exact same
  | release handle =>
    simp only [perform, StackM.release]
    cases stack.handles.release handle with
    | error fault => exact same
    | ok released => exact ⟨same.above, fun _ _ => rfl, fun _ _ => rfl⟩
  | moveDown src dst words => exact writes.elim
  | setOffset offset => exact writes.elim
  | describe | usage => exact same

end Access

namespace Script

variable {ω α β : Type}

/-- Scripts that take at most so many words off the stack and leave the words below a slot alone: as long as there are
that many words above it, the offset never gets below. -/
def TakesAtMost (base count : Nat) (script : Script ω α) : Prop :=
  ∀ (stack : OperandStack ω) (spare : Nat), base + count + spare ≤ stack.offset →
    script.Meets (fun _ state => base ≤ state.offset) stack fun outcome =>
      stack.Spared (finalState outcome) base spare

namespace TakesAtMost

variable {base count first second : Nat}

theorem bind {script : Script ω α} {next : α → Script ω β} (takes : script.TakesAtMost base first)
    (rest : ∀ value, (next value).TakesAtMost base second) : (script >>= next).TakesAtMost base (first + second) := by
  intro stack spare enough
  refine Meets.bind ((takes stack (second + spare) (by omega)).mono ?_)
  rintro (⟨value, middle⟩ | ⟨fault, middle⟩) spared
  · have above : base + (second + spare) ≤ middle.offset := spared.above
    exact (rest value middle spare (by omega)).mono fun _ more => spared.trans more
  · have above : base + (second + spare) ≤ middle.offset := spared.above
    exact ⟨show base + spare ≤ middle.offset by omega, spared.agrees⟩

theorem mono {script : Script ω α} {more : Nat} (takes : script.TakesAtMost base count) (enough : count ≤ more) :
    script.TakesAtMost base more := by
  intro stack spare room
  refine (takes stack (more - count + spare) (by omega)).mono fun outcome spared => ?_
  have above := spared.above
  exact ⟨by omega, spared.agrees⟩

theorem noneBind {script : Script ω α} {next : α → Script ω β} (takes : script.TakesAtMost base 0)
    (rest : ∀ value, (next value).TakesAtMost base count) : (script >>= next).TakesAtMost base count :=
  (takes.bind rest).mono (Nat.le_of_eq (Nat.zero_add count))

theorem bindNone {script : Script ω α} {next : α → Script ω β} (takes : script.TakesAtMost base count)
    (rest : ∀ value, (next value).TakesAtMost base 0) : (script >>= next).TakesAtMost base count :=
  takes.bind rest

theorem agreesBelow {script : Script ω α} {stack final : OperandStack ω} {value : α}
    (takes : script.TakesAtMost base count) (enough : base + count ≤ stack.offset)
    (ran : script.run stack = .ok value final) : stack.AgreesBelow final base := by
  have spared := (meets_iff.mp (takes stack 0 enough)).2
  rw [ran] at spared
  exact spared.agrees

/-- After a script that takes nothing, what comes next may do other things than take. -/
theorem andThen {script : Script ω α} {next : α → Script ω β} {stack : OperandStack ω}
    (takes : script.TakesAtMost base 0) (above : base ≤ stack.offset)
    (rest : ∀ value middle, base ≤ middle.offset →
      (next value).Meets (fun _ state => base ≤ state.offset) middle fun outcome =>
        middle.Spared (finalState outcome) base 0) :
    (script >>= next).Meets (fun _ state => base ≤ state.offset) stack fun outcome =>
      stack.Spared (finalState outcome) base 0 := by
  refine Meets.bind ((takes stack 0 above).mono ?_)
  rintro (⟨value, middle⟩ | ⟨fault, middle⟩) spared
  · exact (rest value middle spared.above).mono fun _ more => spared.trans more
  · exact spared

end TakesAtMost

variable {base : Nat}

theorem takesAtMost_pure (value : α) : (pure value : Script ω α).TakesAtMost base 0 :=
  fun _ _ enough => .refl enough

theorem takesAtMost_fail (fault : Fault) : (fail fault : Script ω α).TakesAtMost base 0 :=
  fun _ _ enough => .refl enough

theorem takesAtMost_call {access : Access ω} {count : Nat} (writes : access.WritesAbove base)
    (takes : access.taken = count) : (call access).TakesAtMost base count := by
  subst takes
  exact fun stack _ enough =>
    meets_call (show base ≤ stack.offset by omega) (Access.spared_perform writes enough)

theorem takesAtMost_act {access : Access ω} {next : Except Fault access.Reply → Script ω α}
    (writes : access.WritesAbove base) (nothing : access.taken = 0) (rest : ∀ reply, (next reply).TakesAtMost base 0) :
    (act access next).TakesAtMost base 0 := by
  intro stack spare enough
  have spared := Access.spared_perform writes (show base + access.taken + spare ≤ stack.offset by omega)
  simp only [Meets]
  refine ⟨by omega, ?_⟩
  cases ran : access.perform stack with
  | ok reply final =>
    rw [ran] at spared
    exact (rest (.ok reply) final spare spared.above).mono fun _ more => spared.trans more
  | error fault final =>
    rw [ran] at spared
    exact (rest (.error fault) final spare spared.above).mono fun _ more => spared.trans more

theorem takesAtMost_pushOperand (ty : Ty) (value : Operand ω ty) : (pushOperand ty value).TakesAtMost base 0 := by
  cases ty with
  | scalar kind => exact takesAtMost_call (by trivial) rfl
  | object =>
    have issued : (handleFor value).TakesAtMost base 0 := by
      cases value with
      | none => exact takesAtMost_pure _
      | some object => exact takesAtMost_call (by trivial) rfl
    exact .noneBind (takesAtMost_call (by trivial) rfl) fun _ => issued.noneBind fun _ =>
      takesAtMost_call (by trivial) rfl

theorem takesAtMost_popOperand (ty : Ty) : (popOperand ty : Script ω _).TakesAtMost base ty.words := by
  cases ty with
  | scalar kind => exact takesAtMost_call (by trivial) rfl
  | object => exact .bindNone (takesAtMost_call (by trivial) rfl) fun _ => takesAtMost_call (by trivial) rfl

theorem takesAtMost_popAll (types : List Ty) : (popAll types : Script ω _).TakesAtMost base (totalWords types) := by
  induction types with
  | nil => exact takesAtMost_pure _
  | cons ty rest ih =>
    rw [totalWords, Nat.add_comm]
    exact ih.bind fun values => (takesAtMost_popOperand ty).bindNone fun value => takesAtMost_pure _

theorem takesAtMost_pushResult (result : Option Ty) (value : Result ω result) :
    (pushResult result value).TakesAtMost base 0 := by
  cases result with
  | none => exact takesAtMost_pure _
  | some ty => exact takesAtMost_pushOperand ty value

theorem takesAtMost_popResult (result : Option Ty) :
    (popResult result : Script ω _).TakesAtMost base (resultWords result) := by
  cases result with
  | none => exact takesAtMost_pure _
  | some ty => exact takesAtMost_popOperand ty

theorem takesAtMost_pushAll (arguments : List (Argument ω)) : (pushAll arguments).TakesAtMost base 0 := by
  induction arguments with
  | nil => exact takesAtMost_pure _
  | cons argument rest ih => exact (takesAtMost_pushOperand argument.ty argument.value).noneBind fun _ => ih

theorem takesAtMost_pushConstant (constants : ConstantPool ω) (ty : Ty) (position : Position) :
    (pushConstant constants ty position).TakesAtMost base 0 := by
  unfold pushConstant
  split
  · exact takesAtMost_pushOperand ty _
  · exact takesAtMost_fail _

theorem takesAtMost_addTop (ty : Ty) : (addTop ty : Script ω Unit).TakesAtMost base (ty.words + ty.words) := by
  cases ty with
  | object => exact (takesAtMost_fail _).mono (Nat.zero_le _)
  | scalar kind =>
    simp only [addTop]
    split
    · exact (takesAtMost_fail _).mono (Nat.zero_le _)
    · refine .bind (takesAtMost_call (by trivial) rfl) fun b =>
        .bindNone (takesAtMost_call (by trivial) rfl) fun a => ?_
      split
      · exact takesAtMost_call (by trivial) rfl
      · exact takesAtMost_fail _

theorem takesAtMost_returning (handle : Handle) (fault : Fault) :
    (returning handle fault : Script ω α).TakesAtMost base 0 :=
  .noneBind (takesAtMost_call (by trivial) rfl) fun _ => takesAtMost_fail fault

theorem takesAtMost_loadLocal (ty : Ty) (slot : Nat) : (loadLocal ty slot : Script ω Unit).TakesAtMost base 0 := by
  cases ty with
  | scalar kind => exact .noneBind (takesAtMost_call (by trivial) rfl) fun value => takesAtMost_call (by trivial) rfl
  | object =>
    refine .noneBind (takesAtMost_call (by trivial) rfl) fun handle =>
      .noneBind (takesAtMost_call (by trivial) rfl) fun copy =>
      takesAtMost_act (by trivial) rfl fun reply => ?_
    cases reply with
    | ok _ => exact takesAtMost_pure _
    | error fault => exact takesAtMost_returning copy fault

theorem takesAtMost_storeLocal (ty : Ty) {slot : Nat} (above : base ≤ slot) :
    (storeLocal ty slot : Script ω Unit).TakesAtMost base ty.words := by
  cases ty with
  | scalar kind => exact .bindNone (takesAtMost_call (by trivial) rfl) fun value => takesAtMost_call above rfl
  | object =>
    refine .bindNone (takesAtMost_call (by trivial) rfl) fun handle =>
      .noneBind (takesAtMost_act (by trivial) rfl fun reply => ?_) fun previous =>
        .noneBind (takesAtMost_call above rfl) fun _ =>
          .noneBind (takesAtMost_call (by trivial) rfl) fun _ => takesAtMost_pure _
    cases reply with
    | ok previous => exact takesAtMost_pure _
    | error fault => exact takesAtMost_returning handle fault

theorem takesAtMost_slotUnder (words : Nat) : (slotUnder words : Script ω Nat).TakesAtMost base 0 := by
  refine .noneBind (takesAtMost_call (by trivial) rfl) fun used => ?_
  split
  · exact takesAtMost_fail _
  · exact takesAtMost_pure _

theorem takesAtMost_describeAll (start : Nat) (slots : List (Nat × Ty)) :
    (describeAll start slots : Script ω Unit).TakesAtMost base 0 := by
  induction slots with
  | nil => exact takesAtMost_pure _
  | cons entry rest ih => exact .noneBind (takesAtMost_call (by trivial) rfl) fun _ => ih

theorem takesAtMost_callCode (adapter : Adapter ω) :
    (callCode adapter.code).TakesAtMost base (totalWords adapter.parameters) := by
  have applied : adapter.script.TakesAtMost base (totalWords adapter.parameters) :=
    (takesAtMost_popAll adapter.parameters).bindNone fun values => takesAtMost_pushResult _ (adapter.apply values)
  refine (takesAtMost_slotUnder _).noneBind fun start => applied.bindNone fun _ =>
    .noneBind (takesAtMost_call (by trivial) rfl) fun used => ?_
  split
  · exact takesAtMost_pure _
  · exact takesAtMost_fail _

theorem takesAtMost_releaseArguments (start : Nat) (slots : List (Nat × Ty)) :
    (releaseArguments start slots : Script ω Unit).TakesAtMost base 0 := by
  induction slots with
  | nil => exact takesAtMost_pure _
  | cons entry rest ih =>
    obtain ⟨slot, ty⟩ := entry
    cases ty with
    | scalar kind => exact ih
    | object =>
      exact .noneBind (takesAtMost_call (by trivial) rfl) fun handle =>
        .noneBind (takesAtMost_call (by trivial) rfl) fun _ => ih

theorem takesAtMost_checkReturn (signature : Signature) (start : Nat) :
    (checkReturn signature start : Script ω Unit).TakesAtMost base 0 := by
  refine .noneBind (takesAtMost_call (by trivial) rfl) fun used => ?_
  dsimp only
  split
  · exact takesAtMost_fail _
  · split
    · exact takesAtMost_fail _
    · exact takesAtMost_pure _

theorem takesAtMost_describeResult (signature : Signature) (start : Nat) :
    (describeResult signature start : Script ω Unit).TakesAtMost base 0 := by
  unfold describeResult
  split
  · exact takesAtMost_describeAll start _
  · exact takesAtMost_pure _

/-- A return lowers the offset to no less than the base of its frame, and writes only from there on. -/
theorem spares_leave {H : Type} {frame : Frame H} {stack : OperandStack (Object H)} (inside : base ≤ frame.base)
    (above : base ≤ stack.offset) :
    (leave frame).Meets (fun _ state => base ≤ state.offset) stack fun outcome =>
      stack.Spared (finalState outcome) base 0 := by
  have start : base * wordSize ≤ frame.base * wordSize := Nat.mul_le_mul_right _ inside
  refine (takesAtMost_checkReturn _ _).andThen above fun _ checked stays => ?_
  refine (takesAtMost_describeResult _ _).andThen stays fun _ described still => ?_
  refine (takesAtMost_releaseArguments _ _).andThen still fun _ released high => ?_
  refine Meets.bind (meets_call high (meets_call high
    ⟨Nat.le_trans inside (Nat.le_add_right ..), fun i low => ?_, fun slot low => ?_⟩))
  · exact getD_writeBlock_outside (.inl (by omega))
  · exact getD_writeBlock_outside (.inl (by omega))

end Script

/-- The words that an instruction takes off the stack. For a call these are the arguments, which become the first words
of the new frame. -/
def Frame.demand {H : Type} (link : Linkage H) (frame : Frame H) : Instruction → Nat
  | .add ty => ty.words + ty.words
  | .pop ty => ty.words
  | .setLocal ty _ => ty.words
  | .call position =>
    match frame.routine.chunk.constants.readRoutine position with
    | .ok callee => callee.signature.argumentWords
    | .error _ => 0
  | .externalCall position =>
    match frame.routine.chunk.constants.readExternal link position with
    | .ok external => external.argumentWords
    | .error _ => 0
  | .constant _ _ => 0
  | .getLocal _ _ => 0
  | .ret => 0

namespace Script

variable {H : Type}

/-- An instruction that finds what it takes at or above a slot leaves what lies below it alone, if its frame does not
begin below. -/
theorem spares_effect (adapters : Adapters H) (frame : Frame H) (instruction : Instruction) {base : Nat}
    {stack : OperandStack (Object H)} (inside : base ≤ frame.base)
    (enough : base + frame.demand adapters.table.link instruction ≤ stack.offset) :
    (effect adapters.table frame instruction).Meets (fun _ state => base ≤ state.offset) stack fun outcome =>
      stack.Spared (finalState outcome) base 0 := by
  have keeping : ∀ {script : Script (Object H) Unit} {count : Nat}, script.TakesAtMost base count →
      base + count ≤ stack.offset →
      (keeping script).Meets (fun _ state => base ≤ state.offset) stack fun outcome =>
        stack.Spared (finalState outcome) base 0 :=
    fun takes room => takes.bindNone (fun _ => takesAtMost_pure _) stack 0 room
  cases instruction with
  | constant ty position => exact keeping (takesAtMost_pushConstant _ ty position) enough
  | add ty => exact keeping (takesAtMost_addTop ty) enough
  | pop ty => exact keeping ((takesAtMost_popOperand ty).bindNone fun _ => takesAtMost_pure _) enough
  | setLocal ty offset => exact keeping (takesAtMost_storeLocal ty (Nat.le_trans inside (Nat.le_add_right ..))) enough
  | getLocal ty offset => exact keeping (takesAtMost_loadLocal ty _) enough
  | call position =>
    have above : base + 0 + 0 ≤ stack.offset := Nat.le_trans (Nat.le_add_right ..) enough
    simp only [effect]
    split
    · exact (takesAtMost_slotUnder _).noneBind (fun _ => (takesAtMost_describeAll _ _).noneBind fun _ =>
        takesAtMost_pure _) stack 0 above
    · exact takesAtMost_fail _ stack 0 above
  | externalCall position =>
    have above : base + 0 + 0 ≤ stack.offset := Nat.le_trans (Nat.le_add_right ..) enough
    simp only [Frame.demand, ConstantPool.readExternal_link, Adapters.readCode_table] at enough
    simp only [effect, Adapters.readCode_table]
    cases read : adapters.read frame.routine.chunk.constants position with
    | error error => exact takesAtMost_fail _ stack 0 above
    | ok adapter =>
      rw [read] at enough
      exact keeping (takesAtMost_callCode adapter) enough
  | ret =>
    refine Meets.bind ((spares_leave inside enough).mono ?_)
    rintro (⟨_, final⟩ | ⟨fault, final⟩) spared
    · exact spared
    · exact spared

end Script

namespace Machine

variable {H : Type}

/-- The words that the next instruction takes off the stack. -/
def demand (link : Linkage H) (m : Machine H) : Nat :=
  match m.frames.current? with
  | none => 0
  | some frame =>
    match frame.routine.chunk.fetch frame.ip with
    | .ok instruction => frame.demand link instruction
    | .error _ => 0

theorem demand_eq {link : Linkage H} {m : Machine H} {top : Frame H} {below : List (Frame H)}
    {instruction : Instruction} (current : m.frames.active = top :: below)
    (fetched : top.routine.chunk.fetch top.ip = .ok instruction) : m.demand link = top.demand link instruction := by
  unfold demand Frames.current?
  rw [current, List.head?_cons]
  simp only [fetched]

/-- If the next instruction takes words off the stack, all of them lie at or above a slot. -/
def TakesAbove (link : Linkage H) (base : Nat) (m : Machine H) : Prop :=
  0 < m.demand link → base + m.demand link ≤ m.stack.offset

/-- A state reached from a call that has kept to the words from its base on: so have the frames on top of those that
were there before it. -/
structure Isolated (base : Nat) (lower : Frames H) (stack : OperandStack (Object H)) (m : Machine H) : Prop where
  frames : ∃ upper, m.frames = ⟨upper ++ lower.active, lower.limit⟩ ∧ ∀ frame ∈ upper, base ≤ frame.base
  above : base ≤ m.stack.offset
  agrees : stack.AgreesBelow m.stack base

/-- As long as there are more frames than before the call, the current one is none of those. -/
theorem Isolated.current {base : Nat} {lower : Frames H} {stack : OperandStack (Object H)} {m : Machine H}
    (isolated : Isolated base lower stack m) (deeper : lower.depth < m.frames.depth) :
    ∃ top rest, m.frames = ⟨top :: rest ++ lower.active, lower.limit⟩ ∧ base ≤ top.base ∧
      ∀ frame ∈ rest, base ≤ frame.base := by
  obtain ⟨upper, frames_eq, inside⟩ := isolated.frames
  cases upper with
  | nil =>
    rw [frames_eq] at deeper
    exact absurd deeper (Nat.lt_irrefl _)
  | cons top rest =>
    obtain ⟨first, others⟩ := List.forall_mem_cons.mp inside
    exact ⟨top, rest, frames_eq, first, others⟩

/-- An instruction that takes nothing finds the offset where it has to be, too. -/
theorem Isolated.enough {link : Linkage H} {base : Nat} {lower : Frames H} {stack : OperandStack (Object H)}
    {m : Machine H} (isolated : Isolated base lower stack m) (takes : m.TakesAbove link base) :
    base + m.demand link ≤ m.stack.offset := by
  by_cases some_taken : 0 < m.demand link
  · exact takes some_taken
  · have above := isolated.above
    omega

theorem Isolated.tickTrace {adapters : Adapters H} {base : Nat} {lower : Frames H}
    {stack : OperandStack (Object H)} {m : Machine H} (isolated : Isolated base lower stack m)
    (deeper : lower.depth < m.frames.depth) (takes : m.TakesAbove adapters.table.link base) :
    ∀ entry ∈ m.tickTrace adapters.table, base ≤ entry.2.offset := by
  have enough := isolated.enough takes
  obtain ⟨top, rest, frames_eq, inside, _⟩ := isolated.current deeper
  obtain ⟨frames, current, journal⟩ := m
  cases frames_eq
  simp only [Machine.tickTrace, List.cons_append]
  split
  · rename_i instruction fetched
    rw [demand_eq rfl fetched] at enough
    exact (Script.meets_iff.mp (Script.spares_effect adapters top.advanced instruction inside enough)).1
  · exact fun entry member => (List.not_mem_nil member).elim

/-- One instruction that finds what it takes at or above the base of a call keeps what lies below. -/
theorem Isolated.advance {adapters : Adapters H} {base : Nat} {lower : Frames H} {stack : OperandStack (Object H)}
    {m next : Machine H} (isolated : Isolated base lower stack m) (deeper : lower.depth < m.frames.depth)
    (takes : m.TakesAbove adapters.table.link base)
    (advances : Advances adapters.table.link m next) : Isolated base lower stack next := by
  have enough := isolated.enough takes
  obtain ⟨top, rest, frames_eq, inside, others⟩ := isolated.current deeper
  obtain ⟨flow, ticked⟩ := advances
  have current : m.frames.active = top :: (rest ++ lower.active) := by rw [frames_eq]; rfl
  obtain ⟨instruction, change, fetched, ran, changed, _⟩ := tick_eq_progress ticked current
  rw [demand_eq current fetched] at enough
  have spared := (Script.meets_iff.mp (Script.spares_effect adapters top.advanced instruction inside enough)).2
  rw [Script.run_effect, ran] at spared
  refine ⟨?_, spared.above, isolated.agrees.trans spared.agrees⟩
  rw [changed, frames_eq]
  rcases effect_cases ran with rfl | ⟨position, callee, rfl, read, _, _, rfl⟩ | ⟨_, _, rfl⟩
  · exact ⟨top.advanced :: rest, rfl, List.forall_mem_cons.mpr ⟨inside, others⟩⟩
  · -- the arguments of the callee are what the call takes, so its frame begins no lower than the base
    have taken : top.demand adapters.table.link (.call position) = callee.signature.argumentWords := by
      have same : top.routine.chunk.constants.readRoutine position = .ok callee := read
      simp only [Frame.demand, same]
    rw [taken] at enough
    exact ⟨_ :: top.advanced :: rest, rfl,
      List.forall_mem_cons.mpr ⟨by dsimp only; omega, List.forall_mem_cons.mpr ⟨inside, others⟩⟩⟩
  · exact ⟨rest, rfl, others⟩

/-- The states of a call in which every instruction finds what it takes at or above its base. -/
theorem During.isolated {adapters : Adapters H} {base : Nat} {lower : Frames H} {start m : Machine H}
    (during : During adapters.table.link lower.depth start m) (first : Isolated base lower start.stack start)
    (deep : lower.depth < start.frames.depth)
    (takes : ∀ state, During adapters.table.link lower.depth start state →
      state.TakesAbove adapters.table.link base) :
    Isolated base lower start.stack m ∧ lower.depth < m.frames.depth := by
  induction during with
  | start => exact ⟨first, deep⟩
  | tick before ticked deeper ih =>
    obtain ⟨isolated, above⟩ := ih
    exact ⟨isolated.advance above (takes _ before) ⟨.proceed, ticked⟩, deeper⟩

section

variable {adapters : Adapters H} {m entered : Machine H} {routine : Routine (Object H)}

theorem Isolated.of_enter (entering : enter routine m = .ok () entered) :
    Isolated (m.stack.offset - routine.signature.argumentWords) m.frames entered.stack entered ∧
      m.frames.depth < entered.frames.depth ∧ entered.stack = m.stack := by
  obtain ⟨_, stack_eq, frames_eq⟩ := enter_eq_ok entering
  refine ⟨⟨⟨[_], frames_eq, List.forall_mem_cons.mpr ⟨Nat.le_refl _, nofun⟩⟩, ?_, .refl ..⟩, ?_, stack_eq⟩
  · rw [stack_eq]
    exact Nat.sub_le ..
  · rw [frames_eq]
    exact Nat.lt_succ_self _

theorem Returns.agreesBelow {final : Machine H} (entering : enter routine m = .ok () entered)
    (takes : ∀ state, During adapters.table.link m.frames.depth entered state →
      state.TakesAbove adapters.table.link (m.stack.offset - routine.signature.argumentWords))
    (returns : Returns adapters.table.link m.frames.depth entered final) :
    m.stack.AgreesBelow final.stack (m.stack.offset - routine.signature.argumentWords) := by
  obtain ⟨first, deep, stack_eq⟩ := Isolated.of_enter entering
  obtain ⟨last, during, advances, _⟩ := returns
  obtain ⟨isolated, above⟩ := during.isolated first deep takes
  have kept := (isolated.advance above (takes last during) advances).agrees
  rwa [stack_eq] at kept

end

/-- Calls are isolated as long as they, and whatever they call, take only their own words. If every instruction between
a call and its return that takes words off the stack finds them at or above the base of the call, then the offset never
gets below that base, not even in the middle of an instruction, and at the return all words and tags below it are what
they were. -/
theorem calls_isolated (adapters : Adapters H) (m entered final : Machine H) (routine : Routine (Object H))
    (entering : enter routine m = .ok () entered)
    (takes : ∀ state, During adapters.table.link m.frames.depth entered state →
      state.TakesAbove adapters.table.link (m.stack.offset - routine.signature.argumentWords))
    (returns : Returns adapters.table.link m.frames.depth entered final) :
    (∀ state, During adapters.table.link m.frames.depth entered state →
      m.stack.offset - routine.signature.argumentWords ≤ state.stack.offset ∧
      ∀ entry ∈ state.tickTrace adapters.table,
        m.stack.offset - routine.signature.argumentWords ≤ entry.2.offset) ∧
    m.stack.AgreesBelow final.stack (m.stack.offset - routine.signature.argumentWords) := by
  refine ⟨fun state during => ?_, returns.agreesBelow entering takes⟩
  obtain ⟨first, deep, _⟩ := Isolated.of_enter entering
  obtain ⟨isolated, above⟩ := during.isolated first deep takes
  exact ⟨isolated.above, isolated.tickTrace above (takes state during)⟩

theorem During.start_or_later {link : Linkage H} {depth : Nat} {start m : Machine H}
    (during : During link depth start m) :
    m = start ∨
      ∃ next, Machine.tick link start = .running next ∧ depth < next.frames.depth ∧ During link depth next m := by
  induction during with
  | start => exact .inl rfl
  | tick before ticked deeper ih =>
    rcases ih with rfl | ⟨next, first, above, later⟩
    · exact .inr ⟨_, ticked, deeper, .start⟩
    · exact .inr ⟨next, first, above, .tick later ticked deeper⟩

/-- Follows a call for at most so many instructions, and tells whether each of them finds what it takes at or above a
slot. -/
def containedWithin (link : Linkage H) (depth base : Nat) : Nat → Machine H → Bool
  | 0, _ => false
  | fuel + 1, m =>
    decide (base + m.demand link ≤ m.stack.offset) &&
      match tick link m with
      | .running next => !decide (depth < next.frames.depth) || containedWithin link depth base fuel next
      | .halted _ => true
      | .faulted _ _ => true

theorem takesAbove_of_containedWithin {link : Linkage H} {depth base fuel : Nat} {start m : Machine H}
    (checked : containedWithin link depth base fuel start = true) (during : During link depth start m) :
    m.TakesAbove link base := by
  induction fuel generalizing start with
  | zero => cases checked
  | succ fuel ih =>
    obtain ⟨here, later⟩ := Bool.and_eq_true_iff.mp checked
    rcases during.start_or_later with rfl | ⟨next, ticked, deeper, rest⟩
    · exact fun _ => of_decide_eq_true here
    · simp only [ticked, deeper, decide_true, Bool.not_true, Bool.false_or] at later
      exact ih later rest

end Machine

namespace Intrusion

/-- A machine on whose stack the host has left an integer. -/
def hosted : Machine Unit := finalState (Machine.onStack (StackM.push .int (9 : Int32)) vm.lent)

/-- The same machine right after a call. -/
def hostedEntry : Machine Unit := ⟨⟨[⟨caller, 0, 1⟩], 2⟩, hosted.stack, .silent⟩

/-- The machine after so many instructions of the outermost call. -/
def after : Nat → Machine Unit
  | 0 => entered
  | count + 1 => (Machine.tick Adapters.none.table.link (after count)).machine

/-- The machine of the caller when it calls. -/
def calling : Machine Unit := ⟨⟨[⟨caller, 2, 0⟩], 2⟩, (after 1).stack, .silent⟩

end Intrusion

namespace Machine

theorem calls_isolated_of_intrusion :
    ∃ final, Returns Adapters.none.table.link 0 Intrusion.hostedEntry final ∧
      Intrusion.hosted.stack.AgreesBelow final.stack 1 := by
  have entering : enter Intrusion.caller Intrusion.hosted = .ok () Intrusion.hostedEntry := rfl
  obtain ⟨final, ran⟩ :=
    @exists_run_of_runWithin Unit Adapters.none.table.link 6 Intrusion.hostedEntry (by decide +kernel)
  have returns := (returns_of_run ran).1
  have checked : containedWithin Adapters.none.table.link 0 1 6 Intrusion.hostedEntry = true := by decide +kernel
  exact ⟨final, returns, (calls_isolated Adapters.none _ _ _ Intrusion.caller entering
    (fun _ during => takesAbove_of_containedWithin checked during) returns).2⟩

end Machine

namespace Intrusion

theorem running (count : Nat) (goes : count < 5) :
    Machine.tick Adapters.none.table.link (after count) = .running (after (count + 1)) := by
  have all : ∀ count < 5, (match Machine.tick Adapters.none.table.link (after count) with
    | .running _ => true
    | .halted _ => false
    | .faulted _ _ => false) = true := by decide +kernel
  have runs := all count goes
  rw [after]
  cases ticked : Machine.tick Adapters.none.table.link (after count) with
  | running next => rfl
  | halted final =>
    rw [ticked] at runs
    cases runs
  | faulted fault final =>
    rw [ticked] at runs
    cases runs

/-- A callee that pops more than it has pushed gets hold of the words of its caller. -/
theorem call_not_isolated :
    ∃ called lowered final : Machine Unit,
      Machine.During Adapters.none.table.link 0 entered called ∧
      Machine.enter intrude calling = .ok () called ∧
      Machine.During Adapters.none.table.link calling.frames.depth called lowered ∧
      Machine.Returns Adapters.none.table.link calling.frames.depth called final ∧
      lowered.stack.offset < calling.stack.offset - intrude.signature.argumentWords ∧
      ¬ calling.stack.AgreesBelow final.stack (calling.stack.offset - intrude.signature.argumentWords) := by
  have called : Machine.During Adapters.none.table.link 0 entered (after 2) :=
    .tick (.tick .start (running 0 (by decide)) (by decide +kernel)) (running 1 (by decide)) (by decide +kernel)
  have lowered : Machine.During Adapters.none.table.link calling.frames.depth (after 2) (after 3) :=
    .tick .start (running 2 (by decide)) (by decide +kernel)
  have filled : Machine.During Adapters.none.table.link calling.frames.depth (after 2) (after 4) :=
    .tick lowered (running 3 (by decide)) (by decide +kernel)
  refine ⟨after 2, after 3, after 5, called, rfl, lowered, ⟨after 4, filled, ⟨.proceed, running 4 (by decide)⟩, ?_⟩,
    by decide +kernel, fun agrees => ?_⟩
  · decide +kernel
  · have same := agrees.words 0 (by decide +kernel)
    have differ : (after 5).stack.memory.getD 0 0 ≠ calling.stack.memory.getD 0 0 := by decide +kernel
    exact differ same

end Intrusion

end WordMachine
