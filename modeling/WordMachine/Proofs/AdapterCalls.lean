import WordMachine.Proofs.FailedRuns

namespace WordMachine

namespace HandleTable

variable {ω : Type} {table next : HandleTable ω} {handle : Handle} {object : Option ω}

theorem get_of_release (released : table.release handle = .ok (object, next)) : table.get handle = .ok object := by
  rcases release_cases released with ⟨rfl, rfl, _⟩ | ⟨index, found, located, rfl, _⟩
  · exact table.get_null
  · exact get_of_locate? located

/-- What a handle refers to after another was taken back it has referred to before. -/
theorem get_of_get_release (released : table.release handle = .ok (object, next)) {other : Handle} {found : Option ω}
    (got : next.get other = .ok found) : table.get other = .ok found := by
  refine (get_release released fun same => ?_).symm.trans got
  by_contra issued
  subst same
  exact not_refers_release released issued ⟨found, got⟩

end HandleTable

namespace OperandStack

variable {ω : Type} {stack final : OperandStack ω}

/-- The live values that start one after the other at a slot, as the host sees them. -/
def operandsAt (stack : OperandStack ω) : Nat → (types : List Ty) → Except Fault (Operands ω types)
  | _, [] => .ok ()
  | slot, ty :: rest => do
    let value ← stack.operandAt ty slot
    let values ← stack.operandsAt (slot + ty.words) rest
    pure (value, values)

theorem operandsAt_cons_eq_ok {slot : Nat} {ty : Ty} {rest : List Ty} {value : Operand ω ty} {values : Operands ω rest}
    (first : stack.operandAt ty slot = .ok value) (others : stack.operandsAt (slot + ty.words) rest = .ok values) :
    stack.operandsAt slot (ty :: rest) = .ok (value, values) := by
  simp only [operandsAt, first, others]
  rfl

theorem operandAt_live {ty : Ty} {slot : Nat} {value : Operand ω ty} (found : stack.operandAt ty slot = .ok value) :
    slot + ty.words ≤ stack.offset ∧ stack.tags.get slot = some ty := by
  cases ty with
  | scalar kind =>
    obtain ⟨live, tag, _⟩ := cellAt_eq_ok_iff.mp found
    exact ⟨live, tag⟩
  | object =>
    obtain ⟨handle, read, _⟩ := operandAt_object_eq_ok_iff.mp found
    obtain ⟨live, tag, _⟩ := cellAt_eq_ok_iff.mp read
    exact ⟨live, tag⟩

theorem operandsAt_live {slot : Nat} {types : List Ty} {values : Operands ω types}
    (found : stack.operandsAt slot types = .ok values) :
    ∀ entry ∈ slotsFrom slot types, entry.1 + entry.2.words ≤ stack.offset ∧ stack.tags.get entry.1 = some entry.2 := by
  induction types generalizing slot with
  | nil => exact nofun
  | cons ty rest ih =>
    simp only [operandsAt] at found
    cases first : stack.operandAt ty slot with
    | error fault =>
      rw [first] at found
      cases found
    | ok value =>
      cases others : stack.operandsAt (slot + ty.words) rest with
      | error fault =>
        rw [first, others] at found
        cases found
      | ok more => exact List.forall_mem_cons.mpr ⟨operandAt_live first, ih others⟩

/-- A stack after values of these types were taken from it. Words and tags stay where they are, and of the handles only
those of the references among the values are taken back. -/
structure Relieved (stack final : OperandStack ω) (types : List Ty) : Prop where
  enough : totalWords types ≤ stack.offset
  offset_eq : final.offset = stack.offset - totalWords types
  memory_eq : final.memory = stack.memory
  tags_eq : final.tags = stack.tags
  get_of_get : ∀ handle object, final.handles.get handle = .ok object → stack.handles.get handle = .ok object
  get_eq : ∀ handle,
    (∀ entry ∈ slotsFrom (stack.offset - totalWords types) types, entry.2 = .object →
      stack.handleAt entry.1 = handle → handle = Handle.null) →
    final.handles.get handle = stack.handles.get handle

namespace Relieved

theorem operandAt {ty : Ty} {types : List Ty} {slot : Nat} {value : Operand ω ty}
    (relieved : stack.Relieved final types) (found : final.operandAt ty slot = .ok value) :
    stack.operandAt ty slot = .ok value := by
  have same {ty : Ty} {cell : Cell ty} (read : final.cellAt ty slot = .ok cell) : stack.cellAt ty slot = .ok cell := by
    obtain ⟨live, tag, loaded⟩ := cellAt_eq_ok_iff.mp read
    rw [relieved.offset_eq] at live
    rw [relieved.tags_eq] at tag
    rw [relieved.memory_eq] at loaded
    exact cellAt_eq_ok_iff.mpr ⟨by omega, tag, loaded⟩
  cases ty with
  | scalar kind => exact same found
  | object =>
    obtain ⟨handle, read, got⟩ := operandAt_object_eq_ok_iff.mp found
    exact operandAt_object_eq_ok_iff.mpr ⟨handle, same read, relieved.get_of_get handle value got⟩

theorem agreesBelow {types : List Ty} (relieved : stack.Relieved final types) (base : Nat) :
    stack.AgreesBelow final base :=
  ⟨fun _ _ => by rw [relieved.memory_eq], fun _ _ => by rw [relieved.tags_eq]⟩

theorem cons {middle : OperandStack ω} {ty : Ty} {rest : List Ty} (first : stack.Relieved middle rest)
    (second : middle.Relieved final [ty]) : stack.Relieved final (ty :: rest) := by
  -- the last values go first, so this one lies below them
  have more := first.enough
  have enough := second.enough
  have lowered := first.offset_eq
  have loweredMore := second.offset_eq
  simp only [totalWords, Nat.add_zero] at enough loweredMore
  have base : middle.offset - totalWords [ty] = stack.offset - totalWords (ty :: rest) := by
    simp only [totalWords]
    omega
  have above : stack.offset - totalWords (ty :: rest) + ty.words = stack.offset - totalWords rest := by
    simp only [totalWords]
    omega
  refine ⟨?_, ?_, second.memory_eq.trans first.memory_eq, second.tags_eq.trans first.tags_eq,
    fun handle object got => first.get_of_get handle object (second.get_of_get handle object got), ?_⟩
  · simp only [totalWords]
    omega
  · simp only [totalWords]
    omega
  · intro handle apart
    rw [slotsFrom, above] at apart
    obtain ⟨apartTop, apartRest⟩ := List.forall_mem_cons.mp apart
    refine (second.get_eq handle ?_).trans (first.get_eq handle apartRest)
    rintro entry member reference same
    rw [base, slotsFrom] at member
    cases List.mem_singleton.mp member
    have place : middle.handleAt (stack.offset - totalWords (ty :: rest)) =
        stack.handleAt (stack.offset - totalWords (ty :: rest)) :=
      congrArg (Bytes.handleAt · _) first.memory_eq
    exact apartTop reference (place.symm.trans same)

end Relieved

end OperandStack

namespace StackM

variable {ω : Type} {stack final : OperandStack ω}

theorem cellAt_of_popCell {ty : Ty} {cell : Cell ty} (popped : popCell ty stack = .ok cell final) :
    stack.cellAt ty (stack.offset - ty.words) = .ok cell := by
  obtain ⟨enough, tag, _⟩ := popCell_eq_ok popped
  refine OperandStack.cellAt_eq_ok_iff.mpr ⟨by omega, tag, ?_⟩
  have checked : stack.tags.check (stack.offset - ty.words) ty = .ok () := if_pos tag
  unfold popCell at popped
  rw [if_neg (Nat.not_lt.mpr enough), checked] at popped
  cases popped
  rfl

/-- What a pop gives back can be read on top before. -/
theorem relieved_popOperand {ty : Ty} {value : Operand ω ty} (popped : popOperand ty stack = .ok value final) :
    stack.Relieved final [ty] ∧ stack.operandAt ty (stack.offset - ty.words) = .ok value := by
  cases ty with
  | scalar kind =>
    obtain ⟨enough, _, rfl⟩ := popCell_eq_ok popped
    exact ⟨⟨enough, rfl, rfl, rfl, fun _ _ got => got, fun _ _ => rfl⟩, cellAt_of_popCell popped⟩
  | object =>
    obtain ⟨handle, middle, popping, releasing⟩ := bind_eq_ok popped
    have read := cellAt_of_popCell popping
    obtain ⟨enough, tag, rfl, rfl⟩ := popHandle_eq_ok popping
    obtain ⟨next, released, rfl⟩ := release_eq_ok releasing
    refine ⟨⟨enough, rfl, rfl, rfl, fun _ _ => HandleTable.get_of_get_release released, fun handle apart => ?_⟩,
      OperandStack.operandAt_object_eq_ok_iff.mpr ⟨_, read, HandleTable.get_of_release released⟩⟩
    refine HandleTable.get_release released fun same => ?_
    subst same
    exact apart _ (.head _) rfl rfl

end StackM

theorem Script.relieved_popAll {ω : Type} {types : List Ty} {values : Operands ω types} {stack final : OperandStack ω}
    (popped : (popAll types).run stack = .ok values final) :
    stack.Relieved final types ∧ stack.operandsAt (stack.offset - totalWords types) types = .ok values := by
  induction types generalizing final with
  | nil =>
    cases popped
    exact ⟨⟨Nat.zero_le _, rfl, rfl, rfl, fun _ _ got => got, fun _ _ => rfl⟩, rfl⟩
  | cons ty rest ih =>
    simp only [popAll, run_bind, run_popOperand] at popped
    obtain ⟨others, middle, first, popped⟩ := bind_eq_ok popped
    obtain ⟨value, last, second, popped⟩ := bind_eq_ok popped
    cases popped
    obtain ⟨relieved, more⟩ := ih first
    obtain ⟨top, found⟩ := StackM.relieved_popOperand second
    have enough := top.enough
    have lowered := relieved.offset_eq
    simp only [totalWords, Nat.add_zero] at enough
    have place : middle.offset - ty.words = stack.offset - totalWords (ty :: rest) := by
      simp only [totalWords]
      omega
    have above : stack.offset - totalWords (ty :: rest) + ty.words = stack.offset - totalWords rest := by omega
    rw [place] at found
    refine ⟨relieved.cons top, OperandStack.operandsAt_cons_eq_ok (relieved.operandAt found) ?_⟩
    rw [above]
    exact more

/-- The faults in which a push or a pop of one value can end. -/
def Fault.OfAccess : Fault → Prop
  | .stackOverflow | .stackUnderflow | .typeMismatch _ _ | .invalidHandle _ => True
  | _ => False

namespace StackM

variable {ω : Type} {stack final : OperandStack ω} {fault : Fault}

theorem ofAccess_pushResult {result : Option Ty} {value : Result ω result}
    (failed : pushResult result value stack = .error fault final) : fault.OfAccess := by
  cases result with
  | none => cases failed
  | some ty =>
    have pushing : pushOperand ty value stack = .error fault final := failed
    by_cases room : stack.offset + ty.words ≤ stack.capacity
    · obtain ⟨next, pushed, _⟩ := pushOperand_of_room value room
      rw [pushed] at pushing
      cases pushing
    · rw [OperandStack.pushOperand_full value (Nat.not_le.mp room)] at pushing
      cases pushing
      trivial

theorem ofAccess_popCell {ty : Ty} (failed : popCell ty stack = .error fault final) : fault.OfAccess := by
  unfold popCell Tags.check at failed
  split at failed
  · cases failed
    trivial
  · by_cases tag : stack.tags.get (stack.offset - ty.words) = some ty
    · rw [if_pos tag] at failed
      cases failed
    · rw [if_neg tag] at failed
      cases failed
      trivial

theorem ofAccess_popOperand {ty : Ty} (failed : popOperand ty stack = .error fault final) : fault.OfAccess := by
  cases ty with
  | scalar kind => exact ofAccess_popCell failed
  | object =>
    rcases bind_eq_error failed with unpopped | ⟨handle, middle, _, unreleased⟩
    · exact ofAccess_popCell unpopped
    · unfold release HandleTable.release at unreleased
      split at unreleased
      · rename_i found missing
        cases unreleased
        split at missing
        · cases missing
        · split at missing
          · cases missing
          · cases missing
            trivial
      · cases unreleased

theorem offset_pushResult {result : Option Ty} {value : Result ω result}
    (pushed : pushResult result value stack = .ok () final) : final.offset = stack.offset + resultWords result := by
  cases result with
  | none =>
    cases pushed
    rfl
  | some ty => exact offset_pushOperand pushed

end StackM

theorem Script.ofAccess_popAll {ω : Type} {types : List Ty} {stack final : OperandStack ω} {fault : Fault}
    (failed : (popAll types).run stack = .error fault final) : fault.OfAccess := by
  induction types generalizing final with
  | nil => cases failed
  | cons ty rest ih =>
    simp only [popAll, run_bind, run_popOperand] at failed
    rcases bind_eq_error failed with first | ⟨others, middle, _, failed⟩
    · exact ih first
    · rcases bind_eq_error failed with second | ⟨value, last, _, failed⟩
      · exact StackM.ofAccess_popOperand second
      · cases failed

namespace Adapter

variable {ω : Type} {adapter : Adapter ω} {stack final : OperandStack ω}

/-- The pops and the push together move the offset by just what is declared. -/
theorem offset_callback (answered : adapter.external.callback stack = .ok () final) :
    final.offset = stack.offset - adapter.external.argumentWords + adapter.external.returnWords := by
  rw [callback_external] at answered
  obtain ⟨values, popped, popping, pushing⟩ := bind_eq_ok answered
  rw [StackM.offset_pushResult pushing, (Script.relieved_popAll popping).1.offset_eq]
  rfl

theorem ofAccess_callback {fault : Fault} (failed : adapter.external.callback stack = .error fault final) :
    fault.OfAccess := by
  rw [callback_external] at failed
  rcases bind_eq_error failed with unpopped | ⟨values, popped, _, unpushed⟩
  · exact Script.ofAccess_popAll unpopped
  · exact StackM.ofAccess_pushResult unpushed

end Adapter

/-- The result of a call can be read at a slot, if it has one. -/
def OperandStack.HoldsResult {ω : Type} (stack : OperandStack ω) (slot : Nat) :
    (result : Option Ty) → Result ω result → Prop
  | some ty, value => stack.Holds slot ⟨ty, value⟩
  | none, _ => True

theorem StackM.pushResult_eq_ok {ω : Type} {stack final : OperandStack ω} {result : Option Ty}
    {value : Result ω result} (tended : stack.Tended) (pushed : pushResult result value stack = .ok () final) :
    final.HoldsResult stack.offset result value ∧
      ((result = some .object → final.handles.Small) → ∀ handle, stack.handles.Refers handle →
        final.handles.get handle = stack.handles.get handle) := by
  cases result with
  | none =>
    cases pushed
    exact ⟨trivial, fun _ _ _ => rfl⟩
  | some ty =>
    obtain ⟨retains, held⟩ := pushOperand_eq_ok tended pushed
    refine ⟨held, fun small => ?_⟩
    cases ty with
    | object => exact retains.get_eq (small rfl)
    | scalar kind =>
      obtain ⟨_, rfl⟩ := pushCell_eq_ok pushed
      exact fun _ _ => rfl

/-- Where no two references share a handle, those below some values stay what they are when the handles of the values
are taken back. -/
theorem OperandStack.Owned.operandAt_eq {ω : Type} {stack final : OperandStack ω} {base : Nat} {types : List Ty}
    {values : Operands ω types} (owned : stack.Owned) (found : stack.operandsAt base types = .ok values)
    (before : base ≤ stack.offset) (after : base ≤ final.offset) (agrees : stack.AgreesBelow final base)
    (get_eq : ∀ handle, stack.handles.Refers handle →
      (∀ entry ∈ slotsFrom base types, entry.2 = .object → stack.handleAt entry.1 = handle → handle = Handle.null) →
      final.handles.get handle = stack.handles.get handle)
    {ty : Ty} {slot : Nat} (low : slot + ty.words ≤ base) : final.operandAt ty slot = stack.operandAt ty slot := by
  have same := agrees.cellAt_eq before after low
  cases ty with
  | scalar kind => exact same
  | object =>
    simp only [operandAt, same]
    cases read : stack.cellAt .object slot with
    | error fault => rfl
    | ok handle =>
      obtain ⟨live, tag, rfl⟩ := Script.cellAt_object read
      refine get_eq _ ?_ fun entry member reference shared => ?_
      · rcases owned.refers slot live tag with null | ⟨object, got⟩
        · rw [null]
          exact stack.handles.refers_null
        · exact ⟨some object, got⟩
      · by_contra issued
        obtain ⟨inside, typed⟩ := operandsAt_live found entry member
        have above := le_of_mem_slotsFrom member
        rw [reference] at inside typed
        have one : Ty.object.words = 1 := rfl
        have apart := owned.apart slot live entry.1 (by omega) tag typed shared.symm issued
        omega

namespace Machine

variable {H : Type} {external : External (Object H)}

/-- What a call of host code does to the stack, once it is known that there are words enough for the arguments. -/
def answer (external : External (Object H)) (base : Nat) : StackM (Object H) Unit := do
  external.callback
  checkExternal external base

/-- The journal once it is written down that host code is called. -/
def announced {M : Type → Type} (external : Native M) (journal : Journal) : Journal :=
  if journal.keeps .debug then journal.add (.externalCall external.text) else journal

theorem note_externalCall {M : Type → Type} (external : Native M) (frames : Frames H)
    (stack : OperandStack (Object H)) (journal : Journal) :
    note .debug (fun _ => .externalCall external.text) (⟨frames, stack, journal⟩ : Machine H) =
      .ok () ⟨frames, stack, announced external journal⟩ := by
  unfold note announced
  split <;> rfl

theorem slotBelow_of_le {m : Machine H} {words : Nat} (enough : words ≤ m.stack.offset) :
    slotBelow words m = .ok (m.stack.offset - words) m :=
  if_neg (Nat.not_lt.mpr enough)

theorem callExternal_underflow {m : Machine H} (low : m.stack.offset < external.argumentWords) :
    callExternal external m = .error .stackUnderflow m :=
  bind_error (if_pos low)

theorem callExternal_of_enough {frames : Frames H} {stack : OperandStack (Object H)} (journal : Journal)
    (enough : external.argumentWords ≤ stack.offset) :
    callExternal external ⟨frames, stack, journal⟩ =
      onStack (answer external (stack.offset - external.argumentWords))
        ⟨frames, stack, announced external journal⟩ := by
  rw [callExternal_own]
  refine (bind_ok (slotBelow_of_le enough)).trans
    ((bind_ok (note_externalCall external frames stack journal)).trans ?_)
  unfold answer
  cases answered : external.callback stack with
  | error fault final => rw [bind_error (onStack_error answered), onStack_error (bind_error answered)]
  | ok value final =>
    rw [bind_ok (onStack_ok answered)]
    simp only [onStack, bind_ok answered]

theorem callExternal_eq_ok {m final : Machine H} (called : callExternal external m = .ok () final) :
    external.argumentWords ≤ m.stack.offset ∧ external.callback m.stack = .ok () final.stack ∧
      final.stack.offset = m.stack.offset - external.argumentWords + external.returnWords := by
  obtain ⟨frames, stack, journal⟩ := m
  by_cases low : stack.offset < external.argumentWords
  · rw [callExternal_underflow low] at called
    cases called
  · have enough := Nat.not_lt.mp low
    rw [callExternal_of_enough journal enough] at called
    obtain ⟨_, answered, answering, checking⟩ := bind_eq_ok (onStack_eq_ok called).1
    unfold checkExternal at checking
    split at checking
    · rename_i counted
      cases checking
      exact ⟨enough, answering, counted⟩
    · cases checking

/-- What a call of host code leaves behind that was made for a function. The function was given the values on top of the
stack in the order of their types, the last of them on top; its answer takes their place; and below them nothing has
changed, neither words nor tags nor what a handle refers to that is not one of theirs. -/
structure KeepsEffect (argumentWords returnWords : Nat) (m final : Machine H) {parameters : List Ty}
    {result : Option Ty} (values : Operands (Object H) parameters) (answer : Result (Object H) result) : Prop where
  frames_eq : final.frames = m.frames
  enough : argumentWords ≤ m.stack.offset
  offset_eq : final.stack.offset = m.stack.offset - argumentWords + returnWords
  given : m.stack.operandsAt (m.stack.offset - argumentWords) parameters = .ok values
  answered : final.stack.HoldsResult (m.stack.offset - argumentWords) result answer
  agrees : m.stack.AgreesBelow final.stack (m.stack.offset - argumentWords)
  get_eq : (result = some .object → final.stack.handles.Small) → ∀ handle, m.stack.handles.Refers handle →
    (∀ entry ∈ slotsFrom (m.stack.offset - argumentWords) parameters, entry.2 = .object →
      m.stack.handleAt entry.1 = handle → handle = Handle.null) →
    final.stack.handles.get handle = m.stack.handles.get handle
  operandAt_eq : (result = some .object → final.stack.handles.Small) → m.stack.Owned → ∀ (ty : Ty) (slot : Nat),
    slot + ty.words ≤ m.stack.offset - argumentWords →
    final.stack.operandAt ty slot = m.stack.operandAt ty slot

theorem keepsEffect_of_callExternal {adapter : Adapter (Object H)} {m final : Machine H} (tended : m.stack.Tended)
    (called : callExternal adapter.external m = .ok () final) :
    ∃ values popped, (Script.popAll adapter.parameters).run m.stack = .ok values popped ∧
      KeepsEffect adapter.external.argumentWords adapter.external.returnWords m final values
        (adapter.apply values) := by
  obtain ⟨enough, answering, offset_eq⟩ := callExternal_eq_ok called
  have words : adapter.external.argumentWords = totalWords adapter.parameters := rfl
  rw [Adapter.callback_external] at answering
  obtain ⟨values, popped, popping, pushing⟩ := bind_eq_ok answering
  obtain ⟨relieved, found⟩ := Script.relieved_popAll popping
  have ready : popped.Tended :=
    Script.tended_of_ok rfl (Script.propagating_popAll adapter.parameters).isPublic.checked tended popping
  obtain ⟨held, retained⟩ := StackM.pushResult_eq_ok ready pushing
  rw [relieved.offset_eq] at held
  have agrees : m.stack.AgreesBelow final.stack (m.stack.offset - adapter.external.argumentWords) := by
    refine (relieved.agreesBelow _).trans
      ((Script.takesAtMost_pushResult adapter.result (adapter.apply values)).agreesBelow ?_
        ((congrFun (Script.run_pushResult ..) _).trans pushing))
    rw [relieved.offset_eq, words]
    exact Nat.le_refl _
  have get_eq (small : adapter.result = some .object → final.stack.handles.Small) (handle : Handle)
      (refers : m.stack.handles.Refers handle)
      (apart : ∀ entry ∈ slotsFrom (m.stack.offset - adapter.external.argumentWords) adapter.parameters,
        entry.2 = .object → m.stack.handleAt entry.1 = handle → handle = Handle.null) :
      final.stack.handles.get handle = m.stack.handles.get handle := by
    have same := relieved.get_eq handle apart
    exact (retained small handle (refers.of_get_eq same)).trans same
  exact ⟨values, popped, popping, frames_callExternal called, enough, offset_eq, found, held, agrees, get_eq,
    fun small owned ty slot low =>
      owned.operandAt_eq found (Nat.sub_le ..) (by omega) agrees (get_eq small) low⟩

/-- Host code for a function never leaves other words than it declares. -/
theorem callExternal_ne_returnCountMismatch (adapter : Adapter (Object H)) (m : Machine H) (name : String)
    (expected found : Nat) (final : Machine H) :
    callExternal adapter.external m ≠ .error (.returnCountMismatch name expected found) final := by
  intro failed
  obtain ⟨frames, stack, journal⟩ := m
  by_cases low : stack.offset < adapter.external.argumentWords
  · rw [callExternal_underflow low] at failed
    cases failed
  · rw [callExternal_of_enough journal (Nat.not_lt.mp low)] at failed
    cases answered : answer adapter.external (stack.offset - adapter.external.argumentWords) stack with
    | ok value last =>
      rw [onStack_ok answered] at failed
      cases failed
    | error fault last =>
      rw [onStack_error answered] at failed
      cases failed
      rcases bind_eq_error answered with unanswered | ⟨_, after, answering, miscounted⟩
      · exact Adapter.ofAccess_callback unanswered
      · have passed : checkExternal adapter.external (stack.offset - adapter.external.argumentWords) after =
            .ok () after :=
          if_pos (Adapter.offset_callback answering)
        rw [passed] at miscounted
        cases miscounted

end Machine

end WordMachine
