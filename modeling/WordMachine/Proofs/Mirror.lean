import WordMachine.Proofs.Allocation
import WordMachine.Proofs.ImageOfStack

namespace WordMachine

namespace HandleTable

variable {ω : Type}

theorem object_of_get {table : HandleTable ω} {handle : Handle} {object : Option ω}
    (got : table.get handle = .ok object) : table.object handle = object := by
  unfold HandleTable.object
  rw [got]

theorem object_null (table : HandleTable ω) : table.object Handle.null = none :=
  object_of_get table.get_null

theorem Refers.eq_null {table : HandleTable ω} {handle : Handle} (refers : table.Refers handle)
    (missing : table.object handle = none) : handle = Handle.null := by
  obtain ⟨object, got⟩ := refers
  rw [object_of_get got] at missing
  subst missing
  exact get_eq_none_iff.mp got

theorem live_release {table next : HandleTable ω} {handle : Handle} {object : Option ω}
    (released : table.release handle = .ok (object, next)) :
    next.live = table.live - Operand.handles .object object := by
  rcases release_cases released with ⟨_, rfl, rfl⟩ | ⟨index, found, located, rfl, rfl⟩
  · rfl
  · rfl

end HandleTable

namespace Script

variable {ω α β : Type}

/-- What happens to the stack of a state is what happens to its image, as long as that has a meaning. -/
def Pictured {σ : Type} (stackOf : σ → OperandStack ω) (outcome : EStateM.Result Fault σ α) :
    EStateM.Result Trouble (Image ω) α → Prop
  | .ok value image => ∃ final, outcome = .ok value final ∧ (stackOf final).Shown image
  | .error (.fault fault) _ => ∃ final, outcome = .error fault final
  | .error .torn _ => True

theorem Pictured.bind {σ : Type} {stackOf : σ → OperandStack ω} {step : EStateM Fault σ α}
    {next : α → EStateM Fault σ β} {shown : ImageM ω α} {andThen : α → ImageM ω β} {state : σ} {image : Image ω}
    (first : Pictured stackOf (step state) (shown image))
    (rest : ∀ value final after, step state = .ok value final → (stackOf final).Shown after →
      Pictured stackOf (next value final) (andThen value after)) :
    Pictured stackOf ((step >>= next) state) ((shown >>= andThen) image) := by
  cases outcome : shown image with
  | ok value after =>
    rw [outcome] at first
    obtain ⟨final, ran, same⟩ := first
    rw [Machine.bind_ok outcome, Machine.bind_ok ran]
    exact rest value final after ran same
  | error trouble after =>
    rw [outcome] at first
    rw [Machine.bind_error outcome]
    cases trouble with
    | torn => exact trivial
    | fault fault =>
      obtain ⟨final, ran⟩ := first
      exact ⟨final, Machine.bind_error ran⟩

abbrev Mirrored (outcome : EStateM.Result Fault (OperandStack ω) α) (shown : EStateM.Result Trouble (Image ω) α) :
    Prop :=
  Pictured (fun stack => stack) outcome shown

/-- Scripts that keep references in order and do to a stack what a step does to its image. -/
structure Mirrors (script : Script ω α) (step : ImageM ω α) : Prop where
  intact : ∀ stack : OperandStack ω, stack.Intact → Good (fun _ final => final.Intact) (script.run stack)
  mirrored : ∀ stack : OperandStack ω, stack.Intact → (finalState (script.run stack)).handles.Small →
    ∀ image, stack.Shown image → Mirrored (script.run stack) (step image)

theorem mirrors_pure (value : α) : Mirrors (pure value : Script ω α) (pure value) where
  intact _ intact := intact
  mirrored stack _ _ _ shows := ⟨stack, rfl, shows⟩

theorem mirrors_fail {fault : Fault} (tame : fault.Tame) : Mirrors (fail fault : Script ω α) (Image.fail fault) where
  intact _ intact := failed_of_keeps intact tame
  mirrored stack _ _ _ _ := ⟨stack, rfl⟩

theorem Mirrors.bind {script : Script ω α} {step : ImageM ω α} {next : α → Script ω β} {andThen : α → ImageM ω β}
    (first : Mirrors script step) (rest : ∀ value, Mirrors (next value) (andThen value)) :
    Mirrors (script >>= next) (step >>= andThen) := by
  constructor
  · intro stack intact
    have kept := first.intact stack intact
    rw [run_bind]
    cases ran : script.run stack with
    | ok value final =>
      rw [ran] at kept
      rw [Machine.bind_ok ran]
      exact (rest value).intact final kept
    | error fault final =>
      rw [ran] at kept
      rw [Machine.bind_error ran]
      exact kept
  · intro stack intact small image shows
    have kept := first.intact stack intact
    rw [run_bind] at small ⊢
    refine Pictured.bind (first.mirrored stack intact ?_ image shows) fun value middle after ran same => ?_
    · cases ran : script.run stack with
      | ok value middle =>
        rw [Machine.bind_ok ran] at small
        exact small_of_run small
      | error fault final =>
        rw [Machine.bind_error ran] at small
        exact small
    · rw [ran] at kept
      rw [Machine.bind_ok ran] at small
      exact (rest value).mirrored middle kept small after same

theorem intact_of_meets {script : Script ω α}
    (meets : ∀ stack : OperandStack ω, stack.Intact →
      script.Meets Access.Honest stack (Good fun _ final => final.Intact)) :
    ∀ stack : OperandStack ω, stack.Intact → Good (fun _ final => final.Intact) (script.run stack) :=
  fun stack intact => (meets_iff.mp (meets stack intact)).2

theorem mirrors_pushScalar (kind : Scalar) (value : Cell kind) :
    Mirrors (push kind value : Script ω Unit) (Image.push kind value) := by
  refine ⟨intact_of_meets fun _ => meets_pushScalar kind value, ?_⟩
  intro stack intact small image shows
  obtain ⟨known, confirms, rfl⟩ := shows
  rw [run_push] at small ⊢
  rw [OperandStack.pushCell_eq] at small ⊢
  simp only [Image.push, OperandStack.length_words]
  change Mirrored _ (if stack.offset + _ ≤ stack.capacity then _ else _)
  split
  · rename_i room
    exact ⟨_, rfl, _, OperandStack.confirms_putScalar intact.sound room confirms,
      OperandStack.image_pushScalar intact.sound room⟩
  · exact ⟨stack, rfl⟩

theorem mirrors_readScalar (kind : Scalar) (slot : Nat) :
    Mirrors (read kind slot : Script ω _) (Image.read kind slot) := by
  refine ⟨intact_of_meets fun _ => meets_operation (.read kind slot), ?_⟩
  intro stack intact small image shows
  obtain ⟨known, confirms, rfl⟩ := shows
  rw [run_read]
  simp only [Image.read, OperandStack.length_words, StackM.readCell, OperandStack.cellAt]
  by_cases low : stack.offset < slot + (Ty.scalar kind).words
  · rw [if_pos low, if_pos low]
    exact ⟨stack, rfl⟩
  · rw [if_neg low, if_neg low]
    have shown := OperandStack.valueAt_scalar confirms (Nat.le_of_not_lt low)
    cases decoded : (stack.image known).valueAt (.scalar kind) slot with
    | ok value =>
      rw [decoded] at shown
      obtain ⟨checked, rfl⟩ := shown
      rw [checked]
      exact ⟨stack, rfl, known, confirms, rfl⟩
    | error trouble =>
      rw [decoded] at shown
      cases trouble with
      | torn => exact trivial
      | fault fault =>
        change stack.tags.check slot kind = .error fault at shown
        rw [shown]
        exact ⟨stack, rfl⟩

theorem mirrors_writeScalar (kind : Scalar) (slot : Nat) (value : Cell kind) :
    Mirrors (write kind slot value : Script ω Unit) (Image.write kind slot value) := by
  refine ⟨intact_of_meets fun _ => meets_writeScalar kind slot value, ?_⟩
  intro stack intact small image shows
  obtain ⟨known, confirms, rfl⟩ := shows
  rw [run_write, OperandStack.writeCell_eq]
  simp only [Image.write, OperandStack.length_words]
  split
  · exact ⟨stack, rfl⟩
  · rename_i live
    have inside := Nat.le_of_not_lt live
    have room := Nat.le_trans inside intact.sound.offset_le
    exact ⟨_, rfl, _, OperandStack.confirms_putScalar intact.sound room confirms,
      OperandStack.image_writeScalar intact.sound inside⟩

theorem mirrors_popScalar (kind : Scalar) : Mirrors (pop kind : Script ω _) (Image.pop kind) := by
  refine ⟨intact_of_meets fun _ => meets_popScalar kind, ?_⟩
  intro stack intact small image shows
  obtain ⟨known, confirms, rfl⟩ := shows
  rw [run_pop]
  simp only [StackM.popCell]
  by_cases low : stack.offset < (Ty.scalar kind).words
  · have missing : Image.take (.scalar kind) (stack.image known) =
        .error (.fault .stackUnderflow) (stack.image known) := by
      simp only [Image.take, OperandStack.length_words, if_pos low]
    rw [Image.pop, Machine.bind_error missing, if_pos low]
    exact ⟨stack, rfl⟩
  · rw [if_neg low]
    have live : stack.offset - (Ty.scalar kind).words + (Ty.scalar kind).words ≤ stack.offset := by omega
    have shown := OperandStack.valueAt_scalar confirms live
    cases decoded : (stack.image known).valueAt (.scalar kind) (stack.offset - (Ty.scalar kind).words) with
    | ok value =>
      rw [decoded] at shown
      obtain ⟨checked, same⟩ := shown
      have taken : Image.take (.scalar kind) (stack.image known) = .ok value
          { stack.image known with
            words := (stack.image known).words.take (stack.offset - (Ty.scalar kind).words) } := by
        simp only [Image.take, OperandStack.length_words, if_neg low, decoded]
      rw [Image.pop, Machine.bind_ok taken, checked, same]
      exact ⟨_, rfl, known, confirms, OperandStack.image_setOffset known (Nat.sub_le ..)⟩
    | error trouble =>
      rw [decoded] at shown
      have missing : Image.take (.scalar kind) (stack.image known) = .error trouble (stack.image known) := by
        simp only [Image.take, OperandStack.length_words, if_neg low, decoded]
      rw [Image.pop, Machine.bind_error missing]
      cases trouble with
      | torn => exact trivial
      | fault fault =>
        change stack.tags.check (stack.offset - (Ty.scalar kind).words) kind = .error fault at shown
        rw [shown]
        exact ⟨stack, rfl⟩

/-- An image of the words that `owner` picks out. The other words may have lost their meaning. -/
structure Shows (stack : OperandStack ω) (owner : Nat → Prop) (image : Image ω) : Prop where
  capacity_eq : image.capacity = stack.capacity
  live_eq : image.live = stack.handles.live
  length_eq : image.words.length = stack.offset
  entries : ∀ slot < stack.offset, owner slot → image.words[slot]? = some (stack.word slot)

theorem shows_image (stack : OperandStack ω) (known : Known) (owner : Nat → Prop) :
    Shows stack owner (stack.image known) where
  capacity_eq := rfl
  live_eq := rfl
  length_eq := stack.length_words known
  entries slot live _ := (stack.getElem?_words known slot).trans (if_pos live)

/-- A reference whose word is shown can be read from both. -/
theorem Shows.read {stack : OperandStack ω} {owner : Nat → Prop} {image : Image ω} (shows : Shows stack owner image)
    {slot : Nat} (inside : owner slot) :
    match Image.read .object slot image with
    | .ok object after => after = image ∧ stack.cellAt .object slot = .ok (stack.handleAt slot) ∧
        slot < stack.offset ∧ stack.tags.get slot = some .object ∧ object = stack.objectAt slot
    | .error (.fault fault) _ => stack.cellAt .object slot = .error fault
    | .error .torn _ => False := by
  have one : Ty.object.words = 1 := rfl
  simp only [Image.read, shows.length_eq, OperandStack.cellAt, one]
  by_cases low : stack.offset < slot + 1
  · rw [if_pos low, if_pos low]
  · rw [if_neg low, if_neg low]
    have shown := OperandStack.valueAt_object (shows.entries slot (by omega) inside)
    cases decoded : image.valueAt .object slot with
    | ok object =>
      rw [decoded] at shown
      obtain ⟨checked, rfl⟩ := shown
      rw [checked]
      refine ⟨rfl, congrArg Except.ok (Bytes.ofBits_load ..), by omega, ?_, rfl⟩
      unfold Tags.check at checked
      split at checked
      · assumption
      · cases checked
    | error trouble =>
      rw [decoded] at shown
      cases trouble with
      | torn => exact shown
      | fault fault =>
        change stack.tags.check slot .object = .error fault at shown
        rw [shown]

theorem mirror_readHandle (stack : OperandStack ω) (known : Known) (slot : Nat) :
    match Image.read .object slot (stack.image known) with
    | .ok object after => after = stack.image known ∧ stack.cellAt .object slot = .ok (stack.handleAt slot) ∧
        slot < stack.offset ∧ stack.tags.get slot = some .object ∧ object = stack.objectAt slot
    | .error (.fault fault) _ => stack.cellAt .object slot = .error fault
    | .error .torn _ => False :=
  (shows_image stack known fun _ => True).read trivial

/-- A reference that is taken from the stack is held with its object. -/
theorem mirror_popHandle (stack : OperandStack ω) (known : Known) :
    match Image.take .object (stack.image known) with
    | .ok object image => 0 < stack.offset ∧ stack.tags.get (stack.offset - 1) = some .object ∧
        object = stack.objectAt (stack.offset - 1) ∧
        image = { stack.image known with words := (stack.image known).words.take (stack.offset - 1) } ∧
        StackM.popCell .object stack = .ok (stack.handleAt (stack.offset - 1)) { stack with offset := stack.offset - 1 }
    | .error (.fault fault) _ => StackM.popCell .object stack = .error fault stack
    | .error .torn _ => False := by
  have one : Ty.object.words = 1 := rfl
  rw [OperandStack.popHandle_eq]
  simp only [Image.take, OperandStack.length_words, one]
  by_cases low : stack.offset < 1
  · rw [if_pos low, if_pos low]
  · rw [if_neg low, if_neg low]
    have shown := OperandStack.valueAt_object
      ((OperandStack.getElem?_words stack known (stack.offset - 1)).trans (if_pos (by omega)))
    cases decoded : (stack.image known).valueAt .object (stack.offset - 1) with
    | ok object =>
      rw [decoded] at shown
      obtain ⟨checked, rfl⟩ := shown
      rw [checked]
      refine ⟨by omega, ?_, rfl, rfl, rfl⟩
      unfold Tags.check at checked
      split at checked
      · assumption
      · cases checked
    | error trouble =>
      rw [decoded] at shown
      cases trouble with
      | torn => exact shown
      | fault fault =>
        change stack.tags.check (stack.offset - 1) .object = .error fault at shown
        rw [shown]

/-- A handle that is taken back hands its object over and disappears from the image. -/
theorem mirror_release {stack : OperandStack ω} {owner : Nat → Prop} {held : Handle} (keeps : stack.Keeps owner held)
    (known : Known) (small : stack.handles.Small) (all : ∀ slot < stack.offset, owner slot) :
    ∃ next, StackM.release held stack = .ok (stack.handles.object held) { stack with handles := next } ∧
      OperandStack.image { stack with handles := next } known =
        { stack.image known with
          live := stack.handles.live - Operand.handles .object (stack.handles.object held) } := by
  have owns := keeps.owns small
  obtain ⟨object, next, got, released⟩ := owns.held_refers.release
  refine ⟨next, ?_, ?_⟩
  · simp only [StackM.release, released, HandleTable.object_of_get got]
  · rw [HandleTable.object_of_get got, ← HandleTable.live_release released]
    refine OperandStack.image_handles fun slot live tag => ?_
    exact HandleTable.get_release released (owns.held_apart slot ⟨all slot live, tag⟩)

/-- A handle that is issued refers to its object and changes nothing else in the image. -/
theorem mirror_alloc {stack : OperandStack ω} {owner : Nat → Prop} {object : ω} (known : Known)
    (keeps : stack.Keeps owner Handle.null) (small : (stack.handles.alloc object).2.Small)
    (all : ∀ slot < stack.offset, owner slot) :
    (stack.handles.alloc object).2.object (stack.handles.alloc object).1 = some object ∧
      OperandStack.image { stack with handles := (stack.handles.alloc object).2 } known =
        { stack.image known with live := stack.handles.live + 1 } := by
  have before : stack.handles.Small := Nat.lt_of_le_of_lt (stack.handles.size_le_alloc object) small
  have owns := keeps.owns before
  obtain ⟨⟨index, issued⟩, _, _⟩ := keeps.consistent.locate?_alloc small
  refine ⟨HandleTable.object_of_get (HandleTable.get_of_locate? issued), ?_⟩
  rw [← HandleTable.live_alloc stack.handles object]
  refine OperandStack.image_handles fun slot live tag => ?_
  exact (owns.refers slot ⟨all slot live, tag⟩).get_alloc keeps.consistent small

/-- A held handle that is pushed shows its object in the image. -/
theorem mirror_pushHandle {stack : OperandStack ω} {held : Handle} {object : Option ω} {live : Nat} {known : Known}
    (sound : stack.Sound) (confirms : stack.memory.Confirms known) (shown : stack.handles.object held = object)
    (missing : object = none → held = Handle.null)
    (counted : stack.handles.live = live + Operand.handles .object object) :
    Mirrored (StackM.pushCell .object held stack)
      (Image.push .object object { stack.image known with live := live }) := by
  rw [OperandStack.pushHandle_eq]
  simp only [Image.push, OperandStack.length_words]
  change Mirrored _ (if stack.offset + 1 ≤ stack.capacity then _ else _)
  by_cases room : stack.offset + 1 ≤ stack.capacity
  · have inside : stack.offset < stack.capacity := room
    rw [if_pos room, if_pos inside]
    refine ⟨_, rfl, known.put stack.offset .object object, ?_, ?_⟩
    · dsimp only
      exact OperandStack.confirms_putHandle sound inside missing confirms
    · rw [OperandStack.image_pushHandle sound inside, shown, ← counted]
      rfl
  · have full : ¬ stack.offset < stack.capacity := room
    rw [if_neg room, if_neg full]
    exact ⟨stack, rfl⟩

theorem mirrors_pushOperand (ty : Ty) (value : Operand ω ty) :
    Mirrors (pushOperand ty value) (Image.push ty value) := by
  cases ty with
  | scalar kind => exact mirrors_pushScalar kind value
  | object =>
    refine ⟨intact_of_meets fun _ => meets_pushOperand .object value, ?_⟩
    intro stack intact small image shows
    obtain ⟨known, confirms, rfl⟩ := shows
    rw [run_pushOperand] at small ⊢
    change Mirrored (StackM.pushObject value stack) _
    change (finalState (StackM.pushObject value stack)).handles.Small at small
    unfold StackM.pushObject at small ⊢
    by_cases room : stack.offset + OperandStack.handleWords ≤ stack.capacity
    · have needed : (StackM.needRoom OperandStack.handleWords stack : EStateM.Result _ _ _) = .ok () stack :=
        if_pos room
      rw [Machine.bind_ok needed] at small ⊢
      cases value with
      | none =>
        exact mirror_pushHandle intact.sound confirms stack.handles.object_null (fun _ => rfl) rfl
      | some object =>
        have issued : StackM.handleFor (some object) stack =
            .ok (stack.handles.alloc object).1 { stack with handles := (stack.handles.alloc object).2 } := rfl
        rw [Machine.bind_ok issued] at small ⊢
        have kept := OperandStack.Keeps.alloc intact object
        have allocated : (stack.handles.alloc object).2.Small :=
          Access.small_of_perform (.push .object (stack.handles.alloc object).1) small
        obtain ⟨shown, pictured⟩ := mirror_alloc known intact allocated fun _ live => live
        have counted : (stack.handles.alloc object).2.live = stack.handles.live + 1 := HandleTable.live_alloc ..
        have pushed := mirror_pushHandle kept.sound confirms shown nofun counted
        rw [pictured] at pushed
        exact pushed
    · have refused : (StackM.needRoom OperandStack.handleWords stack : EStateM.Result _ _ _) =
          .error .stackOverflow stack := if_neg room
      rw [Machine.bind_error refused]
      have full : Image.push .object value (stack.image known) =
          .error (.fault .stackOverflow) (stack.image known) := by
        simp only [Image.push, OperandStack.length_words]
        exact if_neg room
      rw [full]
      exact ⟨stack, rfl⟩

/-- The handle on top belongs to nothing else. -/
theorem keeps_popped {stack : OperandStack ω} (intact : stack.Intact) (positive : 0 < stack.offset)
    (tag : stack.tags.get (stack.offset - 1) = some .object) :
    OperandStack.Keeps { stack with offset := stack.offset - 1 } (fun slot => slot < stack.offset - 1)
      (stack.handleAt (stack.offset - 1)) := by
  have bound := intact.sound.offset_le
  have top : stack.offset - 1 < stack.offset := by omega
  have taken := OperandStack.Keeps.take intact ⟨top, tag⟩
  have lower : stack.Keeps (fun slot => slot < stack.offset - 1) (stack.handleAt (stack.offset - 1)) :=
    taken.mono fun slot inside => ⟨Nat.lt_trans inside top, by omega⟩
  exact lower.setOffset (by omega)

theorem mirrors_popOperand (ty : Ty) : Mirrors (popOperand ty : Script ω _) (Image.pop ty) := by
  cases ty with
  | scalar kind => exact mirrors_popScalar kind
  | object =>
    refine ⟨intact_of_meets fun _ => meets_popOperand .object, ?_⟩
    intro stack intact small image shows
    obtain ⟨known, confirms, rfl⟩ := shows
    rw [run_popOperand] at small ⊢
    change Mirrored (StackM.popObject stack) _
    change (finalState (StackM.popObject stack)).handles.Small at small
    unfold StackM.popObject at small ⊢
    have shown := mirror_popHandle stack known
    cases taken : Image.take .object (stack.image known) with
    | error trouble image =>
      rw [taken] at shown
      rw [Image.pop, Machine.bind_error taken]
      cases trouble with
      | torn => exact shown.elim
      | fault fault =>
        rw [Machine.bind_error shown]
        exact ⟨stack, rfl⟩
    | ok object image =>
      rw [taken] at shown
      obtain ⟨positive, tag, rfl, rfl, popped⟩ := shown
      rw [Machine.bind_ok popped] at small ⊢
      have before := Access.small_of_perform (.release _) small
      obtain ⟨next, released, pictured⟩ :=
        mirror_release (keeps_popped intact positive tag) known before fun _ live => live
      rw [Image.pop, Machine.bind_ok taken, released]
      refine ⟨_, rfl, known, confirms, pictured.trans ?_⟩
      rw [OperandStack.image_setOffset known (Nat.sub_le ..)]
      rfl

theorem mirrors_pushResult (result : Option Ty) (value : Result ω result) :
    Mirrors (pushResult result value) (Image.pushResult result value) := by
  cases result with
  | none => exact mirrors_pure ()
  | some ty => exact mirrors_pushOperand ty value

theorem mirrors_popResult (result : Option Ty) : Mirrors (popResult result : Script ω _) (Image.popResult result) := by
  cases result with
  | none => exact mirrors_pure ()
  | some ty => exact mirrors_popOperand ty

theorem mirrors_pushAll (arguments : List (Argument ω)) : Mirrors (pushAll arguments) (Image.pushAll arguments) := by
  induction arguments with
  | nil => exact mirrors_pure ()
  | cons argument rest ih => exact (mirrors_pushOperand argument.ty argument.value).bind fun _ => ih

theorem mirrors_popAll (types : List Ty) : Mirrors (popAll types : Script ω _) (Image.popAll types) := by
  induction types with
  | nil => exact mirrors_pure ()
  | cons ty rest ih =>
    exact ih.bind fun values => (mirrors_popOperand ty).bind fun value => mirrors_pure (value, values)

theorem mirrors_pushConstant (constants : ConstantPool ω) (ty : Ty) (position : Position) :
    Mirrors (pushConstant constants ty position) (Image.pushConstant constants ty position) := by
  unfold pushConstant Image.pushConstant
  cases constants.readOperand position ty with
  | ok value => exact mirrors_pushOperand ty value
  | error error => exact mirrors_fail trivial

theorem mirrors_addTop (ty : Ty) : Mirrors (addTop ty : Script ω Unit) (Image.addTop ty) := by
  cases ty with
  | object => exact mirrors_fail trivial
  | scalar kind =>
    simp only [addTop, Image.addTop]
    cases kind.sum? with
    | none => exact mirrors_fail trivial
    | some sum =>
      refine (mirrors_popScalar kind).bind fun b => (mirrors_popScalar kind).bind fun a => ?_
      cases sum a b with
      | none => exact mirrors_fail trivial
      | some total => exact mirrors_pushScalar kind total

/-- A copied handle is pushed, or taken back without leaving a trace. -/
theorem mirror_pushOwned {stack : OperandStack ω} {held : Handle} {object : Option ω} {live : Nat} {known : Known}
    (keeps : stack.Keeps stack.Live held) (small : (finalState ((pushOwned held).run stack)).handles.Small)
    (confirms : stack.memory.Confirms known) (shown : stack.handles.object held = object)
    (counted : stack.handles.live = live + Operand.handles .object object) :
    Mirrored ((pushOwned held).run stack) (Image.push .object object { stack.image known with live := live }) := by
  have before := small_of_run small
  have missing : object = none → held = Handle.null := fun none_there =>
    (keeps.owns before).held_refers.eq_null (shown.trans none_there)
  have pushed := mirror_pushHandle keeps.sound confirms shown missing counted
  simp only [pushOwned, run, Access.perform]
  cases ran : StackM.pushCell .object held stack with
  | ok value final =>
    rw [ran] at pushed
    exact pushed
  | error fault final =>
    rw [ran] at pushed
    rw [OperandStack.pushHandle_eq] at ran
    split at ran
    · cases ran
    · cases ran
      obtain ⟨next, released, _⟩ := mirror_release keeps known before fun _ inside => inside
      have returned : (returning held .stackOverflow : Script ω Unit).run stack =
          .error .stackOverflow { stack with handles := next } := by
        simp only [returning, run_bind, run_release]
        rw [Machine.bind_ok released]
        rfl
      change Mirrored ((returning held .stackOverflow : Script ω Unit).run stack) _
      rw [returned]
      cases outcome : Image.push .object object { stack.image known with live := live } with
      | ok _ image =>
        rw [outcome] at pushed
        obtain ⟨last, same, _⟩ := pushed
        cases same
      | error trouble image =>
        rw [outcome] at pushed
        cases trouble with
        | torn => exact trivial
        | fault other =>
          obtain ⟨last, same⟩ := pushed
          cases same
          exact ⟨_, rfl⟩

theorem mirrors_loadLocal (ty : Ty) (slot : Nat) :
    Mirrors (loadLocal ty slot : Script ω Unit) (Image.loadLocal ty slot) := by
  cases ty with
  | scalar kind => exact (mirrors_readScalar kind slot).bind fun value => mirrors_pushScalar kind value
  | object =>
    refine ⟨intact_of_meets fun _ => meets_loadLocal .object slot, ?_⟩
    intro stack intact small image shows
    obtain ⟨known, confirms, rfl⟩ := shows
    have before := small_of_run small
    simp only [loadLocal, loadObject, run_bind, run_read] at small ⊢
    have shown := mirror_readHandle stack known slot
    cases taken : Image.read .object slot (stack.image known) with
    | error trouble image =>
      rw [taken] at shown
      rw [Image.loadLocal, Machine.bind_error taken]
      cases trouble with
      | torn => exact shown.elim
      | fault fault =>
        have failed : (StackM.readCell .object slot stack : EStateM.Result _ _ _) = .error fault stack := by
          simp only [StackM.readCell, shown]
        rw [Machine.bind_error failed]
        exact ⟨stack, rfl⟩
    | ok object image =>
      rw [taken] at shown
      obtain ⟨rfl, found, live, tag, rfl⟩ := shown
      have reading : (StackM.readCell .object slot stack : EStateM.Result _ _ _) =
          .ok (stack.handleAt slot) stack := by
        simp only [StackM.readCell, found]
      rw [Image.loadLocal, Machine.bind_ok taken]
      rw [Machine.bind_ok reading] at small ⊢
      obtain ⟨object, got⟩ := (intact.owns before).refers slot ⟨live, tag⟩
      have same : stack.objectAt slot = object := HandleTable.object_of_get got
      rw [same]
      cases object with
      | none =>
        have copied : (duplicate (stack.handleAt slot) : Script ω _).run stack = .ok Handle.null stack := by
          rw [run_duplicate]
          simp only [StackM.duplicate, HandleTable.duplicate, got]
        rw [Machine.bind_ok copied] at small ⊢
        exact mirror_pushOwned intact small confirms stack.handles.object_null rfl
      | some object =>
        have copied : (duplicate (stack.handleAt slot) : Script ω _).run stack =
            .ok (stack.handles.alloc object).1 { stack with handles := (stack.handles.alloc object).2 } := by
          rw [run_duplicate]
          simp only [StackM.duplicate, HandleTable.duplicate, got]
        rw [Machine.bind_ok copied] at small ⊢
        have allocated : (stack.handles.alloc object).2.Small := small_of_run small
        obtain ⟨shown, pictured⟩ := mirror_alloc known intact allocated fun _ inside => inside
        have pushed := mirror_pushOwned (OperandStack.Keeps.alloc intact object) small confirms shown
          (HandleTable.live_alloc stack.handles object)
        rw [pictured] at pushed
        exact pushed

/-- A held handle is taken back when the reference that it should replace is missing. -/
theorem run_replacedHandle_error {stack : OperandStack ω} {held : Handle} {slot : Nat} {fault : Fault}
    (keeps : stack.Keeps stack.Live held) (small : stack.handles.Small)
    (missing : stack.cellAt .object slot = .error fault) :
    ∃ final, (replacedHandle held slot).run stack = .error fault final := by
  obtain ⟨next, released, _⟩ := mirror_release keeps .nothing small fun _ inside => inside
  refine ⟨{ stack with handles := next }, ?_⟩
  simp only [replacedHandle, run, Access.perform, StackM.readCell, missing]
  simp only [returning, run_bind, run_release]
  rw [Machine.bind_ok released]
  rfl

/-- A held handle takes the place of another, which is taken back. -/
theorem mirror_replace {stack : OperandStack ω} {held : Handle} {slot : Nat} {known : Known}
    (keeps : stack.Keeps stack.Live held) (small : stack.handles.Small) (confirms : stack.memory.Confirms known)
    (live : slot < stack.offset) (tag : stack.tags.get slot = some .object) :
    Mirrored
      (((write .object slot held).run >>= fun _ => (release (stack.handleAt slot)).run >>= fun _ =>
        (pure () : Script ω Unit).run) stack)
      ((Image.write .object slot (stack.handles.object held) >>= fun _ =>
        Image.release .object (stack.objectAt slot)) (stack.image known)) := by
  have bound := keeps.sound.offset_le
  have one : Ty.object.words = 1 := rfl
  have written : (write .object slot held).run stack = .ok () (stack.putHandle slot held) := by
    refine (congrFun (run_write .object slot held) stack).trans ?_
    rw [OperandStack.writeHandle_eq, if_neg (by omega)]
  have pictured : Image.write .object slot (stack.handles.object held) (stack.image known) =
      .ok () ((stack.putHandle slot held).image (known.put slot .object (stack.handles.object held))) := by
    simp only [Image.write, OperandStack.length_words]
    rw [if_neg (by omega), OperandStack.image_writeHandle keeps.sound live]
    rfl
  have small' : (stack.putHandle slot held).handles.Small := by
    rw [OperandStack.handles_putHandle]
    exact small
  obtain ⟨next, released, forgotten⟩ := mirror_release (keeps.swap (by omega) ⟨live, tag⟩)
    (known.put slot .object (stack.handles.object held)) small' (by
    intro place inside
    rw [OperandStack.offset_putHandle] at inside
    exact inside)
  rw [Machine.bind_ok written, run_release, Machine.bind_ok released, Machine.bind_ok pictured]
  refine ⟨_, rfl, known.put slot .object (stack.handles.object held), ?_, ?_⟩
  · dsimp only
    exact OperandStack.confirms_putHandle keeps.sound (Nat.lt_of_lt_of_le live bound)
      (keeps.owns small).held_refers.eq_null confirms
  · rw [forgotten, OperandStack.handles_putHandle]
    rfl

theorem mirrors_storeLocal (ty : Ty) (slot : Nat) :
    Mirrors (storeLocal ty slot : Script ω Unit) (Image.storeLocal ty slot) := by
  cases ty with
  | scalar kind => exact (mirrors_popScalar kind).bind fun value => mirrors_writeScalar kind slot value
  | object =>
    refine ⟨intact_of_meets fun _ => meets_storeLocal .object slot, ?_⟩
    intro stack intact small image shows
    obtain ⟨known, confirms, rfl⟩ := shows
    have before := small_of_run small
    simp only [storeLocal, storeObject, run_bind, run_pop] at small ⊢
    have shown := mirror_popHandle stack known
    cases taken : Image.take .object (stack.image known) with
    | error trouble image =>
      rw [taken] at shown
      rw [Image.storeLocal, Machine.bind_error taken]
      cases trouble with
      | torn => exact shown.elim
      | fault fault =>
        rw [Machine.bind_error shown]
        exact ⟨stack, rfl⟩
    | ok object image =>
      rw [taken] at shown
      obtain ⟨positive, tag, rfl, rfl, popped⟩ := shown
      have keeps := keeps_popped intact positive tag
      have same := OperandStack.image_setOffset known (Nat.sub_le stack.offset 1)
      rw [Image.storeLocal, Machine.bind_ok taken, ← same]
      rw [Machine.bind_ok popped] at small ⊢
      have found := mirror_readHandle { stack with offset := stack.offset - 1 } known slot
      cases read : Image.read .object slot (OperandStack.image { stack with offset := stack.offset - 1 } known) with
      | error trouble image =>
        rw [read] at found
        rw [Machine.bind_error read]
        cases trouble with
        | torn => exact found.elim
        | fault fault =>
          obtain ⟨final, failed⟩ := run_replacedHandle_error keeps before found
          rw [Machine.bind_error failed]
          exact ⟨final, rfl⟩
      | ok previous image =>
        rw [read] at found
        obtain ⟨rfl, present, live, slotTag, rfl⟩ := found
        have replaced : (replacedHandle (stack.handleAt (stack.offset - 1)) slot).run
            { stack with offset := stack.offset - 1 } =
            .ok (stack.handleAt slot) { stack with offset := stack.offset - 1 } := by
          simp only [replacedHandle, run, Access.perform, StackM.readCell, present]
          rfl
        rw [Machine.bind_ok read, Machine.bind_ok replaced]
        exact mirror_replace keeps before confirms live slotTag

/-- What a stack and its image have in common while arguments are released. -/
structure Released (before final : OperandStack ω) (base upTo : Nat) (image after : Image ω) : Prop where
  table : final = { before with handles := final.handles }
  keeps : final.Keeps (fun slot => slot < before.offset ∧ ¬(base ≤ slot ∧ slot < base + upTo)) Handle.null
  shows : Shows final (fun slot => ¬(base ≤ slot ∧ slot < base + upTo)) after
  words : after.words = image.words
  known : after.known = image.known

/-- What comes of releasing arguments on a stack and on its image. -/
def Releasing (before : OperandStack ω) (base upTo : Nat) (image : Image ω)
    (outcome : EStateM.Result Fault (OperandStack ω) Unit) : EStateM.Result Trouble (Image ω) Unit → Prop
  | .ok _ after => ∃ final, outcome = .ok () final ∧ Released before final base upTo image after
  | .error (.fault fault) _ => ∃ final, outcome = .error fault final
  | .error .torn _ => False

theorem mirror_releaseArguments (base start : Nat) (types : List Ty) {stack : OperandStack ω} {image : Image ω}
    (keeps : stack.Keeps (fun slot => slot < stack.offset ∧ ¬(base ≤ slot ∧ slot < base + start)) Handle.null)
    (shows : Shows stack (fun slot => ¬(base ≤ slot ∧ slot < base + start)) image)
    (small : (finalState ((releaseArguments base (slotsFrom start types)).run stack)).handles.Small) :
    Releasing stack base (start + totalWords types) image ((releaseArguments base (slotsFrom start types)).run stack)
      (Image.releaseArguments base (slotsFrom start types) image) := by
  induction types generalizing stack start image with
  | nil => exact ⟨stack, rfl, rfl, keeps, shows, rfl, rfl⟩
  | cons ty rest ih =>
    have positive := ty.words_pos
    simp only [slotsFrom, totalWords, ← Nat.add_assoc] at small ⊢
    cases ty with
    | scalar kind =>
      refine ih (start + (Ty.scalar kind).words) ?_ ?_ small
      · exact keeps.mono fun slot inside => ⟨inside.1, by omega⟩
      · exact ⟨shows.capacity_eq, shows.live_eq, shows.length_eq, fun slot live inside =>
          shows.entries slot live (by omega)⟩
    | object =>
      have before := small_of_run small
      simp only [releaseArguments, Image.releaseArguments, run_bind, run_read] at small ⊢
      have unreleased : ¬(base ≤ base + start ∧ base + start < base + start) := fun inside => Nat.lt_irrefl _ inside.2
      have found := shows.read unreleased
      cases read : Image.read .object (base + start) image with
      | error trouble after =>
        rw [read] at found
        rw [Machine.bind_error read]
        cases trouble with
        | torn => exact found
        | fault fault =>
          have failed : (StackM.readCell .object (base + start) stack : EStateM.Result _ _ _) =
              .error fault stack := by
            simp only [StackM.readCell, found]
          exact ⟨stack, Machine.bind_error failed⟩
      | ok object after =>
        rw [read] at found
        obtain ⟨rfl, present, live, tag, rfl⟩ := found
        have reading : (StackM.readCell .object (base + start) stack : EStateM.Result _ _ _) =
            .ok (stack.handleAt (base + start)) stack := by
          simp only [StackM.readCell, present]
        have taken := keeps.take ⟨⟨live, unreleased⟩, tag⟩
        have owns := taken.owns before
        obtain ⟨object, next, got, released⟩ := owns.held_refers.release
        have releasing : (release (stack.handleAt (base + start))).run stack =
            .ok object { stack with handles := next } := by
          rw [run_release]
          simp only [StackM.release, released]
        have forgotten : Image.release .object (stack.objectAt (base + start)) after =
            .ok () { after with live := next.live } := by
          rw [HandleTable.live_release released, ← shows.live_eq, ← HandleTable.object_of_get got]
          rfl
        rw [Machine.bind_ok read, Machine.bind_ok forgotten]
        rw [Machine.bind_ok reading, Machine.bind_ok releasing] at small ⊢
        have keeps' : OperandStack.Keeps { stack with handles := next }
            (fun slot => slot < stack.offset ∧ ¬(base ≤ slot ∧ slot < base + (start + Ty.object.words)))
            Handle.null := by
          refine (taken.release released).mono fun slot inside => ⟨⟨inside.1, by omega⟩, ?_⟩
          have one : Ty.object.words = 1 := rfl
          omega
        have shows' : Shows { stack with handles := next }
            (fun slot => ¬(base ≤ slot ∧ slot < base + (start + Ty.object.words)))
            { after with live := next.live } := by
          refine ⟨shows.capacity_eq, rfl, shows.length_eq, fun slot inStack inside => ?_⟩
          have one : Ty.object.words = 1 := rfl
          have owned : ¬(base ≤ slot ∧ slot < base + start) := by omega
          have entry := shows.entries slot inStack owned
          rw [OperandStack.word_handles fun slotTag => HandleTable.get_release released
            (owns.held_apart slot ⟨⟨⟨inStack, owned⟩, by omega⟩, slotTag⟩)]
          exact entry
        have later := ih (start + Ty.object.words) keeps' shows' small
        cases outcome : Image.releaseArguments base (slotsFrom (start + Ty.object.words) rest)
            { after with live := next.live } with
        | ok _ last =>
          rw [outcome] at later
          obtain ⟨final, ran, table, kept, shown, words, known⟩ := later
          exact ⟨final, ran, table, kept, shown, words, known⟩
        | error trouble last =>
          rw [outcome] at later
          cases trouble with
          | torn => exact later
          | fault fault => exact later

end Script

namespace Script

variable {H : Type}

/-- Once the arguments are released, the words outside them are what they were, and can be moved down. -/
theorem shown_of_released {stack released : OperandStack (Object H)} {base arguments words : Nat} {known : Known}
    {after : Image (Object H)} (full : stack.offset = base + arguments + words)
    (confirms : stack.memory.Confirms known) (done : Released stack released base arguments (stack.image known) after) :
    (released.moved (base + arguments) base words).Shown
      { after with
        words := after.words.take base ++ after.words.drop (base + arguments)
        known := after.known.copy ((base + arguments) * wordSize) (base * wordSize) (words * wordSize) } := by
  obtain ⟨table, keeps, shows, same, unchanged⟩ := done
  have offset : released.offset = stack.offset := by
    rw [table]
  have confirmed : released.memory.Confirms after.known := by
    rw [table, unchanged]
    exact confirms
  have kept : ∀ slot < stack.offset, ¬(base ≤ slot ∧ slot < base + arguments) →
      released.word slot = stack.word slot := by
    intro slot live outside
    have entry := shows.entries slot (by omega) outside
    rw [same, OperandStack.getElem?_words, if_pos live, Option.some.injEq] at entry
    exact entry.symm
  have below : (List.range base).map released.word = after.words.take base := by
    rw [same, OperandStack.take_words (by omega)]
    refine List.map_congr_left fun slot member => ?_
    have inside := List.mem_range.mp member
    exact kept slot (by omega) (by omega)
  have above : (List.range words).map (fun k => released.word (base + arguments + k)) =
      after.words.drop (base + arguments) := by
    rw [same, OperandStack.drop_words_eq full]
    refine List.map_congr_left fun k member => ?_
    have inside := List.mem_range.mp member
    exact kept _ (by omega) (by omega)
  refine ⟨_, OperandStack.confirms_moved keeps.sound (Nat.le_add_right ..) (by omega) confirmed, ?_⟩
  rw [← below, ← above, ← OperandStack.words_moved .nothing keeps.sound (Nat.le_add_right ..) (by omega)]
  change Image.mk released.capacity released.handles.live _ _ = _
  rw [← shows.capacity_eq, ← shows.live_eq]
  rfl

theorem mirrors_leave (frame : Frame H) : Mirrors (leave frame) (Image.leave frame) := by
  refine ⟨intact_of_meets fun _ => meets_leave_owned frame, ?_⟩
  intro stack intact small image shows
  obtain ⟨known, confirms, rfl⟩ := shows
  rw [run_leave] at small ⊢
  unfold Machine.leaveEffect at small ⊢
  unfold Image.leave
  cases checked : Machine.checkReturn frame.routine.signature frame.base stack with
  | error fault final =>
    have shown : Image.checkReturn frame.routine.signature frame.base (stack.image known) =
        .error (.fault fault) (stack.image known) := by
      simp only [Machine.checkReturn] at checked
      simp only [Image.checkReturn, OperandStack.length_words]
      split at checked
      · rename_i low
        cases checked
        rw [if_pos low]
      · rename_i low
        split at checked
        · rename_i high
          cases checked
          rw [if_neg low, if_pos high]
        · cases checked
    rw [Machine.bind_error checked, Machine.bind_error shown]
    exact ⟨final, rfl⟩
  | ok _ final =>
    obtain ⟨rfl, full⟩ := Machine.checkReturn_eq_ok checked
    have shown : Image.checkReturn frame.routine.signature frame.base (final.image known) =
        .ok () (final.image known) := by
      simp only [Image.checkReturn, OperandStack.length_words]
      rw [if_neg (by omega), if_neg (by omega)]
    rw [Machine.bind_ok checked] at small ⊢
    rw [Machine.bind_ok shown]
    have all : final.Keeps
        (fun slot => slot < final.offset ∧ ¬(frame.base ≤ slot ∧ slot < frame.base + 0)) Handle.null :=
      intact.mono fun slot inside => inside.1
    have mirrored := mirror_releaseArguments frame.base 0 frame.routine.signature.types all (shows_image final known _)
    rw [run_releaseArguments, Nat.zero_add, totalWords_types] at mirrored
    cases releasing : Machine.releaseArguments frame.base frame.routine.signature.argumentSlots final with
    | error fault last =>
      rw [Machine.bind_error releasing] at small ⊢
      have shown := mirrored (by rw [← Signature.argumentSlots, releasing]; exact small)
      rw [← Signature.argumentSlots, releasing] at shown
      cases outcome : Image.releaseArguments frame.base frame.routine.signature.argumentSlots (final.image known) with
      | ok _ after =>
        rw [outcome] at shown
        obtain ⟨_, same, _⟩ := shown
        cases same
      | error trouble after =>
        rw [outcome] at shown
        rw [Machine.bind_error outcome]
        cases trouble with
        | torn => exact trivial
        | fault other => exact shown
    | ok _ released =>
      rw [Machine.bind_ok releasing] at small ⊢
      have shown := mirrored (by rw [← Signature.argumentSlots, releasing]; exact small)
      rw [← Signature.argumentSlots, releasing] at shown
      cases outcome : Image.releaseArguments frame.base frame.routine.signature.argumentSlots (final.image known) with
      | error trouble after =>
        rw [outcome] at shown
        rw [Machine.bind_error outcome]
        cases trouble with
        | torn => exact trivial
        | fault other =>
          obtain ⟨_, same⟩ := shown
          cases same
      | ok _ after =>
        rw [outcome] at shown
        obtain ⟨last, same, done⟩ := shown
        cases same
        rw [Machine.bind_ok outcome]
        have length : after.words.length - (frame.base + frame.routine.signature.argumentWords) =
            frame.routine.signature.returnWords := by
          rw [done.words, OperandStack.length_words, full]
          omega
        rw [Image.dropArguments, length]
        exact ⟨_, rfl, shown_of_released full confirms done⟩

theorem mirrors_slotUnder (words : Nat) :
    Mirrors (slotUnder words : Script (Object H) Nat) (Image.slotUnder words) := by
  constructor
  · intro stack intact
    rw [run_slotUnder, Machine.slotUnder]
    split
    · exact failed_of_keeps intact trivial
    · exact intact
  · intro stack intact small image shows
    obtain ⟨known, confirms, rfl⟩ := shows
    rw [run_slotUnder]
    simp only [Machine.slotUnder, Image.slotUnder, OperandStack.length_words]
    split
    · exact ⟨stack, rfl⟩
    · exact ⟨stack, rfl, known, confirms, rfl⟩

theorem mirrors_checkExternal (external : External (Object H)) (base : Nat) :
    Mirrors (checkExternal external base) (Image.checkExternal external base) := by
  constructor
  · intro stack intact
    rw [run_checkExternal, Machine.checkExternal]
    split
    · exact intact
    · exact failed_of_keeps intact trivial
  · intro stack intact small image shows
    obtain ⟨known, confirms, rfl⟩ := shows
    rw [run_checkExternal]
    simp only [Machine.checkExternal, Image.checkExternal, OperandStack.length_words]
    split
    · exact ⟨stack, rfl, known, confirms, rfl⟩
    · exact ⟨stack, rfl⟩

theorem mirrors_callCode (adapter : Adapter (Object H)) :
    Mirrors (callCode adapter.code) (Image.callAdapter adapter) := by
  refine (mirrors_slotUnder _).bind fun base => Mirrors.bind ?_ fun _ => mirrors_checkExternal _ base
  exact (mirrors_popAll adapter.parameters).bind fun values => mirrors_pushResult adapter.result (adapter.apply values)

theorem mirrors_enter (routine : Routine (Object H)) : Mirrors (enter routine) (Image.enter routine) := by
  constructor
  · exact intact_of_meets fun _ => meets_enter_owned routine
  · intro stack intact small image shows
    -- describing the arguments changes nothing
    have mirrored : Mirrors (slotUnder routine.signature.argumentWords >>= fun base =>
        pure (FrameChange.push ⟨routine, 0, base⟩) : Script (Object H) (FrameChange H)) (Image.enter routine) :=
      (mirrors_slotUnder _).bind fun base => mirrors_pure _
    have same : (slotUnder routine.signature.argumentWords >>= fun base =>
        pure (FrameChange.push ⟨routine, 0, base⟩) : Script (Object H) (FrameChange H)).run = (enter routine).run := by
      rw [run_enter, run_bind, run_slotUnder]
      rfl
    rw [← same] at small ⊢
    exact mirrored.mirrored stack intact small image shows

/-- An instruction does to a stack what it does to its image. -/
theorem mirrors_effect (adapters : Adapters H) (frame : Frame H) (instruction : Instruction) :
    Mirrors (effect adapters.table frame instruction) (Image.effect adapters frame instruction) := by
  have keeping : ∀ {script : Script (Object H) Unit} {step : ImageM (Object H) Unit}, Mirrors script step →
      Mirrors (keeping script) (Image.keeping step) := fun mirrors =>
        mirrors.bind fun _ => mirrors_pure FrameChange.keep
  cases instruction with
  | constant ty position => exact keeping (mirrors_pushConstant _ ty position)
  | add ty => exact keeping (mirrors_addTop ty)
  | pop ty => exact keeping ((mirrors_popOperand ty).bind fun _ => mirrors_pure ())
  | setLocal ty offset => exact keeping (mirrors_storeLocal ty _)
  | getLocal ty offset => exact keeping (mirrors_loadLocal ty _)
  | call position =>
    simp only [effect, Image.effect]
    cases frame.routine.chunk.constants.readRoutine position with
    | ok callee => exact mirrors_enter callee
    | error error => exact mirrors_fail trivial
  | externalCall position =>
    simp only [effect, Image.effect, Adapters.readCode_table]
    cases adapters.read frame.routine.chunk.constants position with
    | ok adapter => exact keeping (mirrors_callCode adapter)
    | error error => exact mirrors_fail trivial
  | ret => exact (mirrors_leave frame).bind fun _ => mirrors_pure FrameChange.pop

end Script

end WordMachine
