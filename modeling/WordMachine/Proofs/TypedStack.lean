import WordMachine.Proofs.TypedImage
import WordMachine.Proofs.Tended

namespace WordMachine

/-- What a stack can be asked for: to take a value of any type, to give one back, or to show the object on top. -/
inductive StackRequest (ω : Type)
  | push (argument : Argument ω)
  | pop (ty : Ty)
  | peek

namespace StackRequest

variable {ω : Type}

def Reply : StackRequest ω → Type
  | push _ => Unit
  | pop ty => Operand ω ty
  | peek => Option ω

def perform : (request : StackRequest ω) → StackM ω request.Reply
  | push argument => StackM.pushOperand argument.ty argument.value
  | pop ty => StackM.popOperand ty
  | peek => StackM.peekObject

end StackRequest

/-- A request together with the answer to it. -/
abbrev StackExchange (ω : Type) := (request : StackRequest ω) × Except Fault request.Reply

/-- Something that answers requests and changes with each of them. -/
abbrev StackServer (ω σ : Type) := σ → (request : StackRequest ω) → Except Fault request.Reply × σ

namespace StackServer

variable {ω σ τ : Type}

/-- Answers requests one after the other, also after one that failed. -/
def serveAll (server : StackServer ω σ) (state : σ) : List (StackRequest ω) → List (StackExchange ω) × σ
  | [] => ([], state)
  | request :: rest =>
    (⟨request, (server state request).1⟩ :: (serveAll server (server state request).2 rest).1,
      (serveAll server (server state request).2 rest).2)

/-- Servers that answer alike in corresponding states, and then are in corresponding states again, answer alike for
ever. -/
theorem serveAll_eq (server : StackServer ω σ) (other : StackServer ω τ) {corresponds : σ → τ → Prop}
    (alike : ∀ state place request, corresponds state place →
      (server state request).1 = (other place request).1 ∧ corresponds (server state request).2 (other place request).2)
    (requests : List (StackRequest ω)) {state : σ} {place : τ} (start : corresponds state place) :
    (serveAll server state requests).1 = (serveAll other place requests).1 ∧
      corresponds (serveAll server state requests).2 (serveAll other place requests).2 := by
  induction requests generalizing state place with
  | nil => exact ⟨rfl, start⟩
  | cons request rest ih =>
    obtain ⟨answer, next⟩ := alike state place request start
    obtain ⟨answers, last⟩ := ih next
    refine ⟨?_, last⟩
    simp only [serveAll, answer, answers]

end StackServer

/-- A stack answers a request by carrying it out. -/
def OperandStack.server {ω : Type} : StackServer ω (OperandStack ω) := fun stack request =>
  match request.perform stack with
  | .ok reply next => (.ok reply, next)
  | .error fault next => (.error fault, next)

theorem OperandStack.server_of_ok {ω : Type} {stack next : OperandStack ω} {request : StackRequest ω}
    {reply : request.Reply} (performed : request.perform stack = .ok reply next) :
    server stack request = (.ok reply, next) := by
  unfold server
  rw [performed]

theorem OperandStack.server_of_error {ω : Type} {stack next : OperandStack ω} {request : StackRequest ω} {fault : Fault}
    (performed : request.perform stack = .error fault next) : server stack request = (.error fault, next) := by
  unfold server
  rw [performed]

namespace TypedStack

variable {ω : Type}

/-- The type of the value that starts at a word, if one does. -/
def startAt : List (Argument ω) → Nat → Option Ty
  | [], _ => none
  | argument :: rest, slot =>
    if slot = 0 then some argument.ty
    else if slot < argument.ty.words then none
    else startAt rest (slot - argument.ty.words)

/-- The last value, if it has the type. The words decide first whether there can be one; the error names the type of the
value that starts where one of the expected type would. -/
def top (values : List (Argument ω)) (ty : Ty) : Except Fault (Operand ω ty) :=
  if valueWords values < ty.words then
    .error .stackUnderflow
  else
    match values.getLast? with
    | some ⟨found, value⟩ =>
      if same : found = ty then .ok (same ▸ value)
      else .error (.typeMismatch ty (startAt values (valueWords values - ty.words)))
    | none => .error .stackUnderflow

/-- A list of typed values, the last of them on top, that may take up so many words. -/
def server (capacity : Nat) : StackServer ω (List (Argument ω)) := fun values request =>
  match request with
  | .push argument =>
    if valueWords (values ++ [argument]) ≤ capacity then (.ok (), values ++ [argument])
    else (.error .stackOverflow, values)
  | .pop ty =>
    match top values ty with
    | .ok value => (.ok value, values.dropLast)
    | .error fault => (.error fault, values)
  | .peek => (top values .object, values)

theorem startAt_append (before after : List (Argument ω)) (argument : Argument ω) :
    startAt (before ++ argument :: after) (valueWords before) = some argument.ty := by
  induction before with
  | nil => rfl
  | cons first rest ih =>
    have positive := first.ty.words_pos
    rw [List.cons_append, valueWords_cons, startAt, if_neg (by omega), if_neg (by omega), Nat.add_sub_cancel_left, ih]

/-- Only the last value reaches up to the end. -/
theorem eq_append_of_startAt {values : List (Argument ω)} {slot : Nat} {ty : Ty}
    (starts : startAt values slot = some ty) (ends : slot + ty.words = valueWords values) :
    ∃ before value, values = before ++ [⟨ty, value⟩] := by
  induction values generalizing slot with
  | nil => cases starts
  | cons argument rest ih =>
    rw [startAt] at starts
    rw [valueWords_cons] at ends
    split at starts
    · cases starts
      cases rest with
      | nil => exact ⟨[], argument.value, rfl⟩
      | cons next more =>
        -- every value has a word, so nothing follows one that reaches the end
        have positive := next.ty.words_pos
        rw [valueWords_cons] at ends
        omega
    · split at starts
      · cases starts
      · obtain ⟨before, value, same⟩ := ih starts (by omega)
        exact ⟨argument :: before, value, by rw [same, List.cons_append]⟩

theorem top_append (values : List (Argument ω)) {ty : Ty} (value : Operand ω ty) :
    top (values ++ [⟨ty, value⟩]) ty = .ok value := by
  have enough : ¬ valueWords (values ++ [(⟨ty, value⟩ : Argument ω)]) < ty.words := by
    rw [valueWords_append]
    exact Nat.not_lt.mpr (Nat.le_add_left ..)
  unfold top
  rw [if_neg enough, List.getLast?_concat]
  simp only [dite_true]

theorem top_of_startAt {values : List (Argument ω)} {ty : Ty} (enough : ty.words ≤ valueWords values)
    (other : startAt values (valueWords values - ty.words) ≠ some ty) :
    top values ty = .error (.typeMismatch ty (startAt values (valueWords values - ty.words))) := by
  unfold top
  rw [if_neg (Nat.not_lt.mpr enough)]
  cases last : values.getLast? with
  | none =>
    have positive := ty.words_pos
    rw [List.getLast?_eq_none_iff.mp last, valueWords_nil] at enough
    omega
  | some argument =>
    obtain ⟨found, value⟩ := argument
    refine dif_neg ?_
    rintro rfl
    obtain ⟨before, rfl⟩ := List.getLast?_eq_some_iff.mp last
    refine other ?_
    rw [valueWords_append, valueWords_cons, valueWords_nil, Nat.add_zero, Nat.add_sub_cancel]
    exact startAt_append before [] _

/-- The first word of a value has its type, and none of the others has one. -/
theorem tag_words (argument : Argument ω) {slot : Nat} (inside : slot < argument.ty.words) :
    (argument.words[slot]?).bind Word.tag = if slot = 0 then some argument.ty else none := by
  obtain ⟨ty, value⟩ := argument
  cases ty with
  | object =>
    have one : Ty.object.words = 1 := rfl
    have first : slot = 0 := by
      dsimp only at inside
      omega
    subst first
    rfl
  | scalar kind =>
    simp only [Argument.words, Operand.words]
    rw [← Argument.length_words] at inside
    simp only [Argument.words, Operand.words] at inside
    split at inside
    · rename_i narrow
      rw [List.length_singleton, Nat.lt_one_iff] at inside
      subst inside
      rw [if_pos narrow]
      rfl
    · rename_i wide
      rw [if_neg wide]
      have two : slot = 0 ∨ slot = 1 := by
        rw [List.length_cons, List.length_singleton] at inside
        omega
      rcases two with rfl | rfl
      · rfl
      · rfl

theorem server_pop_append (capacity : Nat) (values : List (Argument ω)) {ty : Ty} (value : Operand ω ty) :
    server capacity (values ++ [⟨ty, value⟩]) (.pop ty) = (.ok value, values) := by
  simp only [server, top_append]
  rw [List.dropLast_concat]

theorem server_pop_error {capacity : Nat} {values : List (Argument ω)} {ty : Ty} {fault : Fault}
    (failed : top values ty = .error fault) : server capacity values (.pop ty) = (.error fault, values) := by
  simp only [server, failed]

/-- There are too few words for a value of the type, or one is on top, or one of another type starts in its place. -/
theorem top_cases (values : List (Argument ω)) (ty : Ty) :
    valueWords values < ty.words ∨ (∃ before value, values = before ++ [⟨ty, value⟩]) ∨
      (ty.words ≤ valueWords values ∧ startAt values (valueWords values - ty.words) ≠ some ty) := by
  by_cases few : valueWords values < ty.words
  · exact .inl few
  · by_cases starts : startAt values (valueWords values - ty.words) = some ty
    · exact .inr (.inl (eq_append_of_startAt starts (by omega)))
    · exact .inr (.inr ⟨by omega, starts⟩)

/-- How the words of a stack are tagged on which values stand. -/
theorem tag_layout (values : List (Argument ω)) (slot : Nat) :
    ((layout values)[slot]?).bind Word.tag = startAt values slot := by
  induction values generalizing slot with
  | nil => rfl
  | cons argument rest ih =>
    have length := argument.length_words
    rw [layout_cons, startAt]
    by_cases inside : slot < argument.ty.words
    · rw [List.getElem?_append_left (by omega), tag_words argument inside, if_pos inside]
    · have positive := argument.ty.words_pos
      rw [List.getElem?_append_right (by omega), if_neg (by omega), if_neg inside, length]
      exact ih _

end TypedStack

namespace OperandStack

variable {ω : Type} {stack : OperandStack ω}

/-- A stack on which just these values stand, with room for all the handles that they could need. -/
structure Carries (stack : OperandStack ω) (capacity : Nat) (values : List (Argument ω)) : Prop where
  intact : stack.Intact
  small : stack.handles.Small
  shown : ∃ known, stack.Shown (picture capacity values known)
  fits : valueWords values ≤ capacity

namespace Carries

variable {capacity : Nat} {values : List (Argument ω)}

theorem capacity_eq (carries : stack.Carries capacity values) : stack.capacity = capacity := by
  obtain ⟨_, known, _, same⟩ := carries.shown
  exact congrArg Image.capacity same

theorem offset_eq (carries : stack.Carries capacity values) : stack.offset = valueWords values := by
  obtain ⟨_, shown⟩ := carries.shown
  rw [← shown.length_words]
  exact length_layout values

theorem liveHandles_eq (carries : stack.Carries capacity values) : stack.liveHandles = handleCount values := by
  obtain ⟨_, shown⟩ := carries.shown
  exact shown.live_eq

theorem tag_eq (carries : stack.Carries capacity values) {slot : Nat} (live : slot < stack.offset) :
    stack.tags.get slot = TypedStack.startAt values slot := by
  obtain ⟨_, known, _, same⟩ := carries.shown
  have entry := (stack.getElem?_words known slot).trans (if_pos live)
  have words : (stack.image known).words = layout values := congrArg Image.words same
  rw [← TypedStack.tag_layout, ← words, entry, Option.bind_some, tag_word]

end Carries

/-- A push for which there is no room does nothing. -/
theorem pushOperand_full {ty : Ty} (value : Operand ω ty) (full : stack.capacity < stack.offset + ty.words) :
    StackM.pushOperand ty value stack = .error .stackOverflow stack := by
  cases ty with
  | scalar kind => exact if_neg (Nat.not_le.mpr full)
  | object => exact Machine.bind_error (if_neg (Nat.not_le.mpr full))

theorem popOperand_underflow {ty : Ty} (low : stack.offset < ty.words) :
    StackM.popOperand ty stack = .error .stackUnderflow stack := by
  cases ty with
  | scalar kind => exact if_pos low
  | object => exact Machine.bind_error (if_pos low)

/-- A pop of another type than that of the value it finds does nothing. -/
theorem popOperand_mismatch {ty : Ty} (enough : ty.words ≤ stack.offset)
    (other : stack.tags.get (stack.offset - ty.words) ≠ some ty) :
    StackM.popOperand ty stack =
      .error (.typeMismatch ty (stack.tags.get (stack.offset - ty.words))) stack := by
  have popped : StackM.popCell ty stack =
      .error (.typeMismatch ty (stack.tags.get (stack.offset - ty.words))) stack := by
    simp only [StackM.popCell, Tags.check]
    rw [if_neg (Nat.not_lt.mpr enough), if_neg other]
  cases ty with
  | scalar kind => exact popped
  | object => exact Machine.bind_error popped

namespace Carries

variable {capacity : Nat} {values : List (Argument ω)}

/-- What a script does to the picture of the values it does to the stack, as long as there are handles enough. -/
theorem run {α : Type} {script : Script ω α} {step : ImageM ω α} {count : Nat} {after : List (Argument ω)} {value : α}
    (carries : stack.Carries capacity values) (mirrors : script.Mirrors step) (most : script.AllocatesAtMost count)
    (few : handleCount values + count < 2 ^ 32 - 1) (fits : valueWords after ≤ capacity)
    (pictured : ∀ known, ∃ next, step (picture capacity values known) = .ok value (picture capacity after next)) :
    ∃ next, script.run stack = .ok value next ∧ next.Carries capacity after := by
  have small : (finalState (script.run stack)).handles.Small := by
    have grown := (most.grown carries.intact.consistent).size_le
    have before := carries.small
    have live : stack.handles.live = handleCount values := carries.liveHandles_eq
    unfold HandleTable.Small at before ⊢
    omega
  obtain ⟨known, shown⟩ := carries.shown
  obtain ⟨more, stepped⟩ := pictured known
  have kept := mirrors.intact stack carries.intact
  have mirrored := mirrors.mirrored stack carries.intact small _ shown
  rw [stepped] at mirrored
  obtain ⟨next, ran, shows⟩ := mirrored
  rw [ran] at kept small
  exact ⟨next, ran, kept, small, ⟨more, shows⟩, fits⟩

theorem push (carries : stack.Carries capacity values) (moderate : capacity < 2 ^ 32 - 1) {argument : Argument ω}
    (room : valueWords (values ++ [argument]) ≤ capacity) :
    ∃ next, StackM.pushOperand argument.ty argument.value stack = .ok () next ∧
      next.Carries capacity (values ++ [argument]) := by
  have references := handleCount_le values
  have positive := argument.ty.words_pos
  have words : valueWords (values ++ [argument]) = valueWords values + argument.ty.words := by
    simp only [valueWords_append, valueWords_cons, valueWords_nil, Nat.add_zero]
  rw [← Script.run_pushOperand]
  exact carries.run (Script.mirrors_pushOperand argument.ty argument.value)
    (Script.allocatesAtMost_pushOperand argument.ty argument.value) (by omega) room
    fun known => ⟨_, Image.push_picture argument.value room⟩

theorem pop {ty : Ty} {value : Operand ω ty} (carries : stack.Carries capacity (values ++ [⟨ty, value⟩]))
    (moderate : capacity < 2 ^ 32 - 1) :
    ∃ next, StackM.popOperand ty stack = .ok value next ∧ next.Carries capacity values := by
  have fits := carries.fits
  have references := handleCount_le (values ++ [(⟨ty, value⟩ : Argument ω)])
  have fewer : valueWords values ≤ capacity := by
    rw [valueWords_append] at fits
    omega
  rw [← Script.run_popOperand]
  exact carries.run (Script.mirrors_popOperand ty) (Script.allocatesAtMost_popOperand ty) (by omega) fewer
    fun known => ⟨known, Image.pop_picture capacity values value⟩

/-- The object on top is the one that the handle in the top word refers to. -/
theorem topObject_append {object : Option ω} (carries : stack.Carries capacity (values ++ [⟨.object, object⟩])) :
    stack.topObject = .ok object := by
  have offset : stack.offset = valueWords values + handleWords := by
    rw [carries.offset_eq, valueWords_append, valueWords_cons, valueWords_nil, Nat.add_zero, handleWords]
  have slot : stack.offset - handleWords = valueWords values := by
    rw [offset, Nat.add_sub_cancel]
  obtain ⟨_, known, _, same⟩ := carries.shown
  have found := Script.mirror_readHandle stack known (valueWords values)
  have pictured : Image.read .object (valueWords values) (stack.image known) = .ok object (stack.image known) := by
    rw [same]
    exact Image.read_picture ..
  rw [pictured] at found
  obtain ⟨_, cell, live, tag, shown⟩ := found
  obtain ⟨held, got⟩ := (carries.intact.owns carries.small).refers (valueWords values) ⟨live, tag⟩
  have enough : ¬ stack.offset < handleWords := by
    rw [offset]
    exact Nat.not_lt.mpr (Nat.le_add_left ..)
  unfold topObject
  rw [if_neg enough, slot, cell]
  dsimp only
  rw [got, shown]
  exact congrArg Except.ok (HandleTable.object_of_get got).symm

theorem topObject_eq (carries : stack.Carries capacity values) : stack.topObject = TypedStack.top values .object := by
  have offset := carries.offset_eq
  rcases TypedStack.top_cases values .object with few | ⟨before, object, rfl⟩ | ⟨enough, other⟩
  · have low : stack.offset < handleWords := by
      rw [offset]
      exact few
    unfold topObject TypedStack.top
    rw [if_pos few, if_pos low]
    rfl
  · rw [carries.topObject_append]
    exact (TypedStack.top_append before object).symm
  · have positive := Ty.object.words_pos
    have low : ¬ stack.offset < handleWords := by
      rw [offset]
      exact Nat.not_lt.mpr enough
    have tag := carries.tag_eq (show stack.offset - Ty.object.words < stack.offset by omega)
    have checked : stack.tags.check (stack.offset - Ty.object.words) .object =
        .error (.typeMismatch .object (TypedStack.startAt values (valueWords values - Ty.object.words))) := by
      unfold Tags.check
      rw [tag, offset, if_neg other]
    have missing : stack.cellAt .object (stack.offset - handleWords) =
        .error (.typeMismatch .object (TypedStack.startAt values (valueWords values - Ty.object.words))) := by
      unfold cellAt handleWords
      rw [if_neg (by omega), checked]
    rw [TypedStack.top_of_startAt enough other, topObject, if_neg low, missing]
    rfl

/-- A stack answers a request as the list of its values does, and stands for the next list afterwards. Unless the
answer is an error: then the stack stays as it is. -/
theorem serve (carries : stack.Carries capacity values) (moderate : capacity < 2 ^ 32 - 1)
    (request : StackRequest ω) :
    (server stack request).1 = (TypedStack.server capacity values request).1 ∧
      (server stack request).2.Carries capacity (TypedStack.server capacity values request).2 ∧
      ∀ fault, (server stack request).1 = .error fault → (server stack request).2 = stack := by
  have offset := carries.offset_eq
  cases request with
  | push argument =>
    by_cases room : valueWords (values ++ [argument]) ≤ capacity
    · obtain ⟨next, pushed, after⟩ := carries.push moderate room
      have typed : TypedStack.server capacity values (.push argument) = (.ok (), values ++ [argument]) := if_pos room
      have answered : server stack (.push argument) = (.ok (), next) := server_of_ok pushed
      rw [typed, answered]
      exact ⟨rfl, after, nofun⟩
    · have full : stack.capacity < stack.offset + argument.ty.words := by
        rw [carries.capacity_eq, offset]
        simpa using room
      have typed : TypedStack.server capacity values (.push argument) = (.error .stackOverflow, values) := if_neg room
      have answered : server stack (.push argument) = (.error .stackOverflow, stack) :=
        server_of_error (pushOperand_full argument.value full)
      rw [typed, answered]
      exact ⟨rfl, carries, fun _ _ => rfl⟩
  | pop ty =>
    rcases TypedStack.top_cases values ty with few | ⟨before, value, rfl⟩ | ⟨enough, other⟩
    · have low : stack.offset < ty.words := by
        rw [offset]
        exact few
      have typed : TypedStack.server capacity values (.pop ty) = (.error .stackUnderflow, values) :=
        TypedStack.server_pop_error (if_pos few)
      have answered : server stack (.pop ty) = (.error .stackUnderflow, stack) :=
        server_of_error (popOperand_underflow low)
      rw [typed, answered]
      exact ⟨rfl, carries, fun _ _ => rfl⟩
    · obtain ⟨next, popped, after⟩ := carries.pop moderate
      have typed : TypedStack.server capacity (before ++ [⟨ty, value⟩]) (.pop ty) = (.ok value, before) :=
        TypedStack.server_pop_append capacity before value
      have answered : server stack (.pop ty) = (.ok value, next) := server_of_ok popped
      rw [typed, answered]
      exact ⟨rfl, after, nofun⟩
    · have positive := ty.words_pos
      have tag := carries.tag_eq (show stack.offset - ty.words < stack.offset by omega)
      have failed := popOperand_mismatch (show ty.words ≤ stack.offset by omega) (by rw [tag, offset]; exact other)
      rw [tag, offset] at failed
      have typed : TypedStack.server capacity values (.pop ty) = (.error _, values) :=
        TypedStack.server_pop_error (TypedStack.top_of_startAt enough other)
      have answered : server stack (.pop ty) = (.error _, stack) := server_of_error failed
      rw [typed, answered]
      exact ⟨rfl, carries, fun _ _ => rfl⟩
  | peek =>
    have shown := carries.topObject_eq
    have typed : TypedStack.server capacity values .peek = (TypedStack.top values .object, values) := rfl
    have answered : server stack .peek = (stack.topObject, stack) := by
      cases found : stack.topObject with
      | ok object =>
        refine server_of_ok ?_
        simp only [StackRequest.perform, StackM.peekObject, found]
        rfl
      | error fault =>
        refine server_of_error ?_
        simp only [StackRequest.perform, StackM.peekObject, found]
        rfl
    rw [typed, answered]
    exact ⟨shown, carries, fun _ _ => rfl⟩

end Carries

/-- Shelved storage, whatever its words hold, carries nothing once it is in use again. -/
theorem Shelved.carries (shelved : stack.Shelved) (small : stack.handles.Small) :
    Carries { stack with offset := 0 } stack.capacity [] where
  intact := shelved.intact
  small := small
  shown := by
    refine ⟨.nothing, .nothing, stack.memory.confirms_nothing, ?_⟩
    simp only [image, picture, List.range_zero, List.map_nil, layout_nil, handleCount_nil, shelved.live_eq]
  fits := Nat.zero_le _

/-- What a pool of storage that was in use lends carries nothing. -/
theorem carries_lend {H : Type} {table : HostTable H} {pool : StackPool (Object H)}
    (origin : OperandStack (Object H) → OperandStack (Object H))
    (used : ∀ stored ∈ pool.free, (origin stored).Used table)
    (recycled : ∀ stored ∈ pool.free, stored = (origin stored).recycle) {capacity : Nat} {journal : Journal}
    (small : (pool.lend capacity journal).1.handles.Small) : (pool.lend capacity journal).1.Carries capacity [] := by
  rcases pool.lend_cases capacity journal with ⟨stored, member, fits, lent⟩ | fresh
  · have shelved : stored.Shelved := by
      have tended := (used stored member).tended
      rw [recycled stored member]
      exact shelved_recycle tended.sound tended.consistent
    rw [lent] at small ⊢
    rw [← fits]
    exact shelved.carries small
  · rw [fresh] at small ⊢
    exact (Shelved.fresh capacity).carries small

/-- Whatever the storage of a stack was used for before, requests get the answers of a list of typed values from it. Its
words and handles are those of the values, a request that fails does nothing, and its storage may be used again. -/
theorem refines_typed_stack {H : Type} {table : HostTable H} {pool : StackPool (Object H)}
    (origin : OperandStack (Object H) → OperandStack (Object H))
    (used : ∀ stored ∈ pool.free, (origin stored).Used table)
    (recycled : ∀ stored ∈ pool.free, stored = (origin stored).recycle) (capacity : Nat) (journal : Journal)
    (moderate : capacity < 2 ^ 32 - 1) (small : (pool.lend capacity journal).1.handles.Small)
    (requests : List (StackRequest (Object H))) :
    ∃ log stack values, server.serveAll (pool.lend capacity journal).1 requests = (log, stack) ∧
      (TypedStack.server capacity).serveAll [] requests = (log, values) ∧
      stack.offset = valueWords values ∧ valueWords values ≤ capacity ∧ stack.liveHandles = handleCount values ∧
      (∀ request fault, (server stack request).1 = .error fault → (server stack request).2 = stack) ∧
      stack.handles.Small := by
  have start := carries_lend origin used recycled small
  have alike : ∀ (stack : OperandStack (Object H)) values request, stack.Carries capacity values →
      (server stack request).1 = (TypedStack.server capacity values request).1 ∧
        (server stack request).2.Carries capacity (TypedStack.server capacity values request).2 := by
    intro stack values request carries
    obtain ⟨answer, next, _⟩ := carries.serve moderate request
    exact ⟨answer, next⟩
  obtain ⟨answers, carries⟩ := StackServer.serveAll_eq server (TypedStack.server capacity) alike requests start
  refine ⟨_, _, _, rfl, Prod.ext answers.symm rfl, carries.offset_eq, carries.fits, carries.liveHandles_eq, ?_,
    carries.small⟩
  intro request fault failed
  exact (carries.serve moderate request).2.2 fault failed

end OperandStack

namespace Abandoned

def start : Machine Unit := ⟨⟨[], 0⟩, OperandStack.fresh 3, .keeping none⟩

def pushLong : HostAction Unit := .operate (.push (.scalar .long) (7 : Int64))

def pushObject : HostAction Unit := .operate (.push .object (some (.host ())))

/-- A stack on which a number and a reference were left. -/
def stack : OperandStack (Object Unit) :=
  (pushObject.after Adapters.none.table (pushLong.after Adapters.none.table start)).stack

def pool : StackPool (Object Unit) := ⟨1, #[stack.recycle], .zero⟩

theorem used : stack.Used Adapters.none.table := by
  have fresh : start.stack.Used Adapters.none.table :=
    @OperandStack.Used.lend Unit Adapters.none.table (Pool.empty 0) 3 (.keeping none) (fun stored => stored)
      (fun _ member => (Array.not_mem_empty _ member).elim) fun _ member => (Array.not_mem_empty _ member).elim
  exact (fresh.act pushLong).act pushObject

end Abandoned

/-- Neither the words nor the reference that were left on a stack show on the next one. A pop of one word does not
find the upper half of a wide value. -/
theorem OperandStack.refines_typed_stack_of_leftover :
    ∃ stack, server.serveAll (Abandoned.pool.lend 3 (.keeping none)).1
        [.peek, .push ⟨.object, some (.host ())⟩, .push ⟨.scalar .decimal, Decimal.one⟩, .push ⟨.object, none⟩,
          .pop (.scalar .long), .pop (.scalar .decimal)] =
      ([⟨.peek, .error .stackUnderflow⟩, ⟨.push ⟨.object, some (.host ())⟩, .ok ()⟩,
        ⟨.push ⟨.scalar .decimal, Decimal.one⟩, .ok ()⟩, ⟨.push ⟨.object, none⟩, .error .stackOverflow⟩,
        ⟨.pop (.scalar .long), .error (.typeMismatch (.scalar .long) none)⟩,
        ⟨.pop (.scalar .decimal), .ok Decimal.one⟩], stack) ∧
      stack.offset = 1 ∧ stack.liveHandles = 1 := by
  have stored : ∀ stored ∈ Abandoned.pool.free, stored = Abandoned.stack.recycle := by
    intro stored member
    exact Array.mem_singleton.mp member
  have used : ∀ stored ∈ Abandoned.pool.free, Abandoned.stack.Used Adapters.none.table := fun _ _ => Abandoned.used
  have small : (Abandoned.pool.lend 3 (.keeping none)).1.handles.Small := by decide +kernel
  obtain ⟨log, stack, values, answered, typed, offset, _, live, _⟩ :=
    refines_typed_stack (fun _ => Abandoned.stack) used stored 3 (.keeping none) (by decide) small
      [.peek, .push ⟨.object, some (.host ())⟩, .push ⟨.scalar .decimal, Decimal.one⟩, .push ⟨.object, none⟩,
        .pop (.scalar .long), .pop (.scalar .decimal)]
  obtain ⟨rfl, rfl⟩ := Prod.mk.inj typed
  exact ⟨stack, answered, offset, live⟩

end WordMachine
