import WordMachine.Proofs.ImageRun

namespace WordMachine

namespace Image

variable {H : Type}

def height : ImageM (Object H) Nat := fun image =>
  .ok image.words.length image

def checkPushed (signature : Signature) (start : Nat) : ImageM (Object H) Unit := fun image =>
  if image.words.length - start = signature.argumentWords then
    .ok () image
  else
    .error (.fault (.argumentCountMismatch signature.argumentWords (image.words.length - start))) image

def checkLeft (signature : Signature) (start : Nat) : ImageM (Object H) Unit := fun image =>
  if image.words.length < start then
    .error (.fault .stackUnderflow) image
  else if image.words.length - start = signature.returnWords then
    .ok () image
  else
    .error (.fault (.returnCountMismatch signature.name signature.returnWords (image.words.length - start))) image

/-- Continues with a frame for a routine whose arguments are on top, with no frames below it. -/
def entering (limit : Nat) (routine : Routine (Object H)) (next : Frames H → ImageM (Object H) Unit) :
    ImageM (Object H) Unit := do
  let base ← slotUnder routine.signature.argumentWords
  match Frames.push? ⟨[], limit⟩ ⟨routine, 0, base⟩ with
  | some frames => next frames
  | none => fail (.callStackOverflow limit)

/-- Pushes arguments, runs a routine to its end and takes its result from the image. -/
def execute (adapters : Adapters H) (limit : Nat) (routine : Routine (Object H))
    (arguments : List (Argument (Object H))) (result : Option Ty) : ImageM (Object H) (Result (Object H) result) := do
  let start ← height
  pushAll arguments
  checkPushed routine.signature start
  entering limit routine (run adapters)
  checkLeft routine.signature start
  popResult result

end Image

namespace Machine

variable {H : Type} {α β : Type}

/-- What a step on a machine does to the stack is what another does to its image. -/
abbrev Followed (outcome : EStateM.Result Fault (Machine H) α)
    (shown : EStateM.Result Trouble (Image (Object H)) α) : Prop :=
  Script.Pictured Machine.stack outcome shown

/-- Steps that keep references in order, give up no slot of the table of handles and, on certain frames, do to the stack
what others do to its image. -/
structure Follows (starting : Frames H → Prop) (step : MachineM H α) (shown : ImageM (Object H) α) : Prop where
  upholds : Upholds step
  grows : ∀ m, m.stack.handles.slots.size ≤ (finalState (step m)).stack.handles.slots.size
  followed : ∀ m, starting m.frames → m.stack.Intact → (finalState (step m)).stack.handles.Small →
    ∀ image, m.stack.Shown image → Followed (step m) (shown image)

theorem Follows.bind {starting later : Frames H → Prop} {step : MachineM H α} {next : α → MachineM H β}
    {shown : ImageM (Object H) α} {andThen : α → ImageM (Object H) β} (first : Follows starting step shown)
    (leads : ∀ m value final, starting m.frames → step m = .ok value final → later final.frames)
    (rest : ∀ value, Follows later (next value) (andThen value)) :
    Follows starting (step >>= next) (shown >>= andThen) := by
  have grows : ∀ m, (finalState (step m)).stack.handles.slots.size ≤
      (finalState ((step >>= next) m)).stack.handles.slots.size := by
    intro m
    cases ran : step m with
    | ok value final =>
      rw [bind_ok ran]
      exact (rest value).grows final
    | error fault final =>
      rw [bind_error ran]
      exact Nat.le_refl _
  refine ⟨first.upholds.bind fun value => (rest value).upholds, fun m => Nat.le_trans (first.grows m) (grows m), ?_⟩
  intro m fits intact small image shows
  have upheld := first.upholds m intact
  refine Script.Pictured.bind (first.followed m fits intact (Nat.lt_of_le_of_lt (grows m) small) image shows) ?_
  intro value final after ran same
  rw [ran] at upheld
  rw [bind_ok ran] at small
  exact (rest value).followed final (leads m value final fits ran) upheld small after same

theorem follows_onStack (starting : Frames H → Prop) {step : StackM (Object H) α} {script : Script (Object H) α}
    {shown : ImageM (Object H) α} (written : script.run = step) (mirrors : Script.Mirrors script shown) :
    Follows starting (onStack step) shown := by
  subst written
  have final_stack : ∀ m : Machine H, (finalState (onStack script.run m)).stack = finalState (script.run m.stack) := by
    rintro ⟨frames, stack, journal⟩
    unfold onStack
    dsimp only
    cases script.run stack <;> rfl
  refine ⟨upholds_onStack mirrors.intact, ?_, ?_⟩
  · intro m
    rw [final_stack]
    exact script.size_le_run m.stack
  · intro m _ intact small image shows
    rw [final_stack] at small
    have mirrored := mirrors.mirrored m.stack intact small image shows
    obtain ⟨frames, stack, journal⟩ := m
    cases outcome : shown image with
    | ok value after =>
      rw [outcome] at mirrored
      obtain ⟨final, ran, same⟩ := mirrored
      exact ⟨_, onStack_ok ran, same⟩
    | error trouble after =>
      rw [outcome] at mirrored
      cases trouble with
      | torn => exact trivial
      | fault fault =>
        obtain ⟨final, ran⟩ := mirrored
        exact ⟨_, onStack_error ran⟩

/-- Steps on the stack change no frames. -/
theorem Follows.bind_onStack {starting : Frames H → Prop} {step : StackM (Object H) α} {next : α → MachineM H β}
    {shown : ImageM (Object H) α} {andThen : α → ImageM (Object H) β} (first : Follows starting (onStack step) shown)
    (rest : ∀ value, Follows starting (next value) (andThen value)) :
    Follows starting (onStack step >>= next) (shown >>= andThen) := by
  refine first.bind (fun m value final fits ran => ?_) rest
  rw [frames_onStack ran]
  exact fits

/-- A run does to the stack what the run on its image does to that. -/
theorem followed_run (adapters : Adapters H) (m : Machine H) (image : Image (Object H)) (intact : m.stack.Intact)
    (small : (finalState (run adapters.table.link m)).stack.handles.Small) (shows : m.stack.Shown image) :
    Followed (run adapters.table.link m) (Image.run adapters m.frames image) := by
  induction m using run_induction adapters.table.link generalizing image with
  | step m ih =>
    have upheld := (upheld_tick adapters.propagates intact).2
    have ticked_small := Nat.lt_of_le_of_lt (size_tick_le_run adapters.table m) small
    have alongside := alongside_tick adapters intact ticked_small shows
    cases progress : Image.tick adapters m.frames image with
    | running frames after =>
      rw [progress] at alongside
      obtain ⟨next, ticked, rfl, same⟩ := alongside
      rw [ticked] at upheld
      rw [run_of_running ticked] at small ⊢
      rw [Image.run_of_running progress]
      exact ih next ticked after upheld small same
    | halted after =>
      rw [progress] at alongside
      obtain ⟨final, ticked, same⟩ := alongside
      rw [Image.run_of_halted progress, run_of_halted ticked]
      exact ⟨final, rfl, same⟩
    | stopped trouble =>
      rw [progress] at alongside
      rw [Image.run_of_stopped progress]
      cases trouble with
      | torn => exact trivial
      | fault fault =>
        obtain ⟨final, ticked⟩ := alongside
        exact ⟨final, run_of_faulted ticked⟩

theorem stack_clearingFrames (step : MachineM H α) (m : Machine H) :
    (finalState (clearingFrames step m)).stack = (finalState (step m)).stack := by
  unfold clearingFrames
  cases step m <;> rfl

theorem followed_clearingFrames {step : MachineM H α} {m : Machine H}
    {shown : EStateM.Result Trouble (Image (Object H)) α} (followed : Followed (step m) shown) :
    Followed (clearingFrames step m) shown := by
  unfold clearingFrames
  cases shown with
  | ok value image =>
    obtain ⟨final, ran, same⟩ := followed
    rw [ran]
    exact ⟨final, rfl, same⟩
  | error trouble image =>
    cases trouble with
    | torn => exact trivial
    | fault fault =>
      obtain ⟨final, ran⟩ := followed
      rw [ran]
      exact ⟨_, rfl⟩

/-- Whatever follows the entry of a routine with no frames below it follows that on the image. -/
theorem follows_entering {step : MachineM H Unit} {shown : Frames H → ImageM (Object H) Unit}
    (follows : ∀ frames, Follows (· = frames) step (shown frames)) (limit : Nat) (routine : Routine (Object H)) :
    Follows (· = ⟨[], limit⟩)
      (clearingFrames do
        enter routine
        step)
      (Image.entering limit routine shown) := by
  refine ⟨((upholds_enter routine).bind fun _ => (follows ⟨[], limit⟩).upholds).clearingFrames, ?_, ?_⟩
  · rintro ⟨frames, stack, journal⟩
    rw [stack_clearingFrames]
    rcases enter_cases routine frames stack journal with ⟨_, failed⟩ | ⟨_, later, ⟨_, failed⟩ | ⟨next, _, entered⟩⟩
    · rw [bind_error failed]
      exact Nat.le_refl _
    · rw [bind_error failed]
      exact Nat.le_refl _
    · rw [bind_ok entered]
      exact (follows next).grows ⟨next, stack, later⟩
  · rintro ⟨frames, stack, journal⟩ rfl intact small image shows
    rw [stack_clearingFrames] at small
    have length : image.words.length = stack.offset := shows.length_words
    refine followed_clearingFrames ?_
    rcases enter_cases routine ⟨[], limit⟩ stack journal with
      ⟨low, failed⟩ | ⟨high, later, entered⟩
    · have shown : Image.slotUnder routine.signature.argumentWords image =
          .error (.fault .stackUnderflow) image := if_pos (by rwa [length])
      rw [bind_error failed, Image.entering, bind_error shown]
      exact ⟨_, rfl⟩
    · have shown : Image.slotUnder routine.signature.argumentWords image =
          .ok (stack.offset - routine.signature.argumentWords) image := by
        rw [← length] at high ⊢
        exact if_neg (Nat.not_lt.mpr high)
      rw [Image.entering, bind_ok shown]
      rcases entered with ⟨full, failed⟩ | ⟨next, pushed, entered⟩
      · rw [bind_error failed, full]
        exact ⟨_, rfl⟩
      · rw [bind_ok entered] at small ⊢
        rw [pushed]
        exact (follows next).followed ⟨next, stack, later⟩ rfl intact small image shows

theorem follows_run (adapters : Adapters H) (frames : Frames H) :
    Follows (· = frames) (run adapters.table.link) (Image.run adapters frames) := by
  refine ⟨upholds_run adapters.propagates, size_le_run adapters.table, ?_⟩
  rintro m rfl intact small image shows
  exact followed_run adapters m image intact small shows

theorem follows_check {step : StackM (Object H) α} {shown : ImageM (Object H) α} (starting : Frames H → Prop)
    (checks : ∀ stack image, stack.Shown image →
      (∃ value, step stack = .ok value stack ∧ shown image = .ok value image) ∨
        ∃ fault, step stack = .error fault stack ∧ shown image = .error (.fault fault) image ∧ fault.Tame) :
    Follows starting (onStack step) shown := by
  have outcomes : ∀ stack, (∃ value, step stack = .ok value stack) ∨
      ∃ fault, step stack = .error fault stack ∧ fault.Tame := by
    intro stack
    rcases checks stack _ ⟨.nothing, stack.memory.confirms_nothing, rfl⟩ with
      ⟨value, passed, _⟩ | ⟨fault, failed, _, tame⟩
    · exact .inl ⟨value, passed⟩
    · exact .inr ⟨fault, failed, tame⟩
  refine ⟨upholds_onStack ?_, ?_, ?_⟩
  · intro stack intact
    rcases outcomes stack with ⟨value, passed⟩ | ⟨fault, failed, tame⟩
    · rw [passed]
      exact intact
    · rw [failed]
      exact Script.failed_of_keeps intact tame
  · rintro ⟨frames, stack, journal⟩
    rcases outcomes stack with ⟨value, passed⟩ | ⟨fault, failed, _⟩
    · rw [onStack_ok passed]
      exact Nat.le_refl _
    · rw [onStack_error failed]
      exact Nat.le_refl _
  · rintro ⟨frames, stack, journal⟩ _ intact small image shows
    rcases checks stack image shows with ⟨value, passed, same⟩ | ⟨fault, failed, same, _⟩
    · rw [onStack_ok passed, same]
      exact ⟨_, rfl, shows⟩
    · rw [onStack_error failed, same]
      exact ⟨_, rfl⟩

theorem follows_height (starting : Frames H → Prop) : Follows starting (onStack StackM.offset) Image.height := by
  refine follows_check starting fun stack image shows => .inl ⟨stack.offset, rfl, ?_⟩
  rw [Image.height, shows.length_words]

theorem follows_checkPushed (starting : Frames H → Prop) (signature : Signature) (start : Nat) :
    Follows starting (onStack (checkPushed signature start)) (Image.checkPushed signature start) := by
  refine follows_check starting fun stack image shows => ?_
  simp only [checkPushed, Image.checkPushed, shows.length_words]
  split
  · exact .inl ⟨(), rfl, rfl⟩
  · exact .inr ⟨_, rfl, rfl, trivial⟩

theorem follows_checkLeft (starting : Frames H → Prop) (signature : Signature) (start : Nat) :
    Follows starting (onStack (checkLeft signature start)) (Image.checkLeft signature start) := by
  refine follows_check starting fun stack image shows => ?_
  simp only [checkLeft, Image.checkLeft, shows.length_words]
  split
  · exact .inr ⟨_, rfl, rfl, trivial⟩
  · split
    · exact .inl ⟨(), rfl, rfl⟩
    · exact .inr ⟨_, rfl, rfl, trivial⟩

/-- A call from the host does to the stack what it does to its image. -/
theorem follows_execute (adapters : Adapters H) (limit : Nat) (routine : Routine (Object H))
    (arguments : List (Argument (Object H))) (result : Option Ty) :
    Follows (· = ⟨[], limit⟩) (execute adapters.table.link routine arguments result)
      (Image.execute adapters limit routine arguments result) := by
  refine (follows_height _).bind_onStack fun start => ?_
  refine (follows_onStack _ (Script.run_pushAll arguments) (Script.mirrors_pushAll arguments)).bind_onStack fun _ => ?_
  refine (follows_checkPushed _ routine.signature start).bind_onStack fun _ => ?_
  have last : Follows (fun _ : Frames H => True) (onStack (checkLeft routine.signature start) >>= fun _ =>
      onStack (StackM.popResult result)) (Image.checkLeft routine.signature start >>= fun _ =>
        Image.popResult result) :=
    (follows_checkLeft _ routine.signature start).bind_onStack fun _ =>
      follows_onStack _ (Script.run_popResult result) (Script.mirrors_popResult result)
  exact (follows_entering (follows_run adapters) limit routine).bind (fun _ _ _ _ _ => trivial) fun _ => last

end Machine

end WordMachine
