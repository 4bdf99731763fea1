import WordMachine.Proofs.Simulation
import WordMachine.Proofs.Within

namespace WordMachine

namespace Script

variable {ω α : Type}

/-- A table stays small while there are few references. -/
theorem small_of_allocatesAtMost {script : Script ω α} (most : script.AllocatesAtMost 1) {stack : OperandStack ω}
    {values : List (Argument ω)} {capacity : Nat} {known : Known} (intact : stack.Intact) (small : stack.handles.Small)
    (shows : stack.Shown (picture capacity values known)) (few : FewReferences values) :
    (finalState (script.run stack)).handles.Small := by
  have grown := (most.grown intact.consistent).size_le
  have live : stack.handles.live = handleCount values := shows.live_eq
  unfold HandleTable.Small FewReferences at *
  omega

theorem small_of_allocatesNone {script : Script ω α} (nothing : script.AllocatesAtMost 0) {stack : OperandStack ω}
    (consistent : stack.handles.Consistent) (small : stack.handles.Small) :
    (finalState (script.run stack)).handles.Small := by
  have grown := (nothing.grown consistent).size_le
  have balance := consistent.live_eq
  unfold HandleTable.Small at *
  omega

/-- Pushing values one by one keeps the table small, whether they all fit or not. -/
theorem small_pushAll (arguments : List (Argument ω)) {stack : OperandStack ω} {values : List (Argument ω)}
    {capacity : Nat} {known : Known} (intact : stack.Intact) (small : stack.handles.Small)
    (shows : stack.Shown (picture capacity values known)) (few : FewReferences (values ++ arguments)) :
    (finalState ((pushAll arguments).run stack)).handles.Small := by
  induction arguments generalizing stack values known with
  | nil => exact small
  | cons argument rest ih =>
    have fewer : FewReferences values := by
      unfold FewReferences at *
      rw [handleCount_append] at few
      omega
    have mirrors := mirrors_pushOperand argument.ty argument.value
    have first := small_of_allocatesAtMost (allocatesAtMost_pushOperand argument.ty argument.value) intact small shows
      fewer
    have mirrored := mirrors.mirrored stack intact first _ shows
    have kept := mirrors.intact stack intact
    rw [pushAll, run_bind]
    by_cases room : valueWords (values ++ [argument]) ≤ capacity
    · rw [Image.push_picture argument.value room] at mirrored
      obtain ⟨final, ran, shown⟩ := mirrored
      rw [ran] at first kept
      rw [Machine.bind_ok ran]
      rw [List.append_cons] at few
      exact ih kept first shown few
    · rw [Image.push_picture_full argument.value (Nat.not_le.mp room)] at mirrored
      obtain ⟨final, ran⟩ := mirrored
      rw [ran] at first
      rw [Machine.bind_error ran]
      exact first

theorem allocatesAtMost_popResult (result : Option Ty) : (popResult result : Script ω _).AllocatesAtMost 0 := by
  cases result with
  | none => trivial
  | some ty => exact allocatesAtMost_popOperand ty

end Script

namespace Machine

variable {H : Type}

/-- A machine whose stack and frames are those of the activations of a typed machine. -/
structure Simulates (config : Config) (activations : List (Activation H)) (m : Machine H) : Prop where
  frames_eq : m.frames = ⟨placed activations, config.maxFrames⟩
  shows : m.stack.Shown (picture config.stackDepth (allValues activations) .nothing)
  intact : m.stack.Intact
  small : m.stack.handles.Small

variable (adapters : Adapters H) {config : Config} {activations next : List (Activation H)} {m : Machine H}

theorem Simulates.small_tick (simulates : Simulates config activations m)
    (few : FewReferences (allValues activations)) : (tick adapters.table.link m).machine.stack.handles.Small := by
  obtain ⟨_, shows, intact, small⟩ := simulates
  obtain ⟨⟨active, limit⟩, stack, journal⟩ := m
  cases active with
  | nil => exact small
  | cons frame below =>
    cases fetched : frame.routine.chunk.fetch frame.ip with
    | error error =>
      obtain ⟨later, ticked⟩ := tick_fetch_error adapters.table.link below limit stack journal fetched
      rw [ticked]
      exact small
    | ok instruction =>
      obtain ⟨later, ticked⟩ := tick_eq adapters.table.link below limit stack journal fetched
      rw [ticked, stack_after, ← Script.run_effect]
      exact Script.small_of_allocatesAtMost (Script.allocatesAtMost_effect adapters frame.advanced instruction)
        intact small shows few

theorem Simulates.alongside (simulates : Simulates config activations m)
    (few : FewReferences (allValues activations)) :
    Alongside (tick adapters.table.link m) (Image.typedTick adapters config activations) := by
  rw [Image.typedTick, ← simulates.frames_eq]
  exact alongside_tick adapters simulates.intact (simulates.small_tick adapters few) simulates.shows

variable {adapters}

/-- The word machine follows every step of the typed one. -/
theorem Simulates.step (simulates : Simulates config activations m) (few : FewReferences (allValues activations))
    (fits : config.Fits activations) (stepped : TypedStep adapters activations next) (room : config.Fits next) :
    ∃ later, tick adapters.table.link m = .running later ∧ Simulates config next later := by
  have alongside := simulates.alongside adapters few
  have upheld := (upheld_tick adapters.propagates simulates.intact).2
  have small := simulates.small_tick adapters few
  obtain ⟨known, reached⟩ := (Image.reaches_of_step fits stepped).fits room
  rw [reached] at alongside
  obtain ⟨later, ticked, frames_eq, shows⟩ := alongside
  rw [ticked] at upheld small
  exact ⟨later, ticked, frames_eq, shows.forget, upheld, small⟩

/-- What a run of the word machine comes to when the one of the typed machine ends like this. -/
def Delivers (config : Config) : Outcome H → EStateM.Result Fault (Machine H) Unit → Prop
  | .ok values, outcome => ∃ final, outcome = .ok () final ∧
      final.stack.Shown (picture config.stackDepth values .nothing) ∧ final.stack.Intact ∧ final.stack.handles.Small
  | .error fault, outcome => ∃ final, outcome = .error fault final

theorem Simulates.ends (simulates : Simulates config activations m) (few : FewReferences (allValues activations))
    (fits : config.Fits activations) {outcome : Outcome H} (ended : TypedEnd config activations outcome) :
    Delivers config outcome (run adapters.table.link m) := by
  have alongside := simulates.alongside adapters few
  cases ended with
  | finished _ returns =>
    have upheld := (upheld_tick adapters.propagates simulates.intact).2
    have small := simulates.small_tick adapters few
    obtain ⟨known, halted⟩ := Image.tick_finished adapters config returns
    rw [halted] at alongside
    obtain ⟨final, ticked, shows⟩ := alongside
    rw [ticked] at upheld small
    exact ⟨final, run_of_halted ticked, shows.forget, upheld, small⟩
  | overflow _ fetches holds unsummed =>
    rw [Image.tick_overflow fetches holds unsummed] at alongside
    obtain ⟨final, ticked⟩ := alongside
    exact ⟨final, run_of_faulted ticked⟩
  | stackFull full => exact absurd fits.words (Nat.not_le.mpr full)
  | framesFull room full => exact absurd fits.frames (Nat.not_le.mpr full)

/-- A step that exceeds a limit ends the run. -/
theorem Simulates.exceeds (simulates : Simulates config activations m) (few : FewReferences (allValues activations))
    (fits : config.Fits activations) (stepped : TypedStep adapters activations next) (full : ¬ config.Fits next)
    {outcome : Outcome H} (ended : TypedEnd config next outcome) :
    Delivers config outcome (run adapters.table.link m) := by
  have alongside := simulates.alongside adapters few
  have reaches := Image.reaches_of_step fits stepped
  cases ended with
  | finished room _ => exact absurd room full
  | overflow room _ _ _ => exact absurd room full
  | stackFull full =>
    rw [reaches.stackFull full] at alongside
    obtain ⟨final, ticked⟩ := alongside
    exact ⟨final, run_of_faulted ticked⟩
  | framesFull room full =>
    rw [reaches.framesFull room full] at alongside
    obtain ⟨final, ticked⟩ := alongside
    exact ⟨final, run_of_faulted ticked⟩

/-- The word machine follows every run of the typed one to its end. -/
theorem Simulates.run (simulates : Simulates config activations m) (fits : config.Fits activations)
    {last : List (Activation H)} (ran : TypedRun adapters config activations last)
    (few : ∀ visited, TypedRun adapters config activations visited → FewReferences (allValues visited))
    {outcome : Outcome H} (ended : TypedEnd config last outcome) :
    Delivers config outcome (run adapters.table.link m) := by
  induction ran using Relation.ReflTransGen.head_induction_on generalizing m with
  | refl => exact simulates.ends (few _ .refl) fits ended
  | @head activations next stepped rest ih =>
    by_cases room : config.Fits next
    · obtain ⟨later, ticked, follows⟩ := simulates.step (few _ .refl) fits stepped.2 room
      rw [run_of_running ticked]
      exact ih follows room fun visited further => few visited (.head stepped further)
    · -- a state that exceeds a limit is the last one
      rcases rest.cases_head with rfl | ⟨_, further, _⟩
      · exact simulates.exceeds (few _ .refl) fits stepped.2 room ended
      · exact absurd further.1 room

/-- What a call of the word machine comes to: a run that finishes leaves nothing behind on the stack. -/
def Answers (config : Config) (result : Option Ty) : Outcome H →
    EStateM.Result Fault (Machine H) (Result (Object H) result) → Prop
  | .ok values, outcome => ∃ value final, outcome = .ok value final ∧ Result.values result value = values ∧
      final.stack.Shown (picture config.stackDepth [] .nothing)
  | .error fault, outcome => ∃ final, outcome = .error fault final

/-- The arguments of a call stand on the stack, or they do not fit. -/
theorem Simulates.pushAll (simulates : Simulates config [] m) (arguments : List (Argument (Object H)))
    (few : FewReferences arguments) :
    (valueWords arguments ≤ config.stackDepth →
      ∃ pushed, onStack (StackM.pushAll arguments) m = .ok () pushed ∧ pushed.frames = m.frames ∧
        pushed.stack.Shown (picture config.stackDepth arguments .nothing) ∧ pushed.stack.Intact ∧
        pushed.stack.handles.Small) ∧
      (config.stackDepth < valueWords arguments →
        ∃ final, onStack (StackM.pushAll arguments) m = .error .stackOverflow final) := by
  obtain ⟨frames_eq, shows, intact, small⟩ := simulates
  obtain ⟨frames, stack, journal⟩ := m
  have mirrors := Script.mirrors_pushAll arguments
  have last := Script.small_pushAll arguments intact small shows few
  have mirrored := mirrors.mirrored stack intact last _ shows
  have kept := mirrors.intact stack intact
  rw [Script.run_pushAll] at mirrored kept last
  refine ⟨fun room => ?_, fun full => ?_⟩
  · obtain ⟨known, pushed⟩ : ∃ known, Image.pushAll arguments (picture config.stackDepth (allValues []) .nothing) =
        .ok () (picture config.stackDepth arguments known) := Image.pushAll_picture arguments room
    rw [pushed] at mirrored
    obtain ⟨final, ran, shown⟩ := mirrored
    rw [ran] at kept last
    exact ⟨_, onStack_ok ran, rfl, shown.forget, kept, last⟩
  · obtain ⟨image, failed⟩ : ∃ image, Image.pushAll arguments (picture config.stackDepth (allValues []) .nothing) =
        .error (.fault .stackOverflow) image := Image.pushAll_picture_full arguments (Nat.zero_le _) full
    rw [failed] at mirrored
    obtain ⟨final, ran⟩ := mirrored
    exact ⟨_, onStack_error ran⟩

/-- The result of a run that finished is taken from the stack. -/
theorem pops {result : Option Ty} {value : Result (Object H) result} (intact : m.stack.Intact)
    (small : m.stack.handles.Small)
    (shows : m.stack.Shown (picture config.stackDepth (Result.values result value) .nothing)) :
    ∃ final, onStack (StackM.popResult result) m = .ok value final ∧
      final.stack.Shown (picture config.stackDepth [] .nothing) := by
  obtain ⟨frames, stack, journal⟩ := m
  have last := Script.small_of_allocatesNone (Script.allocatesAtMost_popResult result) intact.consistent small
  have mirrored := (Script.mirrors_popResult result).mirrored stack intact last _ shows
  rw [Script.run_popResult, ← List.nil_append (Result.values result value),
    Image.popResult_picture config.stackDepth [] value] at mirrored
  obtain ⟨final, ran, shown⟩ := mirrored
  exact ⟨_, onStack_ok ran, shown⟩

theorem offset_of_shows {stack : OperandStack (Object H)} {values : List (Argument (Object H))}
    (shows : stack.Shown (picture config.stackDepth values .nothing)) : stack.offset = valueWords values := by
  rw [← shows.length_words, picture, length_layout]

/-- A routine is entered once its arguments stand on the stack, or there is no room for its frame. -/
theorem entering {routine : Routine (Object H)} {arguments : List (Argument (Object H))}
    (declared : arguments.map Argument.ty = routine.signature.types) (frames_eq : m.frames = ⟨[], config.maxFrames⟩)
    (intact : m.stack.Intact) (small : m.stack.handles.Small)
    (shows : m.stack.Shown (picture config.stackDepth arguments .nothing)) :
    (1 ≤ config.maxFrames →
      ∃ entered, enter routine m = .ok () entered ∧ Simulates config [⟨routine, 0, arguments⟩] entered) ∧
      (config.maxFrames < 1 → ∃ final, enter routine m = .error (.callStackOverflow config.maxFrames) final) := by
  obtain ⟨frames, stack, journal⟩ := m
  obtain rfl : frames = ⟨[], config.maxFrames⟩ := frames_eq
  have argumentWords : routine.signature.argumentWords = valueWords arguments := by
    rw [← totalWords_types, ← declared]
    rfl
  have offset : stack.offset = routine.signature.argumentWords := (offset_of_shows shows).trans argumentWords.symm
  rcases enter_cases routine ⟨[], config.maxFrames⟩ stack journal with
    ⟨low, _⟩ | ⟨_, later, ⟨full, failed⟩ | ⟨next, pushed, entered⟩⟩
  · omega
  · refine ⟨fun room => ?_, fun _ => ⟨_, failed⟩⟩
    cases (if_pos room).symm.trans full
  · refine ⟨fun room => ⟨_, entered, ?_, shows, intact, small⟩, fun none_left => ?_⟩
    · cases pushed.symm.trans (if_pos room)
      rw [offset, Nat.sub_self]
      rfl
    · cases pushed.symm.trans (if_neg (Nat.not_lt.mpr (Nat.le_of_lt_succ none_left)))

/-- The result that a finished call leaves is taken from the stack, which is empty then. -/
theorem collects {signature : Signature} {value : Result (Object H) signature.result} (intact : m.stack.Intact)
    (small : m.stack.handles.Small)
    (shows : m.stack.Shown (picture config.stackDepth (Result.values _ value) .nothing)) :
    Answers config signature.result (.ok (Result.values _ value))
      ((do
        onStack (checkLeft signature 0)
        onStack (StackM.popResult signature.result) : MachineM H _) m) := by
  have left : onStack (checkLeft signature 0) m = .ok () m := by
    obtain ⟨frames, stack, journal⟩ := m
    have offset : stack.offset = signature.returnWords := (offset_of_shows shows).trans (valueWords_result value)
    refine onStack_ok ?_
    unfold checkLeft
    rw [if_neg (Nat.not_lt_zero _)]
    exact if_pos offset
  obtain ⟨final, popped, shown⟩ := pops intact small shows
  exact ⟨value, final, (bind_ok left).trans popped, rfl, shown⟩

theorem passes {signature : Signature} {arguments : List (Argument (Object H))}
    (declared : arguments.map Argument.ty = signature.types)
    (shows : m.stack.Shown (picture config.stackDepth arguments .nothing)) :
    onStack (checkPushed signature 0) m = .ok () m := by
  obtain ⟨frames, stack, journal⟩ := m
  have offset : stack.offset = signature.argumentWords := by
    rw [offset_of_shows shows, ← totalWords_types, ← declared]
    rfl
  exact onStack_ok (if_pos offset)

theorem clearingFrames_error {α : Type} {step : MachineM H α} {final : Machine H} {fault : Fault}
    (failed : step m = .error fault final) : ∃ last, clearingFrames step m = .error fault last := by
  unfold clearingFrames
  rw [failed]
  exact ⟨_, rfl⟩

/-- A call of the word machine comes to what the run of the typed machine ends with. -/
theorem Simulates.execute (simulates : Simulates config [] m)
    {routine : Routine (Object H)} {arguments : List (Argument (Object H))}
    (declared : arguments.map Argument.ty = routine.signature.types) {last : List (Activation H)}
    (ran : TypedRun adapters config [⟨routine, 0, arguments⟩] last)
    (few : ∀ visited, TypedRun adapters config [⟨routine, 0, arguments⟩] visited → FewReferences (allValues visited))
    {outcome : Outcome H} (ended : TypedEnd config last outcome) :
    Answers config routine.signature.result outcome
      (execute adapters.table.link routine arguments routine.signature.result m) := by
  have empty : m.stack.offset = 0 := offset_of_shows simulates.shows
  have started : onStack StackM.offset m = .ok m.stack.offset m := rfl
  obtain ⟨pushes, overflows⟩ := simulates.pushAll arguments (few _ .refl)
  unfold Machine.execute
  rw [bind_ok started, empty]
  by_cases room : valueWords arguments ≤ config.stackDepth
  · obtain ⟨pushed, pushing, frames_eq, shows, intact, small⟩ := pushes room
    rw [bind_ok pushing, bind_ok (passes declared shows)]
    obtain ⟨enters, overflows⟩ := entering declared (frames_eq.trans simulates.frames_eq) intact small shows
    by_cases depth : 1 ≤ config.maxFrames
    · obtain ⟨entered, entering, follows⟩ := enters depth
      have delivers := follows.run ⟨room, depth⟩ ran few ended
      cases outcome with
      | error fault =>
        obtain ⟨final, failed⟩ := delivers
        have stopped : (do enter routine; Machine.run adapters.table.link : MachineM H Unit) pushed =
            .error fault final := (bind_ok entering).trans failed
        obtain ⟨last, cleared⟩ := clearingFrames_error stopped
        exact ⟨last, bind_error cleared⟩
      | ok values =>
        obtain ⟨final, finished, shows, intact, small⟩ := delivers
        have cleared : clearingFrames (do enter routine; Machine.run adapters.table.link) pushed = .ok () final :=
          clearingFrames_eq_ok.mpr ((bind_ok entering).trans finished)
        rw [bind_ok cleared]
        cases ended with
        | @finished activation result _ _ =>
          obtain rfl : activation.routine = routine := Option.some.inj ran.outermost
          exact collects intact small shows
    · obtain rfl := ran.eq_of_exceeding fun fits => depth fits.frames
      obtain ⟨final, failed⟩ := overflows (Nat.not_le.mp depth)
      have stopped : (do enter routine; Machine.run adapters.table.link : MachineM H Unit) pushed =
          .error (.callStackOverflow config.maxFrames) final := bind_error failed
      obtain ⟨last, cleared⟩ := clearingFrames_error stopped
      cases ended with
      | finished fits _ => exact absurd fits.frames depth
      | overflow fits _ _ _ => exact absurd fits.frames depth
      | stackFull full => exact absurd room (Nat.not_le.mpr full)
      | framesFull _ _ => exact ⟨last, bind_error cleared⟩
  · obtain rfl := ran.eq_of_exceeding fun fits => room fits.words
    obtain ⟨final, failed⟩ := overflows (Nat.not_le.mp room)
    rw [bind_error failed]
    cases ended with
    | finished fits _ => exact absurd fits.words room
    | overflow fits _ _ _ => exact absurd fits.words room
    | stackFull _ => exact ⟨final, rfl⟩
    | framesFull fits _ => exact absurd fits room

end Machine

namespace VM

variable {H : Type}

theorem Stocked.simulates {vm : VM H} (stocked : vm.Stocked) (small : vm.lent.stack.handles.Small) :
    Machine.Simulates vm.config [] vm.lent :=
  ⟨vm.lent_frames, stocked.shown_lent, stocked.intact, small⟩

/-- Whatever the stacks in the pool were used for, by calls or by the host itself, a call with the declared types comes
to what the run of the typed machine ends with: its result, a sum out of range, or the limit that it exceeds. After a
result the stack is empty and no handle is live. -/
theorem Stocked.call_simulates {vm : VM H} (stocked : vm.Stocked) (small : vm.lent.stack.handles.Small)
    {adapters : Adapters H} {routine : Routine (Object H)} {arguments : List (Argument (Object H))} {result : Option Ty}
    (matching : routine.signature.check (arguments.map Argument.ty) result = .ok ()) {last : List (Activation H)}
    (ran : TypedRun adapters vm.config [⟨routine, 0, arguments⟩] last)
    (few : ∀ visited, TypedRun adapters vm.config [⟨routine, 0, arguments⟩] visited →
      FewReferences (allValues visited))
    {outcome : Outcome H} (ended : TypedEnd vm.config last outcome) :
    (vm.call adapters.table.link routine arguments result).1.map (Result.values result) = outcome ∧
      (outcome.isOk →
        (finalState (Machine.execute adapters.table.link routine arguments result vm.lent)).stack.offset = 0 ∧
        (finalState (Machine.execute adapters.table.link routine arguments result vm.lent)).stack.handles.live =
          0) := by
  have simulates := stocked.simulates small
  obtain ⟨declared, rfl⟩ := Signature.check_eq_ok matching
  have answers := simulates.execute declared ran few ended
  unfold VM.call
  rw [matching]
  dsimp only
  rw [callUnchecked_eq]
  cases outcome with
  | error fault =>
    obtain ⟨final, executed⟩ := answers
    rw [executed]
    exact ⟨rfl, nofun⟩
  | ok values =>
    obtain ⟨value, final, executed, rfl, shows⟩ := answers
    rw [executed]
    exact ⟨rfl, fun _ => ⟨Machine.offset_of_shows shows, shows.live_eq⟩⟩

end VM

namespace Doubling

def config : Config := ⟨8, 2, 1, 1⟩

def twice : Routine (Object Unit) where
  signature := ⟨"Twice", some (.scalar .int), [⟨"n", .scalar .int⟩]⟩
  chunk := Chunk.of [.getLocal (.scalar .int) 0, .getLocal (.scalar .int) 0, .add (.scalar .int), .ret] .empty

def double : Routine (Object Unit) where
  signature := ⟨"Double", some (.scalar .int), [⟨"n", .scalar .int⟩]⟩
  chunk := Chunk.of [.getLocal (.scalar .int) 0, .call 0, .ret] ⟨#[1, 0, 0, 0, 0, 0, 0, 0], #[.routine twice], #[0]⟩

def int (n : Int32) : Argument (Object Unit) := ⟨.scalar .int, n⟩

theorem run_double :
    TypedRun Adapters.none config [⟨double, 0, [int 21]⟩] [⟨double, 2, [int 21, int 42]⟩] := by
  have loads : TypedStep Adapters.none [⟨double, 0, [int 21]⟩] [⟨double, 1, [int 21, int 21]⟩] :=
    @TypedStep.getLocal _ _ ⟨double, 0, [int 21]⟩ [] (.scalar .int) 0 (21 : Int32) [] [] rfl rfl rfl
  have calls : TypedStep Adapters.none [⟨double, 1, [int 21, int 21]⟩]
      [⟨twice, 0, [int 21]⟩, ⟨double, 2, [int 21]⟩] :=
    @TypedStep.call _ _ ⟨double, 1, [int 21, int 21]⟩ [] 0 twice [int 21] [int 21] rfl rfl rfl rfl
  have first : TypedStep Adapters.none [⟨twice, 0, [int 21]⟩, ⟨double, 2, [int 21]⟩]
      [⟨twice, 1, [int 21, int 21]⟩, ⟨double, 2, [int 21]⟩] :=
    @TypedStep.getLocal _ _ ⟨twice, 0, [int 21]⟩ _ (.scalar .int) 0 (21 : Int32) [] [] rfl rfl rfl
  have second : TypedStep Adapters.none [⟨twice, 1, [int 21, int 21]⟩, ⟨double, 2, [int 21]⟩]
      [⟨twice, 2, [int 21, int 21, int 21]⟩, ⟨double, 2, [int 21]⟩] :=
    @TypedStep.getLocal _ _ ⟨twice, 1, [int 21, int 21]⟩ _ (.scalar .int) 0 (21 : Int32) [] [int 21] rfl rfl rfl
  have adds : TypedStep Adapters.none [⟨twice, 2, [int 21, int 21, int 21]⟩, ⟨double, 2, [int 21]⟩]
      [⟨twice, 3, [int 21, int 42]⟩, ⟨double, 2, [int 21]⟩] :=
    @TypedStep.add _ _ ⟨twice, 2, [int 21, int 21, int 21]⟩ _ .int (21 : Int32) (21 : Int32) (42 : Int32) [int 21]
      rfl rfl (.int 21 21)
  have returns : TypedStep Adapters.none [⟨twice, 3, [int 21, int 42]⟩, ⟨double, 2, [int 21]⟩]
      [⟨double, 2, [int 21, int 42]⟩] :=
    @TypedStep.ret _ _ ⟨twice, 3, [int 21, int 42]⟩ ⟨double, 2, [int 21]⟩ [] (42 : Int32) ⟨rfl, [int 21], rfl, rfl⟩
  exact .head ⟨⟨by decide, by decide⟩, loads⟩ (.head ⟨⟨by decide, by decide⟩, calls⟩
    (.head ⟨⟨by decide, by decide⟩, first⟩ (.head ⟨⟨by decide, by decide⟩, second⟩
      (.head ⟨⟨by decide, by decide⟩, adds⟩ (.single ⟨⟨by decide, by decide⟩, returns⟩)))))

end Doubling

namespace VM

theorem Stocked.call_simulates_double :
    ((VM.create Doubling.config .silent).call Adapters.none.table.link Doubling.double [Doubling.int 21]
      (some (.scalar .int))).1.map (Result.values _) = .ok [Doubling.int 42] := by
  have ended : TypedEnd Doubling.config [⟨Doubling.double, 2, [Doubling.int 21, Doubling.int 42]⟩]
      (.ok [Doubling.int 42]) :=
    @TypedEnd.finished _ _ ⟨Doubling.double, 2, [Doubling.int 21, Doubling.int 42]⟩ (42 : Int32)
      ⟨by decide, by decide⟩ ⟨rfl, [Doubling.int 21], rfl, rfl⟩
  refine (Stocked.call_simulates (stocked_create Doubling.config .silent) ?_ ?_ Doubling.run_double ?_ ended).1
  · decide
  · rfl
  · exact fun visited ran => ran.fewReferences (by decide) (by decide)

end VM

end WordMachine
