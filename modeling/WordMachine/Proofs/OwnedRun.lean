import WordMachine.Host.VM
import WordMachine.Proofs.Driven
import WordMachine.Proofs.OwnedScripts

namespace WordMachine

theorem totalWords_types (signature : Signature) : totalWords signature.types = signature.argumentWords := by
  unfold Signature.types Signature.argumentWords
  induction signature.parameters with
  | nil => rfl
  | cons parameter rest ih => simp only [List.map_cons, totalWords, parameterWords, ih]

theorem Signature.check_eq_ok {signature : Signature} {types : List Ty} {result : Option Ty}
    (matching : signature.check types result = .ok ()) : types = signature.types ∧ result = signature.result := by
  unfold Signature.check at matching
  split at matching
  · assumption
  · cases matching

/-- Tables whose host code passes the faults of its operations on. -/
def HostTable.Propagates {H : Type} (table : HostTable H) : Prop :=
  ∀ value code, table value = some code → code.body.Propagating

/-- Code that a constant refers to stands in the table. -/
theorem ConstantPool.exists_of_readCode {H : Type} {table : HostTable H} {pool : ConstantPool (Object H)}
    {position : Position} {code : HostCode (Object H)} (read : pool.readCode table position = .ok code) :
    ∃ value, table value = some code := by
  unfold ConstantPool.readCode ConstantPool.readAs at read
  split at read
  · cases read
  · split at read
    · rename_i view
      cases read
      obtain ⟨object, _, viewed⟩ := Option.bind_eq_some_iff.mp view
      obtain ⟨value, _, found⟩ := Option.bind_eq_some_iff.mp viewed
      exact ⟨value, found⟩
    · cases read

theorem HostTable.Propagates.of_readCode {H : Type} {table : HostTable H} (propagates : table.Propagates)
    {pool : ConstantPool (Object H)} {position : Position} {code : HostCode (Object H)}
    (read : pool.readCode table position = .ok code) : code.body.Propagating := by
  obtain ⟨value, found⟩ := ConstantPool.exists_of_readCode read
  exact propagates value code found

namespace Script

variable {H : Type} {stack : OperandStack (Object H)}

/-- Releasing the references among the arguments leaves the rest of the frame in order. -/
theorem meets_releaseArguments (base start : Nat) (types : List Ty)
    (keeps : stack.Keeps (fun slot => slot < stack.offset ∧ ¬(base ≤ slot ∧ slot < base + start)) Handle.null) :
    (releaseArguments base (slotsFrom start types)).Meets Access.Honest stack (Good fun _ final =>
      final.offset = stack.offset ∧ final.Keeps (fun slot =>
        slot < stack.offset ∧ ¬(base ≤ slot ∧ slot < base + start + totalWords types)) Handle.null) := by
  induction types generalizing stack start with
  | nil => exact meets_pure ⟨rfl, keeps⟩
  | cons ty rest ih =>
    have positive := ty.words_pos
    cases ty with
    | scalar kind =>
      have fewer : stack.Keeps (fun slot =>
          slot < stack.offset ∧ ¬(base ≤ slot ∧ slot < base + (start + (Ty.scalar kind).words))) Handle.null :=
        keeps.mono fun slot inside => ⟨inside.1, by omega⟩
      refine (ih (start + (Ty.scalar kind).words) fewer).mono ?_
      rintro (⟨_, final⟩ | ⟨fault, final⟩) good
      · refine ⟨good.1, good.2.mono fun slot inside => ⟨inside.1, ?_⟩⟩
        simp only [totalWords] at inside
        omega
      · exact good
    | object =>
      refine (meets_readHandle (base + start) keeps).andThen ?_
      rintro handle current ⟨rfl, live, tag, rfl⟩
      have taken := keeps.take ⟨⟨live, fun inside => Nat.lt_irrefl _ inside.2⟩, tag⟩
      refine (meets_release taken).andThen ?_
      rintro object next ⟨kept, same⟩
      have fewer : next.Keeps (fun slot =>
          slot < next.offset ∧ ¬(base ≤ slot ∧ slot < base + (start + Ty.object.words))) Handle.null := by
        refine kept.mono fun slot inside => ⟨⟨by omega, by omega⟩, ?_⟩
        have one : Ty.object.words = 1 := rfl
        omega
      refine (ih (start + Ty.object.words) fewer).mono ?_
      rintro (⟨_, final⟩ | ⟨fault, final⟩) good
      · refine ⟨good.1.trans same, good.2.mono fun slot inside => ⟨by omega, ?_⟩⟩
        simp only [totalWords] at inside
        omega
      · exact good

theorem meets_checkReturn (signature : Signature) (base : Nat) (intact : stack.Intact) :
    (checkReturn signature base).Meets Access.Honest stack (Good fun _ final =>
      final = stack ∧ stack.offset = base + signature.argumentWords + signature.returnWords) := by
  refine meets_usage.andThen ?_
  rintro used _ ⟨rfl, same⟩
  dsimp only
  split
  · exact meets_raise intact trivial
  · split
    · exact meets_raise intact trivial
    · exact meets_pure ⟨rfl, by omega⟩

theorem meets_describeResult (signature : Signature) (base : Nat) :
    (describeResult signature base).Meets Access.Honest stack (Good fun _ final => final = stack) := by
  unfold describeResult
  split
  · exact meets_describeAll base _
  · exact meets_pure rfl

/-- A return hands its result over with all references in order. -/
theorem meets_leave_owned (frame : Frame H) (intact : stack.Intact) :
    (leave frame).Meets Access.Honest stack (Good fun _ final => final.Intact) := by
  refine (meets_checkReturn frame.routine.signature frame.base intact).andThen ?_
  rintro _ _ ⟨rfl, full⟩
  refine (meets_describeResult frame.routine.signature frame.base).andThen ?_
  rintro _ middle rfl
  have all : middle.Keeps
      (fun slot => slot < middle.offset ∧ ¬(frame.base ≤ slot ∧ slot < frame.base + 0)) Handle.null :=
    intact.mono fun slot inside => inside.1
  refine (meets_releaseArguments frame.base 0 frame.routine.signature.types all).andThen ?_
  rintro _ released ⟨same, keeps⟩
  rw [Nat.add_zero, totalWords_types] at keeps
  have rest : released.Keeps (fun slot => slot < frame.base ∨
      (frame.base + frame.routine.signature.argumentWords ≤ slot ∧ slot < frame.base +
        frame.routine.signature.argumentWords + frame.routine.signature.returnWords)) Handle.null :=
    keeps.mono fun slot inside => ⟨by omega, by omega⟩
  have moved := OperandStack.Keeps.moveDown (Nat.le_add_right ..) (by omega) rest
  exact Meets.bind (meets_call trivial (meets_call trivial moved))

theorem meets_enter_owned (routine : Routine (Object H)) (intact : stack.Intact) :
    (enter routine).Meets Access.Honest stack (Good fun _ final => final.Intact) := by
  refine (meets_slotUnder _ intact).andThen ?_
  rintro base _ rfl
  refine (meets_describeAll base _).andThen ?_
  rintro _ _ rfl
  exact meets_pure intact

theorem meets_effect_owned {table : HostTable H} (propagates : table.Propagates) (frame : Frame H)
    (instruction : Instruction) (intact : stack.Intact) :
    (effect table frame instruction).Meets Access.Honest stack (Good fun _ final => final.Intact) := by
  have keeping : ∀ {script : Script (Object H) Unit},
      script.Meets Access.Honest stack (Good fun _ final => final.Intact) →
      (keeping script).Meets Access.Honest stack (Good fun _ final => final.Intact) :=
    fun meets => meets.andThen fun _ _ kept => meets_pure kept
  cases instruction with
  | constant ty position => exact keeping (meets_pushConstant _ ty position intact)
  | add ty => exact keeping (meets_addTop ty intact)
  | pop ty => exact keeping ((meets_popOperand ty intact).andThen fun _ _ kept => meets_pure kept)
  | setLocal ty offset => exact keeping (meets_storeLocal ty _ intact)
  | getLocal ty offset => exact keeping (meets_loadLocal ty _ intact)
  | call position =>
    simp only [effect]
    split
    · exact meets_enter_owned _ intact
    · exact meets_raise intact trivial
  | externalCall position =>
    simp only [effect]
    split
    · rename_i read
      exact keeping (meets_callCode (propagates.of_readCode read) intact)
    · exact meets_raise intact trivial
  | ret => exact (meets_leave_owned frame intact).andThen fun _ _ kept => meets_pure kept

end Script

/-- After an instruction all references are in order, or it failed and blames no handle. -/
def Progress.Upheld {H : Type} : Progress H → Prop
  | .running m => m.stack.Intact
  | .halted m => m.stack.Intact
  | .faulted fault m => Script.Failed fault m.stack

namespace Machine

variable {H : Type}

theorem upheld_after {frames : Frames H} {journal : Journal}
    {outcome : EStateM.Result Fault (OperandStack (Object H)) (FrameChange H)}
    (good : Script.Good (fun _ final => final.Intact) outcome) : (Progress.after frames journal outcome).Upheld := by
  cases outcome with
  | error fault final => exact good
  | ok change final =>
    simp only [Progress.after]
    split
    · split <;> exact good
    · exact Script.failed_of_keeps good trivial

/-- One instruction only deals with handles that refer to something, and leaves the references in order. -/
theorem upheld_tick {table : HostTable H} (propagates : table.Propagates) {m : Machine H} (intact : m.stack.Intact) :
    (∀ entry ∈ tickTrace table m, entry.1.Honest entry.2) ∧ (tick table.link m).Upheld := by
  obtain ⟨⟨active, limit⟩, stack, journal⟩ := m
  cases active with
  | nil => exact ⟨fun entry member => (List.not_mem_nil member).elim, intact⟩
  | cons frame below =>
    cases fetched : frame.routine.chunk.fetch frame.ip with
    | error error =>
      obtain ⟨later, ticked⟩ := tick_fetch_error table.link below limit stack journal fetched
      rw [ticked]
      simp only [tickTrace, fetched]
      refine ⟨fun entry member => (List.not_mem_nil member).elim, ?_⟩
      exact Script.failed_of_keeps intact trivial
    | ok instruction =>
      obtain ⟨later, ticked⟩ := tick_eq table.link below limit stack journal fetched
      rw [ticked]
      simp only [tickTrace, fetched]
      obtain ⟨honest, good⟩ :=
        Script.meets_iff.mp (Script.meets_effect_owned propagates frame.advanced instruction intact)
      rw [Script.run_effect] at good
      exact ⟨honest, upheld_after good⟩

/-- Outcomes with all references in order, or a fault that blames no handle. -/
def Upheld {α : Type} : EStateM.Result Fault (Machine H) α → Prop
  | .ok _ final => final.stack.Intact
  | .error fault final => Script.Failed fault final.stack

/-- Steps that keep the references in order. -/
def Upholds {α : Type} (step : MachineM H α) : Prop :=
  ∀ m : Machine H, m.stack.Intact → Upheld (step m)

theorem Upholds.bind {α β : Type} {step : MachineM H α} {next : α → MachineM H β} (first : Upholds step)
    (rest : ∀ value, Upholds (next value)) : Upholds (step >>= next) := by
  intro m intact
  have middle := first m intact
  cases ran : step m with
  | ok value final =>
    rw [ran] at middle
    rw [bind_ok ran]
    exact rest value final middle
  | error fault final =>
    rw [ran] at middle
    rw [bind_error ran]
    exact middle

theorem upholds_onStack {α : Type} {step : StackM (Object H) α}
    (good : ∀ stack : OperandStack (Object H), stack.Intact → Script.Good (fun _ final => final.Intact) (step stack)) :
    Upholds (onStack step) := by
  rintro ⟨frames, stack, journal⟩ intact
  have kept := good stack intact
  cases ran : step stack with
  | ok value final =>
    rw [ran] at kept
    rw [onStack_ok ran]
    exact kept
  | error fault final =>
    rw [ran] at kept
    rw [onStack_error ran]
    exact kept

theorem upholds_pushAll (arguments : List (Argument (Object H))) : Upholds (onStack (StackM.pushAll arguments)) := by
  refine upholds_onStack fun stack intact => ?_
  rw [← Script.run_pushAll]
  exact (Script.meets_iff.mp (Script.meets_pushAll arguments intact)).2

theorem upholds_popResult (result : Option Ty) : Upholds (onStack (StackM.popResult result) : MachineM H _) := by
  refine upholds_onStack fun stack intact => ?_
  rw [← Script.run_popResult]
  exact (Script.meets_iff.mp (Script.meets_popResult result intact)).2

theorem upholds_checkPushed (signature : Signature) (start : Nat) :
    Upholds (onStack (checkPushed signature start) : MachineM H Unit) := by
  refine upholds_onStack fun stack intact => ?_
  unfold checkPushed
  split
  · exact intact
  · exact Script.failed_of_keeps intact trivial

theorem upholds_checkLeft (signature : Signature) (start : Nat) :
    Upholds (onStack (checkLeft signature start) : MachineM H Unit) := by
  refine upholds_onStack fun stack intact => ?_
  unfold checkLeft
  split
  · exact Script.failed_of_keeps intact trivial
  · split
    · exact intact
    · exact Script.failed_of_keeps intact trivial

/-- A call leaves the stack alone, whether it finds its arguments and room for its frame or not. -/
theorem enter_cases (routine : Routine (Object H)) (frames : Frames H) (stack : OperandStack (Object H))
    (journal : Journal) :
    (stack.offset < routine.signature.argumentWords ∧
        enter routine ⟨frames, stack, journal⟩ = .error .stackUnderflow ⟨frames, stack, journal⟩) ∨
      routine.signature.argumentWords ≤ stack.offset ∧ ∃ later,
        (frames.push? ⟨routine, 0, stack.offset - routine.signature.argumentWords⟩ = none ∧
          enter routine ⟨frames, stack, journal⟩ = .error (.callStackOverflow frames.limit) ⟨frames, stack, later⟩) ∨
        ∃ next, frames.push? ⟨routine, 0, stack.offset - routine.signature.argumentWords⟩ = some next ∧
          enter routine ⟨frames, stack, journal⟩ = .ok () ⟨next, stack, later⟩ := by
  unfold enter
  by_cases low : stack.offset < routine.signature.argumentWords
  · have missing : slotBelow routine.signature.argumentWords (⟨frames, stack, journal⟩ : Machine H) =
        .error .stackUnderflow ⟨frames, stack, journal⟩ := if_pos low
    exact .inl ⟨low, bind_error missing⟩
  · have found : slotBelow routine.signature.argumentWords (⟨frames, stack, journal⟩ : Machine H) =
        .ok (stack.offset - routine.signature.argumentWords) ⟨frames, stack, journal⟩ := if_neg low
    obtain ⟨later, noted⟩ := note_eq .debug (fun m : Machine H => .entered routine.signature.name
      (routine.signature.argumentSlots.map fun entry =>
        m.stack.describe (stack.offset - routine.signature.argumentWords + entry.1) entry.2)) frames stack journal
    refine .inr ⟨Nat.not_lt.mp low, later, ?_⟩
    rw [bind_ok found, bind_ok noted]
    unfold pushFrame
    dsimp only
    cases pushed : frames.push? ⟨routine, 0, stack.offset - routine.signature.argumentWords⟩ with
    | none => exact .inl ⟨rfl, rfl⟩
    | some next => exact .inr ⟨next, rfl, rfl⟩

theorem upholds_enter (routine : Routine (Object H)) : Upholds (enter routine) := by
  rintro ⟨frames, stack, journal⟩ intact
  rcases enter_cases routine frames stack journal with ⟨_, failed⟩ | ⟨_, later, ⟨_, failed⟩ | ⟨next, _, entered⟩⟩
  · rw [failed]
    exact Script.failed_of_keeps intact trivial
  · rw [failed]
    exact Script.failed_of_keeps intact trivial
  · rw [entered]
    exact intact

theorem upholds_run {table : HostTable H} (propagates : table.Propagates) : Upholds (run table.link) := by
  intro m
  induction m using run_induction table.link with
  | step m ih =>
    intro intact
    have ticked := (upheld_tick propagates intact).2
    cases progress : Machine.tick table.link m with
    | running next =>
      rw [progress] at ticked
      rw [run_of_running progress]
      exact ih next progress ticked
    | halted final =>
      rw [progress] at ticked
      rw [run_of_halted progress]
      exact ticked
    | faulted fault final =>
      rw [progress] at ticked
      rw [run_of_faulted progress]
      exact ticked

theorem Upholds.clearingFrames {α : Type} {step : MachineM H α} (upholds : Upholds step) :
    Upholds (clearingFrames step) := by
  intro m intact
  have kept := upholds m intact
  unfold Machine.clearingFrames
  cases ran : step m with
  | ok value final =>
    rw [ran] at kept
    exact kept
  | error fault final =>
    rw [ran] at kept
    exact kept

theorem upholds_execute {table : HostTable H} (propagates : table.Propagates) (routine : Routine (Object H))
    (arguments : List (Argument (Object H))) (result : Option Ty) :
    Upholds (execute table.link routine arguments result) := by
  have counted : Upholds (onStack StackM.offset : MachineM H Nat) := upholds_onStack fun _ intact => intact
  refine counted.bind fun start => (upholds_pushAll arguments).bind fun _ => ?_
  refine (upholds_checkPushed routine.signature start).bind fun _ => ?_
  refine ((upholds_enter routine).bind fun _ => upholds_run propagates).clearingFrames.bind fun _ => ?_
  exact (upholds_checkLeft routine.signature start).bind fun _ => upholds_popResult result

end Machine

end WordMachine
