import WordMachine.Proofs.Activation
import WordMachine.Proofs.Adapter
import WordMachine.Proofs.Within

namespace WordMachine

namespace StackM

variable {ω : Type}

theorem offset_pushCell {ty : Ty} {cell : Cell ty} {stack final : OperandStack ω}
    (pushed : pushCell ty cell stack = .ok () final) : final.offset = stack.offset + ty.words := by
  unfold pushCell at pushed
  split at pushed
  · cases pushed
    rfl
  · cases pushed

theorem offset_handleFor {object : Option ω} {handle : Handle} {stack final : OperandStack ω}
    (issued : handleFor object stack = .ok handle final) : final.offset = stack.offset := by
  cases object with
  | none =>
    cases issued
    rfl
  | some object =>
    cases issued
    rfl

theorem eq_of_needRoom {words : Nat} {stack final : OperandStack ω} (room : needRoom words stack = .ok () final) :
    final = stack := by
  unfold needRoom at room
  split at room
  · cases room
    rfl
  · cases room

theorem offset_pushOperand {ty : Ty} {value : Operand ω ty} {stack final : OperandStack ω}
    (pushed : pushOperand ty value stack = .ok () final) : final.offset = stack.offset + ty.words := by
  cases ty with
  | scalar kind => exact offset_pushCell pushed
  | object =>
    obtain ⟨_, checked, room, pushed⟩ := bind_eq_ok pushed
    obtain ⟨handle, issued, issuing, pushed⟩ := bind_eq_ok pushed
    rw [offset_pushCell pushed, offset_handleFor issuing, eq_of_needRoom room]

theorem offset_pushAll {arguments : List (Argument ω)} {stack final : OperandStack ω}
    (pushed : pushAll arguments stack = .ok () final) :
    final.offset = stack.offset + totalWords (arguments.map Argument.ty) := by
  induction arguments generalizing stack with
  | nil =>
    cases pushed
    rfl
  | cons argument rest ih =>
    obtain ⟨_, middle, first, pushed⟩ := bind_eq_ok pushed
    rw [ih pushed, offset_pushOperand first, List.map_cons, totalWords, Nat.add_assoc]

end StackM

/-- What a host gets from an execution on what it has lent, and how it goes on once everything is taken back. -/
def VM.conclude {H α : Type} (vm : VM H) : EStateM.Result Fault (Machine H) α → Except Fault α × VM H
  | .ok value m => (.ok value, vm.lending.settle m)
  | .error fault m => (.error fault, vm.lending.settle m)

theorem VM.callUnchecked_conclude {H : Type} (vm : VM H) (link : Linkage H) (routine : Routine (Object H))
    (arguments : List (Argument (Object H))) (result : Option Ty) :
    vm.callUnchecked link routine arguments result =
      vm.conclude (Machine.execute link routine arguments result vm.lent) := by
  rw [callUnchecked_eq]
  cases Machine.execute link routine arguments result vm.lent <;> rfl

/-- Frames that lie on top of others: those of callees, then the given frame, wherever it has come to. -/
def Frames.Atop {H : Type} (frames : Frames H) (upper : List (Frame H)) (frame : Frame H) (lower : Frames H) : Prop :=
  ∃ ip, frames = ⟨upper ++ { frame with ip } :: lower.active, lower.limit⟩

theorem Frames.Atop.depth_lt {H : Type} {frames lower : Frames H} {upper : List (Frame H)} {frame : Frame H}
    (atop : frames.Atop upper frame lower) : lower.depth < frames.depth := by
  obtain ⟨ip, rfl⟩ := atop
  simp only [Frames.depth, List.length_append, List.length_cons]
  omega

namespace Machine

variable {H : Type} {link : Linkage H}

/-- As long as a frame does not return, it stays where it is, on top of the same frames. When it returns, these are all
that is left, and its result ends at its base. -/
theorem Advances.atop {m next : Machine H} {upper : List (Frame H)} {frame : Frame H} {lower : Frames H}
    (advances : Advances link m next) (atop : m.frames.Atop upper frame lower) :
    (∃ more, next.frames.Atop more frame lower) ∨
      next.frames = lower ∧ next.stack.offset = frame.base + frame.routine.signature.returnWords := by
  obtain ⟨flow, ticked⟩ := advances
  obtain ⟨ip, frames_eq⟩ := atop
  cases upper with
  | nil =>
    have current : m.frames.active = { frame with ip } :: lower.active := by rw [frames_eq]; rfl
    obtain ⟨instruction, change, _, ran, changed, _⟩ := tick_eq_progress ticked current
    rw [frames_eq] at changed
    rcases effect_cases ran with rfl | ⟨position, callee, _, _, _, _, rfl⟩ | ⟨_, left, rfl⟩
    · exact .inl ⟨[], ip + 1, changed⟩
    · exact .inl ⟨[_], ip + 1, changed⟩
    · exact .inr ⟨changed, offset_leaveEffect left⟩
  | cons top rest =>
    have current : m.frames.active = top :: (rest ++ { frame with ip } :: lower.active) := by rw [frames_eq]; rfl
    obtain ⟨instruction, change, _, ran, changed, _⟩ := tick_eq_progress ticked current
    rw [frames_eq] at changed
    rcases effect_cases ran with rfl | ⟨position, callee, _, _, _, _, rfl⟩ | ⟨_, left, rfl⟩
    · exact .inl ⟨top.advanced :: rest, ip, changed⟩
    · exact .inl ⟨_ :: top.advanced :: rest, ip, changed⟩
    · exact .inl ⟨rest, ip, changed⟩

theorem During.atop {start m : Machine H} {frame : Frame H} {lower : Frames H}
    (during : During link lower.depth start m) (atop : start.frames.Atop [] frame lower) :
    ∃ upper, m.frames.Atop upper frame lower := by
  induction during with
  | start => exact ⟨[], atop⟩
  | tick before ticked deeper ih =>
    obtain ⟨upper, above⟩ := ih
    rcases Advances.atop ⟨.proceed, ticked⟩ above with more | ⟨same, _⟩
    · exact more
    · rw [same] at deeper
      exact absurd deeper (Nat.lt_irrefl _)

theorem Returns.atop {start final : Machine H} {frame : Frame H} {lower : Frames H}
    (returns : Returns link lower.depth start final) (atop : start.frames.Atop [] frame lower) :
    final.frames = lower ∧ final.stack.offset = frame.base + frame.routine.signature.returnWords := by
  obtain ⟨last, during, advances, back⟩ := returns
  obtain ⟨upper, above⟩ := during.atop atop
  rcases advances.atop above with ⟨more, deeper⟩ | done
  · have bound := deeper.depth_lt
    omega
  · exact done

/-- A call that comes back leaves the frames as they were, and in the place of its arguments its result. -/
theorem Returns.balanced {m entered final : Machine H} {routine : Routine (Object H)}
    (entering : enter routine m = .ok () entered) (returns : Returns link m.frames.depth entered final) :
    final.frames = m.frames ∧
      final.stack.offset =
        m.stack.offset - routine.signature.argumentWords + routine.signature.returnWords := by
  obtain ⟨_, _, frames_eq⟩ := enter_eq_ok entering
  have atop : entered.frames.Atop [] ⟨routine, 0, m.stack.offset - routine.signature.argumentWords⟩ m.frames :=
    ⟨0, frames_eq⟩
  exact returns.atop atop

theorem checkPushed_eq_ok {signature : Signature} {start : Nat} {stack final : OperandStack (Object H)}
    (checked : checkPushed signature start stack = .ok () final) :
    final = stack ∧ stack.offset - start = signature.argumentWords := by
  unfold checkPushed at checked
  split at checked
  · cases checked
    exact ⟨rfl, by assumption⟩
  · cases checked

theorem eq_of_checkPushed {signature : Signature} {start : Nat} {m checked : Machine H}
    (checking : onStack (checkPushed signature start) m = .ok () checked) :
    checked = m ∧ checkPushed signature start m.stack = .ok () m.stack := by
  obtain ⟨frames, stack, journal⟩ := m
  cases passed : checkPushed signature start stack with
  | error fault last =>
    rw [onStack_error passed] at checking
    cases checking
  | ok _ last =>
    rw [onStack_ok passed] at checking
    cases checking
    obtain ⟨rfl, _⟩ := checkPushed_eq_ok passed
    exact ⟨rfl, rfl⟩

theorem onStack_eq_ok {α : Type} {step : StackM (Object H) α} {m final : Machine H} {value : α}
    (ran : onStack step m = .ok value final) : step m.stack = .ok value final.stack ∧ final.frames = m.frames := by
  refine ⟨?_, frames_onStack ran⟩
  obtain ⟨frames, stack, journal⟩ := m
  unfold onStack at ran
  cases stepped : step stack with
  | ok result after =>
    simp only [stepped] at ran
    cases ran
    rfl
  | error fault after =>
    simp only [stepped] at ran
    cases ran

/-- What a run from an empty list of frames leaves behind passes the check that comes after it. -/
theorem checkLeft_of_run {m pushed entered final : Machine H} {routine : Routine (Object H)}
    {arguments : List (Argument (Object H))} (empty : m.frames.active = [])
    (pushing : onStack (StackM.pushAll arguments) m = .ok () pushed)
    (checked : checkPushed routine.signature m.stack.offset pushed.stack = .ok () pushed.stack)
    (entering : enter routine pushed = .ok () entered) (ran : run link entered = .ok () final) :
    final.frames = m.frames ∧ final.stack.offset = m.stack.offset + routine.signature.returnWords ∧
      checkLeft routine.signature m.stack.offset final.stack = .ok () final.stack := by
  obtain ⟨stacked, same⟩ := onStack_eq_ok pushing
  have raised := StackM.offset_pushAll stacked
  have count := (checkPushed_eq_ok checked).2
  have none_below : pushed.frames.depth = 0 := by
    rw [same, Frames.depth, empty]
    rfl
  have returns := (returns_of_run ran).1
  rw [← none_below] at returns
  obtain ⟨frames_eq, offset_eq⟩ := returns.balanced entering
  have left : final.stack.offset = m.stack.offset + routine.signature.returnWords := by omega
  refine ⟨frames_eq.trans same, left, ?_⟩
  unfold checkLeft
  rw [if_neg (by omega), if_pos (by omega)]

/-- Arguments of the declared types take as many words as are declared. -/
theorem checkPushed_of_pushAll {signature : Signature} {arguments : List (Argument (Object H))} {result : Option Ty}
    {m pushed : Machine H} (matching : signature.check (arguments.map Argument.ty) result = .ok ())
    (pushing : onStack (StackM.pushAll arguments) m = .ok () pushed) :
    checkPushed signature m.stack.offset pushed.stack = .ok () pushed.stack := by
  have raised := StackM.offset_pushAll (onStack_eq_ok pushing).1
  rw [(Signature.check_eq_ok matching).1, totalWords_types] at raised
  unfold checkPushed
  rw [if_pos (by omega)]

/-- An execution whose two counts of words are left open: that of the arguments before the run, and that of the result
after it. -/
def executeCounting (pushed left : Nat → StackM (Object H) Unit) (link : Linkage H) (routine : Routine (Object H))
    (arguments : List (Argument (Object H))) (result : Option Ty) : MachineM H (Result (Object H) result) := do
  let start ← onStack StackM.offset
  onStack (StackM.pushAll arguments)
  onStack (pushed start)
  clearingFrames do
    enter routine
    run link
  onStack (left start)
  onStack (StackM.popResult result)

/-- Counts nothing, whatever the offset was. -/
def uncounted (_ : Nat) : StackM (Object H) Unit :=
  pure ()

theorem execute_eq_counting (routine : Routine (Object H)) :
    execute link routine = executeCounting (checkPushed routine.signature) (checkLeft routine.signature) link routine :=
  rfl

theorem bind_congr_ok {ε σ α β : Type} {step : EStateM ε σ α} {next other : α → EStateM ε σ β} {s : σ}
    (same : ∀ value middle, step s = .ok value middle → next value middle = other value middle) :
    (step >>= next) s = (step >>= other) s := by
  cases ran : step s with
  | ok value middle =>
    rw [bind_ok ran, bind_ok ran]
    exact same value middle ran
  | error error final => rw [bind_error ran, bind_error ran]

theorem onStack_uncounted (start : Nat) (m : Machine H) : onStack (uncounted start) m = .ok () m :=
  rfl

theorem onStack_of_ok {step : StackM (Object H) Unit} {m : Machine H} (passed : step m.stack = .ok () m.stack) :
    onStack step m = .ok () m := by
  obtain ⟨frames, stack, journal⟩ := m
  exact onStack_ok passed

/-- An execution that begins without frames may as well not look at what is left: it is never anything but the declared
result. -/
theorem execute_eq_of_empty {m : Machine H} (empty : m.frames.active = []) (routine : Routine (Object H))
    (arguments : List (Argument (Object H))) (result : Option Ty) :
    execute link routine arguments result m =
      executeCounting (checkPushed routine.signature) uncounted link routine arguments result m := by
  rw [execute_eq_counting]
  refine bind_congr_ok fun start same counted => ?_
  cases counted
  refine bind_congr_ok fun _ pushed pushing => bind_congr_ok fun _ checked checking =>
    bind_congr_ok fun _ final ran => ?_
  obtain ⟨rfl, passed⟩ := eq_of_checkPushed checking
  obtain ⟨_, entered, entering, ran⟩ := bind_eq_ok (clearingFrames_eq_ok.mp ran)
  obtain ⟨_, _, left⟩ := checkLeft_of_run empty pushing passed entering ran
  rw [bind_ok (onStack_of_ok left), bind_ok (onStack_uncounted _ final)]

/-- Where the types match besides, it may as well not count the words of the arguments. -/
theorem execute_eq_of_check {m : Machine H} (empty : m.frames.active = []) {routine : Routine (Object H)}
    {arguments : List (Argument (Object H))} {result : Option Ty}
    (matching : routine.signature.check (arguments.map Argument.ty) result = .ok ()) :
    execute link routine arguments result m = executeCounting uncounted uncounted link routine arguments result m := by
  rw [execute_eq_of_empty empty]
  refine bind_congr_ok fun start same counted => ?_
  cases counted
  refine bind_congr_ok fun _ pushed pushing => ?_
  rw [bind_ok (onStack_of_ok (checkPushed_of_pushAll matching pushing)), bind_ok (onStack_uncounted _ pushed)]

/-- Calls are balanced. A call that comes back leaves the frames exactly as they were and its result in the place of its
arguments. So when the run of an execution that began without frames comes to its end, the frames are as empty as before
and just the result lies above the offset of the start: the execution is the same as one without the check of what is
left. And a call of the host that passes the check of the signature is the same as one without any count of words. -/
theorem calls_balanced (link : Linkage H) :
    (∀ (m entered final : Machine H) (routine : Routine (Object H)),
      enter routine m = .ok () entered → Returns link m.frames.depth entered final →
      final.frames = m.frames ∧
        final.stack.offset =
          m.stack.offset - routine.signature.argumentWords + routine.signature.returnWords) ∧
    (∀ (m : Machine H) (routine : Routine (Object H)) (arguments : List (Argument (Object H))) (result : Option Ty),
      m.frames.active = [] →
      (∀ pushed entered final, onStack (StackM.pushAll arguments) m = .ok () pushed →
        checkPushed routine.signature m.stack.offset pushed.stack = .ok () pushed.stack →
        enter routine pushed = .ok () entered → run link entered = .ok () final →
        final.frames = m.frames ∧ final.stack.offset = m.stack.offset + routine.signature.returnWords ∧
          checkLeft routine.signature m.stack.offset final.stack = .ok () final.stack) ∧
      execute link routine arguments result m =
        executeCounting (checkPushed routine.signature) uncounted link routine arguments result m) ∧
    ∀ (vm : VM H) (routine : Routine (Object H)) (arguments : List (Argument (Object H))) (result : Option Ty),
      routine.signature.check (arguments.map Argument.ty) result = .ok () →
      (∀ pushed, onStack (StackM.pushAll arguments) vm.lent = .ok () pushed →
        checkPushed routine.signature vm.lent.stack.offset pushed.stack = .ok () pushed.stack) ∧
      vm.call link routine arguments result =
        vm.conclude (executeCounting uncounted uncounted link routine arguments result vm.lent) := by
  refine ⟨fun _ _ _ _ entering returns => returns.balanced entering, fun m routine arguments result empty => ?_,
    fun vm routine arguments result matching => ⟨fun _ => checkPushed_of_pushAll matching, ?_⟩⟩
  · exact ⟨fun _ _ _ => checkLeft_of_run empty, execute_eq_of_empty empty routine arguments result⟩
  · have empty : vm.lent.frames.active = [] := congrArg Frames.active vm.lent_frames
    rw [VM.call, matching, ← execute_eq_of_check empty matching]
    exact vm.callUnchecked_conclude link routine arguments result

end Machine

/-- A run that succeeds within so many instructions succeeds. -/
theorem Machine.exists_run_of_runWithin {H : Type} {link : Linkage H} {fuel : Nat} {m : Machine H}
    (succeeds : (match runWithin link fuel m with
      | .ok _ _ => true
      | .error _ _ => false) = true) : ∃ final, run link m = .ok () final := by
  cases ran : runWithin link fuel m with
  | ok value final => exact ⟨final, run_of_runWithin ran⟩
  | error fault final =>
    rw [ran] at succeeds
    cases succeeds

namespace Intrusion

/-- Puts another integer in the place of the one that its caller left on top, below its own frame. -/
def intrude : Routine (Object Unit) where
  signature := ⟨"Intrude", none, []⟩
  chunk := Chunk.of [.pop (.scalar .int), .constant (.scalar .int) 0, .ret] ⟨#[7, 0, 0, 0], #[], #[]⟩

/-- Returns what is left of an integer after a call without arguments. -/
def caller : Routine (Object Unit) where
  signature := ⟨"Caller", some (.scalar .int), []⟩
  chunk :=
    Chunk.of [.constant (.scalar .int) 0, .call 8, .ret]
      ⟨#[5, 0, 0, 0, 0, 0, 0, 0, 1, 0, 0, 0, 0, 0, 0, 0], #[.routine intrude], #[8]⟩

def vm : VM Unit := .create ⟨8, 2, 1, 1⟩ .silent

/-- The machine right after the outermost call. -/
def entered : Machine Unit := ⟨⟨[⟨caller, 0, 0⟩], 2⟩, vm.lent.stack, .silent⟩

theorem entering : Machine.enter caller vm.lent = .ok () entered := rfl

end Intrusion

namespace Machine

theorem calls_balanced_of_intrusion :
    (∃ final, Returns Adapters.none.table.link 0 Intrusion.entered final ∧ final.frames = ⟨[], 2⟩ ∧
      final.stack.offset = 1 ∧ checkPushed Intrusion.caller.signature 0 Intrusion.vm.lent.stack =
        .ok () Intrusion.vm.lent.stack ∧
      checkLeft Intrusion.caller.signature 0 final.stack = .ok () final.stack) ∧
    execute Adapters.none.table.link Intrusion.caller [] (some (.scalar .int)) Intrusion.vm.lent =
      executeCounting (checkPushed Intrusion.caller.signature) uncounted Adapters.none.table.link Intrusion.caller []
        (some (.scalar .int)) Intrusion.vm.lent ∧
    Intrusion.vm.call Adapters.none.table.link Intrusion.caller [] (some (.scalar .int)) =
      Intrusion.vm.conclude (executeCounting uncounted uncounted Adapters.none.table.link Intrusion.caller []
        (some (.scalar .int)) Intrusion.vm.lent) := by
  obtain ⟨final, ran⟩ := @exists_run_of_runWithin Unit Adapters.none.table.link 6 Intrusion.entered (by decide +kernel)
  have returns := (returns_of_run ran).1
  obtain ⟨balanced, leaving, calling⟩ := @calls_balanced Unit Adapters.none.table.link
  obtain ⟨frames_eq, offset_eq⟩ := balanced _ _ _ _ Intrusion.entering returns
  have matching : Intrusion.caller.signature.check [] (some (.scalar .int)) = .ok () := rfl
  obtain ⟨counted, called⟩ := calling Intrusion.vm Intrusion.caller [] _ matching
  obtain ⟨ended, executed⟩ := leaving Intrusion.vm.lent Intrusion.caller [] (some (.scalar .int)) rfl
  have checked := counted Intrusion.vm.lent rfl
  obtain ⟨_, _, left⟩ := ended _ _ _ rfl checked Intrusion.entering ran
  exact ⟨⟨final, returns, frames_eq, offset_eq, checked, left⟩, executed, called⟩

end Machine

end WordMachine
