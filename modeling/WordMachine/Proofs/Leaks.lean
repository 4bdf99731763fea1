import WordMachine.Proofs.FrameIsolation
import WordMachine.Proofs.Ledger

namespace WordMachine

/-- The references that an instruction drops without releasing them: those under the scalars that it takes off the
stack, writes over, hands to host code or leaves behind as arguments. -/
def Frame.lost {H : Type} (link : Linkage H) (frame : Frame H) (stack : OperandStack (Object H)) : Instruction → Nat
  | .add ty => stack.buried (stack.offset - (ty.words + ty.words)) [ty, ty]
  | .pop ty => stack.buried (stack.offset - ty.words) [ty]
  | .setLocal ty offset =>
    stack.buried (stack.offset - ty.words) [ty] + stack.buried (frame.base + offset.toNat) [ty]
  | .externalCall position =>
    match frame.routine.chunk.constants.readExternal link position with
    | .ok external => stack.buried (stack.offset - external.argumentWords) external.parameters
    | .error _ => 0
  | .ret => stack.buried frame.base frame.routine.signature.types
  | .constant _ _ => 0
  | .getLocal _ _ => 0
  | .call _ => 0

namespace Machine

variable {H : Type}

/-- An instruction releases every handle that it drops, but for those under scalars. -/
theorem settles_effect {adapters : Adapters H} {frame : Frame H} {instruction : Instruction}
    {stack final : OperandStack (Object H)} {change : FrameChange H} (tended : stack.Tended)
    (small : final.handles.Small) (ran : effect adapters.table.link frame instruction stack = .ok change final) :
    stack.Settles final (frame.lost adapters.table.link stack instruction) := by
  cases instruction with
  | constant ty position =>
    have pushed := (keeping_eq_keep ran).1
    unfold pushConstant at pushed
    cases read : frame.routine.chunk.constants.readOperand position ty with
    | error error =>
      rw [read] at pushed
      cases pushed
    | ok value =>
      rw [read] at pushed
      exact StackM.settles_pushOperand tended small pushed
  | add ty => exact settles_addTop tended small (keeping_eq_keep ran).1
  | pop ty =>
    obtain ⟨value, popped, popping, done⟩ := bind_eq_ok (keeping_eq_keep ran).1
    cases done
    exact StackM.settles_popOperand tended popping
  | setLocal ty offset => exact settles_storeLocal tended (keeping_eq_keep ran).1
  | getLocal ty offset => exact settles_loadLocal tended small (keeping_eq_keep ran).1
  | call position =>
    simp only [effect] at ran
    cases read : frame.routine.chunk.constants.readRoutine position with
    | error error =>
      rw [read] at ran
      cases ran
    | ok callee =>
      rw [read] at ran
      rw [(enterEffect_eq_ok ran).2.1]
      exact .refl tended
  | externalCall position =>
    simp only [effect, Frame.lost, ConstantPool.readExternal_link, Adapters.readCode_table] at ran ⊢
    cases read : adapters.read frame.routine.chunk.constants position with
    | error error =>
      rw [read] at ran
      cases ran
    | ok adapter =>
      rw [read] at ran
      exact settles_adapter tended small (keeping_eq_keep ran).1
  | ret =>
    obtain ⟨_, left, leaving, done⟩ := bind_eq_ok ran
    cases done
    exact settles_leave tended leaving

/-- The references that the next instruction drops without releasing them. -/
def lostNext (link : Linkage H) (m : Machine H) : Nat :=
  match m.frames.current? with
  | none => 0
  | some frame =>
    match frame.routine.chunk.fetch frame.ip with
    | .ok instruction => frame.lost link m.stack instruction
    | .error _ => 0

theorem Advances.settles {adapters : Adapters H} {m next : Machine H} (advances : Advances adapters.table.link m next)
    (tended : m.stack.Tended) (small : next.stack.handles.Small) :
    m.stack.Settles next.stack (m.lostNext adapters.table.link) := by
  obtain ⟨flow, ticked⟩ := advances
  unfold lostNext Frames.current?
  cases current : m.frames.active with
  | nil =>
    obtain ⟨⟨active, limit⟩, stack, journal⟩ := m
    cases current
    cases flow <;> cases ticked
    exact .refl tended
  | cons top below =>
    obtain ⟨instruction, change, fetched, ran, _⟩ := tick_eq_progress ticked current
    simp only [List.head?_cons, fetched]
    exact settles_effect tended small ran

/-- The references that a run drops without releasing them. -/
def lostInRun (link : Linkage H) (m : Machine H) : Nat :=
  match _ticked : tick link m with
  | .running next => m.lostNext link + lostInRun link next
  | .halted _ => m.lostNext link
  | .faulted _ _ => 0
termination_by m.frames.work
decreasing_by exact work_tick _ticked

theorem lostInRun_of_running {link : Linkage H} {m next : Machine H} (ticked : tick link m = .running next) :
    m.lostInRun link = m.lostNext link + next.lostInRun link := by
  rw [lostInRun]
  split
  · rename_i later other
    rw [ticked] at other
    cases other
    rfl
  · rename_i other
    rw [ticked] at other
    cases other
  · rename_i other
    rw [ticked] at other
    cases other

theorem lostInRun_of_halted {link : Linkage H} {m final : Machine H} (ticked : tick link m = .halted final) :
    m.lostInRun link = m.lostNext link := by
  rw [lostInRun]
  split
  · rename_i other
    rw [ticked] at other
    cases other
  · rfl
  · rename_i other
    rw [ticked] at other
    cases other

theorem settles_run {adapters : Adapters H} {m final : Machine H} (tended : m.stack.Tended)
    (small : final.stack.handles.Small) (ran : run adapters.table.link m = .ok () final) :
    m.stack.Settles final.stack (m.lostInRun adapters.table.link) := by
  induction m using run_induction adapters.table.link with
  | step m ih =>
    cases ticked : tick adapters.table.link m with
    | running next =>
      rw [run_of_running ticked] at ran
      have grown := size_le_run adapters.table next
      rw [ran] at grown
      have first := Advances.settles ⟨.proceed, ticked⟩ tended (Nat.lt_of_le_of_lt grown small)
      rw [lostInRun_of_running ticked]
      exact first.trans (ih next ticked first.tended ran)
    | halted last =>
      rw [run_of_halted ticked] at ran
      cases ran
      rw [lostInRun_of_halted ticked]
      exact Advances.settles ⟨.halt, ticked⟩ tended small
    | faulted fault last =>
      rw [run_of_faulted ticked] at ran
      cases ran

theorem settles_pushAll {arguments : List (Argument (Object H))} {stack final : OperandStack (Object H)}
    (tended : stack.Tended) (small : final.handles.Small) (pushed : StackM.pushAll arguments stack = .ok () final) :
    stack.Settles final 0 := by
  induction arguments generalizing stack with
  | nil =>
    cases pushed
    exact .refl tended
  | cons argument rest ih =>
    obtain ⟨_, middle, first, later⟩ := bind_eq_ok pushed
    have grown := (Script.pushAll rest).size_le_run middle
    rw [Script.run_pushAll, later] at grown
    have settles := StackM.settles_pushOperand tended (Nat.lt_of_le_of_lt grown small) first
    exact settles.trans (ih settles.tended later)

/-- A step that leaves the stack alone leaves the machine alone. -/
theorem onStack_unchanged {α : Type} {step : StackM (Object H) α} {m final : Machine H} {value : α}
    (unchanging : ∀ stack after value, step stack = .ok value after → after = stack)
    (ran : onStack step m = .ok value final) : final = m ∧ step m.stack = .ok value m.stack := by
  obtain ⟨frames, stack, journal⟩ := m
  unfold onStack at ran
  dsimp only at ran
  cases stepped : step stack with
  | error fault after =>
    rw [stepped] at ran
    cases ran
  | ok result after =>
    rw [stepped] at ran
    cases ran
    have same := unchanging _ _ _ stepped
    subst same
    exact ⟨rfl, rfl⟩

/-- What an execution that succeeds is made of. -/
theorem execute_eq_ok {link : Linkage H} {routine : Routine (Object H)} {arguments : List (Argument (Object H))}
    {result : Option Ty} {m final : Machine H} {value : Result (Object H) result}
    (executed : execute link routine arguments result m = .ok value final) :
    ∃ pushed entered last, onStack (StackM.pushAll arguments) m = .ok () pushed ∧
      checkPushed routine.signature m.stack.offset pushed.stack = .ok () pushed.stack ∧
      enter routine pushed = .ok () entered ∧ run link entered = .ok () last ∧
      onStack (StackM.popResult result) last = .ok value final := by
  obtain ⟨start, counted, counting, executed⟩ := bind_eq_ok executed
  obtain ⟨_, pushed, pushing, executed⟩ := bind_eq_ok executed
  obtain ⟨_, checked, checking, executed⟩ := bind_eq_ok executed
  obtain ⟨_, last, running, executed⟩ := bind_eq_ok executed
  obtain ⟨_, left, leaving, popping⟩ := bind_eq_ok executed
  obtain ⟨_, entered, entering, ran⟩ := bind_eq_ok (clearingFrames_eq_ok.mp running)
  have start_eq : start = m.stack.offset ∧ counted = m := by
    obtain ⟨frames, stack, journal⟩ := m
    cases counting
    exact ⟨rfl, rfl⟩
  obtain ⟨rfl, rfl⟩ := start_eq
  obtain ⟨rfl, passed⟩ := onStack_unchanged (fun _ _ _ ran => (checkPushed_eq_ok ran).1) checking
  have left_eq : left = last := by
    refine (onStack_unchanged (fun stack after _ ran => ?_) leaving).1
    unfold checkLeft at ran
    split at ran
    · cases ran
    · split at ran <;> cases ran
      rfl
  rw [left_eq] at popping
  exact ⟨checked, entered, last, pushing, passed, entering, ran, popping⟩

/-- The references that an execution drops without releasing them. -/
def lostInCall (link : Linkage H) (routine : Routine (Object H)) (arguments : List (Argument (Object H)))
    (result : Option Ty) (m : Machine H) : Nat :=
  match onStack (StackM.pushAll arguments) m with
  | .error _ _ => 0
  | .ok _ pushed =>
    match enter routine pushed with
    | .error _ _ => 0
    | .ok _ entered =>
      match run link entered with
      | .error _ _ => 0
      | .ok _ last =>
        entered.lostInRun link + last.stack.buried (last.stack.offset - resultWords result) result.toList

theorem lostInCall_eq {link : Linkage H} {routine : Routine (Object H)} {arguments : List (Argument (Object H))}
    {result : Option Ty} {m pushed entered last : Machine H}
    (pushing : onStack (StackM.pushAll arguments) m = .ok () pushed) (entering : enter routine pushed = .ok () entered)
    (ran : run link entered = .ok () last) :
    m.lostInCall link routine arguments result =
      entered.lostInRun link + last.stack.buried (last.stack.offset - resultWords result) result.toList := by
  simp only [lostInCall, pushing, entering, ran]

theorem settles_popResult {result : Option Ty} {value : Result (Object H) result}
    {stack final : OperandStack (Object H)} (tended : stack.Tended)
    (popped : StackM.popResult result stack = .ok value final) :
    stack.Settles final (stack.buried (stack.offset - resultWords result) result.toList) := by
  cases result with
  | none =>
    cases popped
    exact .refl tended
  | some ty => exact StackM.settles_popOperand tended popped

theorem settles_execute {adapters : Adapters H} {routine : Routine (Object H)} {arguments : List (Argument (Object H))}
    {result : Option Ty} {m final : Machine H} {value : Result (Object H) result} (tended : m.stack.Tended)
    (small : final.stack.handles.Small)
    (executed : execute adapters.table.link routine arguments result m = .ok value final) :
    m.stack.Settles final.stack (m.lostInCall adapters.table.link routine arguments result) := by
  obtain ⟨pushed, entered, last, pushing, _, entering, ran, popping⟩ := execute_eq_ok executed
  rw [lostInCall_eq pushing entering ran]
  obtain ⟨stacked, _⟩ := onStack_eq_ok pushing
  obtain ⟨popped, _⟩ := onStack_eq_ok popping
  -- the table of handles only grows, so it was small all along
  have grown := (Script.popResult result).size_le_run last.stack
  rw [Script.run_popResult, popped] at grown
  have smallLast : last.stack.handles.Small := Nat.lt_of_le_of_lt grown small
  have grownRun := size_le_run adapters.table entered
  rw [ran] at grownRun
  have smallEntered : entered.stack.handles.Small := Nat.lt_of_le_of_lt grownRun smallLast
  have same := (enter_eq_ok entering).2.1
  rw [same] at smallEntered
  have first := settles_pushAll tended smallEntered stacked
  have second : pushed.stack.Settles last.stack _ := same ▸ settles_run (same ▸ first.tended) smallLast ran
  have third := settles_popResult second.tended popped
  rw [← Nat.zero_add (_ + _), ← Nat.add_assoc]
  exact (first.trans second).trans third

theorem offset_popResult {result : Option Ty} {value : Result (Object H) result}
    {stack final : OperandStack (Object H)} (popped : StackM.popResult result stack = .ok value final) :
    resultWords result ≤ stack.offset ∧ final.offset = stack.offset - resultWords result := by
  cases result with
  | none =>
    cases popped
    exact ⟨Nat.zero_le _, rfl⟩
  | some ty =>
    obtain ⟨enough, table, rfl⟩ := StackM.popOperand_eq_ok popped
    exact ⟨enough, rfl⟩

/-- Where a result of the declared type is taken from the stack, it ends up as high as it was. -/
theorem offset_execute {link : Linkage H} {routine : Routine (Object H)} {arguments : List (Argument (Object H))}
    {m final : Machine H} {value : Result (Object H) routine.signature.result} (empty : m.frames.active = [])
    (executed : execute link routine arguments routine.signature.result m = .ok value final) :
    final.stack.offset = m.stack.offset := by
  obtain ⟨pushed, entered, last, pushing, checked, entering, ran, popping⟩ := execute_eq_ok executed
  obtain ⟨_, height, _⟩ := checkLeft_of_run empty pushing checked entering ran
  have lowered := offset_popResult (onStack_eq_ok popping).1
  have words : routine.signature.returnWords = resultWords routine.signature.result := rfl
  omega

/-- Whatever the instructions of an execution take off the stack lies above what the host has there. -/
def Contained (link : Linkage H) (routine : Routine (Object H)) (arguments : List (Argument (Object H)))
    (m : Machine H) : Prop :=
  ∀ pushed entered, onStack (StackM.pushAll arguments) m = .ok () pushed → enter routine pushed = .ok () entered →
    ∀ state, During link 0 entered state → state.TakesAbove link m.stack.offset

/-- An execution that keeps to its own words leaves those of the host alone. -/
theorem agreesBelow_execute {adapters : Adapters H} {routine : Routine (Object H)}
    {arguments : List (Argument (Object H))} {m final : Machine H}
    {value : Result (Object H) routine.signature.result} (empty : m.frames.active = [])
    (contained : m.Contained adapters.table.link routine arguments)
    (executed : execute adapters.table.link routine arguments routine.signature.result m = .ok value final) :
    m.stack.AgreesBelow final.stack m.stack.offset := by
  obtain ⟨pushed, entered, last, pushing, checked, entering, ran, popping⟩ := execute_eq_ok executed
  obtain ⟨stacked, same⟩ := onStack_eq_ok pushing
  have raised := StackM.offset_pushAll stacked
  have count := (checkPushed_eq_ok checked).2
  have base : pushed.stack.offset - routine.signature.argumentWords = m.stack.offset := by omega
  have none_below : pushed.frames.depth = 0 := by
    rw [same, Frames.depth, empty]
    rfl
  obtain ⟨_, height, _⟩ := checkLeft_of_run empty pushing checked entering ran
  have first : m.stack.AgreesBelow pushed.stack m.stack.offset :=
    (Script.takesAtMost_pushAll arguments).agreesBelow (Nat.le_refl _)
      ((congrFun (Script.run_pushAll arguments) _).trans stacked)
  have returns := (returns_of_run ran).1
  have kept := contained pushed entered pushing entering
  rw [← none_below] at returns kept
  rw [← base] at kept
  have second := returns.agreesBelow entering kept
  rw [base] at second
  have third : last.stack.AgreesBelow final.stack m.stack.offset :=
    (Script.takesAtMost_popResult _).agreesBelow (Nat.le_of_eq height.symm)
      ((congrFun (Script.run_popResult _) _).trans (onStack_eq_ok popping).1)
  exact (first.trans second).trans third

end Machine

theorem OperandStack.AgreesBelow.references {ω : Type} {stack other : OperandStack ω}
    (agrees : stack.AgreesBelow other stack.offset) (same : other.offset = stack.offset) :
    other.references = stack.references := by
  unfold OperandStack.references
  rw [same]
  refine referencesIn_congr fun k inside => weightAt_congr (agrees.tags _ (by omega)) ?_
  refine Bytes.handleAt_congr (Bytes.load_congr fun i lower upper => agrees.words i ?_)
  have bytes : (0 + k + 1) * wordSize ≤ stack.offset * wordSize := Nat.mul_le_mul_right _ (by omega)
  have word : Ty.object.size = wordSize := rfl
  rw [Nat.add_mul] at bytes
  omega

end WordMachine
