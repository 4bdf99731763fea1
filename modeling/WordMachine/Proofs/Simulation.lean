import WordMachine.Proofs.TypedImage

namespace WordMachine

variable {H : Type}

/-- The frames of activations whose values lie on one stack. -/
def placed : List (Activation H) → List (Frame H)
  | [] => []
  | activation :: below => ⟨activation.routine, activation.ip, valueWords (allValues below)⟩ :: placed below

theorem length_placed (activations : List (Activation H)) : (placed activations).length = activations.length := by
  induction activations with
  | nil => rfl
  | cons activation below ih => exact congrArg (· + 1) ih

namespace Image

/-- A tick of the word machine on the values of activations, with nothing else known of the memory. -/
def typedTick (adapters : Adapters H) (config : Config) (activations : List (Activation H)) : ImageProgress H :=
  tick adapters ⟨placed activations, config.maxFrames⟩ (picture config.stackDepth (allValues activations) .nothing)

/-- Where the word machine stands when the typed one has reached a state: there as well, or stopped by a limit. -/
structure Reaches (config : Config) (next : List (Activation H)) (progress : ImageProgress H) : Prop where
  fits : config.Fits next → ∃ known,
    progress = .running ⟨placed next, config.maxFrames⟩ (picture config.stackDepth (allValues next) known)
  stackFull : config.stackDepth < valueWords (allValues next) → progress = .stopped (.fault .stackOverflow)
  framesFull : valueWords (allValues next) ≤ config.stackDepth → config.maxFrames < next.length →
    progress = .stopped (.fault (.callStackOverflow config.maxFrames))

variable {adapters : Adapters H} {config : Config} {activation : Activation H} {below : List (Activation H)}

theorem tick_placed {instruction : Instruction} (limit : Nat) (image : Image (Object H))
    (fetches : activation.Fetches instruction) :
    tick adapters ⟨placed (activation :: below), limit⟩ image =
      .after ⟨⟨activation.routine, activation.ip + 1, valueWords (allValues below)⟩ :: placed below, limit⟩
        (effect adapters ⟨activation.routine, activation.ip + 1, valueWords (allValues below)⟩ instruction image) := by
  have fetched : activation.routine.chunk.fetch activation.ip = .ok instruction := fetches
  simp only [placed, tick, fetched]
  rfl

/-- Instructions that only change the values of the current activation. -/
theorem reaches_of_keeping {instruction : Instruction} {step : ImageM (Object H) Unit}
    {values : List (Argument (Object H))} (fits : config.Fits (activation :: below))
    (fetches : activation.Fetches instruction)
    (means : effect adapters ⟨activation.routine, activation.ip + 1, valueWords (allValues below)⟩ instruction =
      keeping step)
    (kept : valueWords (allValues below ++ values) ≤ config.stackDepth →
      ∃ known, step (picture config.stackDepth (allValues below ++ activation.values) .nothing) =
        .ok () (picture config.stackDepth (allValues below ++ values) known))
    (failed : config.stackDepth < valueWords (allValues below ++ values) →
      ∃ image, step (picture config.stackDepth (allValues below ++ activation.values) .nothing) =
        .error (.fault .stackOverflow) image) :
    Reaches config (activation.next values :: below)
      (typedTick adapters config (activation :: below)) := by
  rw [typedTick, tick_placed _ _ fetches, means, keeping]
  refine ⟨fun room => ?_, fun full => ?_, fun room full => ?_⟩
  · obtain ⟨known, done⟩ := kept room.words
    rw [allValues, Machine.bind_ok done]
    exact ⟨known, rfl⟩
  · obtain ⟨image, stopped⟩ := failed full
    rw [allValues, Machine.bind_error stopped]
    rfl
  · exact absurd fits.frames (Nat.not_le.mpr full)

/-- A value is pushed on top of those of the current activation, or does not fit. -/
theorem reaches_of_push {instruction : Instruction} {step : ImageM (Object H) Unit} {ty : Ty}
    {value : Operand (Object H) ty} (fits : config.Fits (activation :: below))
    (fetches : activation.Fetches instruction)
    (means : effect adapters ⟨activation.routine, activation.ip + 1, valueWords (allValues below)⟩ instruction =
      keeping step)
    (pushes : step (picture config.stackDepth (allValues below ++ activation.values) .nothing) =
      push ty value (picture config.stackDepth (allValues below ++ activation.values) .nothing)) :
    Reaches config (activation.next (activation.values ++ [⟨ty, value⟩]) :: below)
      (typedTick adapters config (activation :: below)) := by
  refine reaches_of_keeping fits fetches means (fun room => ?_) fun full => ?_
  · rw [← List.append_assoc] at room ⊢
    exact ⟨_, pushes.trans (push_picture value room)⟩
  · rw [← List.append_assoc] at full
    exact ⟨_, pushes.trans (push_picture_full value full)⟩

theorem reaches_constant {ty : Ty} {position : Position} {value : Operand (Object H) ty}
    (fits : config.Fits (activation :: below)) (fetches : activation.Fetches (.constant ty position))
    (read : activation.constants.readOperand position ty = .ok value) :
    Reaches config (activation.next (activation.values ++ [⟨ty, value⟩]) :: below)
      (typedTick adapters config (activation :: below)) := by
  refine reaches_of_push fits fetches rfl ?_
  have found : activation.routine.chunk.constants.readOperand position ty = .ok value := read
  simp only [pushConstant, found]

theorem reaches_getLocal {ty : Ty} {offset : UInt8} {value : Operand (Object H) ty}
    {before after : List (Argument (Object H))} (fits : config.Fits (activation :: below))
    (fetches : activation.Fetches (.getLocal ty offset)) (holds : activation.values = before ++ ⟨ty, value⟩ :: after)
    (starts : valueWords before = offset.toNat) :
    Reaches config (activation.next (activation.values ++ [⟨ty, value⟩]) :: below)
      (typedTick adapters config (activation :: below)) := by
  refine reaches_of_push fits fetches rfl ?_
  rw [holds, ← starts, ← valueWords_append, ← List.append_assoc]
  exact loadLocal_picture value

theorem reaches_add {kind : Scalar} {a b total : kind.Value} {rest : List (Argument (Object H))}
    (fits : config.Fits (activation :: below)) (fetches : activation.Fetches (.add kind))
    (holds : activation.values = rest ++ [⟨kind, a⟩, ⟨kind, b⟩]) (summed : TypedSum kind a b (some total)) :
    Reaches config (activation.next (rest ++ [⟨kind, total⟩]) :: below)
      (typedTick adapters config (activation :: below)) := by
  obtain ⟨sum, numeric, summed⟩ := typedSum_iff.mp summed
  refine reaches_of_keeping fits fetches rfl (fun room => ?_) fun full => ?_
  · have added := addTop_picture config.stackDepth .nothing (allValues below ++ rest) numeric a b
    rw [summed] at added
    rw [← List.append_assoc] at room ⊢
    rw [holds, ← List.append_assoc]
    exact ⟨_, added.trans (@push_picture (Object H) _ _ _ kind total room)⟩
  · have enough := fits.words
    simp only [allValues, holds, valueWords_append, valueWords_cons, valueWords_nil] at enough full
    omega

theorem reaches_pop {ty : Ty} {value : Operand (Object H) ty} {rest : List (Argument (Object H))}
    (fits : config.Fits (activation :: below)) (fetches : activation.Fetches (.pop ty))
    (holds : activation.values = rest ++ [⟨ty, value⟩]) :
    Reaches config (activation.next rest :: below)
      (typedTick adapters config (activation :: below)) := by
  refine reaches_of_keeping fits fetches rfl (fun _ => ?_) fun full => ?_
  · rw [holds, ← List.append_assoc]
    exact ⟨_, Machine.bind_ok (pop_picture ..)⟩
  · have enough := fits.words
    simp only [allValues, holds, valueWords_append] at enough full
    omega

theorem reaches_setLocal {ty : Ty} {offset : UInt8} {previous value : Operand (Object H) ty}
    {before after : List (Argument (Object H))} (fits : config.Fits (activation :: below))
    (fetches : activation.Fetches (.setLocal ty offset))
    (holds : activation.values = before ++ ⟨ty, previous⟩ :: after ++ [⟨ty, value⟩])
    (starts : valueWords before = offset.toNat) :
    Reaches config (activation.next (before ++ ⟨ty, value⟩ :: after) :: below)
      (typedTick adapters config (activation :: below)) := by
  refine reaches_of_keeping fits fetches rfl (fun _ => ?_) fun full => ?_
  · rw [holds, ← starts, ← valueWords_append, ← List.append_assoc, ← List.append_assoc, ← List.append_assoc]
    exact ⟨_, storeLocal_picture previous value⟩
  · have enough := fits.words
    simp only [allValues, holds, valueWords_append, valueWords_cons] at enough full
    omega

theorem reaches_externalCall {position : Position} {adapter : Adapter (Object H)}
    {rest : List (Argument (Object H))} {operands : Operands (Object H) adapter.parameters}
    (fits : config.Fits (activation :: below)) (fetches : activation.Fetches (.externalCall position))
    (read : adapters.read activation.constants position = .ok adapter)
    (holds : activation.values = rest ++ Operands.values adapter.parameters operands) :
    Reaches config (activation.next (rest ++ Result.values adapter.result (adapter.apply operands)) :: below)
      (typedTick adapters config (activation :: below)) := by
  have found : adapters.read activation.routine.chunk.constants position = .ok adapter := read
  have called := callAdapter_picture config.stackDepth .nothing (allValues below ++ rest) adapter operands
  have means : effect adapters ⟨activation.routine, activation.ip + 1, valueWords (allValues below)⟩
      (.externalCall position) = keeping (callAdapter adapter) := by
    simp only [effect, found]
  refine reaches_of_keeping fits fetches means (fun room => ?_) fun full => ?_
  · rw [← List.append_assoc] at room ⊢
    rw [holds, ← List.append_assoc]
    obtain ⟨known, pushed⟩ := pushResult_picture (adapter.apply operands) room
    exact ⟨known, called.trans ((Machine.bind_ok pushed).trans (checkExternal_picture ..))⟩
  · have enough := fits.words
    simp only [allValues, holds, valueWords_append] at enough
    rw [← List.append_assoc] at full
    rw [holds, ← List.append_assoc]
    refine ⟨_, called.trans (Machine.bind_error (pushResult_picture_full _ ?_ full))⟩
    rw [valueWords_append]
    omega

theorem reaches_call {position : Position} {callee : Routine (Object H)} {rest arguments : List (Argument (Object H))}
    (fits : config.Fits (activation :: below)) (fetches : activation.Fetches (.call position))
    (read : activation.constants.readRoutine position = .ok callee) (holds : activation.values = rest ++ arguments)
    (declared : arguments.map Argument.ty = callee.signature.types) :
    Reaches config (⟨callee, 0, arguments⟩ :: activation.next rest :: below)
      (typedTick adapters config (activation :: below)) := by
  have found : activation.routine.chunk.constants.readRoutine position = .ok callee := read
  have same : allValues (⟨callee, 0, arguments⟩ :: activation.next rest :: below) =
      allValues (activation :: below) := by
    simp only [allValues, Activation.next, holds, List.append_assoc]
  have argumentWords : callee.signature.argumentWords = valueWords arguments := by
    rw [← totalWords_types, ← declared]
    rfl
  have entered : enter callee (picture config.stackDepth (allValues (activation :: below)) .nothing) =
      .ok (.push ⟨callee, 0, valueWords (allValues (activation.next rest :: below))⟩)
        (picture config.stackDepth (allValues (activation :: below)) .nothing) := by
    rw [← same, enter, argumentWords]
    exact Machine.bind_ok (slotUnder_picture ..)
  have means : effect adapters ⟨activation.routine, activation.ip + 1, valueWords (allValues below)⟩ (.call position) =
      enter callee := by
    simp only [effect, found]
  rw [typedTick, tick_placed _ _ fetches, means, entered]
  refine ⟨fun room => ?_, fun full => ?_, fun _ full => ?_⟩
  · have depth : (placed below).length + 1 < config.maxFrames := by
      rw [length_placed]
      exact room.frames
    simp only [ImageProgress.after, FrameChange.onFrames?, Frames.push?, Frames.depth, List.length_cons, depth, if_true,
      FrameChange.flow, same]
    exact ⟨.nothing, rfl⟩
  · rw [same] at full
    exact absurd fits.words (Nat.not_le.mpr full)
  · have depth : ¬ (placed below).length + 1 < config.maxFrames := by
      rw [length_placed]
      exact Nat.not_lt.mpr (Nat.le_of_lt_succ full)
    simp only [ImageProgress.after, FrameChange.onFrames?, Frames.push?, Frames.depth, List.length_cons, depth,
      if_false]

variable (adapters config below) in
theorem after_return {result : Result (Object H) activation.routine.signature.result}
    (returns : activation.Returns result) :
    ∃ known, typedTick adapters config (activation :: below) =
      .after ⟨⟨activation.routine, activation.ip + 1, valueWords (allValues below)⟩ :: placed below, config.maxFrames⟩
        (.ok .pop (picture config.stackDepth (allValues below ++ Result.values _ result) known)) := by
  obtain ⟨fetches, arguments, declared, holds⟩ := returns
  have left : ∃ known, leave ⟨activation.routine, activation.ip + 1, valueWords (allValues below)⟩
      (picture config.stackDepth (allValues (activation :: below)) .nothing) =
      .ok () (picture config.stackDepth (allValues below ++ Result.values _ result) known) := by
    rw [allValues, holds]
    exact leave_picture ⟨activation.routine, activation.ip + 1, valueWords (allValues below)⟩ rfl declared result
  obtain ⟨known, left⟩ := left
  rw [typedTick, tick_placed _ _ fetches]
  exact ⟨known, congrArg _ (Machine.bind_ok left)⟩

theorem reaches_return {caller : Activation H} {result : Result (Object H) activation.routine.signature.result}
    (fits : config.Fits (activation :: caller :: below)) (returns : activation.Returns result) :
    Reaches config (⟨caller.routine, caller.ip, caller.values ++ Result.values _ result⟩ :: below)
      (typedTick adapters config (activation :: caller :: below)) := by
  obtain ⟨known, ticked⟩ := after_return adapters config (caller :: below) returns
  rw [ticked]
  obtain ⟨fetches, arguments, declared, holds⟩ := returns
  have same : allValues (⟨caller.routine, caller.ip, caller.values ++ Result.values _ result⟩ :: below) =
      allValues (caller :: below) ++ Result.values _ result := by
    simp only [allValues, List.append_assoc]
  refine ⟨fun _ => ⟨known, ?_⟩, fun full => ?_, fun _ full => ?_⟩
  · rw [same]
    rfl
  · have enough := fits.words
    rw [same] at full
    rw [allValues, holds] at enough
    simp only [valueWords_append] at enough full
    omega
  · have enough := fits.frames
    simp only [List.length_cons] at enough full
    omega

/-- A step of the typed machine is a step on the words. -/
theorem reaches_of_step {activations next : List (Activation H)} (fits : config.Fits activations)
    (stepped : TypedStep adapters activations next) :
    Reaches config next (typedTick adapters config activations) := by
  cases stepped with
  | constant fetches read => exact reaches_constant fits fetches read
  | add fetches holds summed => exact reaches_add fits fetches holds summed
  | pop fetches holds => exact reaches_pop fits fetches holds
  | getLocal fetches holds starts => exact reaches_getLocal fits fetches holds starts
  | setLocal fetches holds starts => exact reaches_setLocal fits fetches holds starts
  | call fetches read holds declared => exact reaches_call fits fetches read holds declared
  | externalCall fetches read holds => exact reaches_externalCall fits fetches read holds
  | ret returns => exact reaches_return fits returns

variable (adapters config) in
theorem tick_finished {result : Result (Object H) activation.routine.signature.result}
    (returns : activation.Returns result) :
    ∃ known, typedTick adapters config [activation] =
      .halted (picture config.stackDepth (Result.values _ result) known) := by
  obtain ⟨known, ticked⟩ := after_return adapters config [] returns
  exact ⟨known, ticked⟩

theorem tick_overflow {kind : Scalar} {a b : kind.Value} {rest : List (Argument (Object H))}
    (fetches : activation.Fetches (.add kind)) (holds : activation.values = rest ++ [⟨kind, a⟩, ⟨kind, b⟩])
    (unsummed : TypedSum kind a b none) :
    typedTick adapters config (activation :: below) = .stopped (.fault (.arithmeticOverflow .add kind)) := by
  obtain ⟨sum, numeric, unsummed⟩ := typedSum_iff.mp unsummed
  have added := addTop_picture config.stackDepth .nothing (allValues below ++ rest) numeric a b
  rw [unsummed] at added
  rw [typedTick, tick_placed _ _ fetches, allValues, holds, ← List.append_assoc]
  exact congrArg (ImageProgress.after _) (Machine.bind_error added)

end Image

end WordMachine
