import WordMachine.Proofs.Typed
import WordMachine.Proofs.ImageRun

namespace WordMachine

variable {ω : Type}

theorem Operand.length_words (ty : Ty) (value : Operand ω ty) : (Operand.words ty value).length = ty.words := by
  cases ty with
  | object => exact (show Ty.object.words = 1 by decide).symm
  | scalar kind =>
    by_cases narrow : kind.size ≤ wordSize
    · have one : (Ty.scalar kind).words = 1 := by
        revert narrow
        cases kind <;> decide
      simp only [Operand.words, narrow, if_true, List.length_singleton, one]
    · simp only [Operand.words, narrow, if_false, OperandStack.words_eq_two narrow, List.length_cons, List.length_nil]

/-- The words of a value start with that value. -/
theorem Image.decode_words (second : Option Nat) (ty : Ty) (value : Operand ω ty) (more : List (Word ω)) :
    Image.decode second ty (Operand.words ty value ++ more) = .ok value := by
  cases ty with
  | object => rfl
  | scalar kind =>
    by_cases narrow : kind.size ≤ wordSize
    · simp only [Operand.words, narrow, if_true, List.singleton_append, Image.decode]
      exact congrArg _ (kind.ofBits_bits value)
    · simp only [Operand.words, narrow, if_false, List.cons_append, List.nil_append, Image.decode, if_true,
        List.head?_cons, Option.bind_some, Word.whole?, Option.some_or]
      rw [Nat.mod_add_div]
      exact congrArg _ (kind.ofBits_bits value)

def Argument.words (argument : Argument ω) : List (Word ω) :=
  Operand.words argument.ty argument.value

theorem Argument.length_words (argument : Argument ω) : argument.words.length = argument.ty.words :=
  Operand.length_words argument.ty argument.value

/-- The words of values, one after the other. -/
def layout (values : List (Argument ω)) : List (Word ω) :=
  values.flatMap Argument.words

theorem totalWords_append (first second : List Ty) :
    totalWords (first ++ second) = totalWords first + totalWords second := by
  induction first with
  | nil => exact (Nat.zero_add _).symm
  | cons ty rest ih => simp only [List.cons_append, totalWords, ih, Nat.add_assoc]

@[simp]
theorem valueWords_append (first second : List (Argument ω)) :
    valueWords (first ++ second) = valueWords first + valueWords second := by
  simp only [valueWords, List.map_append, totalWords_append]

@[simp]
theorem valueWords_cons (argument : Argument ω) (rest : List (Argument ω)) :
    valueWords (argument :: rest) = argument.ty.words + valueWords rest :=
  rfl

@[simp]
theorem valueWords_nil : valueWords ([] : List (Argument ω)) = 0 :=
  rfl

@[simp]
theorem handleCount_append (first second : List (Argument ω)) :
    handleCount (first ++ second) = handleCount first + handleCount second := by
  simp only [handleCount, List.map_append, List.sum_append]

@[simp]
theorem handleCount_cons (argument : Argument ω) (rest : List (Argument ω)) :
    handleCount (argument :: rest) = argument.handles + handleCount rest :=
  rfl

@[simp]
theorem handleCount_nil : handleCount ([] : List (Argument ω)) = 0 :=
  rfl

@[simp]
theorem layout_append (first second : List (Argument ω)) : layout (first ++ second) = layout first ++ layout second :=
  List.flatMap_append

@[simp]
theorem layout_cons (argument : Argument ω) (rest : List (Argument ω)) :
    layout (argument :: rest) = argument.words ++ layout rest :=
  rfl

@[simp]
theorem layout_nil : layout ([] : List (Argument ω)) = [] :=
  rfl

@[simp]
theorem length_layout (values : List (Argument ω)) : (layout values).length = valueWords values := by
  induction values with
  | nil => rfl
  | cons argument rest ih => simp only [layout_cons, List.length_append, argument.length_words, ih, valueWords_cons]

theorem Operand.handles_le_one (ty : Ty) (value : Operand ω ty) : Operand.handles ty value ≤ 1 := by
  cases ty with
  | scalar kind => exact Nat.zero_le _
  | object => cases value <;> exact Nat.le_of_ble_eq_true rfl

theorem handleCount_le (values : List (Argument ω)) : handleCount values ≤ valueWords values := by
  induction values with
  | nil => exact Nat.le_refl _
  | cons argument rest ih =>
    have one := Operand.handles_le_one argument.ty argument.value
    have positive := argument.ty.words_pos
    rw [handleCount_cons, valueWords_cons, Argument.handles]
    omega

theorem handleCount_result_le {result : Option Ty} (value : Result ω result) :
    handleCount (Result.values result value) ≤ 1 := by
  cases result with
  | none => exact Nat.zero_le _
  | some ty => exact Operand.handles_le_one ty value

/-- A step brings at most one more reference. -/
theorem TypedStep.handleCount_le {H : Type} {adapters : Adapters H} {activations next : List (Activation H)}
    (stepped : TypedStep adapters activations next) :
    handleCount (allValues next) ≤ handleCount (allValues activations) + 1 := by
  cases stepped with
  | @constant activation below ty position value fetches read =>
    have one := Operand.handles_le_one ty value
    simp only [allValues, Activation.next, handleCount_append, handleCount_cons, handleCount_nil, Argument.handles]
    omega
  | @getLocal activation below ty offset value before after fetches holds starts =>
    have one := Operand.handles_le_one ty value
    simp only [allValues, Activation.next, handleCount_append, handleCount_cons, handleCount_nil, Argument.handles]
    omega
  | @externalCall activation below position adapter rest operands fetches read holds =>
    have one := handleCount_result_le (adapter.apply operands)
    simp only [allValues, Activation.next, holds, handleCount_append]
    omega
  | add fetches holds summed | pop fetches holds | setLocal fetches holds starts =>
    simp only [allValues, Activation.next, holds, handleCount_append, handleCount_cons, handleCount_nil,
      Argument.handles, Operand.handles]
    omega
  | call fetches read holds declared =>
    simp only [allValues, Activation.next, holds, handleCount_append]
    omega
  | ret returns =>
    obtain ⟨_, arguments, _, holds⟩ := returns
    simp only [allValues, holds, handleCount_append]
    omega

/-- A stack of fewer than that many words has no room for more references than there are handles. -/
theorem TypedRun.fewReferences {H : Type} {adapters : Adapters H} {config : Config}
    (moderate : config.stackDepth + 2 < 2 ^ 32 - 1) {activations visited : List (Activation H)}
    (start : FewReferences (allValues activations)) (ran : TypedRun adapters config activations visited) :
    FewReferences (allValues visited) := by
  cases ran with
  | refl => exact start
  | @tail previous _ _ stepped =>
    have words := stepped.1.words
    have references := handleCount_le (allValues previous)
    have more := stepped.2.handleCount_le
    unfold FewReferences
    omega

/-- The image of a stack on which these values stand. -/
def picture (capacity : Nat) (values : List (Argument ω)) (known : Known) : Image ω :=
  ⟨capacity, handleCount values, layout values, known⟩

namespace Image

variable {known : Known}

theorem push_picture {capacity : Nat} {values : List (Argument ω)} {ty : Ty} (value : Operand ω ty)
    (room : valueWords (values ++ [⟨ty, value⟩]) ≤ capacity) :
    push ty value (picture capacity values known) =
      .ok () (picture capacity (values ++ [⟨ty, value⟩]) (known.put (valueWords values) ty value)) := by
  simp only [valueWords_append, valueWords_cons, valueWords_nil, Nat.add_zero] at room
  simp only [push, picture, length_layout, room, if_true, layout_append, handleCount_append, layout_cons, layout_nil,
    handleCount_cons, handleCount_nil, List.append_nil, Nat.add_zero]
  rfl

theorem push_picture_full {capacity : Nat} {values : List (Argument ω)} {ty : Ty} (value : Operand ω ty)
    (full : capacity < valueWords (values ++ [⟨ty, value⟩])) :
    push ty value (picture capacity values known) = .error (.fault .stackOverflow) (picture capacity values known) := by
  simp only [valueWords_append, valueWords_cons, valueWords_nil, Nat.add_zero] at full
  refine if_neg ?_
  simp only [picture, length_layout]
  omega

theorem take_picture (capacity live : Nat) (values : List (Argument ω)) {ty : Ty} (value : Operand ω ty) :
    take ty ⟨capacity, live, layout (values ++ [⟨ty, value⟩]), known⟩ =
      .ok value ⟨capacity, live, layout values, known⟩ := by
  have longer : valueWords (values ++ [(⟨ty, value⟩ : Argument ω)]) = valueWords values + ty.words := by
    simp only [valueWords_append, valueWords_cons, valueWords_nil, Nat.add_zero]
  have top : (layout (values ++ [⟨ty, value⟩])).drop (valueWords values) = Operand.words ty value ++ [] := by
    rw [layout_append, List.drop_left' (length_layout values)]
    rfl
  have rest : (layout (values ++ [(⟨ty, value⟩ : Argument ω)])).take (valueWords values) = layout values := by
    rw [layout_append, List.take_left' (length_layout values)]
  simp only [take, valueAt, length_layout, longer, Nat.add_sub_cancel, top, rest, decode_words]
  exact if_neg (Nat.not_lt.mpr (Nat.le_add_left ..))

theorem pop_picture (capacity : Nat) (values : List (Argument ω)) {ty : Ty} (value : Operand ω ty) :
    pop ty (picture capacity (values ++ [⟨ty, value⟩]) known) = .ok value (picture capacity values known) := by
  have counted : handleCount (values ++ [(⟨ty, value⟩ : Argument ω)]) =
      handleCount values + Operand.handles ty value := by
    simp only [handleCount_append, handleCount_cons, handleCount_nil, Nat.add_zero]
    rfl
  have taken : take ty (picture capacity (values ++ [⟨ty, value⟩]) known) =
      .ok value ⟨capacity, handleCount values + Operand.handles ty value, layout values, known⟩ := by
    rw [← counted]
    exact take_picture ..
  rw [pop, Machine.bind_ok taken]
  refine congrArg (EStateM.Result.ok value) ?_
  simp only [picture, Nat.add_sub_cancel]

theorem read_picture (capacity live : Nat) (before after : List (Argument ω)) {ty : Ty} (value : Operand ω ty) :
    read ty (valueWords before) ⟨capacity, live, layout (before ++ ⟨ty, value⟩ :: after), known⟩ =
      .ok value ⟨capacity, live, layout (before ++ ⟨ty, value⟩ :: after), known⟩ := by
  have start : (layout (before ++ ⟨ty, value⟩ :: after)).drop (valueWords before) =
      Operand.words ty value ++ layout after := by
    rw [layout_append, List.drop_left' (length_layout before)]
    rfl
  simp only [read, valueAt, length_layout, start, decode_words]
  refine if_neg (Nat.not_lt.mpr ?_)
  simp only [valueWords_append, valueWords_cons]
  omega

theorem write_picture (capacity live : Nat) (before after : List (Argument ω)) {ty : Ty}
    (previous value : Operand ω ty) :
    write ty (valueWords before) value ⟨capacity, live, layout (before ++ ⟨ty, previous⟩ :: after), known⟩ =
      .ok () ⟨capacity, live, layout (before ++ ⟨ty, value⟩ :: after), known.put (valueWords before) ty value⟩ := by
  have inside : ¬ valueWords (before ++ (⟨ty, previous⟩ : Argument ω) :: after) < valueWords before + ty.words := by
    simp only [valueWords_append, valueWords_cons]
    omega
  have left : (layout (before ++ (⟨ty, previous⟩ : Argument ω) :: after)).take (valueWords before) = layout before := by
    rw [layout_append, List.take_left' (length_layout before)]
  have right : (layout (before ++ (⟨ty, previous⟩ : Argument ω) :: after)).drop (valueWords before + ty.words) =
      layout after := by
    rw [← List.drop_drop, layout_append, List.drop_left' (length_layout before), layout_cons]
    exact List.drop_left' (Argument.length_words _)
  simp only [write, length_layout, inside, if_false, left, right]
  rw [List.append_assoc, layout_append]
  rfl

theorem addTop_picture (capacity : Nat) (known : Known) (values : List (Argument ω)) {kind : Scalar}
    {sum : kind.Value → kind.Value → Option kind.Value} (numeric : kind.sum? = some sum) (a b : kind.Value) :
    addTop kind (picture capacity (values ++ [⟨kind, a⟩, ⟨kind, b⟩]) known) =
      match sum a b with
      | some total => push kind total (picture capacity values known)
      | none => .error (.fault (.arithmeticOverflow .add kind)) (picture capacity values known) := by
  have second : pop kind (picture capacity (values ++ [⟨kind, a⟩, ⟨kind, b⟩]) known) =
      .ok b (picture capacity (values ++ [⟨kind, a⟩]) known) := by
    rw [List.append_cons]
    exact pop_picture ..
  simp only [addTop, numeric]
  refine (Machine.bind_ok second).trans ((Machine.bind_ok (pop_picture ..)).trans ?_)
  cases sum a b with
  | none => rfl
  | some total => rfl

theorem loadLocal_picture {capacity : Nat} {before after : List (Argument ω)} {ty : Ty} (value : Operand ω ty) :
    loadLocal ty (valueWords before) (picture capacity (before ++ ⟨ty, value⟩ :: after) known) =
      push ty value (picture capacity (before ++ ⟨ty, value⟩ :: after) known) :=
  Machine.bind_ok (read_picture ..)

theorem storeLocal_picture {capacity : Nat} {before after : List (Argument ω)} {ty : Ty}
    (previous value : Operand ω ty) :
    storeLocal ty (valueWords before) (picture capacity (before ++ ⟨ty, previous⟩ :: after ++ [⟨ty, value⟩]) known) =
      .ok () (picture capacity (before ++ ⟨ty, value⟩ :: after) (known.put (valueWords before) ty value)) := by
  cases ty with
  | scalar kind =>
    have counted : handleCount (before ++ (⟨kind, previous⟩ : Argument ω) :: after) =
        handleCount (before ++ (⟨kind, value⟩ : Argument ω) :: after) := by
      simp only [handleCount_append, handleCount_cons]
      rfl
    refine (Machine.bind_ok (pop_picture ..)).trans ?_
    rw [picture, picture, counted]
    exact write_picture ..
  | object =>
    have counted : handleCount (before ++ (⟨.object, previous⟩ : Argument ω) :: after ++ [⟨.object, value⟩]) -
        Operand.handles .object previous = handleCount (before ++ (⟨.object, value⟩ : Argument ω) :: after) := by
      simp only [handleCount_append, handleCount_cons, handleCount_nil, Argument.handles]
      omega
    refine (Machine.bind_ok (take_picture ..)).trans ((Machine.bind_ok (read_picture ..)).trans
      ((Machine.bind_ok (write_picture ..)).trans ?_))
    rw [picture, ← counted]
    rfl

theorem popAll_picture (capacity : Nat) (values : List (Argument ω)) {types : List Ty} (operands : Operands ω types) :
    popAll types (picture capacity (values ++ Operands.values types operands) known) =
      .ok operands (picture capacity values known) := by
  induction types generalizing values with
  | nil =>
    simp only [Operands.values, List.append_nil]
    rfl
  | cons ty rest ih =>
    obtain ⟨value, others⟩ := operands
    have popped : popAll rest (picture capacity (values ++ Operands.values (ty :: rest) (value, others)) known) =
        .ok others (picture capacity (values ++ [⟨ty, value⟩]) known) := by
      rw [Operands.values, List.append_cons]
      exact ih _ others
    rw [popAll, Machine.bind_ok popped, Machine.bind_ok (pop_picture ..)]
    rfl

theorem pushResult_picture {capacity : Nat} {values : List (Argument ω)} {result : Option Ty}
    (value : Result ω result) (room : valueWords (values ++ Result.values result value) ≤ capacity) :
    ∃ after, pushResult result value (picture capacity values known) =
      .ok () (picture capacity (values ++ Result.values result value) after) := by
  cases result with
  | none =>
    simp only [Result.values, List.append_nil]
    exact ⟨known, rfl⟩
  | some ty => exact ⟨_, push_picture value room⟩

theorem popResult_picture (capacity : Nat) (values : List (Argument ω)) {result : Option Ty} (value : Result ω result) :
    popResult result (picture capacity (values ++ Result.values result value) known) =
      .ok value (picture capacity values known) := by
  cases result with
  | none =>
    simp only [Result.values, List.append_nil]
    rfl
  | some ty => exact pop_picture capacity values value

theorem pushAll_picture {capacity : Nat} {values : List (Argument ω)} (arguments : List (Argument ω))
    (room : valueWords (values ++ arguments) ≤ capacity) :
    ∃ after, pushAll arguments (picture capacity values known) =
      .ok () (picture capacity (values ++ arguments) after) := by
  induction arguments generalizing values known with
  | nil =>
    rw [List.append_nil]
    exact ⟨known, rfl⟩
  | cons argument rest ih =>
    rw [List.append_cons] at room ⊢
    have fits : valueWords (values ++ [argument]) ≤ capacity := by
      rw [valueWords_append] at room
      omega
    obtain ⟨after, pushed⟩ := ih room
    exact ⟨after, (Machine.bind_ok (push_picture argument.value fits)).trans pushed⟩

theorem pushAll_picture_full {capacity : Nat} {values : List (Argument ω)} (arguments : List (Argument ω))
    (fits : valueWords values ≤ capacity) (full : capacity < valueWords (values ++ arguments)) :
    ∃ image, pushAll arguments (picture capacity values known) = .error (.fault .stackOverflow) image := by
  induction arguments generalizing values known with
  | nil =>
    rw [List.append_nil] at full
    omega
  | cons argument rest ih =>
    by_cases more : valueWords (values ++ [argument]) ≤ capacity
    · rw [List.append_cons] at full
      obtain ⟨image, failed⟩ := ih more full
      exact ⟨image, (Machine.bind_ok (push_picture argument.value more)).trans failed⟩
    · exact ⟨_, Machine.bind_error (push_picture_full argument.value (Nat.not_le.mp more))⟩

theorem slotUnder_picture (capacity : Nat) (values arguments : List (Argument ω)) :
    slotUnder (valueWords arguments) (picture capacity (values ++ arguments) known) =
      .ok (valueWords values) (picture capacity (values ++ arguments) known) := by
  simp only [slotUnder, picture, length_layout, valueWords_append, Nat.add_sub_cancel]
  exact if_neg (Nat.not_lt.mpr (Nat.le_add_left ..))

end Image

theorem valueWords_operands {types : List Ty} (operands : Operands ω types) :
    valueWords (Operands.values types operands) = totalWords types := by
  induction types with
  | nil => rfl
  | cons ty rest ih =>
    obtain ⟨value, others⟩ := operands
    simp only [Operands.values, valueWords_cons, totalWords, ih]

theorem valueWords_result {result : Option Ty} (value : Result ω result) :
    valueWords (Result.values result value) = resultWords result := by
  cases result with
  | none => rfl
  | some ty => rfl

namespace Image

variable {known : Known}

theorem pushResult_picture_full {capacity : Nat} {values : List (Argument ω)} {result : Option Ty}
    (value : Result ω result) (fits : valueWords values ≤ capacity)
    (full : capacity < valueWords (values ++ Result.values result value)) :
    pushResult result value (picture capacity values known) =
      .error (.fault .stackOverflow) (picture capacity values known) := by
  cases result with
  | none =>
    rw [Result.values, List.append_nil] at full
    omega
  | some ty => exact push_picture_full value full

/-- Host code gets the values on top and leaves its result there. -/
theorem callAdapter_picture (capacity : Nat) (known : Known) (values : List (Argument ω)) (adapter : Adapter ω)
    (operands : Operands ω adapter.parameters) :
    callAdapter adapter (picture capacity (values ++ Operands.values adapter.parameters operands) known) =
      (do
        pushResult adapter.result (adapter.apply operands)
        checkExternal adapter.external (valueWords values)) (picture capacity values known) := by
  have base : slotUnder adapter.external.argumentWords
      (picture capacity (values ++ Operands.values adapter.parameters operands) known) =
      .ok (valueWords values) (picture capacity (values ++ Operands.values adapter.parameters operands) known) := by
    rw [show adapter.external.argumentWords = valueWords (Operands.values adapter.parameters operands) from
      (valueWords_operands operands).symm]
    exact slotUnder_picture ..
  have applied : applyAdapter adapter (picture capacity (values ++ Operands.values adapter.parameters operands) known) =
      pushResult adapter.result (adapter.apply operands) (picture capacity values known) :=
    Machine.bind_ok (popAll_picture ..)
  refine (Machine.bind_ok base).trans ?_
  cases pushed : pushResult adapter.result (adapter.apply operands) (picture capacity values known) with
  | ok _ image => rw [Machine.bind_ok (applied.trans pushed), Machine.bind_ok pushed]
  | error trouble image => rw [Machine.bind_error (applied.trans pushed), Machine.bind_error pushed]

theorem checkExternal_picture (capacity : Nat) (values : List (Argument ω)) (adapter : Adapter ω)
    (result : Result ω adapter.result) :
    checkExternal adapter.external (valueWords values) (picture capacity (values ++ Result.values _ result) known) =
      .ok () (picture capacity (values ++ Result.values _ result) known) := by
  refine if_pos ?_
  rw [picture, length_layout, valueWords_append, valueWords_result]
  rfl

/-- Releasing the arguments of a frame takes away their handles and leaves the words alone. -/
theorem releaseArguments_picture (capacity live : Nat) (known : Known)
    (below released arguments after : List (Argument ω)) :
    releaseArguments (valueWords below) (slotsFrom (valueWords released) (arguments.map Argument.ty))
        ⟨capacity, live + handleCount arguments, layout (below ++ released ++ (arguments ++ after)), known⟩ =
      .ok () ⟨capacity, live, layout (below ++ released ++ (arguments ++ after)), known⟩ := by
  induction arguments generalizing released with
  | nil => rfl
  | cons argument rest ih =>
    obtain ⟨ty, value⟩ := argument
    have moved : below ++ (released ++ [⟨ty, value⟩]) ++ (rest ++ after) =
        below ++ released ++ (⟨ty, value⟩ :: rest ++ after) := by
      simp only [List.append_assoc, List.cons_append, List.nil_append]
    have further : valueWords (released ++ [(⟨ty, value⟩ : Argument ω)]) = valueWords released + ty.words := by
      simp only [valueWords_append, valueWords_cons, valueWords_nil, Nat.add_zero]
    have later := ih (released ++ [⟨ty, value⟩])
    rw [moved, further] at later
    cases ty with
    | scalar kind =>
      rw [handleCount_cons, show Argument.handles ⟨.scalar kind, value⟩ = 0 from rfl, Nat.zero_add]
      exact later
    | object =>
      have found : read .object (valueWords below + valueWords released)
          ⟨capacity, live + handleCount (⟨.object, value⟩ :: rest),
            layout (below ++ released ++ (⟨.object, value⟩ :: rest ++ after)), known⟩ =
          .ok value ⟨capacity, live + handleCount (⟨.object, value⟩ :: rest),
            layout (below ++ released ++ (⟨.object, value⟩ :: rest ++ after)), known⟩ := by
        rw [← valueWords_append]
        exact read_picture ..
      have dropped : release .object value ⟨capacity, live + handleCount (⟨.object, value⟩ :: rest),
            layout (below ++ released ++ (⟨.object, value⟩ :: rest ++ after)), known⟩ =
          .ok () ⟨capacity, live + handleCount rest,
            layout (below ++ released ++ (⟨.object, value⟩ :: rest ++ after)), known⟩ := by
        rw [handleCount_cons, Nat.add_comm (Argument.handles _), ← Nat.add_assoc]
        refine congrArg (EStateM.Result.ok ()) ?_
        rw [show Argument.handles ⟨.object, value⟩ = Operand.handles .object value from rfl, Nat.add_sub_cancel]
      exact (Machine.bind_ok found).trans ((Machine.bind_ok dropped).trans later)

end Image

namespace Image

variable {H : Type}

/-- A routine leaves its result in the place of its arguments. -/
theorem leave_picture {capacity : Nat} {known : Known} (frame : Frame H) {below arguments : List (Argument (Object H))}
    (base : frame.base = valueWords below)
    (declared : arguments.map Argument.ty = frame.routine.signature.types)
    (result : Result (Object H) frame.routine.signature.result) :
    ∃ after, leave frame (picture capacity (below ++ (arguments ++ Result.values _ result)) known) =
      .ok () (picture capacity (below ++ Result.values _ result) after) := by
  have argumentWords : frame.routine.signature.argumentWords = valueWords arguments := by
    rw [← totalWords_types, ← declared]
    rfl
  have returnWords : frame.routine.signature.returnWords = valueWords (Result.values _ result) :=
    (valueWords_result result).symm
  have checked : checkReturn frame.routine.signature frame.base
      (picture capacity (below ++ (arguments ++ Result.values _ result)) known) =
      .ok () (picture capacity (below ++ (arguments ++ Result.values _ result)) known) := by
    simp only [checkReturn, base, argumentWords, returnWords, picture, length_layout, valueWords_append]
    rw [if_neg (by omega), if_neg (by omega)]
  have counted : handleCount (below ++ (arguments ++ Result.values _ result)) =
      handleCount (below ++ Result.values _ result) + handleCount arguments := by
    simp only [handleCount_append]
    omega
  have released : releaseArguments frame.base frame.routine.signature.argumentSlots
      (picture capacity (below ++ (arguments ++ Result.values _ result)) known) =
      .ok () ⟨capacity, handleCount (below ++ Result.values _ result),
        layout (below ++ (arguments ++ Result.values _ result)), known⟩ := by
    have done := releaseArguments_picture capacity (handleCount (below ++ Result.values _ result)) known below []
      arguments (Result.values _ result)
    rw [List.append_nil, declared, ← counted] at done
    rw [base]
    exact done
  have kept : (layout (below ++ (arguments ++ Result.values _ result))).take (valueWords below) = layout below := by
    rw [layout_append, List.take_left' (length_layout below)]
  have moved : (layout (below ++ (arguments ++ Result.values _ result))).drop
      (valueWords below + valueWords arguments) = layout (Result.values _ result) := by
    rw [← List.drop_drop, layout_append, List.drop_left' (length_layout below), layout_append,
      List.drop_left' (length_layout arguments)]
  obtain ⟨after, dropped⟩ : ∃ after, dropArguments frame.base frame.routine.signature.argumentWords
      ⟨capacity, handleCount (below ++ Result.values _ result),
        layout (below ++ (arguments ++ Result.values _ result)), known⟩ =
      .ok () (picture capacity (below ++ Result.values _ result) after) := by
    simp only [dropArguments, base, argumentWords, kept, moved]
    rw [← layout_append]
    exact ⟨_, rfl⟩
  exact ⟨after, (Machine.bind_ok checked).trans ((Machine.bind_ok released).trans dropped)⟩

end Image

end WordMachine
