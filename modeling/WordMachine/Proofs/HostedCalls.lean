import WordMachine.Proofs.AdapterCalls

namespace WordMachine

/-- Does something beside a state that it knows nothing of. -/
def beside {ε s σ α : Type} (step : EStateM ε s α) : EStateM ε (s × σ) α := fun (state, other) =>
  onState (·, other) (step state)

section Beside

variable {ε s σ α β : Type} {step : EStateM ε s α} {state final : s}

theorem onState_fst (outcome : EStateM.Result ε s α) (other : σ) :
    onState Prod.fst (onState (·, other) outcome) = outcome := by
  cases outcome <;> rfl

theorem beside_ok {value : α} (ran : step state = .ok value final) (other : σ) :
    beside step (state, other) = .ok value (final, other) := by
  simp only [beside, ran, onState]

theorem beside_error {error : ε} (ran : step state = .error error final) (other : σ) :
    beside step (state, other) = .error error (final, other) := by
  simp only [beside, ran, onState]

theorem beside_bind (step : EStateM ε s α) (next : α → EStateM ε s β) :
    (beside (step >>= next) : EStateM ε (s × σ) β) = beside step >>= fun value => beside (next value) := by
  funext ⟨state, other⟩
  cases ran : step state with
  | ok value final =>
    rw [Machine.bind_ok (beside_ok ran other)]
    simp only [beside, Machine.bind_ok ran]
  | error error final => rw [Machine.bind_error (beside_error ran other), beside_error (Machine.bind_error ran)]

end Beside

/-- Steps of host code that has a state of its own besides the stack. -/
abbrev HostM (σ ω : Type) := EStateM Fault (OperandStack ω × σ)

/-- Asks the host, which knows nothing of the stack. The answer may depend on the state of the host and change it. -/
def HostM.ask {σ ω α : Type} (answer : σ → α × σ) : HostM σ ω α := fun (stack, host) =>
  .ok (answer host).1 (stack, (answer host).2)

instance (σ ω : Type) : HostSteps ω (HostM σ ω) where
  onStack step := beside step

instance (σ ω : Type) : LawfulHostSteps ω (HostM σ ω) where
  onStack_pure _ := rfl
  onStack_bind := beside_bind

/-- Steps of a run together with a state of the host. -/
abbrev HostedM (σ H : Type) := EStateM Fault (Machine H × σ)

instance (σ H : Type) : HostedRun H (HostM σ (Object H)) (HostedM σ H) where
  onMachine step := beside step
  onHost step := fun (⟨frames, stack, journal⟩, host) =>
    onState (fun (stack, host) => (⟨frames, stack, journal⟩, host)) (step (stack, host))

namespace Machine

variable {σ H : Type} {parameters : List Ty} {result : Option Ty}
  {f : Operands (Object H) parameters → σ → Result (Object H) result × σ}

/-- The state of the host once a function was asked for the values on top of a stack. It is not asked unless they can
all be taken. -/
def asked (f : Operands (Object H) parameters → σ → Result (Object H) result × σ) (stack : OperandStack (Object H))
    (host : σ) : σ :=
  match (Script.popAll parameters).run stack with
  | .ok values _ => (f values host).2
  | .error _ _ => host

/-- The function that a host computes in one of its states. -/
def adapterIn (name : String) (f : Operands (Object H) parameters → σ → Result (Object H) result × σ) (host : σ) :
    Adapter (Object H) :=
  ⟨name, parameters, result, fun values => (f values host).1⟩

variable {external : Native (HostM σ (Object H))}

theorem callback_hosted (adapts : external.Adapts parameters result fun values => HostM.ask (f values))
    (stack : OperandStack (Object H)) (host : σ) :
    external.callback (stack, host) = onState (·, asked f stack host)
      (((Script.popAll parameters).run >>= fun values => StackM.pushResult result (f values host).1) stack) := by
  rw [congrArg Native.callback adapts.eq_mk]
  unfold asked
  cases popping : (Script.popAll parameters).run stack with
  | error fault final =>
    rw [bind_error popping]
    exact bind_error (beside_error popping host)
  | ok values popped =>
    rw [bind_ok popping]
    exact bind_ok (beside_ok popping host)

/-- A call together with a state of the host is a call of code that does the same to the stack. -/
theorem callExternal_hosted {frames : Frames H} {stack : OperandStack (Object H)} {code : StackM (Object H) Unit}
    {host last : σ} (journal : Journal) (enough : external.argumentWords ≤ stack.offset)
    (same : external.callback (stack, host) = onState (·, last) (code stack)) :
    callExternal external (⟨frames, stack, journal⟩, host) = onState (·, last)
      (callExternal ⟨external.name, external.parameters, external.result, code⟩ ⟨frames, stack, journal⟩) := by
  have noted := note_externalCall external frames stack journal
  have low : slotBelow external.argumentWords ⟨frames, stack, journal⟩ = .ok _ _ := slotBelow_of_le enough
  rw [callExternal_of_enough journal enough]
  refine (bind_ok (beside_ok low host)).trans ((bind_ok (beside_ok noted host)).trans ?_)
  unfold answer
  cases answered : code stack with
  | error fault final =>
    rw [answered] at same
    rw [onStack_error (bind_error answered)]
    exact bind_error (congrArg (onState _) same)
  | ok value final =>
    rw [answered] at same
    simp only [onStack, bind_ok answered]
    have called : (HostedRun.onHost external.callback : HostedM σ H Unit)
        (⟨frames, stack, announced external journal⟩, host) =
          .ok value (⟨frames, final, announced external journal⟩, last) := congrArg (onState _) same
    exact bind_ok called

/-- A call of host code for a function is the call that the machine makes by itself for the answers which the function
gives in this state of the host. -/
theorem callExternal_adapts (adapts : external.Adapts parameters result fun values => HostM.ask (f values))
    (m : Machine H) (host : σ) :
    callExternal external (m, host) = onState (·, asked f m.stack host)
      (callExternal (adapterIn external.name f host).external m) := by
  obtain ⟨frames, stack, journal⟩ := m
  have words := adapts.argumentWords_eq
  by_cases low : stack.offset < external.argumentWords
  · have unasked : asked f stack host = host := by
      unfold asked
      cases popping : (Script.popAll parameters).run stack with
      | error fault final => rfl
      | ok values popped =>
        have enough := (Script.relieved_popAll popping).1.enough
        omega
    have short : slotBelow external.argumentWords ⟨frames, stack, journal⟩ = .error .stackUnderflow _ := if_pos low
    rw [words] at low
    rw [unasked, callExternal_underflow low]
    exact bind_error (beside_error short host)
  · have called := callback_hosted adapts stack host
    rw [callExternal_hosted journal (Nat.not_lt.mp low) called, adapts.declared_eq, adapterIn, Adapter.external_mk]

theorem asked_of_popAll {stack popped : OperandStack (Object H)} {values : Operands (Object H) parameters} {host : σ}
    (popping : (Script.popAll parameters).run stack = .ok values popped) : asked f stack host = (f values host).2 := by
  simp only [asked, popping]

theorem asked_cases (f : Operands (Object H) parameters → σ → Result (Object H) result × σ)
    (stack : OperandStack (Object H)) (host : σ) :
    asked f stack host = host ∨ ∃ values popped, (Script.popAll parameters).run stack = .ok values popped ∧
      asked f stack host = (f values host).2 := by
  cases popping : (Script.popAll parameters).run stack with
  | error fault final => exact .inl (by simp only [asked, popping])
  | ok values popped => exact .inr ⟨values, popped, rfl, asked_of_popAll popping⟩

/-- Host code for a function keeps to the stack effect that it declares. If a call of it succeeds, the function was
asked once, for the arguments on top; its answer is in their place and nothing else has changed. A call never fails
because of the number of words that are left. However a call ends, the host is in the state it was in, or the function
was asked once, for the arguments on top, and each of them had its type. And the machine itself, when it calls host code
without effects, goes on as the host with its effects does. -/
theorem adapters_keep_effect (adapts : external.Adapts parameters result fun values => HostM.ask (f values))
    (m : Machine H) (host : σ) :
    (∀ final after, m.stack.Tended → callExternal external (m, host) = .ok () (final, after) →
      ∃ values, KeepsEffect external.argumentWords external.returnWords m final values (f values host).1 ∧
        after = (f values host).2) ∧
    (∀ name expected found final,
      callExternal external (m, host) ≠ .error (.returnCountMismatch name expected found) final) ∧
    ((finalState (callExternal external (m, host))).2 = host ∨
      ∃ values, external.argumentWords ≤ m.stack.offset ∧
        (∀ entry ∈ slotsFrom (m.stack.offset - external.argumentWords) parameters,
          m.stack.tags.get entry.1 = some entry.2) ∧
        m.stack.operandsAt (m.stack.offset - external.argumentWords) parameters = .ok values ∧
        (finalState (callExternal external (m, host))).2 = (f values host).2) ∧
    ∀ (own : External (Object H)) (g : Operands (Object H) parameters → Result (Object H) result),
      own.Adapts parameters result (fun values => pure (g values)) → own.name = external.name →
      (∀ values, g values = (f values host).1) →
      callExternal own m = onState Prod.fst (callExternal external (m, host)) := by
  rw [callExternal_adapts adapts, adapts.argumentWords_eq, adapts.returnWords_eq, finalState_onState]
  refine ⟨fun final after tended called => ?_, fun name expected found final failed => ?_, ?_, ?_⟩
  · cases outcome : callExternal (adapterIn external.name f host).external m with
    | error fault last =>
      rw [outcome] at called
      cases called
    | ok value last =>
      rw [outcome] at called
      cases called
      obtain ⟨values, popped, popping, kept⟩ := keepsEffect_of_callExternal tended outcome
      exact ⟨values, kept, asked_of_popAll popping⟩
  · cases outcome : callExternal (adapterIn external.name f host).external m with
    | ok value last =>
      rw [outcome] at failed
      cases failed
    | error fault last =>
      rw [outcome] at failed
      cases failed
      exact callExternal_ne_returnCountMismatch _ m name expected found last outcome
  · refine (asked_cases f m.stack host).imp_right ?_
    rintro ⟨values, popped, popping, changed⟩
    obtain ⟨relieved, given⟩ := Script.relieved_popAll popping
    exact ⟨values, relieved.enough, fun entry member => (OperandStack.operandsAt_live given entry member).2, given,
      changed⟩
  · intro own g adapted name_eq same
    rw [adapted.eq_external, name_eq, funext same]
    exact (onState_fst _ _).symm

end Machine

namespace Choice

/-- What a host remembers of each time it was asked. -/
abbrev Log := List (Option (Object Nat) × Decimal × Bool)

/-- Gives back its first argument if the last one says so, and remembers what it was asked for. -/
def choose (object : Option (Object Nat)) (number : Decimal) (chosen : Bool) (log : Log) : Option (Object Nat) × Log :=
  (if chosen then object else none, log ++ [(object, number, chosen)])

def answer : Operands (Object Nat) [.object, .scalar .decimal, .scalar .bool] → Log → Option (Object Nat) × Log
  | (object, number, chosen, ()) => choose object number chosen

def external : Native (HostM Log (Object Nat)) :=
  .ternary "Choose" .object (.scalar .decimal) (.scalar .bool) (some .object) fun object number chosen =>
    HostM.ask (choose object number chosen)

theorem adapts : external.Adapts [.object, .scalar .decimal, .scalar .bool] (some .object) fun values =>
    HostM.ask (answer values) :=
  .ternary ..

/-- An object, and above it the arguments of a call. -/
def arguments : List (Argument (Object Nat)) :=
  [⟨.object, some (.host 1)⟩, ⟨.object, some (.host 2)⟩, ⟨.scalar .decimal, (⟨0, 1, 2⟩ : Decimal)⟩,
    ⟨.scalar .bool, true⟩]

def machine : Machine Nat := ⟨⟨[], 1⟩, finalState (StackM.pushAll arguments (.fresh 8)), .silent⟩

theorem stacked : machine.stack.Tended ∧
    machine.stack.operandsAt 1 [.object, .scalar .decimal, .scalar .bool] =
      .ok (some (.host 2), (⟨0, 1, 2⟩ : Decimal), true, ()) := by
  have pushed : StackM.pushAll arguments (.fresh 8) = .ok () machine.stack := rfl
  have small : machine.stack.handles.Small := by decide +kernel
  obtain ⟨retains, held⟩ := StackM.pushAll_eq_ok (OperandStack.Shelved.fresh 8).tended (Nat.zero_add 0) pushed
  have slots : slotsFrom 0 (arguments.map Argument.ty) =
      [(0, .object), (1, .object), (2, .scalar .decimal), (4, .scalar .bool)] := by decide
  rw [slots] at held
  obtain ⟨_, _ | ⟨⟨_, object⟩, _ | ⟨⟨_, number⟩, _ | ⟨⟨_, chosen⟩, _⟩⟩⟩⟩ := List.forall₂_cons.mp held
  exact ⟨retains.tended, OperandStack.operandsAt_cons_eq_ok (object fun _ => small)
    (OperandStack.operandsAt_cons_eq_ok (number nofun) (OperandStack.operandsAt_cons_eq_ok (chosen nofun) rfl))⟩

end Choice

namespace Machine

theorem adapters_keep_effect_of_choice : ∃ final,
    callExternal Choice.external (Choice.machine, []) =
      .ok () (final, [(some (.host 2), (⟨0, 1, 2⟩ : Decimal), true)]) ∧
    final.stack.offset = 2 ∧ final.stack.operandAt .object 1 = .ok (some (.host 2)) ∧
    Choice.machine.stack.AgreesBelow final.stack 1 := by
  have succeeds : (match callExternal Choice.external (Choice.machine, []) with
      | .ok _ (final, _) => decide final.stack.handles.Small
      | .error _ _ => false) = true := by decide +kernel
  cases called : callExternal Choice.external (Choice.machine, []) with
  | error fault final =>
    rw [called] at succeeds
    cases succeeds
  | ok value last =>
    obtain ⟨final, log⟩ := last
    rw [called] at succeeds
    have small : final.stack.handles.Small := of_decide_eq_true succeeds
    obtain ⟨values, ⟨_, _, offset_eq, found, held, agrees, _, _⟩, rfl⟩ :=
      (adapters_keep_effect Choice.adapts Choice.machine []).1 final log Choice.stacked.1 called
    have base : Choice.machine.stack.offset - Choice.external.argumentWords = 1 := by decide +kernel
    rw [base] at offset_eq found held agrees
    rw [Choice.stacked.2] at found
    cases found
    exact ⟨final, rfl, offset_eq, held fun _ => small, agrees⟩

end Machine

end WordMachine
