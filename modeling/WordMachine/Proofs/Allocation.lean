import WordMachine.Proofs.Adapter

namespace WordMachine

namespace HandleTable

variable {ω : Type}

/-- What a table may have become after so many allocations. -/
structure Grown (table next : HandleTable ω) (allocations : Nat) : Prop where
  consistent : next.Consistent
  size_le : next.slots.size ≤ max table.slots.size (table.live + allocations)
  live_le : next.live ≤ table.live + allocations

theorem Grown.refl {table : HandleTable ω} (consistent : table.Consistent) (allocations : Nat) :
    Grown table table allocations :=
  ⟨consistent, Nat.le_max_left .., Nat.le_add_right ..⟩

theorem grown_alloc {table : HandleTable ω} (consistent : table.Consistent) (object : ω) :
    Grown table (table.alloc object).2 1 :=
  ⟨consistent.alloc object, consistent.size_alloc object, Nat.le_of_eq (table.live_alloc object)⟩

theorem live_le_release {table next : HandleTable ω} {handle : Handle} {object : Option ω}
    (released : table.release handle = .ok (object, next)) : next.live ≤ table.live := by
  rcases release_cases released with ⟨_, rfl, rfl⟩ | ⟨index, found, located, rfl, rfl⟩
  · exact Nat.le_refl _
  · exact Nat.sub_le ..

theorem Grown.trans {table middle final : HandleTable ω} {first second : Nat} (grown : Grown table middle first)
    (more : Grown middle final second) : Grown table final (first + second) := by
  have ⟨_, size_le, live_le⟩ := grown
  have ⟨consistent, more_size, more_live⟩ := more
  exact ⟨consistent, by omega, by omega⟩

end HandleTable

/-- How many handles an operation asks for. -/
def Access.allocations {ω : Type} : Access ω → Nat
  | .alloc _ => 1
  | .duplicate _ => 1
  | _ => 0

/-- All that an operation can do to the table of handles: nothing, issue a handle, or take one back. -/
theorem Access.handles_cases {ω : Type} (access : Access ω) (stack : OperandStack ω) :
    (finalState (access.perform stack)).handles = stack.handles ∨
      (access.allocations = 1 ∧
        ∃ object, (finalState (access.perform stack)).handles = (stack.handles.alloc object).2) ∨
      ∃ handle object, stack.handles.release handle = .ok (object, (finalState (access.perform stack)).handles) := by
  cases access with
  | push ty cell =>
    simp only [perform, StackM.pushCell]
    split <;> exact .inl rfl
  | pop ty =>
    simp only [perform, StackM.popCell]
    split
    · exact .inl rfl
    · cases stack.tags.check (stack.offset - ty.words) ty <;> exact .inl rfl
  | read ty slot =>
    simp only [perform, StackM.readCell]
    cases stack.cellAt ty slot <;> exact .inl rfl
  | write ty slot cell =>
    simp only [perform, StackM.writeCell]
    split <;> exact .inl rfl
  | needRoom words =>
    simp only [perform, StackM.needRoom]
    split <;> exact .inl rfl
  | alloc object => exact .inr (.inl ⟨rfl, object, rfl⟩)
  | duplicate handle =>
    simp only [perform, StackM.duplicate, HandleTable.duplicate]
    cases stack.handles.get handle with
    | error fault => exact .inl rfl
    | ok object =>
      cases object with
      | none => exact .inl rfl
      | some object => exact .inr (.inl ⟨rfl, object, rfl⟩)
  | resolve handle =>
    simp only [perform]
    cases stack.handles.get handle <;> exact .inl rfl
  | release handle =>
    simp only [perform, StackM.release]
    cases released : stack.handles.release handle with
    | error fault => exact .inl rfl
    | ok outcome => exact .inr (.inr ⟨handle, outcome.1, released⟩)
  | describe | moveDown | setOffset | usage => exact .inl rfl

theorem Access.size_le_perform {ω : Type} (access : Access ω) (stack : OperandStack ω) :
    stack.handles.slots.size ≤ (finalState (access.perform stack)).handles.slots.size := by
  rcases access.handles_cases stack with same | ⟨_, object, issued⟩ | ⟨handle, object, released⟩
  · exact Nat.le_of_eq (congrArg (·.slots.size) same.symm)
  · rw [issued]
    exact stack.handles.size_le_alloc object
  · exact Nat.le_of_eq (HandleTable.size_release released).symm

theorem Access.small_of_perform {ω : Type} (access : Access ω) {stack : OperandStack ω}
    (small : (finalState (access.perform stack)).handles.Small) : stack.handles.Small :=
  Nat.lt_of_le_of_lt (access.size_le_perform stack) small

theorem Access.grown_perform {ω : Type} (access : Access ω) {stack : OperandStack ω}
    (consistent : stack.handles.Consistent) :
    stack.handles.Grown (finalState (access.perform stack)).handles access.allocations := by
  rcases access.handles_cases stack with same | ⟨one, object, issued⟩ | ⟨handle, object, released⟩
  · rw [same]
    exact .refl consistent _
  · rw [one, issued]
    exact HandleTable.grown_alloc consistent object
  · refine ⟨consistent.release released, ?_, ?_⟩
    · rw [HandleTable.size_release released]
      exact Nat.le_max_left ..
    · exact Nat.le_trans (HandleTable.live_le_release released) (Nat.le_add_right ..)

namespace Script

variable {ω α β : Type}

/-- A table of handles never shrinks. -/
theorem size_le_run (script : Script ω α) (stack : OperandStack ω) :
    stack.handles.slots.size ≤ (finalState (script.run stack)).handles.slots.size := by
  induction script generalizing stack with
  | done value => exact Nat.le_refl _
  | fail fault => exact Nat.le_refl _
  | act access next ih =>
    have first := access.size_le_perform stack
    simp only [run]
    cases ran : access.perform stack with
    | ok reply final =>
      rw [ran] at first
      exact Nat.le_trans first (ih (.ok reply) final)
    | error fault final =>
      rw [ran] at first
      exact Nat.le_trans first (ih (.error fault) final)

theorem small_of_run {script : Script ω α} {stack : OperandStack ω}
    (small : (finalState (script.run stack)).handles.Small) : stack.handles.Small :=
  Nat.lt_of_le_of_lt (script.size_le_run stack) small

/-- Scripts that never ask for more handles than that. -/
def AllocatesAtMost (count : Nat) : Script ω α → Prop
  | done _ => True
  | fail _ => True
  | act access next => access.allocations ≤ count ∧ ∀ reply, (next reply).AllocatesAtMost (count - access.allocations)

theorem AllocatesAtMost.grown {script : Script ω α} {count : Nat} (most : script.AllocatesAtMost count)
    {stack : OperandStack ω} (consistent : stack.handles.Consistent) :
    stack.handles.Grown (finalState (script.run stack)).handles count := by
  induction script generalizing count stack with
  | done value => exact .refl consistent count
  | fail fault => exact .refl consistent count
  | act access next ih =>
    obtain ⟨enough, rest⟩ := most
    have first := access.grown_perform consistent
    have split_count : access.allocations + (count - access.allocations) = count := Nat.add_sub_cancel' enough
    rw [← split_count]
    simp only [run]
    cases ran : access.perform stack with
    | ok reply final =>
      rw [ran] at first
      exact first.trans (ih (.ok reply) (rest (.ok reply)) first.consistent)
    | error fault final =>
      rw [ran] at first
      exact first.trans (ih (.error fault) (rest (.error fault)) first.consistent)

theorem AllocatesAtMost.mono {script : Script ω α} {count more : Nat} (most : script.AllocatesAtMost count)
    (enough : count ≤ more) : script.AllocatesAtMost more := by
  induction script generalizing count more with
  | done value => trivial
  | fail fault => trivial
  | act access next ih =>
    exact ⟨Nat.le_trans most.1 enough, fun reply => ih reply (most.2 reply) (Nat.sub_le_sub_right enough _)⟩

theorem AllocatesAtMost.bind {script : Script ω α} {next : α → Script ω β} {first second : Nat}
    (most : script.AllocatesAtMost first) (rest : ∀ value, (next value).AllocatesAtMost second) :
    (script >>= next).AllocatesAtMost (first + second) := by
  induction script generalizing first with
  | done value => exact (rest value).mono (Nat.le_add_left ..)
  | fail fault => trivial
  | act access following ih =>
    refine ⟨Nat.le_trans most.1 (Nat.le_add_right ..), fun reply => ?_⟩
    have left := ih reply (most.2 reply)
    rw [← Nat.sub_add_comm most.1] at left
    exact left

theorem AllocatesAtMost.bindNone {script : Script ω α} {next : α → Script ω β} {count : Nat}
    (most : script.AllocatesAtMost count) (rest : ∀ value, (next value).AllocatesAtMost 0) :
    (script >>= next).AllocatesAtMost count :=
  most.bind rest

theorem AllocatesAtMost.noneBind {script : Script ω α} {next : α → Script ω β} {count : Nat}
    (nothing : script.AllocatesAtMost 0) (rest : ∀ value, (next value).AllocatesAtMost count) :
    (script >>= next).AllocatesAtMost count :=
  (nothing.bind rest).mono (Nat.le_of_eq (Nat.zero_add count))

theorem allocatesAtMost_pure (count : Nat) (value : α) : (pure value : Script ω α).AllocatesAtMost count :=
  trivial

theorem allocatesAtMost_fail (count : Nat) (fault : Fault) : (fail fault : Script ω α).AllocatesAtMost count :=
  trivial

theorem allocatesAtMost_call (access : Access ω) : (call access).AllocatesAtMost access.allocations :=
  ⟨Nat.le_refl _, fun reply => by cases reply <;> trivial⟩

theorem allocatesAtMost_pushOperand (ty : Ty) (value : Operand ω ty) : (pushOperand ty value).AllocatesAtMost 1 := by
  cases ty with
  | scalar kind => exact (allocatesAtMost_call (.push kind value)).mono (Nat.zero_le _)
  | object =>
    have issued : (handleFor value).AllocatesAtMost 1 := by
      cases value with
      | none => trivial
      | some object => exact allocatesAtMost_call (.alloc object)
    exact .noneBind (allocatesAtMost_call (.needRoom _)) fun _ => issued.bindNone fun handle =>
      allocatesAtMost_call (.push .object handle)

theorem allocatesAtMost_popOperand (ty : Ty) : (popOperand ty : Script ω _).AllocatesAtMost 0 := by
  cases ty with
  | scalar kind => exact allocatesAtMost_call (.pop kind)
  | object => exact .noneBind (allocatesAtMost_call (.pop .object)) fun handle => allocatesAtMost_call (.release handle)

theorem allocatesAtMost_pushResult (result : Option Ty) (value : Result ω result) :
    (pushResult result value).AllocatesAtMost 1 := by
  cases result with
  | none => trivial
  | some ty => exact allocatesAtMost_pushOperand ty value

theorem allocatesAtMost_popAll (types : List Ty) : (popAll types : Script ω _).AllocatesAtMost 0 := by
  induction types with
  | nil => trivial
  | cons ty rest ih =>
    exact ih.noneBind fun values => (allocatesAtMost_popOperand ty).noneBind fun value => allocatesAtMost_pure 0 _

theorem allocatesAtMost_addScalars (kind : Scalar) (sum : kind.Value → kind.Value → Option kind.Value) :
    (addScalars kind sum : Script ω Unit).AllocatesAtMost 0 := by
  refine .noneBind (allocatesAtMost_call (.pop kind)) fun b => .noneBind (allocatesAtMost_call (.pop kind)) fun a => ?_
  cases sum a b with
  | some total => exact allocatesAtMost_call (.push kind total)
  | none => trivial

theorem allocatesAtMost_addTop (ty : Ty) : (addTop ty : Script ω Unit).AllocatesAtMost 0 := by
  cases ty with
  | object => trivial
  | scalar kind =>
    simp only [addTop]
    split
    · trivial
    · exact allocatesAtMost_addScalars kind _

theorem allocatesAtMost_returning (handle : Handle) (fault : Fault) :
    (returning handle fault : Script ω α).AllocatesAtMost 0 :=
  .noneBind (allocatesAtMost_call (.release handle)) fun _ => allocatesAtMost_fail 0 fault

theorem allocatesAtMost_pushOwned (handle : Handle) : (pushOwned handle : Script ω Unit).AllocatesAtMost 0 := by
  refine ⟨Nat.le_refl _, fun reply => ?_⟩
  cases reply with
  | ok _ => trivial
  | error fault => exact allocatesAtMost_returning handle fault

theorem allocatesAtMost_loadLocal (ty : Ty) (slot : Nat) : (loadLocal ty slot : Script ω Unit).AllocatesAtMost 1 := by
  cases ty with
  | scalar kind =>
    have most : (loadScalar kind slot : Script ω Unit).AllocatesAtMost 0 :=
      .noneBind (allocatesAtMost_call (.read kind slot)) fun value => allocatesAtMost_call (.push kind value)
    exact most.mono (Nat.zero_le _)
  | object =>
    exact .noneBind (allocatesAtMost_call (.read .object slot)) fun handle =>
      .bindNone (allocatesAtMost_call (.duplicate handle)) fun copy => allocatesAtMost_pushOwned copy

theorem allocatesAtMost_replacedHandle (handle : Handle) (slot : Nat) :
    (replacedHandle handle slot : Script ω Handle).AllocatesAtMost 0 := by
  refine ⟨Nat.le_refl _, fun reply => ?_⟩
  cases reply with
  | ok previous => trivial
  | error fault => exact allocatesAtMost_returning handle fault

theorem allocatesAtMost_storeLocal (ty : Ty) (slot : Nat) : (storeLocal ty slot : Script ω Unit).AllocatesAtMost 0 := by
  cases ty with
  | scalar kind =>
    exact .noneBind (allocatesAtMost_call (.pop kind)) fun value => allocatesAtMost_call (.write kind slot value)
  | object =>
    exact .noneBind (allocatesAtMost_call (.pop .object)) fun handle =>
      (allocatesAtMost_replacedHandle handle slot).noneBind fun previous =>
        .noneBind (allocatesAtMost_call (.write .object slot handle)) fun _ =>
          .noneBind (allocatesAtMost_call (.release previous)) fun _ => allocatesAtMost_pure 0 ()

theorem allocatesAtMost_releaseArguments (base : Nat) (slots : List (Nat × Ty)) :
    (releaseArguments base slots : Script ω Unit).AllocatesAtMost 0 := by
  induction slots with
  | nil => trivial
  | cons entry rest ih =>
    obtain ⟨slot, ty⟩ := entry
    cases ty with
    | scalar kind => exact ih
    | object =>
      exact .noneBind (allocatesAtMost_call (.read .object _)) fun handle =>
        .noneBind (allocatesAtMost_call (.release handle)) fun _ => ih

theorem allocatesAtMost_describeAll (base : Nat) (slots : List (Nat × Ty)) :
    (describeAll base slots : Script ω Unit).AllocatesAtMost 0 := by
  induction slots with
  | nil => trivial
  | cons entry rest ih => exact .noneBind (allocatesAtMost_call (.describe _ _)) fun _ => ih

theorem allocatesAtMost_slotUnder (words : Nat) : (slotUnder words : Script ω Nat).AllocatesAtMost 0 := by
  refine .noneBind (allocatesAtMost_call .usage) fun used => ?_
  split <;> trivial

theorem allocatesAtMost_checkExternal (external : External ω) (base : Nat) :
    (checkExternal external base).AllocatesAtMost 0 := by
  refine .noneBind (allocatesAtMost_call .usage) fun used => ?_
  split <;> trivial

theorem allocatesAtMost_callCode (adapter : Adapter ω) : (callCode adapter.code).AllocatesAtMost 1 := by
  have applied : adapter.script.AllocatesAtMost 1 :=
    (allocatesAtMost_popAll adapter.parameters).noneBind fun values =>
      allocatesAtMost_pushResult _ (adapter.apply values)
  exact (allocatesAtMost_slotUnder _).noneBind fun base =>
    applied.bindNone fun _ => allocatesAtMost_checkExternal _ base

theorem allocatesAtMost_leave {H : Type} (frame : Frame H) : (leave frame).AllocatesAtMost 0 := by
  have checked : (checkReturn frame.routine.signature frame.base : Script (Object H) Unit).AllocatesAtMost 0 := by
    refine .noneBind (allocatesAtMost_call .usage) fun used => ?_
    dsimp only
    split
    · trivial
    · split <;> trivial
  have described : (describeResult frame.routine.signature frame.base : Script (Object H) Unit).AllocatesAtMost 0 := by
    unfold describeResult
    split
    · exact allocatesAtMost_describeAll _ _
    · trivial
  exact checked.noneBind fun _ => described.noneBind fun _ => (allocatesAtMost_releaseArguments _ _).noneBind fun _ =>
    .noneBind (allocatesAtMost_call (.moveDown _ _ _)) fun _ => allocatesAtMost_call (.setOffset _)

/-- No instruction asks for more than one handle. -/
theorem allocatesAtMost_effect {H : Type} (adapters : Adapters H) (frame : Frame H) (instruction : Instruction) :
    (effect adapters.table frame instruction).AllocatesAtMost 1 := by
  have keeping : ∀ {script : Script (Object H) Unit}, script.AllocatesAtMost 1 →
      (keeping script).AllocatesAtMost 1 := fun most => most.bindNone fun _ => allocatesAtMost_pure 0 _
  cases instruction with
  | constant ty position =>
    refine keeping ?_
    unfold pushConstant
    split
    · exact allocatesAtMost_pushOperand ty _
    · trivial
  | add ty => exact keeping ((allocatesAtMost_addTop ty).mono (Nat.zero_le _))
  | pop ty => exact keeping (.noneBind (allocatesAtMost_popOperand ty) fun _ => allocatesAtMost_pure 1 ())
  | setLocal ty offset => exact keeping ((allocatesAtMost_storeLocal ty _).mono (Nat.zero_le _))
  | getLocal ty offset => exact keeping (allocatesAtMost_loadLocal ty _)
  | call position =>
    simp only [effect]
    cases frame.routine.chunk.constants.readRoutine position with
    | error error => trivial
    | ok callee =>
      exact (allocatesAtMost_slotUnder _).noneBind fun base => (allocatesAtMost_describeAll base _).noneBind fun _ =>
        allocatesAtMost_pure 1 _
  | externalCall position =>
    simp only [effect, Adapters.readCode_table]
    cases adapters.read frame.routine.chunk.constants position with
    | error error => trivial
    | ok adapter => exact keeping (allocatesAtMost_callCode adapter)
  | ret => exact (allocatesAtMost_leave frame).noneBind fun _ => allocatesAtMost_pure 1 _

end Script

namespace Machine

variable {H : Type}

theorem stack_after (frames : Frames H) (journal : Journal)
    (outcome : EStateM.Result Fault (OperandStack (Object H)) (FrameChange H)) :
    (Progress.after frames journal outcome).machine.stack = finalState outcome := by
  cases outcome with
  | error fault final => rfl
  | ok change final =>
    simp only [Progress.after]
    split
    · split <;> rfl
    · rfl

/-- All that a tick can do to the stack: nothing, or what an instruction does. -/
theorem stack_tick (table : HostTable H) (m : Machine H) :
    (tick table.link m).machine.stack = m.stack ∨
      ∃ frame instruction,
        (tick table.link m).machine.stack = finalState ((Script.effect table frame instruction).run m.stack) := by
  obtain ⟨⟨active, limit⟩, stack, journal⟩ := m
  cases active with
  | nil => exact .inl rfl
  | cons frame below =>
    cases fetched : frame.routine.chunk.fetch frame.ip with
    | error error =>
      obtain ⟨later, ticked⟩ := tick_fetch_error table.link below limit stack journal fetched
      exact .inl (by rw [ticked]; rfl)
    | ok instruction =>
      obtain ⟨later, ticked⟩ := tick_eq table.link below limit stack journal fetched
      exact .inr ⟨frame.advanced, instruction, by rw [ticked, stack_after, Script.run_effect]⟩

theorem size_le_tick (table : HostTable H) (m : Machine H) :
    m.stack.handles.slots.size ≤ (tick table.link m).machine.stack.handles.slots.size := by
  rcases stack_tick table m with same | ⟨frame, instruction, ran⟩
  · exact Nat.le_of_eq (congrArg (·.handles.slots.size) same.symm)
  · rw [ran]
    exact Script.size_le_run _ m.stack

theorem size_le_run (table : HostTable H) (m : Machine H) :
    m.stack.handles.slots.size ≤ (finalState (run table.link m)).stack.handles.slots.size := by
  induction m using run_induction table.link with
  | step m ih =>
    have grown := size_le_tick table m
    cases ticked : tick table.link m with
    | running next =>
      rw [ticked] at grown
      rw [run_of_running ticked]
      exact Nat.le_trans grown (ih next ticked)
    | halted final =>
      rw [ticked] at grown
      rw [run_of_halted ticked]
      exact grown
    | faulted fault final =>
      rw [ticked] at grown
      rw [run_of_faulted ticked]
      exact grown

theorem size_tick_le_run (table : HostTable H) (m : Machine H) :
    (tick table.link m).machine.stack.handles.slots.size ≤
      (finalState (run table.link m)).stack.handles.slots.size := by
  cases ticked : tick table.link m with
  | running next =>
    rw [run_of_running ticked]
    exact size_le_run table next
  | halted final =>
    rw [run_of_halted ticked]
    exact Nat.le_refl _
  | faulted fault final =>
    rw [run_of_faulted ticked]
    exact Nat.le_refl _

end Machine

end WordMachine
