import WordMachine.Proofs.OwnedRun

namespace WordMachine

namespace OperandStack

variable {ω : Type}

/-- A stack that waits for reuse: whatever its words hold, nothing refers to an object. -/
structure Shelved (stack : OperandStack ω) : Prop where
  sound : stack.Sound
  consistent : stack.handles.Consistent
  live_eq : stack.handles.live = 0

theorem Shelved.fresh (capacity : Nat) : (fresh capacity : OperandStack ω).Shelved where
  sound := .fresh capacity
  consistent := HandleTable.empty_consistent
  live_eq := rfl

theorem shelved_recycle {stack : OperandStack ω} (sound : stack.Sound) (consistent : stack.handles.Consistent) :
    stack.recycle.Shelved where
  sound := sound.recycle
  consistent := consistent.clear
  live_eq := rfl

/-- An empty stack on shelved memory has no references that could be out of order. -/
theorem Shelved.intact {stack : OperandStack ω} (shelved : stack.Shelved) : Intact { stack with offset := 0 } where
  sound := ⟨shelved.sound.memory_size, shelved.sound.tags_size, Nat.zero_le _⟩
  consistent := shelved.consistent
  owns _ := ⟨fun _ reference => (Nat.not_lt_zero _ reference.1).elim,
    fun _ _ reference => (Nat.not_lt_zero _ reference.1).elim, HandleTable.refers_null _, fun _ _ _ => rfl⟩

end OperandStack

namespace VM

variable {H : Type}

/-- The machine that a call of the host starts with. -/
def lent (vm : VM H) : Machine H :=
  let (stack, vm) := vm.lendStack
  let (frames, vm) := vm.lendFrames
  ⟨frames, stack, vm.journal⟩

/-- What is left of the host's side while a call runs. -/
def lending (vm : VM H) : VM H :=
  vm.lendStack.2.lendFrames.2

theorem callUnchecked_eq (link : Linkage H) (vm : VM H) (routine : Routine (Object H))
    (arguments : List (Argument (Object H))) (result : Option Ty) :
    vm.callUnchecked link routine arguments result =
      match Machine.execute link routine arguments result vm.lent with
      | .ok value m => (.ok value, vm.lending.settle m)
      | .error fault m => (.error fault, vm.lending.settle m) :=
  rfl

theorem lent_frames (vm : VM H) : vm.lent.frames = ⟨[], vm.config.maxFrames⟩ := by
  obtain ⟨config, stackPool, framePool, journal⟩ := vm
  exact FramePool.lend_eq ..

theorem lent_stack (vm : VM H) :
    vm.lent.stack = (vm.stackPool.lend vm.config.stackDepth vm.journal).1 := by
  obtain ⟨config, stackPool, framePool, journal⟩ := vm
  rfl

theorem lending_config (vm : VM H) : vm.lending.config = vm.config := by
  obtain ⟨config, stackPool, framePool, journal⟩ := vm
  rfl

theorem settle_config (vm : VM H) (m : Machine H) : (vm.settle m).config = vm.config := by
  obtain ⟨config, stackPool, framePool, journal⟩ := vm
  rfl

/-- The hosts' sides that can come of calls: successful ones, ones that fail, and ones with the wrong types. -/
inductive Reached (table : HostTable H) (config : Config) : VM H → Prop
  | create (journal : Journal) : Reached table config (create config journal)
  | call {vm : VM H} (reached : Reached table config vm) (routine : Routine (Object H))
      (arguments : List (Argument (Object H))) (result : Option Ty) :
      Reached table config (vm.call table.link routine arguments result).2
  | invoke {vm : VM H} (reached : Reached table config vm) (routine : Routine (Object H)) :
      Reached table config (vm.invoke table.link routine).2
  | typed {vm : VM H} (reached : Reached table config vm) {types : List Ty} {result : Option Ty}
      (routine : TypedRoutine H types result) (arguments : List (Argument (Object H))) :
      Reached table config (routine.call table.link vm arguments).2

/-- The pool of stacks holds only shelved ones. -/
def Stocked (vm : VM H) : Prop :=
  ∀ stored ∈ vm.stackPool.free, stored.Shelved

theorem stocked_create (config : Config) (journal : Journal) : (create config journal : VM H).Stocked :=
  fun _ member => (Array.not_mem_empty _ member).elim

/-- What is lent from a stocked pool is an empty stack. -/
theorem Stocked.lent {vm : VM H} (stocked : vm.Stocked) :
    vm.lent.stack.Shelved ∧ vm.lent.stack.offset = 0 ∧ vm.lent.stack.capacity = vm.config.stackDepth := by
  rw [lent_stack]
  rcases vm.stackPool.lend_cases vm.config.stackDepth vm.journal with ⟨stored, member, fits, lent⟩ | fresh
  · have shelved := stocked stored member
    rw [lent]
    exact ⟨⟨⟨shelved.sound.memory_size, shelved.sound.tags_size, Nat.zero_le _⟩, shelved.consistent,
      shelved.live_eq⟩, rfl, fits⟩
  · rw [fresh]
    exact ⟨.fresh _, rfl, rfl⟩

theorem Stocked.intact {vm : VM H} (stocked : vm.Stocked) : vm.lent.stack.Intact := by
  obtain ⟨shelved, empty, _⟩ := stocked.lent
  have intact := shelved.intact
  rw [← empty] at intact
  exact intact

theorem Stocked.lendStackOf {vm : VM H} (stocked : vm.Stocked) (capacity : Nat) :
    (vm.lendStackOf capacity).2.Stocked := by
  obtain ⟨config, stackPool, framePool, journal⟩ := vm
  exact fun stored member => stocked stored (StackPool.mem_of_lend member)

/-- Whatever a stack was used for, the pool stays stocked when it is taken back, also after a failure. -/
theorem Stocked.takeBackStack {vm : VM H} (stocked : vm.Stocked) {stack : OperandStack (Object H)}
    (sound : stack.Sound) (consistent : stack.handles.Consistent) : (vm.takeBackStack stack).Stocked := by
  obtain ⟨config, stackPool, framePool, journal⟩ := vm
  intro stored member
  rcases Pool.mem_of_release member with old | rfl
  · exact stocked stored old
  · exact OperandStack.shelved_recycle sound consistent

theorem Stocked.lending {vm : VM H} (stocked : vm.Stocked) : vm.lending.Stocked := by
  have lent := stocked.lendStackOf vm.config.stackDepth
  obtain ⟨config, stackPool, framePool, journal⟩ := vm
  exact lent

theorem Stocked.settle {vm : VM H} (stocked : vm.Stocked) {m : Machine H} (sound : m.stack.Sound)
    (consistent : m.stack.handles.Consistent) : (vm.settle m).Stocked := by
  obtain ⟨config, stackPool, framePool, journal⟩ := vm
  have returned : (VM.takeBackFrames ⟨config, stackPool, framePool, m.journal⟩ m.frames).Stocked := stocked
  exact returned.takeBackStack sound consistent

theorem Stocked.callUnchecked {table : HostTable H} (propagates : table.Propagates) {vm : VM H}
    (stocked : vm.Stocked) (routine : Routine (Object H)) (arguments : List (Argument (Object H)))
    (result : Option Ty) : (vm.callUnchecked table.link routine arguments result).2.Stocked := by
  have upheld := Machine.upholds_execute propagates routine arguments result vm.lent stocked.intact
  rw [callUnchecked_eq]
  cases executed : Machine.execute table.link routine arguments result vm.lent with
  | ok value m =>
    rw [executed] at upheld
    exact stocked.lending.settle upheld.sound upheld.consistent
  | error fault m =>
    rw [executed] at upheld
    exact stocked.lending.settle upheld.sound upheld.consistent

theorem Stocked.call {table : HostTable H} (propagates : table.Propagates) {vm : VM H}
    (stocked : vm.Stocked) (routine : Routine (Object H)) (arguments : List (Argument (Object H)))
    (result : Option Ty) : (vm.call table.link routine arguments result).2.Stocked := by
  unfold VM.call
  split
  · exact stocked
  · exact stocked.callUnchecked propagates routine arguments result

theorem config_callUnchecked (link : Linkage H) (vm : VM H) (routine : Routine (Object H))
    (arguments : List (Argument (Object H))) (result : Option Ty) :
    (vm.callUnchecked link routine arguments result).2.config = vm.config := by
  rw [callUnchecked_eq]
  split <;> exact (settle_config ..).trans (lending_config vm)

theorem config_call (link : Linkage H) (vm : VM H) (routine : Routine (Object H))
    (arguments : List (Argument (Object H))) (result : Option Ty) :
    (vm.call link routine arguments result).2.config = vm.config := by
  unfold VM.call
  split
  · rfl
  · exact config_callUnchecked link vm routine arguments result

theorem Reached.config_eq {table : HostTable H} {config : Config} {vm : VM H} (reached : Reached table config vm) :
    vm.config = config := by
  induction reached with
  | create journal => rfl
  | call reached routine arguments result ih => exact (config_call ..).trans ih
  | invoke reached routine ih => exact (config_call ..).trans ih
  | typed reached routine arguments ih => exact (config_callUnchecked ..).trans ih

/-- Calls keep the pool stocked. -/
theorem Reached.stocked {table : HostTable H} (propagates : table.Propagates) {config : Config} {vm : VM H}
    (reached : Reached table config vm) : vm.Stocked := by
  induction reached with
  | create journal => exact stocked_create config journal
  | call reached routine arguments result ih => exact ih.call propagates routine arguments result
  | invoke reached routine ih => exact ih.call propagates routine [] none
  | typed reached routine arguments ih => exact ih.callUnchecked propagates routine.routine arguments _

end VM

end WordMachine
