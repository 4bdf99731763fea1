import WordMachine.Proofs.History
import WordMachine.Proofs.Reuse

namespace WordMachine

/-- The counters of a pool of the given size after so many times that something was borrowed and given back, one at a
time: something is made for the first time only, or each time if the pool keeps nothing. -/
structure PoolStats.Balanced (stats : PoolStats) (size calls : Nat) : Prop where
  borrowed : stats.allocations + stats.reuses = calls
  returned : stats.releases + stats.discarded = calls
  keeping : 0 < size → 0 < calls → stats.allocations = 1 ∧ stats.discarded = 0
  keepingNone : size = 0 → stats.allocations = calls ∧ stats.discarded = calls

namespace Pool

variable {α : Type}

/-- A pool that gets back what it lends before it lends again. -/
structure Cycled (pool : Pool α) (size calls : Nat) : Prop where
  retain_eq : pool.retain = size
  idle_eq : pool.free.size = if size = 0 then 0 else min calls 1
  stats_eq : pool.stats = if size = 0 then ⟨calls, 0, 0, calls⟩ else ⟨min calls 1, calls - 1, calls, 0⟩

theorem empty_cycled (size : Nat) : (empty size : Pool α).Cycled size 0 where
  retain_eq := rfl
  idle_eq := by simp [empty]
  stats_eq := by simp [empty, PoolStats.zero]

theorem Cycled.balanced {pool : Pool α} {size calls : Nat} (cycled : pool.Cycled size calls) :
    pool.stats.Balanced size calls := by
  rw [cycled.stats_eq]
  by_cases none : size = 0
  · rw [if_pos none]
    exact ⟨Nat.add_zero calls, Nat.zero_add calls, fun some => by omega, fun _ => ⟨rfl, rfl⟩⟩
  · rw [if_neg none]
    refine ⟨?_, Nat.add_zero calls, fun _ positive => ⟨?_, rfl⟩, fun zero => (none zero).elim⟩
    · change min calls 1 + (calls - 1) = calls
      omega
    · change min calls 1 = 1
      omega

/-- One more round. Whatever waits in the pool has to fit. -/
theorem Cycled.next {pool : Pool α} {size calls : Nat} (cycled : pool.Cycled size calls) {fits : α → Bool}
    (fitting : ∀ stored ∈ pool.free, fits stored = true) (make : Unit → α) (value : α) :
    ((pool.acquireWhere fits make).2.release value).Cycled size (calls + 1) := by
  obtain ⟨retain_eq, idle_eq, stats_eq⟩ := cycled
  rcases pool.acquireWhere_cases fits make with ⟨none, made⟩ | ⟨found, rest, reused, _, perm, same, counted⟩
  · have unused : pool.free.size = 0 := by
      refine Nat.eq_zero_of_not_pos fun positive => ?_
      have member := Array.getElem_mem positive
      have suitable := fitting _ member
      rw [none _ member] at suitable
      cases suitable
    rw [made]
    by_cases keepsNone : size = 0
    · have full : pool.missed.retain ≤ pool.missed.free.size := by
        change pool.retain ≤ pool.free.size
        omega
      rw [if_pos keepsNone] at stats_eq
      rw [release_of_ge full]
      refine ⟨retain_eq, ?_, ?_⟩
      · rw [if_pos keepsNone]
        exact unused
      · rw [if_pos keepsNone]
        simp [missed, stats_eq]
    · have room : pool.missed.free.size < pool.missed.retain := by
        change pool.free.size < pool.retain
        omega
      rw [if_neg keepsNone] at stats_eq idle_eq
      have first : calls = 0 := by omega
      rw [release_of_lt room]
      refine ⟨retain_eq, ?_, ?_⟩
      · rw [if_neg keepsNone, Array.size_push]
        change pool.free.size + 1 = _
        omega
      · rw [if_neg keepsNone]
        simp [missed, stats_eq, first]
  · have one : pool.free.size = rest.free.size + 1 := by simpa using perm.length_eq
    have keeps : size ≠ 0 := by
      rintro rfl
      rw [if_pos rfl] at idle_eq
      omega
    rw [if_neg keeps] at idle_eq stats_eq
    have room : rest.free.size < rest.retain := by omega
    rw [reused, release_of_lt room]
    refine ⟨same.trans retain_eq, ?_, ?_⟩
    · rw [if_neg keeps, Array.size_push]
      omega
    · have some : 1 ≤ calls := by omega
      rw [if_neg keeps, counted, stats_eq]
      change (⟨min calls 1, calls - 1 + 1, calls + 1, 0⟩ : PoolStats) = ⟨min (calls + 1) 1, calls, calls + 1, 0⟩
      rw [Nat.sub_add_cancel some, Nat.min_eq_right some, Nat.min_eq_right (Nat.le_add_left 1 calls)]

theorem mem_of_acquireWhere {pool : Pool α} {fits : α → Bool} {make : Unit → α} {stored : α}
    (member : stored ∈ (pool.acquireWhere fits make).2.free) : stored ∈ pool.free := by
  rcases pool.acquireWhere_cases fits make with ⟨_, made⟩ | ⟨found, rest, reused, _, perm, _, _⟩
  · rw [made] at member
    exact member
  · rw [reused] at member
    rw [← Array.mem_toList_iff] at member ⊢
    exact perm.mem_iff.mpr (List.mem_cons_of_mem _ member)

end Pool

namespace OperandStack

variable {ω : Type}

/-- A stack of the given capacity on which nothing was left: no handle refers to anything and no slot has a tag. -/
structure Clean (stack : OperandStack ω) (capacity : Nat) : Prop where
  capacity_eq : stack.capacity = capacity
  live_eq : stack.liveHandles = 0
  unresolved : ∀ handle, stack.handles.locate? handle = none
  untagged : ∀ slot, stack.tags.get slot = none

theorem clean_fresh (capacity : Nat) : (fresh capacity : OperandStack ω).Clean capacity where
  capacity_eq := rfl
  live_eq := rfl
  unresolved handle := by
    have cleared : (HandleTable.empty : HandleTable ω).clear = .empty := by simp [HandleTable.clear,
      HandleTable.empty, HandleTable.occupied]
    have located := HandleTable.locate?_clear (HandleTable.empty : HandleTable ω) handle
    rwa [cleared] at located
  untagged _ := getD_replicate ..

theorem clean_recycle {stack : OperandStack ω} {capacity : Nat} (sized : stack.capacity = capacity) :
    stack.recycle.Clean capacity where
  capacity_eq := sized
  live_eq := rfl
  unresolved := HandleTable.locate?_clear stack.handles
  untagged _ := getD_replicate ..

end OperandStack

theorem Routine.typed_of_ok {H : Type} (routine : Routine (Object H)) {types : List Ty} {result : Option Ty}
    (accepted : routine.signature.check types result = .ok ()) :
    routine.typed types result = .ok ⟨routine, accepted⟩ := by
  unfold Routine.typed
  split
  · rfl
  · rename_i refused
    rw [accepted] at refused
    cases refused

theorem Routine.typed_of_error {H : Type} (routine : Routine (Object H)) {types : List Ty} {result : Option Ty}
    {fault : Fault} (refused : routine.signature.check types result = .error fault) :
    routine.typed types result = .error fault := by
  unfold Routine.typed
  split
  · rename_i accepted
    rw [accepted] at refused
    cases refused
  · rename_i other
    rw [other] at refused
    exact congrArg Except.error (Except.error.inj refused)

theorem StackPool.pool_lend {ω : Type} (pool : StackPool ω) (capacity : Nat) (journal : Journal) :
    (pool.lend capacity journal).2.1 =
      (pool.acquireWhere (fun stack => stack.capacity == capacity) fun _ => .fresh capacity).2 := by
  unfold lend Pool.acquireWhere
  cases pool.take? fun stack => stack.capacity == capacity <;> rfl

theorem FramePool.pool_lend {H : Type} (pool : FramePool H) (limit : Nat) (journal : Journal) :
    (pool.lend limit journal).2.1 = (pool.acquireWhere (fun _ => true) fun _ => []).2 := by
  unfold lend Pool.acquireWhere
  cases pool.take? fun _ => true <;> rfl

/-- What a host can ask a machine for: a call, one without arguments and result, or one whose types are compared with
the signature in advance. -/
inductive HostRequest (H : Type)
  | call (routine : Routine (Object H)) (arguments : List (Argument (Object H))) (result : Option Ty)
  | invoke (routine : Routine (Object H))
  | typed (routine : Routine (Object H)) (types : List Ty) (result : Option Ty)
      (arguments : List (Argument (Object H)))

namespace HostRequest

variable {H : Type}

def routine : HostRequest H → Routine (Object H)
  | call routine _ _ => routine
  | invoke routine => routine
  | typed routine _ _ _ => routine

/-- The types that the caller has in mind for the arguments. -/
def types : HostRequest H → List Ty
  | call _ arguments _ => arguments.map Argument.ty
  | invoke _ => []
  | typed _ types _ _ => types

/-- The type that the caller has in mind for the result. -/
def result : HostRequest H → Option Ty
  | call _ _ result => result
  | invoke _ => none
  | typed _ _ result _ => result

def arguments : HostRequest H → List (Argument (Object H))
  | call _ arguments _ => arguments
  | invoke _ => []
  | typed _ _ _ arguments => arguments

/-- Whether the caller has the types of the signature in mind, so that the routine runs. -/
def executes (request : HostRequest H) : Bool :=
  request.types = request.routine.signature.types ∧ request.result = request.routine.signature.result

/-- The host's side after a request, which may have failed. -/
def perform (table : HostTable H) (request : HostRequest H) (vm : VM H) : VM H :=
  match request with
  | call routine arguments result => (vm.call table.link routine arguments result).2
  | invoke routine => (vm.invoke table.link routine).2
  | typed routine types result arguments =>
    match routine.typed types result with
    | .ok prepared => (prepared.call table.link vm arguments).2
    | .error _ => vm

theorem check_of_executes {request : HostRequest H} (matching : request.executes = true) :
    request.routine.signature.check request.types request.result = .ok () :=
  if_pos (of_decide_eq_true matching)

theorem check_of_not_executes {request : HostRequest H} (mismatch : request.executes = false) :
    ∃ fault, request.routine.signature.check request.types request.result = .error fault :=
  ⟨_, if_neg (of_decide_eq_false mismatch)⟩

/-- A request with other types than those of the signature changes nothing. -/
theorem perform_of_not_executes (table : HostTable H) {request : HostRequest H} (mismatch : request.executes = false)
    (vm : VM H) : request.perform table vm = vm := by
  obtain ⟨fault, refused⟩ := check_of_not_executes mismatch
  cases request with
  | call routine arguments result =>
    simp only [HostRequest.routine, types, HostRequest.result] at refused
    simp only [perform, VM.call, refused]
  | invoke routine =>
    simp only [HostRequest.routine, types, HostRequest.result] at refused
    simp only [perform, VM.invoke, VM.call, List.map_nil, refused]
  | typed routine types result arguments =>
    simp only [HostRequest.routine, HostRequest.types, HostRequest.result] at refused
    simp only [perform, routine.typed_of_error refused]

/-- Any other request runs its routine. -/
theorem perform_of_executes (table : HostTable H) {request : HostRequest H} (matching : request.executes = true)
    (vm : VM H) : request.perform table vm =
      (vm.callUnchecked table.link request.routine request.arguments request.result).2 := by
  have accepted := check_of_executes matching
  cases request with
  | call routine arguments result =>
    simp only [HostRequest.routine, types, HostRequest.result] at accepted
    simp only [perform, VM.call, accepted]
    rfl
  | invoke routine =>
    simp only [HostRequest.routine, types, HostRequest.result] at accepted
    simp only [perform, VM.invoke, VM.call, List.map_nil, accepted]
    rfl
  | typed routine types result arguments =>
    simp only [HostRequest.routine, HostRequest.types, HostRequest.result] at accepted
    simp only [perform, routine.typed_of_ok accepted]
    rfl

end HostRequest

namespace VM

variable {H : Type}

/-- The host's side after a sequence of requests. -/
def served (table : HostTable H) (config : Config) (journal : Journal) (requests : List (HostRequest H)) : VM H :=
  requests.foldl (fun vm request => request.perform table vm) (create config journal)

theorem settled (link : Linkage H) (vm : VM H) (routine : Routine (Object H))
    (arguments : List (Argument (Object H))) (result : Option Ty) :
    (vm.callUnchecked link routine arguments result).2 =
      vm.lending.settle (finalState (Machine.execute link routine arguments result vm.lent)) := by
  rw [callUnchecked_eq]
  cases Machine.execute link routine arguments result vm.lent <;> rfl

theorem stackPool_settle (vm : VM H) (m : Machine H) :
    (vm.lending.settle m).stackPool =
      (vm.stackPool.acquireWhere (fun stack => stack.capacity == vm.config.stackDepth) fun _ =>
        .fresh vm.config.stackDepth).2.release m.stack.recycle := by
  obtain ⟨config, stackPool, framePool, journal⟩ := vm
  exact congrArg (fun pool => pool.release m.stack.recycle) (stackPool.pool_lend config.stackDepth journal)

theorem framePool_settle (vm : VM H) (m : Machine H) :
    (vm.lending.settle m).framePool =
      (vm.framePool.acquireWhere (fun _ => true) fun _ => []).2.release [] := by
  obtain ⟨config, stackPool, framePool, journal⟩ := vm
  exact congrArg (fun pool => pool.release []) (framePool.pool_lend config.maxFrames _)

/-- Everything that calls have borrowed is back and clean. -/
structure Complete (vm : VM H) (config : Config) (calls : Nat) : Prop where
  config_eq : vm.config = config
  stackPool : vm.stackPool.Cycled config.stackPoolSize calls
  framePool : vm.framePool.Cycled config.framePoolSize calls
  clean : ∀ stored ∈ vm.stackPool.free, stored.Sound ∧ stored.Clean config.stackDepth
  empty : ∀ stored ∈ vm.framePool.free, stored = []

theorem create_complete (config : Config) (journal : Journal) : (create config journal : VM H).Complete config 0 where
  config_eq := rfl
  stackPool := Pool.empty_cycled _
  framePool := Pool.empty_cycled _
  clean _ member := (Array.not_mem_empty _ member).elim
  empty _ member := (Array.not_mem_empty _ member).elim

namespace Complete

variable {vm : VM H} {config : Config} {calls : Nat}

/-- A call starts on a clean stack with nothing on it. -/
theorem lent (complete : vm.Complete config calls) :
    vm.lent.stack.Sound ∧ vm.lent.stack.Clean config.stackDepth ∧ vm.lent.stack.offset = 0 := by
  rw [lent_stack, complete.config_eq]
  rcases vm.stackPool.lend_cases config.stackDepth vm.journal with ⟨stored, member, _, lent⟩ | fresh
  · obtain ⟨sound, capacity_eq, live_eq, unresolved, untagged⟩ := complete.clean stored member
    rw [lent]
    exact ⟨⟨sound.memory_size, sound.tags_size, Nat.zero_le _⟩, ⟨capacity_eq, live_eq, unresolved, untagged⟩, rfl⟩
  · rw [fresh]
    exact ⟨.fresh _, OperandStack.clean_fresh _, rfl⟩

theorem lent_sound (complete : vm.Complete config calls) : vm.lent.Sound config.stackDepth config.maxFrames := by
  obtain ⟨sound, clean, _⟩ := complete.lent
  have frames := vm.lent_frames
  rw [complete.config_eq] at frames
  refine ⟨sound, clean.capacity_eq, ?_, ?_, ?_⟩
  · rw [frames]
  · rw [frames]
    exact Nat.zero_le _
  · rw [frames]
    exact fun frame member => (List.not_mem_nil member).elim

/-- However a call ends, its stack and its frames are back afterwards. -/
theorem callUnchecked (complete : vm.Complete config calls) (table : HostTable H) (routine : Routine (Object H))
    (arguments : List (Argument (Object H))) (result : Option Ty) :
    (vm.callUnchecked table.link routine arguments result).2.Complete config (calls + 1) := by
  have final := Machine.keepsSound_execute table routine arguments result vm.lent _ _ complete.lent_sound
  rw [settled]
  generalize finalState (Machine.execute table.link routine arguments result vm.lent) = m at final
  have config_eq := complete.config_eq
  refine ⟨?_, ?_, ?_, ?_, ?_⟩
  · rw [settle_config, lending_config, config_eq]
  · rw [stackPool_settle, config_eq]
    refine complete.stackPool.next (fun stored member => ?_) _ _
    rw [(complete.clean stored member).2.capacity_eq]
    exact beq_self_eq_true _
  · rw [framePool_settle]
    exact complete.framePool.next (fun _ _ => rfl) _ _
  · intro stored member
    rw [stackPool_settle] at member
    rcases Pool.mem_of_release member with old | rfl
    · exact complete.clean stored (Pool.mem_of_acquireWhere old)
    · exact ⟨final.stack.recycle, OperandStack.clean_recycle final.capacity_eq⟩
  · intro stored member
    rw [framePool_settle] at member
    rcases Pool.mem_of_release member with old | new
    · exact complete.empty stored (Pool.mem_of_acquireWhere old)
    · exact new

end Complete

/-- After any sequence of requests everything that was borrowed is back. -/
theorem served_complete (table : HostTable H) (config : Config) (journal : Journal) (requests : List (HostRequest H)) :
    (served table config journal requests).Complete config (requests.countP HostRequest.executes) := by
  induction requests using List.reverseRecOn with
  | nil => exact create_complete config journal
  | append_singleton requests request ih =>
    have step : served table config journal (requests ++ [request]) =
        request.perform table (served table config journal requests) := by
      unfold served
      rw [List.foldl_append]
      rfl
    rw [step, List.countP_append, List.countP_singleton]
    cases kind : request.executes with
    | true =>
      rw [HostRequest.perform_of_executes table kind]
      exact ih.callUnchecked table _ _ _
    | false =>
      rw [HostRequest.perform_of_not_executes table kind]
      exact ih

/-- Whatever is asked of a machine, and however its calls end: a request whose types do not match changes nothing. Each
call that runs borrows one stack and one list of frames and gives them back, so that a pool that keeps something makes
one of them only. What waits in the pools is clean, and a call finds no word, no frame and no handle. -/
theorem resources_returned (table : HostTable H) (config : Config) (journal : Journal)
    (requests : List (HostRequest H)) :
    let vm := served table config journal requests
    let calls := requests.countP HostRequest.executes
    (∀ request : HostRequest H, request.executes = false → request.perform table vm = vm) ∧
    vm.stackPool.stats.Balanced config.stackPoolSize calls ∧
    vm.framePool.stats.Balanced config.framePoolSize calls ∧
    (∀ stored ∈ vm.stackPool.free, stored.Clean config.stackDepth) ∧
    (∀ stored ∈ vm.framePool.free, stored = []) ∧
    vm.lent.stack.Clean config.stackDepth ∧ vm.lent.stack.offset = 0 ∧ vm.lent.frames.depth = 0 ∧
    ∀ (ty : Ty) (slot : Nat), vm.lent.stack.cellAt ty slot = .error (.slotOutOfRange slot 0) := by
  intro vm calls
  have complete : vm.Complete config calls := served_complete table config journal requests
  obtain ⟨_, clean, empty⟩ := complete.lent
  refine ⟨fun request mismatch => HostRequest.perform_of_not_executes table mismatch vm, complete.stackPool.balanced,
    complete.framePool.balanced, fun stored member => (complete.clean stored member).2, complete.empty, clean, empty,
    ?_, ?_⟩
  · rw [lent_frames]
    rfl
  · intro ty slot
    have positive := ty.words_pos
    unfold OperandStack.cellAt
    rw [empty, if_pos (by omega)]

end VM

end WordMachine
