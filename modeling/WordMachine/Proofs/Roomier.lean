import WordMachine.Proofs.Tended

namespace WordMachine

/-- Two outcomes of a step, on a small state and on a large one: the same value or fault, unless the small state was
too small. Nothing is said about the large state then. -/
inductive Lockstep {σ α : Type} (related : σ → σ → Prop) (short : Fault → σ → Prop) :
    EStateM.Result Fault σ α → EStateM.Result Fault σ α → Prop
  | ok {value : α} {small large : σ} (alike : related small large) :
      Lockstep related short (.ok value small) (.ok value large)
  | error {fault : Fault} {small large : σ} (alike : related small large) :
      Lockstep related short (.error fault small) (.error fault large)
  | short {fault : Fault} {small : σ} {outcome : EStateM.Result Fault σ α} (lacking : short fault small) :
      Lockstep related short (.error fault small) outcome

/-- Steps that end the same way on related states, unless the small one is too small. -/
def Steady {σ α : Type} (related : σ → σ → Prop) (short : Fault → σ → Prop) (step : EStateM Fault σ α) : Prop :=
  ∀ small large, related small large → Lockstep related short (step small) (step large)

section Steps

variable {σ α β : Type} {related : σ → σ → Prop} {short : Fault → σ → Prop}

/-- What holds of the final states besides can be added to the relation. -/
theorem Lockstep.strengthen {stronger : σ → σ → Prop} {first second : EStateM.Result Fault σ α}
    (lockstep : Lockstep related short first second)
    (more : related (finalState first) (finalState second) → stronger (finalState first) (finalState second)) :
    Lockstep stronger short first second := by
  cases lockstep with
  | ok alike => exact .ok (more alike)
  | error alike => exact .error (more alike)
  | short lacking => exact .short lacking

theorem Lockstep.bind {step : EStateM Fault σ α} {next : α → EStateM Fault σ β} {small large : σ}
    (first : Lockstep related short (step small) (step large))
    (rest : ∀ value middle final, step small = .ok value middle → related middle final →
      Lockstep related short (next value middle) (next value final)) :
    Lockstep related short ((step >>= next) small) ((step >>= next) large) := by
  generalize ranSmall : step small = outcome at first
  generalize ranLarge : step large = other at first
  cases first with
  | ok alike =>
    rw [Machine.bind_ok ranSmall, Machine.bind_ok ranLarge]
    exact rest _ _ _ ranSmall alike
  | error alike =>
    rw [Machine.bind_error ranSmall, Machine.bind_error ranLarge]
    exact .error alike
  | short lacking =>
    rw [Machine.bind_error ranSmall]
    exact .short lacking

theorem Steady.bind {step : EStateM Fault σ α} {next : α → EStateM Fault σ β} (first : Steady related short step)
    (rest : ∀ value, Steady related short (next value)) : Steady related short (step >>= next) :=
  fun small large alike =>
    (first small large alike).bind fun value middle final _ same => rest value middle final same

theorem steady_pure (value : α) : Steady related short (pure value : EStateM Fault σ α) :=
  fun _ _ alike => .ok alike

end Steps

/-- A handle that refers to nothing cannot be taken back. -/
theorem HandleTable.release_of_not_refers {ω : Type} {table : HandleTable ω} {handle : Handle}
    (missing : ¬ table.Refers handle) : table.release handle = .error (.invalidHandle handle) := by
  rcases table.get_cases handle with ⟨_, got⟩ | ⟨_, object, got⟩ | ⟨issued, invalid⟩
  · exact absurd ⟨none, got⟩ missing
  · exact absurd ⟨some object, got⟩ missing
  · exact release_of_get_error issued invalid

namespace Bytes

/-- Storing the same number keeps equal bytes equal. -/
theorem getD_store_congr {memory other : Bytes} {start value count i : Nat} (room : start + count ≤ memory.size)
    (enough : start + count ≤ other.size) (same : memory.getD i 0 = other.getD i 0) :
    (memory.store start value count).getD i 0 = (other.store start value count).getD i 0 := by
  induction count generalizing memory other start value with
  | zero => exact same
  | succ count ih =>
    rw [store, store]
    refine ih (by rw [Array.size_setIfInBounds]; omega) (by rw [Array.size_setIfInBounds]; omega) ?_
    by_cases first : start = i
    · subst first
      rw [getD_setIfInBounds_self (by omega), getD_setIfInBounds_self (by omega)]
    · rw [getD_setIfInBounds_ne first, getD_setIfInBounds_ne first, same]

end Bytes

/-- Copying the same entries keeps equal entries equal. -/
theorem getD_copyBlock_congr {α : Type} {xs ys : Array α} {src dst count i : Nat} {default : α}
    (room : src + count ≤ xs.size) (enough : src + count ≤ ys.size) (below : dst ≤ src)
    (copied : ∀ k, src ≤ k → k < src + count → xs.getD k default = ys.getD k default)
    (same : xs.getD i default = ys.getD i default) :
    (copyBlock xs src dst count).getD i default = (copyBlock ys src dst count).getD i default := by
  by_cases outside : i < dst ∨ dst + count ≤ i
  · rw [getD_copyBlock_outside room outside, getD_copyBlock_outside enough outside, same]
  · have place : i = dst + (i - dst) := by omega
    have inside : i - dst < count := by omega
    rw [place, getD_copyBlock_inside room below inside, getD_copyBlock_inside enough below inside]
    exact copied _ (by omega) (by omega)

namespace OperandStack

variable {ω : Type}

/-- The same stack on at least as much storage. Also above the offset everything is the same, as far as the smaller
storage goes: what was popped may be read again as a part of something else. -/
structure Agrees (small large : OperandStack ω) : Prop where
  capacity_le : small.capacity ≤ large.capacity
  offset_eq : large.offset = small.offset
  handles_eq : large.handles = small.handles
  bytes : ∀ i < small.capacity * wordSize, small.memory.getD i 0 = large.memory.getD i 0
  tags : ∀ slot < small.capacity, small.tags.get slot = large.tags.get slot

structure Widens (small large : OperandStack ω) : Prop extends Agrees small large where
  sound : small.Sound
  roomy : large.Sound
  consistent : small.handles.Consistent

/-- The faults that a larger stack, more frames or a handle for every slot of the table could have avoided. -/
def Short (fault : Fault) (stack : OperandStack ω) : Prop :=
  fault = .stackOverflow ∨ (∃ depth, fault = .callStackOverflow depth) ∨
    (∃ handle, fault = .invalidHandle handle) ∧ ¬ stack.handles.Small

theorem Sound.moved {stack : OperandStack ω} (sound : stack.Sound) {src dst words : Nat} (below : dst ≤ src)
    (used : src + words ≤ stack.offset) : (stack.moved src dst words).Sound where
  memory_size := (size_copyBlock ..).trans sound.memory_size
  tags_size := (size_copyBlock ..).trans sound.tags_size
  offset_le := by
    have bound := sound.offset_le
    change dst + words ≤ stack.capacity
    omega

theorem widens_fresh {depth more : Nat} (deeper : depth ≤ more) :
    (fresh depth : OperandStack ω).Widens (fresh more) where
  capacity_le := deeper
  offset_eq := rfl
  handles_eq := rfl
  bytes _ _ := (getD_replicate ..).trans (getD_replicate ..).symm
  tags _ _ := (getD_replicate ..).trans (getD_replicate ..).symm
  sound := .fresh depth
  roomy := .fresh more
  consistent := HandleTable.empty_consistent

namespace Widens

variable {small large : OperandStack ω}

theorem cellAt_eq (widens : small.Widens large) (ty : Ty) (slot : Nat) :
    small.cellAt ty slot = large.cellAt ty slot := by
  have used := widens.sound.offset_le
  have positive := ty.words_pos
  unfold cellAt
  rw [widens.offset_eq]
  by_cases low : small.offset < slot + ty.words
  · rw [if_pos low, if_pos low]
  · have inside := widens.sound.inside (show slot + ty.words ≤ small.capacity by omega)
    have loaded : small.memory.load (slot * wordSize) ty.size = large.memory.load (slot * wordSize) ty.size := by
      refine Bytes.load_congr fun i _ upper => widens.bytes i ?_
      exact Nat.lt_of_lt_of_le upper inside.bytes_le
    rw [if_neg low, if_neg low, Tags.check, Tags.check, widens.tags slot (by omega), loaded]

theorem topObject_eq (widens : small.Widens large) : small.topObject = large.topObject := by
  unfold topObject
  rw [widens.offset_eq, widens.handles_eq, widens.cellAt_eq]

/-- A value that fits into the small storage can be stored in both. -/
theorem put (widens : small.Widens large) {slot : Nat} {ty : Ty} (cell : Cell ty)
    (room : slot + ty.words ≤ small.capacity) : (small.put slot ty cell).Agrees (large.put slot ty cell) where
  capacity_le := widens.capacity_le
  offset_eq := widens.offset_eq
  handles_eq := widens.handles_eq
  bytes i inside :=
    Bytes.getD_store_congr (widens.sound.inside room).stored
      (widens.roomy.inside (Nat.le_trans room widens.capacity_le)).stored (widens.bytes i inside)
  tags place inside := by
    have enough := Nat.le_trans room widens.capacity_le
    by_cases outside : place < slot ∨ slot + ty.words ≤ place
    · rw [tag_put_outside outside, tag_put_outside outside]
      exact widens.tags place inside
    · by_cases first : place = slot
      · subst first
        rw [tag_put_self widens.sound room, tag_put_self widens.roomy enough]
      · rw [tag_put_rest widens.sound room (by omega) (by omega),
          tag_put_rest widens.roomy enough (by omega) (by omega)]

/-- Words in use can be moved down in both. -/
theorem moved (widens : small.Widens large) {src dst words : Nat} (below : dst ≤ src)
    (used : src + words ≤ small.offset) : (small.moved src dst words).Widens (large.moved src dst words) := by
  have bound := widens.sound.offset_le
  have usedLarge : src + words ≤ large.offset := by
    rw [widens.offset_eq]
    exact used
  refine ⟨⟨widens.capacity_le, rfl, widens.handles_eq, ?_, ?_⟩, widens.sound.moved below used,
    widens.roomy.moved below usedLarge, widens.consistent⟩
  · intro i inside
    refine getD_copyBlock_congr (widens.sound.copy_bytes used) (widens.roomy.copy_bytes usedLarge)
      (Nat.mul_le_mul_right _ below) ?_ (widens.bytes i inside)
    intro k _ upper
    refine widens.bytes k ?_
    rw [← Nat.add_mul] at upper
    exact Nat.lt_of_lt_of_le upper (Nat.mul_le_mul_right _ (by omega))
  · intro slot inside
    refine getD_copyBlock_congr (widens.sound.copy_tags used) (widens.roomy.copy_tags usedLarge) below ?_
      (widens.tags slot inside)
    intro k _ upper
    exact widens.tags k (by omega)

end Widens

end OperandStack

/-- Operations that do not depend on how large the stack is, except that they may find it too small. -/
def Access.Blind {ω : Type} : Access ω → Prop
  | .moveDown _ _ _ => False
  | .setOffset _ => False
  | .usage => False
  | _ => True

theorem Access.Blind.checked {ω : Type} {access : Access ω} (blind : access.Blind) : access.Checked := by
  cases access with
  | moveDown src dst words => exact blind
  | setOffset offset => exact blind
  | push | pop | read | write | describe | needRoom | alloc | duplicate | resolve | release | usage => exact trivial

open OperandStack

theorem Access.lockstep_perform {ω : Type} {access : Access ω} (blind : access.Blind) {small large : OperandStack ω}
    (widens : small.Widens large) : Lockstep Agrees Short (access.perform small) (access.perform large) := by
  have agrees := widens.toAgrees
  have wider := widens.capacity_le
  have height := widens.offset_eq
  have table := widens.handles_eq
  cases access with
  | push ty cell =>
    simp only [perform]
    rw [pushCell_eq, pushCell_eq, height]
    by_cases room : small.offset + ty.words ≤ small.capacity
    · rw [if_pos room, if_pos (Nat.le_trans room wider)]
      have stored := widens.put cell room
      exact .ok ⟨wider, rfl, table, stored.bytes, stored.tags⟩
    · rw [if_neg room]
      exact .short (.inl rfl)
  | pop ty =>
    have used := widens.sound.offset_le
    have positive := ty.words_pos
    simp only [perform, StackM.popCell]
    rw [height]
    by_cases low : small.offset < ty.words
    · rw [if_pos low, if_pos low]
      exact .error agrees
    · have inside := widens.sound.inside (show small.offset - ty.words + ty.words ≤ small.capacity by omega)
      have loaded : small.memory.load ((small.offset - ty.words) * wordSize) ty.size =
          large.memory.load ((small.offset - ty.words) * wordSize) ty.size :=
        Bytes.load_congr fun i _ upper => widens.bytes i (Nat.lt_of_lt_of_le upper inside.bytes_le)
      have checked : small.tags.check (small.offset - ty.words) ty = large.tags.check (small.offset - ty.words) ty := by
        rw [Tags.check, Tags.check, widens.tags _ (by omega)]
      rw [if_neg low, if_neg low, ← checked, ← loaded]
      cases small.tags.check (small.offset - ty.words) ty with
      | error fault => exact .error agrees
      | ok _ => exact .ok ⟨wider, rfl, table, widens.bytes, widens.tags⟩
  | read ty slot =>
    simp only [perform, StackM.readCell]
    rw [← widens.cellAt_eq]
    cases small.cellAt ty slot with
    | error fault => exact .error agrees
    | ok cell => exact .ok agrees
  | write ty slot cell =>
    have used := widens.sound.offset_le
    simp only [perform]
    rw [writeCell_eq, writeCell_eq, height]
    by_cases low : small.offset < slot + ty.words
    · rw [if_pos low, if_pos low]
      exact .error agrees
    · rw [if_neg low, if_neg low]
      exact .ok (widens.put cell (by omega))
  | describe ty slot =>
    have shown : small.describe slot ty = large.describe slot ty := by
      simp only [OperandStack.describe, widens.cellAt_eq]
    simp only [perform]
    rw [← shown]
    exact .ok agrees
  | needRoom words =>
    simp only [perform, StackM.needRoom]
    rw [height]
    by_cases room : small.offset + words ≤ small.capacity
    · rw [if_pos room, if_pos (Nat.le_trans room wider)]
      exact .ok agrees
    · rw [if_neg room]
      exact .short (.inl rfl)
  | alloc object =>
    simp only [perform, StackM.alloc]
    rw [table]
    exact .ok ⟨wider, height, rfl, widens.bytes, widens.tags⟩
  | duplicate handle =>
    simp only [perform, StackM.duplicate]
    rw [table]
    cases small.handles.duplicate handle with
    | error fault => exact .error agrees
    | ok copied => exact .ok ⟨wider, height, rfl, widens.bytes, widens.tags⟩
  | resolve handle =>
    simp only [perform]
    rw [table]
    cases small.handles.get handle with
    | error fault => exact .error agrees
    | ok object => exact .ok agrees
  | release handle =>
    simp only [perform, StackM.release]
    rw [table]
    cases small.handles.release handle with
    | error fault => exact .error agrees
    | ok released => exact .ok ⟨wider, height, rfl, widens.bytes, widens.tags⟩
  | moveDown src dst words => exact blind.elim
  | setOffset offset => exact blind.elim
  | usage => exact blind.elim

namespace StackM

variable {ω α β : Type}

/-- Steps of a stack that end the same way on a larger one. -/
abbrev Steady (step : StackM ω α) : Prop :=
  WordMachine.Steady Widens Short step

theorem steady_perform {access : Access ω} (blind : access.Blind) : Steady access.perform := by
  intro small large widens
  refine (Access.lockstep_perform blind widens).strengthen fun agrees => ?_
  have stays {stack : OperandStack ω} (sound : stack.Sound) := Access.stays_perform blind.checked.asserted sound
  exact ⟨agrees, (stays widens.sound).sound, (stays widens.roomy).sound,
    (access.grown_perform widens.consistent).consistent⟩

theorem steady_fail (fault : Fault) : Steady (fail fault : StackM ω α) :=
  fun _ _ widens => .error widens

theorem steady_pushCell (ty : Ty) (cell : Cell ty) : Steady (pushCell ty cell : StackM ω Unit) :=
  @steady_perform ω (.push ty cell) trivial

theorem steady_popCell (ty : Ty) : Steady (popCell ty : StackM ω (Cell ty)) :=
  @steady_perform ω (.pop ty) trivial

theorem steady_readCell (ty : Ty) (slot : Nat) : Steady (readCell ty slot : StackM ω (Cell ty)) :=
  @steady_perform ω (.read ty slot) trivial

theorem steady_writeCell (ty : Ty) (slot : Nat) (cell : Cell ty) : Steady (writeCell ty slot cell : StackM ω Unit) :=
  @steady_perform ω (.write ty slot cell) trivial

theorem steady_needRoom (words : Nat) : Steady (needRoom words : StackM ω Unit) :=
  @steady_perform ω (.needRoom words) trivial

theorem steady_duplicate (handle : Handle) : Steady (duplicate handle : StackM ω Handle) :=
  @steady_perform ω (.duplicate handle) trivial

theorem steady_release (handle : Handle) : Steady (release handle : StackM ω (Option ω)) :=
  @steady_perform ω (.release handle) trivial

theorem steady_handleFor (object : Option ω) : Steady (handleFor object) := by
  cases object with
  | none => exact steady_pure Handle.null
  | some object => exact @steady_perform ω (.alloc object) trivial

theorem steady_pushOperand (ty : Ty) (value : Operand ω ty) : Steady (pushOperand ty value) := by
  cases ty with
  | scalar kind => exact steady_pushCell kind value
  | object =>
    exact (steady_needRoom handleWords).bind fun _ => (steady_handleFor value).bind fun handle =>
      steady_pushCell .object handle

theorem steady_popOperand (ty : Ty) : Steady (popOperand ty : StackM ω (Operand ω ty)) := by
  cases ty with
  | scalar kind => exact steady_popCell kind
  | object => exact (steady_popCell .object).bind steady_release

theorem steady_pushAll (arguments : List (Argument ω)) : Steady (pushAll arguments) := by
  induction arguments with
  | nil => exact steady_pure ()
  | cons argument rest ih => exact (steady_pushOperand argument.ty argument.value).bind fun _ => ih

theorem steady_popResult (result : Option Ty) : Steady (popResult result : StackM ω (Result ω result)) := by
  cases result with
  | none => exact steady_pure ()
  | some ty => exact steady_popOperand ty

theorem steady_peekObject : Steady (peekObject : StackM ω (Option ω)) := by
  intro small large widens
  unfold peekObject
  rw [← widens.topObject_eq]
  cases small.topObject with
  | ok object => exact .ok widens
  | error fault => exact .error widens

theorem steady_of_offset {step : StackM ω α} (looks : LooksAtOffset step) : Steady step := by
  obtain ⟨check, checks⟩ := looks
  intro small large widens
  rw [checks, checks, widens.offset_eq]
  cases check small.offset with
  | ok value => exact .ok widens
  | error fault => exact .error widens

end StackM

end WordMachine
