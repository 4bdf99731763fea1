import WordMachine.Proofs.ImageCall
import WordMachine.Proofs.Within

namespace WordMachine

namespace VM

variable {H : Type}

/-- What a call comes to when nothing is known of the memory it gets: an outcome, or a value some of whose bytes the
call has not written or belong to a handle. -/
def meaning (adapters : Adapters H) (config : Config) (routine : Routine (Object H))
    (arguments : List (Argument (Object H))) (result : Option Ty) : Except Trouble (Result (Object H) result) :=
  match routine.signature.check (arguments.map Argument.ty) result with
  | .error fault => .error (.fault fault)
  | .ok () =>
    match Image.execute adapters config.maxFrames routine arguments result ⟨config.stackDepth, 0, [], .nothing⟩ with
    | .ok value _ => .ok value
    | .error trouble _ => .error trouble

/-- Whatever calls came before, a call comes to what it means. -/
theorem Reached.call_eq_meaning {table : HostTable H} (propagates : table.Propagates) {config : Config} {vm : VM H}
    (reached : Reached table config vm) (adapters : Adapters H) (routine : Routine (Object H))
    (arguments : List (Argument (Object H))) (result : Option Ty)
    (small : (finalState (Machine.execute adapters.table.link routine arguments result vm.lent)).stack.handles.Small)
    (whole : meaning adapters config routine arguments result ≠ .error .torn) :
    (vm.call adapters.table.link routine arguments result).1.mapError Trouble.fault =
      meaning adapters config routine arguments result := by
  have stocked := reached.stocked propagates
  have followed := (Machine.follows_execute adapters vm.config.maxFrames routine arguments result).followed
    vm.lent vm.lent_frames stocked.intact small _ stocked.shown_lent
  rw [reached.config_eq] at followed
  unfold meaning at whole ⊢
  unfold VM.call
  cases checked : routine.signature.check (arguments.map Argument.ty) result with
  | error fault => rfl
  | ok matching =>
    rw [checked] at whole
    dsimp only at whole ⊢
    rw [callUnchecked_eq]
    cases outcome : Image.execute adapters config.maxFrames routine arguments result
        ⟨config.stackDepth, 0, [], .nothing⟩ with
    | ok value image =>
      rw [outcome] at followed
      obtain ⟨final, executed, _⟩ := followed
      rw [executed]
      rfl
    | error trouble image =>
      rw [outcome] at followed whole
      cases trouble with
      | torn => exact absurd rfl whole
      | fault fault =>
        obtain ⟨final, executed⟩ := followed
        rw [executed]
        rfl

theorem mapError_fault_injective {α : Type} :
    Function.Injective (Except.mapError Trouble.fault : Except Fault α → Except Trouble α) := by
  rintro (fault | value) (other | value') same
  · cases same
    rfl
  · cases same
  · cases same
  · cases same
    rfl

/-- A call that reads only bytes it has written itself, and none of a handle as a number, comes to the same whatever
calls came before. -/
theorem Reached.call_independent {table otherTable : HostTable H} (propagates : table.Propagates)
    (otherPropagates : otherTable.Propagates) {config : Config} {vm other : VM H} (reached : Reached table config vm)
    (otherReached : Reached otherTable config other) (adapters : Adapters H) (routine : Routine (Object H))
    (arguments : List (Argument (Object H))) (result : Option Ty)
    (small : (finalState (Machine.execute adapters.table.link routine arguments result vm.lent)).stack.handles.Small)
    (otherSmall :
      (finalState (Machine.execute adapters.table.link routine arguments result other.lent)).stack.handles.Small)
    (whole : meaning adapters config routine arguments result ≠ .error .torn) :
    (vm.call adapters.table.link routine arguments result).1 =
      (other.call adapters.table.link routine arguments result).1 := by
  apply mapError_fault_injective
  rw [reached.call_eq_meaning propagates adapters routine arguments result small whole,
    otherReached.call_eq_meaning otherPropagates adapters routine arguments result otherSmall whole]

end VM

namespace Leak

def config : Config := ⟨8, 2, 1, 1⟩

/-- Takes two arguments that cover all bytes of two words. -/
def fill : Routine (Object Unit) :=
  ⟨⟨"Fill", none, [⟨"a", .scalar .long⟩, ⟨"b", .scalar .long⟩]⟩, Chunk.of [.ret] .empty⟩

/-- Returns the first word of a decimal in the place of an integer. -/
def cut : Routine (Object Unit) where
  signature := ⟨"Cut", some (.scalar .int), [⟨"a", .scalar .int⟩, ⟨"b", .scalar .int⟩]⟩
  chunk :=
    Chunk.of
      [.constant (.scalar .decimal) 0, .constant (.scalar .int) 0, .setLocal (.scalar .int) 3, .pop (.scalar .int),
        .ret]
      ⟨.zeros 16, #[], #[]⟩

/-- Puts an integer after that word and returns both as a decimal. -/
def leak : Routine (Object Unit) where
  signature := ⟨"Leak", some (.scalar .decimal), []⟩
  chunk :=
    Chunk.of
      [.constant (.scalar .int) 0, .constant (.scalar .int) 0, .call 8, .constant (.scalar .int) 0, .ret]
      ⟨#[0, 0, 0, 0, 0, 0, 0, 0, 1, 0, 0, 0, 0, 0, 0, 0], #[.routine cut], #[8]⟩

/-- Overwrites half of the second word of its argument and returns the argument. -/
def patch : Routine (Object Unit) where
  signature := ⟨"Patch", some (.scalar .decimal), [⟨"a", .scalar .decimal⟩]⟩
  chunk :=
    Chunk.of [.constant (.scalar .int) 0, .setLocal (.scalar .int) 1, .getLocal (.scalar .decimal) 0, .ret]
      ⟨#[9, 0, 0, 0], #[], #[]⟩

def number (bits : Nat) : Argument (Object Unit) :=
  ⟨.scalar .decimal, Scalar.ofBits .decimal bits⟩

def ones : List (Argument (Object Unit)) :=
  [⟨.scalar .long, (-1 : Int64)⟩, ⟨.scalar .long, (-1 : Int64)⟩]

def unused : VM Unit :=
  .create config .silent

def used : VM Unit :=
  (unused.call Adapters.none.table.link fill ones none).2

theorem used_eq : used = (unused.callWithin Adapters.none.table.link 1 fill ones none).2 :=
  congrArg Prod.snd (VM.call_of_callWithin (by decide +kernel))

theorem reached_unused : VM.Reached Adapters.none.table config unused :=
  .create _

theorem reached_used : VM.Reached Adapters.none.table config used :=
  reached_unused.call fill ones none

/-- Two machines of one configuration on which a call has different results: the upper half of the word that the integer
does not cover is what an earlier call left there. -/
theorem leak_differs :
    VM.Reached Adapters.none.table config unused ∧ VM.Reached Adapters.none.table config used ∧
      (unused.call Adapters.none.table.link leak [] (some (.scalar .decimal))).1 ≠
        (used.call Adapters.none.table.link leak [] (some (.scalar .decimal))).1 := by
  refine ⟨reached_unused, reached_used, fun same => ?_⟩
  rw [used_eq, VM.call_of_callWithin (show (VM.callWithin _ 10 unused leak [] _).1.isOk by decide +kernel),
    VM.call_of_callWithin (show (VM.callWithin _ 10 (VM.callWithin _ 1 unused fill ones none).2 leak [] _).1.isOk by
      decide +kernel)] at same
  have bits := congrArg (fun outcome => outcome.toOption.map (Scalar.bits .decimal)) same
  revert bits
  decide +kernel

/-- The half that is left of the second word is one that the call has written itself. -/
theorem patch_not_torn :
    VM.meaning Adapters.none config patch [number 0] (some (.scalar .decimal)) ≠ .error .torn := by
  let start := @Known.put (Object Unit) .nothing 0 (.scalar .decimal) (number 0).value
  let loaded := @Known.put (Object Unit) start 2 (.scalar .int) (9 : Int32)
  let stored := @Known.put (Object Unit) loaded 1 (.scalar .int) (9 : Int32)
  let copied := @Known.put (Object Unit) stored 2 (.scalar .decimal) (number (9 * 256 ^ 8)).value
  let left := copied.copy 16 0 16
  have constant : Image.tick Adapters.none ⟨[⟨patch, 0, 0⟩], 2⟩ ⟨8, 0, [.scalar .decimal 0, .rest 0], start⟩ =
    .running ⟨[⟨patch, 1, 0⟩], 2⟩ ⟨8, 0, [.scalar .decimal 0, .rest 0, .scalar .int 9], loaded⟩ := rfl
  have setLocal : Image.tick Adapters.none ⟨[⟨patch, 1, 0⟩], 2⟩
      ⟨8, 0, [.scalar .decimal 0, .rest 0, .scalar .int 9], loaded⟩ =
    .running ⟨[⟨patch, 2, 0⟩], 2⟩ ⟨8, 0, [.scalar .decimal 0, .scalar .int 9], stored⟩ := rfl
  have getLocal : Image.tick Adapters.none ⟨[⟨patch, 2, 0⟩], 2⟩
      ⟨8, 0, [.scalar .decimal 0, .scalar .int 9], stored⟩ =
    .running ⟨[⟨patch, 3, 0⟩], 2⟩
      ⟨8, 0, [.scalar .decimal 0, .scalar .int 9, .scalar .decimal 0, .rest 9], copied⟩ := rfl
  have returns : Image.tick Adapters.none ⟨[⟨patch, 3, 0⟩], 2⟩
      ⟨8, 0, [.scalar .decimal 0, .scalar .int 9, .scalar .decimal 0, .rest 9], copied⟩ =
    .halted ⟨8, 0, [.scalar .decimal 0, .rest 9], left⟩ := rfl
  have ran : Image.entering 2 patch (Image.run Adapters.none) ⟨8, 0, [.scalar .decimal 0, .rest 0], start⟩ =
      .ok () ⟨8, 0, [.scalar .decimal 0, .rest 9], left⟩ :=
    (Image.run_of_running constant).trans ((Image.run_of_running setLocal).trans
      ((Image.run_of_running getLocal).trans (Image.run_of_halted returns)))
  have executed : Image.execute Adapters.none config.maxFrames patch [number 0] (some (.scalar .decimal))
      ⟨config.stackDepth, 0, [], .nothing⟩ = .ok (number (9 * 256 ^ 8)).value ⟨8, 0, [], left⟩ := by
    unfold Image.execute
    exact (Machine.bind_ok rfl).trans ((Machine.bind_ok rfl).trans ((Machine.bind_ok rfl).trans
      ((Machine.bind_ok ran).trans rfl)))
  have matching : patch.signature.check ([number 0].map Argument.ty) (some (.scalar .decimal)) = .ok () := rfl
  unfold VM.meaning
  rw [executed, matching]
  exact nofun

end Leak

namespace VM

theorem Reached.call_independent_of_patch :
    (Leak.unused.call Adapters.none.table.link Leak.patch [Leak.number 0] (some (.scalar .decimal))).1 =
      (Leak.used.call Adapters.none.table.link Leak.patch [Leak.number 0] (some (.scalar .decimal))).1 := by
  refine Leak.reached_unused.call_independent Adapters.none.propagates Adapters.none.propagates Leak.reached_used
    Adapters.none Leak.patch _ _ ?_ ?_ Leak.patch_not_torn
  · exact Machine.small_of_smallWithin (show Machine.smallWithin _ 4 _ _ _ _ by decide +kernel)
  · rw [Leak.used_eq]
    exact Machine.small_of_smallWithin (show Machine.smallWithin _ 4 _ _ _ _ by decide +kernel)

end VM

end WordMachine
