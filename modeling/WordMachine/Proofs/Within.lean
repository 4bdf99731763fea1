import WordMachine.Proofs.History

namespace WordMachine

/-- A body made of instructions, without line numbers. -/
def Chunk.of {ω : Type} (instructions : List Instruction) (constants : ConstantPool ω) : Chunk ω :=
  ⟨(instructions.map Instruction.encode).toArray, constants, .empty⟩

namespace Machine

variable {H : Type}

/-- Runs for at most so many instructions. It gives up with the fault of a full stack, so a run that ends in that fault
is never evaluated this way. -/
def runWithin (link : Linkage H) : Nat → MachineM H Unit
  | 0 => fun m => .error .stackOverflow m
  | fuel + 1 => fun m =>
    match tick link m with
    | .running next => runWithin link fuel next
    | .halted final => .ok () final
    | .faulted fault final => .error fault final

theorem run_of_runWithin {link : Linkage H} {fuel : Nat} {m final : Machine H}
    (ran : runWithin link fuel m = .ok () final) : run link m = .ok () final := by
  induction fuel generalizing m with
  | zero => cases ran
  | succ fuel ih =>
    unfold runWithin at ran
    cases ticked : tick link m with
    | running next =>
      rw [ticked] at ran
      rw [run_of_running ticked]
      exact ih ran
    | halted last =>
      rw [ticked] at ran
      rw [run_of_halted ticked]
      exact ran
    | faulted fault last =>
      rw [ticked] at ran
      cases ran

def executeWithin (link : Linkage H) (fuel : Nat) (routine : Routine (Object H))
    (arguments : List (Argument (Object H))) (result : Option Ty) : MachineM H (Result (Object H) result) := do
  let start ← onStack StackM.offset
  onStack (StackM.pushAll arguments)
  onStack (checkPushed routine.signature start)
  clearingFrames do
    enter routine
    runWithin link fuel
  onStack (checkLeft routine.signature start)
  onStack (StackM.popResult result)

theorem clearingFrames_eq_ok {α : Type} {step : MachineM H α} {m final : Machine H} {value : α} :
    clearingFrames step m = .ok value final ↔ step m = .ok value final := by
  unfold clearingFrames
  cases step m with
  | ok other last => exact Iff.rfl
  | error fault last => exact ⟨nofun, nofun⟩

theorem execute_of_executeWithin {link : Linkage H} {fuel : Nat} {routine : Routine (Object H)}
    {arguments : List (Argument (Object H))} {result : Option Ty} {m final : Machine H}
    {value : Result (Object H) result}
    (executed : executeWithin link fuel routine arguments result m = .ok value final) :
    execute link routine arguments result m = .ok value final := by
  obtain ⟨start, m, counted, executed⟩ := bind_eq_ok executed
  obtain ⟨_, m, pushed, executed⟩ := bind_eq_ok executed
  obtain ⟨_, m, checked, executed⟩ := bind_eq_ok executed
  obtain ⟨_, last, ran, executed⟩ := bind_eq_ok executed
  obtain ⟨_, entered, entering, running⟩ := bind_eq_ok (clearingFrames_eq_ok.mp ran)
  have cleared : clearingFrames (do enter routine; run link) m = .ok () last :=
    clearingFrames_eq_ok.mpr ((bind_ok entering).trans (run_of_runWithin running))
  unfold execute
  exact (bind_ok counted).trans ((bind_ok pushed).trans ((bind_ok checked).trans ((bind_ok cleared).trans executed)))

/-- Few slots are taken at the end of a call. -/
def smallWithin (link : Linkage H) (fuel : Nat) (routine : Routine (Object H)) (arguments : List (Argument (Object H)))
    (result : Option Ty) (m : Machine H) : Bool :=
  match executeWithin link fuel routine arguments result m with
  | .ok _ final => final.stack.handles.Small
  | .error _ _ => false

theorem small_of_smallWithin {link : Linkage H} {fuel : Nat} {routine : Routine (Object H)}
    {arguments : List (Argument (Object H))} {result : Option Ty} {m : Machine H}
    (small : smallWithin link fuel routine arguments result m) :
    (finalState (execute link routine arguments result m)).stack.handles.Small := by
  unfold smallWithin at small
  split at small
  · rename_i value final executed
    rw [execute_of_executeWithin executed]
    exact of_decide_eq_true small
  · cases small

end Machine

namespace VM

variable {H : Type}

def callWithin (link : Linkage H) (fuel : Nat) (vm : VM H) (routine : Routine (Object H))
    (arguments : List (Argument (Object H))) (result : Option Ty) : Except Fault (Result (Object H) result) × VM H :=
  match routine.signature.check (arguments.map Argument.ty) result with
  | .error fault => (.error fault, vm)
  | .ok () =>
    match Machine.executeWithin link fuel routine arguments result vm.lent with
    | .ok value m => (.ok value, vm.lending.settle m)
    | .error fault m => (.error fault, vm.lending.settle m)

theorem call_of_callWithin {link : Linkage H} {fuel : Nat} {vm : VM H} {routine : Routine (Object H)}
    {arguments : List (Argument (Object H))} {result : Option Ty}
    (succeeds : (vm.callWithin link fuel routine arguments result).1.isOk) :
    vm.call link routine arguments result = vm.callWithin link fuel routine arguments result := by
  unfold callWithin at succeeds ⊢
  unfold VM.call
  cases checked : routine.signature.check (arguments.map Argument.ty) result with
  | error fault => rfl
  | ok matching =>
    rw [checked] at succeeds
    dsimp only at succeeds ⊢
    rw [callUnchecked_eq]
    cases executed : Machine.executeWithin link fuel routine arguments result vm.lent with
    | error fault m =>
      rw [executed] at succeeds
      cases succeeds
    | ok value m => rw [Machine.execute_of_executeWithin executed]

end VM

end WordMachine
