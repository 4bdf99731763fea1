import WordMachine.Proofs.Sound

namespace WordMachine

namespace Script

variable {ω α : Type}

theorem Meets.and_eq {allowed : Access ω → OperandStack ω → Prop} {stack : OperandStack ω} {script : Script ω α}
    {post : EStateM.Result Fault (OperandStack ω) α → Prop} {result : EStateM.Result Fault (OperandStack ω) α}
    (meets : script.Meets allowed stack post) (ran : script.run stack = result) :
    script.Meets allowed stack fun outcome => post outcome ∧ outcome = result := by
  obtain ⟨all, outcome⟩ := meets_iff.mp meets
  exact meets_iff.mpr ⟨all, outcome, ran⟩

theorem checked_releaseArguments (base : Nat) (slots : List (Nat × Ty)) :
    (releaseArguments base slots : Script ω Unit).Checked := by
  induction slots with
  | nil => exact trivial
  | cons entry rest ih =>
    obtain ⟨slot, ty⟩ := entry
    cases ty with
    | scalar kind => exact ih
    | object => exact (checked_call (by trivial)).bind fun _ => (checked_call (by trivial)).bind fun _ => ih

theorem checked_describeResult (signature : Signature) (base : Nat) :
    (describeResult signature base : Script ω Unit).Checked := by
  unfold describeResult
  split
  · exact checked_describeAll base _
  · exact trivial

theorem checked_checkReturn (signature : Signature) (base : Nat) :
    (checkReturn signature base : Script ω Unit).Checked := by
  refine (checked_call (by trivial)).bind fun used => ?_
  dsimp only
  split
  · exact trivial
  · split <;> exact trivial

end Script

namespace Machine

variable {H : Type}

/-- Releasing arguments changes nothing but the handle table. -/
theorem final_releaseArguments (base : Nat) (slots : List (Nat × Ty)) (stack : OperandStack (Object H)) :
    ∃ table, finalState (releaseArguments base slots stack) = { stack with handles := table } := by
  induction slots generalizing stack with
  | nil => exact ⟨stack.handles, rfl⟩
  | cons entry rest ih =>
    obtain ⟨slot, ty⟩ := entry
    cases ty with
    | scalar kind => exact ih stack
    | object =>
      simp only [releaseArguments]
      cases reading : (StackM.readCell .object (base + slot) stack : EStateM.Result _ _ _) with
      | error fault final =>
        rw [bind_error reading]
        simp only [StackM.readCell] at reading
        split at reading
        · cases reading
        · cases reading
          exact ⟨stack.handles, rfl⟩
      | ok handle final =>
        rw [bind_ok reading]
        simp only [StackM.readCell] at reading
        split at reading
        · cases reading
          cases releasing : (StackM.release handle stack : EStateM.Result _ _ _) with
          | error fault final =>
            rw [bind_error releasing]
            simp only [StackM.release] at releasing
            split at releasing
            · cases releasing
              exact ⟨stack.handles, rfl⟩
            · cases releasing
          | ok object final =>
            rw [bind_ok releasing]
            simp only [StackM.release] at releasing
            split at releasing
            · cases releasing
            · rename_i freed table released
              cases releasing
              obtain ⟨last, same⟩ := ih { stack with handles := table }
              exact ⟨last, same⟩
        · cases reading

theorem checkReturn_eq_ok {signature : Signature} {base : Nat} {stack final : OperandStack (Object H)}
    (run : checkReturn signature base stack = .ok () final) :
    final = stack ∧ stack.offset = base + signature.argumentWords + signature.returnWords := by
  simp only [checkReturn] at run
  split at run
  · cases run
  · split at run
    · cases run
    · cases run
      exact ⟨rfl, by omega⟩

/-- A frame whose arguments lie inside a stack of the given capacity. -/
def Frame.Within (frame : Frame H) (capacity : Nat) : Prop :=
  frame.base + frame.routine.signature.argumentWords ≤ capacity

/-- A change that pushes no frame, or one with its arguments inside the stack. -/
def FrameChange.Within (change : FrameChange H) (capacity : Nat) : Prop :=
  ∀ frame, change = .push frame → Frame.Within frame capacity

end Machine

namespace Script

variable {H : Type}

/-- What is asked of the outcome of an instruction. -/
structure StaysWithin (stack : OperandStack (Object H))
    (outcome : EStateM.Result Fault (OperandStack (Object H)) (FrameChange H)) : Prop where
  stays : Access.Stays stack (finalState outcome)
  within : ∀ change final, outcome = .ok change final → Machine.FrameChange.Within change stack.capacity

theorem meets_enter (routine : Routine (Object H)) {stack : OperandStack (Object H)} (sound : stack.Sound) :
    (enter routine).Meets Access.InBounds stack (StaysWithin stack) := by
  have checked : (enter routine).Checked :=
    (checked_slotUnder _).bind fun base => (checked_describeAll base _).bind fun _ => trivial
  refine ((meets_of_checked checked sound).and_eq rfl).mono ?_
  rintro outcome ⟨stays, rfl⟩
  refine ⟨stays, ?_⟩
  rw [run_enter]
  rintro change final entered frame rfl
  have used := sound.offset_le
  obtain ⟨base, middle, under, last⟩ := bind_eq_ok entered
  simp only [Machine.slotUnder] at under
  split at under
  · cases under
  · cases under
    cases last
    change stack.offset - routine.signature.argumentWords + routine.signature.argumentWords ≤ stack.capacity
    omega

/-- What a return does once it is known that the frame holds exactly its arguments and its result. -/
def unwind (frame : Frame H) : Script (Object H) Unit := do
  releaseArguments frame.base frame.routine.signature.argumentSlots
  moveDown (frame.base + frame.routine.signature.argumentWords) frame.base frame.routine.signature.returnWords
  setOffset (frame.base + frame.routine.signature.returnWords)

theorem run_unwind (frame : Frame H) :
    (unwind frame).run = (do
      Machine.releaseArguments frame.base frame.routine.signature.argumentSlots
      StackM.moveDown (frame.base + frame.routine.signature.argumentWords) frame.base
        frame.routine.signature.returnWords
      StackM.setOffset (frame.base + frame.routine.signature.returnWords) : StackM (Object H) Unit) := by
  simp only [unwind, run_bind, run_releaseArguments, run_moveDown, run_setOffset]

theorem meets_unwind {frame : Frame H} {stack : OperandStack (Object H)} (sound : stack.Sound)
    (full : stack.offset =
      frame.base + frame.routine.signature.argumentWords + frame.routine.signature.returnWords) :
    (unwind frame).Meets Access.InBounds stack fun outcome => Access.Stays stack (finalState outcome) := by
  have released := (meets_of_checked
    (checked_releaseArguments frame.base frame.routine.signature.argumentSlots) sound).and_eq
    (congrFun (run_releaseArguments frame.base frame.routine.signature.argumentSlots) stack)
  refine Meets.bind (released.mono ?_)
  rintro outcome ⟨kept, releasing⟩
  obtain ⟨table, same⟩ :=
    Machine.final_releaseArguments frame.base frame.routine.signature.argumentSlots stack
  rw [← releasing] at same
  rcases outcome with ⟨⟨⟩, last⟩ | ⟨fault, last⟩
  · simp only [finalState] at same kept
    subst same
    have used := sound.offset_le
    -- the words of the result are alive, and they move down by those of the arguments
    have down : (Access.moveDown (frame.base + frame.routine.signature.argumentWords) frame.base
        frame.routine.signature.returnWords).Asserted { stack with handles := table } :=
      ⟨Nat.le_add_right .., Nat.le_of_eq full.symm⟩
    have moved := Access.stays_perform down kept.sound
    have lowered : (Access.setOffset (frame.base + frame.routine.signature.returnWords)).Asserted
        (finalState ((Access.moveDown (frame.base + frame.routine.signature.argumentWords) frame.base
          frame.routine.signature.returnWords).perform { stack with handles := table })) := by
      change frame.base + frame.routine.signature.returnWords ≤ stack.capacity
      omega
    refine Meets.bind (meets_call (Access.inBounds_of_sound down kept.sound)
      (meets_call (Access.inBounds_of_sound lowered moved.sound) ?_))
    exact kept.trans (moved.trans (Access.stays_perform lowered moved.sound))
  · exact kept

theorem meets_leave (frame : Frame H) {stack : OperandStack (Object H)} (sound : stack.Sound) :
    (leave frame).Meets Access.InBounds stack fun outcome => Access.Stays stack (finalState outcome) := by
  have returning : (checkReturn frame.routine.signature frame.base).Meets Access.InBounds stack fun outcome =>
      Access.Stays stack (finalState outcome) ∧
        (outcome = Machine.checkReturn frame.routine.signature frame.base stack) :=
    (meets_of_checked (checked_checkReturn _ _) sound).and_eq (congrFun (run_checkReturn _ _) stack)
  refine Meets.bind (returning.mono ?_)
  rintro (⟨⟨⟩, final⟩ | ⟨fault, final⟩) ⟨stays, checked⟩
  · obtain ⟨rfl, full⟩ := Machine.checkReturn_eq_ok checked.symm
    have described := (meets_of_checked (checked_describeResult frame.routine.signature frame.base) sound).and_eq
      (run_describeResult frame.routine.signature frame.base final)
    refine Meets.bind (described.mono ?_)
    rintro _ ⟨-, rfl⟩
    exact meets_unwind sound full
  · exact stays

theorem meets_keeping {script : Script (Object H) Unit} {stack : OperandStack (Object H)} (checked : script.Checked)
    (sound : stack.Sound) : (keeping script).Meets Access.InBounds stack (StaysWithin stack) := by
  refine Meets.bind ((meets_of_checked checked sound).mono ?_)
  rintro (⟨⟨⟩, final⟩ | ⟨fault, final⟩) stays
  · refine ⟨stays, ?_⟩
    rintro change final' result frame rfl
    cases result
  · refine ⟨stays, ?_⟩
    rintro change final' result frame rfl
    cases result

theorem meets_fail (error : ProgramError) {stack : OperandStack (Object H)} (sound : stack.Sound) :
    (fail error : Script (Object H) (FrameChange H)).Meets Access.InBounds stack (StaysWithin stack) := by
  refine ⟨.refl sound, ?_⟩
  rintro change final result frame rfl
  cases result

/-- Whatever an instruction touches lies inside the stack. -/
theorem meets_effect (table : HostTable H) (frame : Frame H) (instruction : Instruction)
    {stack : OperandStack (Object H)} (sound : stack.Sound) :
    (effect table frame instruction).Meets Access.InBounds stack (StaysWithin stack) := by
  cases instruction with
  | constant ty position => exact meets_keeping (checked_pushConstant _ ty position) sound
  | add ty => exact meets_keeping (checked_addTop ty) sound
  | pop ty => exact meets_keeping ((checked_popOperand ty).bind fun _ => trivial) sound
  | setLocal ty offset => exact meets_keeping (checked_storeLocal ty _) sound
  | getLocal ty offset => exact meets_keeping (checked_loadLocal ty _) sound
  | call position =>
    simp only [effect]
    split
    · exact meets_enter _ sound
    · exact meets_fail _ sound
  | externalCall position =>
    simp only [effect]
    split
    · exact meets_keeping (checked_callCode _) sound
    · exact meets_fail _ sound
  | ret =>
    refine Meets.bind ((meets_leave frame sound).mono ?_)
    rintro (⟨⟨⟩, final⟩ | ⟨fault, final⟩) stays
    · refine ⟨stays, ?_⟩
      rintro change final' result frame rfl
      cases result
    · refine ⟨stays, ?_⟩
      rintro change final' result frame rfl
      cases result

end Script

end WordMachine
