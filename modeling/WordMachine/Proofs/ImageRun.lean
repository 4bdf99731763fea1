import WordMachine.Proofs.Driven
import WordMachine.Proofs.History
import WordMachine.Proofs.Mirror

namespace WordMachine

/-- Where a run on an image stands after an instruction. -/
inductive ImageProgress (H : Type)
  | running (frames : Frames H) (image : Image (Object H))
  | halted (image : Image (Object H))
  | stopped (trouble : Trouble)

/-- Where a run stands after an effect on the image. -/
def ImageProgress.after {H : Type} (frames : Frames H) :
    EStateM.Result Trouble (Image (Object H)) (FrameChange H) → ImageProgress H
  | .ok change image =>
    match change.onFrames? frames with
    | some frames =>
      match change.flow frames with
      | .proceed => .running frames image
      | .halt => .halted image
    | none => .stopped (.fault (.callStackOverflow frames.limit))
  | .error trouble _ => .stopped trouble

namespace Image

variable {H : Type}

/-- Fetches the next instruction of the current frame and carries it out on an image. -/
def tick (adapters : Adapters H) : Frames H → Image (Object H) → ImageProgress H
  | ⟨[], _⟩, image => .halted image
  | ⟨frame :: below, limit⟩, image =>
    match frame.routine.chunk.fetch frame.ip with
    | .error error => .stopped (.fault error)
    | .ok instruction => .after ⟨frame.advanced :: below, limit⟩ (effect adapters frame.advanced instruction image)

theorem keeping_eq_ok {step : ImageM (Object H) Unit} {image after : Image (Object H)} {change : FrameChange H}
    (kept : keeping step image = .ok change after) : change = .keep := by
  obtain ⟨_, middle, _, last⟩ := bind_eq_ok kept
  cases last
  rfl

/-- Only a call pushes a frame, and that is one for the routine that is called. -/
theorem push_of_effect {adapters : Adapters H} {frame callee : Frame H} {instruction : Instruction}
    {image after : Image (Object H)}
    (pushed : effect adapters frame instruction image = .ok (.push callee) after) :
    ∃ position, instruction = .call position ∧
      frame.routine.chunk.constants.readRoutine position = .ok callee.routine ∧ callee.ip = 0 := by
  cases instruction with
  | constant ty position => cases keeping_eq_ok pushed
  | add ty => cases keeping_eq_ok pushed
  | pop ty => cases keeping_eq_ok pushed
  | setLocal ty offset => cases keeping_eq_ok pushed
  | getLocal ty offset => cases keeping_eq_ok pushed
  | call position =>
    simp only [effect] at pushed
    cases read : frame.routine.chunk.constants.readRoutine position with
    | error error =>
      rw [read] at pushed
      cases pushed
    | ok routine =>
      rw [read] at pushed
      obtain ⟨base, middle, _, last⟩ := bind_eq_ok pushed
      cases last
      exact ⟨position, rfl, read, rfl⟩
  | externalCall position =>
    simp only [effect] at pushed
    cases read : adapters.read frame.routine.chunk.constants position with
    | error error =>
      rw [read] at pushed
      cases pushed
    | ok adapter =>
      rw [read] at pushed
      cases keeping_eq_ok pushed
  | ret =>
    obtain ⟨_, middle, _, last⟩ := bind_eq_ok pushed
    cases last

/-- Every instruction takes something off the work left in the frames. -/
theorem work_tick {adapters : Adapters H} {frames next : Frames H} {image after : Image (Object H)}
    (running : tick adapters frames image = .running next after) : next.work < frames.work := by
  obtain ⟨active, limit⟩ := frames
  cases active with
  | nil => cases running
  | cons frame below =>
    unfold tick at running
    dsimp only at running
    split at running
    · cases running
    · rename_i instruction fetched
      obtain ⟨raw, decoded, work⟩ := Frame.work_of_fetch fetched
      unfold ImageProgress.after at running
      split at running
      · rename_i change middle performed
        split at running
        · rename_i changed pushed
          split at running
          · cases running
            cases change with
            | keep =>
              cases pushed
              simp only [Frames.work, Frame.advanced, List.map_cons, List.sum_cons]
              omega
            | push callee =>
              simp only [FrameChange.onFrames?, Frames.push?] at pushed
              split at pushed
              · cases pushed
                obtain ⟨position, rfl, read, start⟩ := push_of_effect performed
                have target : frame.routine.callee? raw = some callee.routine := by
                  unfold Routine.callee?
                  rw [decoded]
                  dsimp only
                  rw [show frame.routine.chunk.constants.readRoutine position = .ok callee.routine from read]
                have whole : callee.work = callee.routine.workOf callee.routine.chunk.code.toList := by
                  unfold Frame.work
                  rw [start, List.drop_zero]
                rw [target] at work
                simp only [Frames.work, Frame.advanced, List.map_cons, List.sum_cons]
                dsimp only at work
                omega
              · cases pushed
            | pop =>
              cases pushed
              simp only [Frames.work, Frames.pop, Frame.advanced, List.tail_cons, List.map_cons, List.sum_cons]
              omega
          · cases running
        · cases running
      · cases running

/-- Runs on an image until no frame is left or something goes wrong. -/
def run (adapters : Adapters H) (frames : Frames H) (image : Image (Object H)) :
    EStateM.Result Trouble (Image (Object H)) Unit :=
  match _ticked : tick adapters frames image with
  | .running next after => run adapters next after
  | .halted final => .ok () final
  | .stopped trouble => .error trouble image
termination_by frames.work
decreasing_by exact work_tick _ticked

theorem run_of_running {adapters : Adapters H} {frames next : Frames H} {image after : Image (Object H)}
    (ticked : tick adapters frames image = .running next after) :
    run adapters frames image = run adapters next after := by
  rw [run]
  split <;> rename_i other <;> rw [ticked] at other <;> cases other
  rfl

theorem run_of_halted {adapters : Adapters H} {frames : Frames H} {image final : Image (Object H)}
    (ticked : tick adapters frames image = .halted final) : run adapters frames image = .ok () final := by
  rw [run]
  split <;> rename_i other <;> rw [ticked] at other <;> cases other
  rfl

theorem run_of_stopped {adapters : Adapters H} {frames : Frames H} {image : Image (Object H)} {trouble : Trouble}
    (ticked : tick adapters frames image = .stopped trouble) : run adapters frames image = .error trouble image := by
  rw [run]
  split <;> rename_i other <;> rw [ticked] at other <;> cases other
  rfl

end Image

namespace Machine

variable {H : Type}

/-- A run stands where the run on the image stands, as long as that has a meaning. -/
def Alongside (progress : Progress H) : ImageProgress H → Prop
  | .running frames image => ∃ next, progress = .running next ∧ next.frames = frames ∧ next.stack.Shown image
  | .halted image => ∃ final, progress = .halted final ∧ final.stack.Shown image
  | .stopped (.fault fault) => ∃ final, progress = .faulted fault final
  | .stopped .torn => True

theorem alongside_after {frames : Frames H} {journal : Journal}
    {outcome : EStateM.Result Fault (OperandStack (Object H)) (FrameChange H)}
    {shown : EStateM.Result Trouble (Image (Object H)) (FrameChange H)} (mirrored : Script.Mirrored outcome shown) :
    Alongside (.after frames journal outcome) (.after frames shown) := by
  cases shown with
  | error trouble image =>
    cases trouble with
    | torn => exact trivial
    | fault fault =>
      obtain ⟨final, rfl⟩ := mirrored
      exact ⟨_, rfl⟩
  | ok change image =>
    obtain ⟨final, rfl, shows⟩ := mirrored
    simp only [Progress.after, ImageProgress.after]
    cases change.onFrames? frames with
    | none => exact ⟨_, rfl⟩
    | some next =>
      dsimp only
      cases change.flow next with
      | proceed => exact ⟨_, rfl, rfl, shows⟩
      | halt => exact ⟨_, rfl, shows⟩

/-- One instruction does to a machine what it does to the image of its stack. -/
theorem alongside_tick (adapters : Adapters H) {m : Machine H} {image : Image (Object H)} (intact : m.stack.Intact)
    (small : (tick adapters.table.link m).machine.stack.handles.Small) (shows : m.stack.Shown image) :
    Alongside (tick adapters.table.link m) (Image.tick adapters m.frames image) := by
  obtain ⟨⟨active, limit⟩, stack, journal⟩ := m
  cases active with
  | nil => exact ⟨_, rfl, shows⟩
  | cons frame below =>
    cases fetched : frame.routine.chunk.fetch frame.ip with
    | error error =>
      obtain ⟨later, ticked⟩ := tick_fetch_error adapters.table.link below limit stack journal fetched
      rw [ticked]
      simp only [Image.tick, fetched]
      exact ⟨_, rfl⟩
    | ok instruction =>
      obtain ⟨later, ticked⟩ := tick_eq adapters.table.link below limit stack journal fetched
      rw [ticked, stack_after, ← Script.run_effect] at small
      rw [ticked, ← Script.run_effect]
      simp only [Image.tick, fetched]
      exact alongside_after
        ((Script.mirrors_effect adapters frame.advanced instruction).mirrored stack intact small image shows)

end Machine

namespace VM

variable {H : Type}

/-- Nothing is known of the memory that a call gets. -/
theorem Stocked.shown_lent {vm : VM H} (stocked : vm.Stocked) :
    vm.lent.stack.Shown ⟨vm.config.stackDepth, 0, [], .nothing⟩ := by
  obtain ⟨shelved, empty, capacity⟩ := stocked.lent
  have none_left : (vm.lent.stack.image .nothing).words = [] :=
    List.eq_nil_of_length_eq_zero ((OperandStack.length_words ..).trans empty)
  refine ⟨.nothing, vm.lent.stack.memory.confirms_nothing, ?_⟩
  change Image.mk vm.lent.stack.capacity vm.lent.stack.handles.live (vm.lent.stack.image .nothing).words _ = _
  rw [none_left, capacity, shelved.live_eq]

end VM

end WordMachine
