import WordMachine.Proofs.Roomier
import WordMachine.Proofs.Within

namespace WordMachine

open OperandStack

namespace Script

variable {ω α : Type}

/-- Host code that passes the faults of its operations on and does not ask how large the stack is. It may ask how much
of it is in use, and raise faults of its own. -/
inductive Blind : {α : Type} → Script ω α → Prop
  | done {α : Type} (value : α) : Blind (done value)
  | fail {α : Type} (fault : Fault) : Blind (fail fault : Script ω α)
  | operation (operation : HostOperation ω) (other : operation ≠ .usage) : Blind operation.script
  | offset : Blind (do
      let used ← usage
      pure used.offset)
  | liveHandles : Blind (do
      let used ← usage
      pure used.live)
  | bind {α β : Type} {script : Script ω α} {next : α → Script ω β} :
      Blind script → (∀ value, Blind (next value)) → Blind (script.bind next)

theorem Blind.steady {script : Script ω α} (blind : script.Blind) : StackM.Steady script.run := by
  induction blind with
  | done value => exact steady_pure value
  | fail fault => exact StackM.steady_fail fault
  | operation operation other =>
    cases operation with
    | push ty value => exact run_pushOperand ty value ▸ StackM.steady_pushOperand ty value
    | pop ty => exact run_popOperand ty ▸ StackM.steady_popOperand ty
    | read kind slot => exact run_read kind slot ▸ StackM.steady_readCell kind slot
    | write kind slot value => exact run_write kind slot value ▸ StackM.steady_writeCell kind slot value
    | peek => exact run_peekObject ▸ StackM.steady_peekObject
    | usage => exact absurd rfl other
  | offset => exact StackM.steady_of_offset ⟨Except.ok, fun _ => rfl⟩
  | liveHandles =>
    intro small large widens
    change Lockstep Widens Short (.ok small.handles.live small) (.ok large.handles.live large)
    rw [widens.handles_eq]
    exact .ok widens
  | @bind α β script next _ _ first rest =>
    have ran := run_bind script next
    exact ran ▸ first.bind rest

end Script

/-- The host calls only such code. -/
def HostTable.Blind {H : Type} (table : HostTable H) : Prop :=
  ∀ value code, table value = some code → code.body.Blind

theorem HostTable.Blind.of_readCode {H : Type} {table : HostTable H} (blind : table.Blind)
    {pool : ConstantPool (Object H)} {position : Position} {code : HostCode (Object H)}
    (read : pool.readCode table position = .ok code) : code.body.Blind := by
  obtain ⟨value, found⟩ := ConstantPool.exists_of_readCode read
  exact blind value code found

namespace Machine

variable {H : Type}

theorem steady_slotUnder (words : Nat) : StackM.Steady (slotUnder words : StackM (Object H) Nat) := by
  refine StackM.steady_of_offset
    ⟨fun offset => if offset < words then .error .stackUnderflow else .ok (offset - words), fun stack => ?_⟩
  unfold slotUnder
  dsimp only
  split <;> rfl

theorem steady_pushConstant (constants : ConstantPool (Object H)) (ty : Ty) (position : Position) :
    StackM.Steady (pushConstant constants ty position) := by
  unfold pushConstant
  cases constants.readOperand position ty with
  | ok value => exact StackM.steady_pushOperand ty value
  | error error => exact StackM.steady_fail _

theorem steady_discard (ty : Ty) : StackM.Steady (discard ty : StackM (Object H) Unit) :=
  (StackM.steady_popOperand ty).bind fun _ => steady_pure ()

theorem steady_addTop (ty : Ty) : StackM.Steady (addTop ty : StackM (Object H) Unit) := by
  cases ty with
  | object => exact StackM.steady_fail _
  | scalar kind =>
    simp only [addTop]
    cases kind.sum? with
    | none => exact StackM.steady_fail _
    | some sum =>
      refine (StackM.steady_popCell kind).bind fun b => (StackM.steady_popCell kind).bind fun a => ?_
      cases sum a b with
      | none => exact StackM.steady_fail _
      | some total => exact StackM.steady_pushCell kind total

/-- A copy that finds no room is taken back. That can only fail if the table has more slots than handles can number. -/
theorem lockstep_pushOwned {small large : OperandStack (Object H)} (widens : small.Widens large) {handle : Handle}
    (held : small.handles.Small → small.handles.Refers handle) :
    Lockstep Widens Short (pushOwned handle small) (pushOwned handle large) := by
  have pushed := StackM.steady_pushCell .object handle small large widens
  unfold pushOwned
  by_cases room : small.offset + Ty.object.words ≤ small.capacity
  · have first : StackM.pushCell .object handle small = .ok () _ := if_pos room
    have second : StackM.pushCell .object handle large = .ok () _ :=
      if_pos (by rw [widens.offset_eq]; exact Nat.le_trans room widens.capacity_le)
    rw [first, second] at pushed ⊢
    exact pushed
  · have refused : StackM.pushCell .object handle small = .error .stackOverflow small := if_neg room
    rw [refused]
    by_cases refers : small.handles.Refers handle
    · obtain ⟨object, next, _, returned⟩ := refers.release
      simp only [StackM.release, returned]
      exact .short (.inl rfl)
    · simp only [StackM.release, HandleTable.release_of_not_refers refers]
      exact .short (.inr (.inr ⟨⟨handle, rfl⟩, fun few => refers (held few)⟩))

theorem steady_loadLocal (ty : Ty) (slot : Nat) : StackM.Steady (loadLocal ty slot : StackM (Object H) Unit) := by
  cases ty with
  | scalar kind => exact (StackM.steady_readCell kind slot).bind fun value => StackM.steady_pushCell kind value
  | object =>
    refine (StackM.steady_readCell .object slot).bind fun handle => ?_
    intro small large widens
    refine (StackM.steady_duplicate handle small large widens).bind fun copy middle final copied same => ?_
    refine lockstep_pushOwned same fun few => ?_
    -- the copy is null, or the table has issued it just now
    simp only [StackM.duplicate, HandleTable.duplicate] at copied
    cases got : small.handles.get handle with
    | error fault =>
      rw [got] at copied
      cases copied
    | ok found =>
      rw [got] at copied
      cases found with
      | none =>
        cases copied
        exact HandleTable.refers_null _
      | some object =>
        cases copied
        obtain ⟨⟨index, issued⟩, _, _⟩ := widens.consistent.locate?_alloc few
        exact ⟨some object, HandleTable.get_of_locate? issued⟩

theorem steady_replacedHandle (handle : Handle) (slot : Nat) :
    StackM.Steady (replacedHandle handle slot : StackM (Object H) Handle) := by
  intro small large widens
  unfold replacedHandle
  rw [← widens.cellAt_eq]
  cases small.cellAt .object slot with
  | ok previous => exact .ok widens
  | error fault =>
    have returning : StackM.Steady (Script.returning handle fault : Script (Object H) Handle).run := by
      simp only [Script.returning, Script.run_bind, Script.run_release, Script.run_fail]
      exact (StackM.steady_release handle).bind fun _ => StackM.steady_fail fault
    have returned := returning small large widens
    rw [Script.run_returning, Script.run_returning] at returned
    exact returned

theorem steady_storeLocal (ty : Ty) (slot : Nat) : StackM.Steady (storeLocal ty slot : StackM (Object H) Unit) := by
  cases ty with
  | scalar kind => exact (StackM.steady_popCell kind).bind fun value => StackM.steady_writeCell kind slot value
  | object =>
    exact (StackM.steady_popCell .object).bind fun handle => (steady_replacedHandle handle slot).bind fun previous =>
      (StackM.steady_writeCell .object slot handle).bind fun _ => (StackM.steady_release previous).bind fun _ =>
        steady_pure ()

theorem steady_releaseArguments (base : Nat) (slots : List (Nat × Ty)) :
    StackM.Steady (releaseArguments base slots : StackM (Object H) Unit) := by
  induction slots with
  | nil => exact steady_pure ()
  | cons entry rest ih =>
    obtain ⟨slot, ty⟩ := entry
    cases ty with
    | scalar kind => exact ih
    | object =>
      exact (StackM.steady_readCell .object (base + slot)).bind fun handle => (StackM.steady_release handle).bind
        fun _ => ih

theorem steady_checkReturn (signature : Signature) (base : Nat) :
    StackM.Steady (checkReturn signature base : StackM (Object H) Unit) := by
  refine StackM.steady_of_offset ⟨fun offset =>
    if offset < base + signature.argumentWords + signature.returnWords then .error .stackUnderflow
    else if base + signature.argumentWords + signature.returnWords < offset then
      .error (.returnCountMismatch signature.name signature.returnWords (offset - (base + signature.argumentWords)))
    else .ok (), fun stack => ?_⟩
  unfold checkReturn
  dsimp only
  split
  · rfl
  · split <;> rfl

theorem steady_checkExternal (external : External (Object H)) (base : Nat) :
    StackM.Steady (checkExternal external base : StackM (Object H) Unit) := by
  refine StackM.steady_of_offset ⟨fun offset =>
    if offset = base + external.returnWords then .ok ()
    else .error (.returnCountMismatch external.name external.returnWords (offset - base)), fun stack => ?_⟩
  unfold checkExternal
  dsimp only
  split <;> rfl

/-- A return moves only words in use, because it has compared the offset before. -/
theorem steady_leaveEffect (frame : Frame H) : StackM.Steady (leaveEffect frame) := by
  intro small large widens
  unfold leaveEffect
  refine (steady_checkReturn _ _ small large widens).bind fun _ middle final checked same => ?_
  obtain ⟨rfl, full⟩ := checkReturn_eq_ok checked
  refine (steady_releaseArguments _ _ middle final same).bind fun _ released last releasing alike => ?_
  have height : released.offset = middle.offset := by
    obtain ⟨table, kept⟩ := final_releaseArguments frame.base frame.routine.signature.argumentSlots middle
    rw [releasing] at kept
    change released = { middle with handles := table } at kept
    rw [kept]
  exact .ok (alike.moved (Nat.le_add_right ..) (by omega))

theorem steady_keeping {step : StackM (Object H) Unit} (steady : StackM.Steady step) : StackM.Steady (keeping step) :=
  steady.bind fun _ => steady_pure FrameChange.keep

/-- No instruction depends on how large the stack is. -/
theorem steady_effect {table : HostTable H} (blind : table.Blind) (frame : Frame H) (instruction : Instruction) :
    StackM.Steady (effect table.link frame instruction) := by
  cases instruction with
  | constant ty position => exact steady_keeping (steady_pushConstant _ ty position)
  | add ty => exact steady_keeping (steady_addTop ty)
  | pop ty => exact steady_keeping (steady_discard ty)
  | setLocal ty offset => exact steady_keeping (steady_storeLocal ty _)
  | getLocal ty offset => exact steady_keeping (steady_loadLocal ty _)
  | call position =>
    simp only [effect]
    cases frame.routine.chunk.constants.readRoutine position with
    | ok callee => exact (steady_slotUnder _).bind fun base => steady_pure _
    | error error => exact StackM.steady_fail _
  | externalCall position =>
    simp only [effect, ConstantPool.readExternal_link]
    cases read : frame.routine.chunk.constants.readCode table position with
    | ok code =>
      exact steady_keeping ((steady_slotUnder _).bind fun base => (blind.of_readCode read).steady.bind fun _ =>
        steady_checkExternal code.external base)
    | error error => exact StackM.steady_fail _
  | ret => exact (steady_leaveEffect frame).bind fun _ => steady_pure FrameChange.pop

/-- The same run on a larger stack and with room for more frames. -/
structure Widens (m wide : Machine H) : Prop where
  active_eq : wide.frames.active = m.frames.active
  limit_le : m.frames.limit ≤ wide.frames.limit
  stack : m.stack.Widens wide.stack

def Short (fault : Fault) (m : Machine H) : Prop :=
  m.stack.Short fault

/-- Steps of a run that end the same way with more room. -/
abbrev Steady {α : Type} (step : MachineM H α) : Prop :=
  WordMachine.Steady Widens Short step

theorem steady_onStack {α : Type} {step : StackM (Object H) α} (steady : StackM.Steady step) :
    Steady (onStack step) := by
  rintro ⟨frames, stack, journal⟩ ⟨more, roomy, other⟩ widens
  have lockstep := steady stack roomy widens.stack
  unfold onStack
  dsimp only
  generalize step stack = first at lockstep
  generalize step roomy = second at lockstep
  cases lockstep with
  | ok alike => exact .ok ⟨widens.active_eq, widens.limit_le, alike⟩
  | error alike => exact .error ⟨widens.active_eq, widens.limit_le, alike⟩
  | short lacking => exact .short lacking

end Machine

/-- Where two runs stand after an instruction, one of them with more room. -/
inductive Progress.Lockstep {H : Type} : Progress H → Progress H → Prop
  | running {m wide : Machine H} (alike : m.Widens wide) : Lockstep (.running m) (.running wide)
  | halted {m wide : Machine H} (alike : m.Widens wide) : Lockstep (.halted m) (.halted wide)
  | faulted {fault : Fault} {m wide : Machine H} (alike : m.Widens wide) :
      Lockstep (.faulted fault m) (.faulted fault wide)
  | short {fault : Fault} {m : Machine H} {progress : Progress H} (lacking : m.Short fault) :
      Lockstep (.faulted fault m) progress

namespace Machine

variable {H : Type}

theorem push?_of_lt {active : List (Frame H)} {limit : Nat} (room : active.length < limit) (frame : Frame H) :
    Frames.push? ⟨active, limit⟩ frame = some ⟨frame :: active, limit⟩ :=
  if_pos room

theorem push?_of_not_lt {active : List (Frame H)} {limit : Nat} (full : ¬ active.length < limit) (frame : Frame H) :
    Frames.push? ⟨active, limit⟩ frame = none :=
  if_neg full

/-- The frames change the same way, unless they were as many as there may be. -/
theorem lockstep_after {active : List (Frame H)} {limit more : Nat} (higher : limit ≤ more) (journal other : Journal)
    {first second : EStateM.Result Fault (OperandStack (Object H)) (FrameChange H)}
    (lockstep : WordMachine.Lockstep OperandStack.Widens OperandStack.Short first second) :
    Progress.Lockstep (.after ⟨active, limit⟩ journal first) (.after ⟨active, more⟩ other second) := by
  cases lockstep with
  | error alike => exact .faulted ⟨rfl, higher, alike⟩
  | short lacking => exact .short lacking
  | @ok change small large alike =>
    cases change with
    | keep => exact .running ⟨rfl, higher, alike⟩
    | push frame =>
      simp only [Progress.after, FrameChange.onFrames?]
      by_cases room : active.length < limit
      · rw [push?_of_lt room, push?_of_lt (Nat.lt_of_lt_of_le room higher)]
        exact .running ⟨rfl, higher, alike⟩
      · rw [push?_of_not_lt room]
        exact .short (.inr (.inl ⟨limit, rfl⟩))
    | pop =>
      simp only [Progress.after, FrameChange.onFrames?, FrameChange.flow, Frames.pop]
      cases active.tail with
      | nil => exact .halted ⟨rfl, higher, alike⟩
      | cons frame below => exact .running ⟨rfl, higher, alike⟩

theorem lockstep_tick {table : HostTable H} (blind : table.Blind) {m wide : Machine H} (widens : m.Widens wide) :
    Progress.Lockstep (tick table.link m) (tick table.link wide) := by
  obtain ⟨⟨active, limit⟩, stack, journal⟩ := m
  obtain ⟨⟨others, more⟩, roomy, other⟩ := wide
  obtain ⟨same, higher, alike⟩ := widens
  dsimp only at same higher alike
  subst same
  cases others with
  | nil => exact .halted ⟨rfl, higher, alike⟩
  | cons frame below =>
    cases fetched : frame.routine.chunk.fetch frame.ip with
    | error error =>
      obtain ⟨later, first⟩ := tick_fetch_error table.link below limit stack journal fetched
      obtain ⟨last, second⟩ := tick_fetch_error table.link below more roomy other fetched
      rw [first, second]
      exact .faulted ⟨rfl, higher, alike⟩
    | ok instruction =>
      obtain ⟨later, first⟩ := tick_eq table.link below limit stack journal fetched
      obtain ⟨last, second⟩ := tick_eq table.link below more roomy other fetched
      rw [first, second]
      exact lockstep_after higher later last (steady_effect blind frame.advanced instruction stack roomy alike)

/-- A whole run ends the same way with more room, one instruction after the other. -/
theorem steady_run {table : HostTable H} (blind : table.Blind) : Steady (run table.link) := by
  -- the induction follows the run with less room; the other one takes as many steps, or is not looked at any more
  intro m
  induction m using run_induction table.link with
  | step m ih =>
    intro wide widens
    have lockstep := lockstep_tick blind widens
    generalize ticked : tick table.link m = reached at lockstep
    generalize progress : tick table.link wide = other at lockstep
    cases lockstep with
    | running alike =>
      rw [run_of_running ticked, run_of_running progress]
      exact ih _ ticked _ alike
    | halted alike =>
      rw [run_of_halted ticked, run_of_halted progress]
      exact .ok alike
    | faulted alike =>
      rw [run_of_faulted ticked, run_of_faulted progress]
      exact .error alike
    | short lacking =>
      rw [run_of_faulted ticked]
      exact .short lacking

theorem steady_enter (routine : Routine (Object H)) : Steady (enter routine) := by
  rintro ⟨⟨active, limit⟩, stack, journal⟩ ⟨⟨others, more⟩, roomy, other⟩ ⟨same, higher, alike⟩
  have height := alike.offset_eq
  dsimp only at same higher alike height
  subst same
  rcases enter_cases routine ⟨others, limit⟩ stack journal with
    ⟨low, failed⟩ | ⟨enough, later, ⟨_, failed⟩ | ⟨next, pushed, entered⟩⟩
  · rcases enter_cases routine ⟨others, more⟩ roomy other with ⟨_, missing⟩ | ⟨enough, _⟩
    · rw [failed, missing]
      exact .error ⟨rfl, higher, alike⟩
    · omega
  · rw [failed]
    exact .short (.inr (.inl ⟨limit, rfl⟩))
  · by_cases room : others.length < limit
    · have wider := Nat.lt_of_lt_of_le room higher
      rw [push?_of_lt room] at pushed
      rcases enter_cases routine ⟨others, more⟩ roomy other with
        ⟨low, _⟩ | ⟨_, last, ⟨refused, _⟩ | ⟨grown, accepted, admitted⟩⟩
      · omega
      · rw [push?_of_lt wider] at refused
        cases refused
      · rw [push?_of_lt wider, height] at accepted
        cases pushed
        cases accepted
        rw [entered, admitted]
        exact .ok ⟨rfl, higher, alike⟩
    · rw [push?_of_not_lt room] at pushed
      cases pushed

theorem steady_clearingFrames {α : Type} {step : MachineM H α} (steady : Steady step) :
    Steady (clearingFrames step) := by
  intro m wide widens
  have lockstep := steady m wide widens
  unfold Machine.clearingFrames
  generalize step m = first at lockstep
  generalize step wide = second at lockstep
  cases lockstep with
  | ok alike => exact .ok alike
  | error alike => exact .error ⟨rfl, alike.limit_le, alike.stack⟩
  | @short fault small outcome lacking => exact .short lacking

theorem steady_execute {table : HostTable H} (blind : table.Blind) (routine : Routine (Object H))
    (arguments : List (Argument (Object H))) (result : Option Ty) :
    Steady (execute table.link routine arguments result) := by
  have counted : StackM.Steady (StackM.offset : StackM (Object H) Nat) :=
    StackM.steady_of_offset ⟨Except.ok, fun _ => rfl⟩
  refine (steady_onStack counted).bind fun start => (steady_onStack (StackM.steady_pushAll arguments)).bind fun _ =>
    (steady_onStack (StackM.steady_of_offset (looksAtOffset_checkPushed routine.signature start))).bind fun _ => ?_
  exact (steady_clearingFrames ((steady_enter routine).bind fun _ => steady_run blind)).bind fun _ =>
    (steady_onStack (StackM.steady_of_offset (looksAtOffset_checkLeft routine.signature start))).bind fun _ =>
      steady_onStack (StackM.steady_popResult result)

end Machine

namespace VM

variable {H : Type}

theorem widens_lent {limits more : Config} (deeper : limits.stackDepth ≤ more.stackDepth)
    (higher : limits.maxFrames ≤ more.maxFrames) (journal other : Journal) :
    (create limits journal : VM H).lent.Widens (create more other).lent where
  active_eq := by rw [lent_frames, lent_frames]
  limit_le := by
    rw [lent_frames, lent_frames]
    exact higher
  stack := by
    rw [lent_stack, lent_stack]
    exact widens_fresh deeper

/-- A call that had room enough ends the same way with more room, whatever it ends with. A handle may also turn out
invalid for want of numbers, once the table has more slots than handles can tell apart. -/
theorem call_of_more_room {table : HostTable H} (blind : table.Blind) {limits more : Config}
    (deeper : limits.stackDepth ≤ more.stackDepth) (higher : limits.maxFrames ≤ more.maxFrames)
    (journal other : Journal) (routine : Routine (Object H)) (arguments : List (Argument (Object H)))
    (result : Option Ty) (outcome : Except Fault (Result (Object H) result))
    (called : ((create limits journal).call table.link routine arguments result).1 = outcome)
    (room : outcome ≠ .error .stackOverflow) (shallow : ∀ depth, outcome ≠ .error (.callStackOverflow depth))
    (numbered : ∀ handle, outcome = .error (.invalidHandle handle) →
      (finalState (Machine.execute table.link routine arguments result
        (create limits journal).lent)).stack.handles.Small) :
    ((create more other).call table.link routine arguments result).1 = outcome := by
  unfold VM.call at called ⊢
  cases checked : routine.signature.check (arguments.map Argument.ty) result with
  | error fault =>
    rw [checked] at called
    exact called
  | ok matching =>
    rw [checked] at called
    dsimp only at called ⊢
    have lockstep := Machine.steady_execute blind routine arguments result _ _ (widens_lent deeper higher journal other)
    rw [callUnchecked_eq] at called ⊢
    generalize Machine.execute table.link routine arguments result (create limits journal).lent = ended
      at called numbered lockstep
    generalize Machine.execute table.link routine arguments result (create more other).lent = ending at lockstep ⊢
    subst called
    cases lockstep with
    | ok alike => rfl
    | error alike => rfl
    | short lacking =>
      rcases lacking with rfl | ⟨depth, rfl⟩ | ⟨⟨handle, rfl⟩, many⟩
      · exact absurd rfl room
      · exact absurd rfl (shallow depth)
      · exact absurd (numbered handle rfl) many

end VM

theorem Script.blind_popAll {ω : Type} (types : List Ty) : (popAll types : Script ω _).Blind := by
  induction types with
  | nil => exact .done ()
  | cons ty rest ih =>
    exact .bind ih fun values => .bind (.operation (.pop ty) nofun) fun value => .done (value, values)

theorem Script.blind_pushResult {ω : Type} (result : Option Ty) (value : Result ω result) :
    (pushResult result value).Blind := by
  cases result with
  | none => exact .done ()
  | some ty => exact .operation (.push ty value) nofun

/-- Host code made from functions has no reason to ask how large the stack is. -/
theorem Adapters.blind {H : Type} (adapters : Adapters H) : adapters.table.Blind := by
  intro value code found
  obtain ⟨adapter, _, rfl⟩ := Option.map_eq_some_iff.mp found
  exact .bind (Script.blind_popAll adapter.parameters) fun values =>
    Script.blind_pushResult adapter.result (adapter.apply values)

namespace Nesting

def two : Routine (Object Unit) where
  signature := ⟨"Two", some (.scalar .int), []⟩
  chunk := Chunk.of [.constant (.scalar .int) 0, .ret] ⟨#[2, 0, 0, 0], #[], #[]⟩

/-- Adds three to what a call returns. -/
def five : Routine (Object Unit) where
  signature := ⟨"Five", some (.scalar .int), []⟩
  chunk :=
    Chunk.of [.call 0, .constant (.scalar .int) 8, .add (.scalar .int), .ret]
      ⟨#[1, 0, 0, 0, 0, 0, 0, 0, 3, 0, 0, 0], #[.routine two], #[0]⟩

/-- Just enough words and frames. -/
def tight : Config := ⟨2, 2, 1, 1⟩

def ample : Config := {}

/-- What seven instructions come to. -/
def evaluated : Except Fault Int32 :=
  (VM.callWithin Adapters.none.table.link 7 (.create tight .silent) five [] (some (.scalar .int))).1

end Nesting

namespace VM

/-- Two words and two frames do for a nested call, so it gives the same number with the default limits. -/
theorem call_of_more_room_nested :
    ((create Nesting.tight .silent).call Adapters.none.table.link Nesting.five [] (some (.scalar .int))).1 =
        .ok (5 : Int32) ∧
      ((create Nesting.ample .silent).call Adapters.none.table.link Nesting.five [] (some (.scalar .int))).1 =
        .ok (5 : Int32) := by
  have succeeds : (callWithin Adapters.none.table.link 7 (create Nesting.tight .silent) Nesting.five []
      (some (.scalar .int))).1.isOk := by decide +kernel
  have number : Nesting.evaluated = .ok 5 := by decide +kernel
  have called : ((create Nesting.tight .silent).call Adapters.none.table.link Nesting.five []
      (some (.scalar .int))).1 = .ok (5 : Int32) := by
    rw [call_of_callWithin succeeds]
    exact number
  have deeper : Nesting.tight.stackDepth ≤ Nesting.ample.stackDepth := by decide
  have higher : Nesting.tight.maxFrames ≤ Nesting.ample.maxFrames := by decide
  have again := call_of_more_room Adapters.none.blind deeper higher .silent .silent Nesting.five [] _ _ called
    nofun nofun nofun
  exact ⟨called, again⟩

end VM

end WordMachine
