import WordMachine.Program.Assembler
import WordMachine.Proofs.Codec
import WordMachine.Proofs.Constants
import WordMachine.Proofs.SourceLines
import Mathlib.Data.List.Induction

namespace WordMachine

/-- What can be asked of an assembler. -/
inductive AssemblerRequest (ω : Type) where
  | line (line : Nat)
  | write (content : Argument ω)
  | emit (instruction : Instruction)
  | constant (content : Argument ω)
  | add (ty : Ty)
  | pop (ty : Ty)
  | getLocal (ty : Ty) (offset : UInt8)
  | setLocal (ty : Ty) (offset : UInt8)
  | call (routine : ω)
  | externalCall (target : ω)
  | ret

/-- What the assembler says to a request. -/
inductive AssemblerReply where
  | lineSet
  | placed (position : Position)
  | emitted (index : Nat)
  | refused (error : ProgramError)

/-- The index that is returned for an instruction. -/
def AssemblerReply.index? : AssemblerReply → Option Nat
  | .emitted index => some index
  | _ => none

namespace AssemblerRequest

variable {ω : Type}

/-- The line that a request sets. -/
def line? : AssemblerRequest ω → Option Nat
  | .line current => some current
  | _ => none

/-- The line in effect after some requests: the one that was set last. -/
def lineAfter (requests : List (AssemblerRequest ω)) : Option Nat :=
  (requests.filterMap line?).getLast?

theorem lineAfter_concat (requests : List (AssemblerRequest ω)) (request : AssemblerRequest ω) :
    lineAfter (requests ++ [request]) = request.line?.or (lineAfter requests) := by
  unfold lineAfter
  rw [List.filterMap_append, List.getLast?_append, List.filterMap_cons, List.filterMap_nil]
  cases request.line? <;> rfl

/-- An instruction that refers to the position of a constant. -/
def Refers (holds : Constant ω → Prop) (content : Argument ω) (refer : Position → Instruction)
    (instruction : Instruction) : Prop :=
  ∃ position, instruction = refer position ∧ holds ⟨content, position⟩

/-- An instruction is what a request asks for. What it refers to is told by the constants that the pool holds. -/
def Fulfilled (holds : Constant ω → Prop) (instruction : Instruction) : AssemblerRequest ω → Prop
  | .line _ | .write _ => False
  | .emit requested => instruction = requested
  | .constant content => Refers holds content (.constant content.ty) instruction
  | .add ty => instruction = .add ty
  | .pop ty => instruction = .pop ty
  | .getLocal ty offset => instruction = .getLocal ty offset
  | .setLocal ty offset => instruction = .setLocal ty offset
  | .call routine => Refers holds ⟨.object, some routine⟩ .call instruction
  | .externalCall target => Refers holds ⟨.object, some target⟩ .externalCall instruction
  | .ret => instruction = .ret

theorem Refers.mono {holds keeps : Constant ω → Prop} (kept : ∀ constant, holds constant → keeps constant)
    {content : Argument ω} {refer : Position → Instruction} {instruction : Instruction}
    (refers : Refers holds content refer instruction) : Refers keeps content refer instruction := by
  obtain ⟨position, same, held⟩ := refers
  exact ⟨position, same, kept _ held⟩

theorem Fulfilled.mono {holds keeps : Constant ω → Prop} (kept : ∀ constant, holds constant → keeps constant)
    {instruction : Instruction} {request : AssemblerRequest ω} (fulfilled : request.Fulfilled holds instruction) :
    request.Fulfilled keeps instruction := by
  cases request with
  | constant content => exact Refers.mono kept fulfilled
  | call routine => exact Refers.mono kept fulfilled
  | externalCall target => exact Refers.mono kept fulfilled
  | _ => exact fulfilled

/-- What a request can be told: that the line is set, the position of what it writes, or the index of the instruction
that it emits. Only a line is never refused. -/
def Suits : AssemblerRequest ω → AssemblerReply → Prop
  | .line _, reply => reply = .lineSet
  | .write _, reply => (∃ position, reply = .placed position) ∨ ∃ error, reply = .refused error
  | _, reply => (∃ index, reply = .emitted index) ∨ ∃ error, reply = .refused error

/-- The constant that has to be stored for a request. -/
def content? : AssemblerRequest ω → Option (Argument ω)
  | .write content | .constant content => some content
  | .call routine => some ⟨.object, some routine⟩
  | .externalCall target => some ⟨.object, some target⟩
  | _ => none

/-- Why a request is refused with a line in effect: the constants leave no room for its own, or the line is before that
of an instruction. -/
inductive Unservable (chunk : Chunk ω) (line : Option Nat) (request : AssemblerRequest ω) : ProgramError → Prop
  | full {content : Argument ω} {length : Nat} (wanted : request.content? = some content)
      (crowded : 2 ^ 16 < length + content.ty.size) (within : length ≤ chunk.constants.length) :
      Unservable chunk line request (.constantPoolFull length)
  | back {current previous index : Nat} (inEffect : line = some current) (back : current < previous)
      (inside : index < chunk.code.size) (marked : chunk.lineFor index = some previous) :
      Unservable chunk line request (.lineOutOfOrder current previous)

end AssemblerRequest

theorem Chunk.fetch_of_encode {ω : Type} {chunk : Chunk ω} {index : Nat} {instruction : Instruction}
    (found : chunk.code[index]? = some instruction.encode) : chunk.fetch index = .ok instruction := by
  simp only [Chunk.fetch, instructionAt, found]
  exact instruction.decode_encode

namespace Assembler

variable {ω : Type} {a b c next : Assembler ω}

/-- The reply to a step, and what the step leaves behind whether it fails or not. -/
def answer {α : Type} (reply : α → AssemblerReply) :
    EStateM.Result ProgramError (Assembler ω) α → AssemblerReply × Assembler ω
  | .ok value next => (reply value, next)
  | .error error next => (.refused error, next)

def serve (a : Assembler ω) : AssemblerRequest ω → AssemblerReply × Assembler ω
  | .line line => answer (fun _ => .lineSet) (setLine line a)
  | .write content => answer .placed (write content.ty content.value a)
  | .emit instruction => answer .emitted (emit instruction a)
  | .constant content => answer .emitted (constant content.ty content.value a)
  | .add ty => answer .emitted (add ty a)
  | .pop ty => answer .emitted (pop ty a)
  | .getLocal ty offset => answer .emitted (getLocal ty offset a)
  | .setLocal ty offset => answer .emitted (setLocal ty offset a)
  | .call routine => answer .emitted (call routine a)
  | .externalCall target => answer .emitted (externalCall target a)
  | .ret => answer .emitted (ret a)

/-- The replies to requests that are made one after the other, also after one that is refused, and what is assembled in
the end. -/
def assembled (requests : List (AssemblerRequest ω)) : List AssemblerReply × Assembler ω :=
  requests.foldl (fun (replies, a) request => (replies ++ [(a.serve request).1], (a.serve request).2)) ([], empty)

theorem assembled_concat (requests : List (AssemblerRequest ω)) (request : AssemblerRequest ω) :
    assembled (requests ++ [request]) =
      ((assembled requests).1 ++ [((assembled requests).2.serve request).1],
        ((assembled requests).2.serve request).2) := by
  unfold assembled
  rw [List.foldl_append]
  rfl

/-- The parts of an assembler agree: the constants are laid out, no entry of the line table is behind the last
addition, which was made for an instruction that is there, and there is none as long as no line is set. -/
structure Sound (a : Assembler ω) : Prop where
  laid : ∃ constants, a.chunk.constants.Lays constants
  ordered : a.chunk.lines.Ordered
  reached : ∀ last, a.chunk.lines.lastOffset = some last → last < a.chunk.code.size
  unset : a.line = none → a.chunk.lines.entries = #[]

theorem empty_sound : (empty : Assembler ω).Sound where
  laid := ⟨[], ConstantPool.empty_lays⟩
  ordered := LineTable.empty_ordered
  reached := nofun
  unset := fun _ => rfl

/-- What the one holds is also in the other: its instructions with their lines, and its constants. -/
structure Extends (a b : Assembler ω) : Prop where
  code : ∀ {index : Nat} {raw}, a.chunk.code[index]? = some raw → b.chunk.code[index]? = some raw
  constants : ∀ {constant}, a.chunk.constants.Has constant → b.chunk.constants.Has constant
  length_le : a.chunk.constants.length ≤ b.chunk.constants.length
  lines : ∀ {index}, index < a.chunk.code.size → b.chunk.lineFor index = a.chunk.lineFor index

namespace Extends

theorem refl (a : Assembler ω) : a.Extends a := ⟨id, id, Nat.le_refl _, fun _ => rfl⟩

theorem size_le (grown : a.Extends b) : a.chunk.code.size ≤ b.chunk.code.size := by
  by_cases filled : 0 < a.chunk.code.size
  · have inside : a.chunk.code.size - 1 < a.chunk.code.size := by omega
    have last := grown.code (Array.getElem?_eq_getElem inside)
    have kept := (Array.getElem?_eq_some_iff.mp last).1
    omega
  · omega

theorem trans (first : a.Extends b) (second : b.Extends c) : a.Extends c where
  code found := second.code (first.code found)
  constants has := second.constants (first.constants has)
  length_le := Nat.le_trans first.length_le second.length_le
  lines inside := by
    have larger := first.size_le
    rw [second.lines (by omega), first.lines inside]

/-- What stands in the way of a request stays there. -/
theorem unservable (grown : a.Extends b) {line : Option Nat} {request : AssemblerRequest ω} {error : ProgramError}
    (hindered : request.Unservable a.chunk line error) : request.Unservable b.chunk line error := by
  cases hindered with
  | full wanted crowded within => exact .full wanted crowded (Nat.le_trans within grown.length_le)
  | back inEffect back inside marked =>
    exact .back inEffect back (Nat.lt_of_lt_of_le inside grown.size_le) ((grown.lines inside).trans marked)

end Extends

/-- What every step leaves behind that does not set a line. -/
structure Carried (a next : Assembler ω) : Prop where
  sound : next.Sound
  grown : a.Extends next
  line : next.line = a.line

theorem Carried.refl (sound : a.Sound) : a.Carried a := ⟨sound, Extends.refl a, rfl⟩

theorem Carried.trans (first : a.Carried b) (second : b.Carried c) : a.Carried c where
  sound := second.sound
  grown := first.grown.trans second.grown
  line := second.line.trans first.line

/-- The next instruction has been appended. It comes from the line in effect. -/
structure Emitted (instruction : Instruction) (a next : Assembler ω) : Prop where
  carried : a.Carried next
  size : next.chunk.code.size = a.chunk.code.size + 1
  found : next.chunk.code[a.chunk.code.size]? = some instruction.encode
  marked : next.chunk.lineFor a.chunk.code.size = a.line

/-- An instruction can be appended together with any line table that tells its line and those of the instructions
before it. -/
theorem emitted_of_lines (sound : a.Sound) (instruction : Instruction) {lines : LineTable} (ordered : lines.Ordered)
    (reached : ∀ last, lines.lastOffset = some last → last ≤ a.chunk.code.size)
    (unset : a.line = none → lines.entries = #[])
    (kept : ∀ {index}, index < a.chunk.code.size → lines.lineFor index = a.chunk.lineFor index)
    (marked : lines.lineFor a.chunk.code.size = a.line) :
    Emitted instruction a ⟨⟨a.chunk.code.push instruction.encode, a.chunk.constants, lines⟩, a.line⟩ where
  carried := {
    sound := {
      laid := sound.laid
      ordered := ordered
      reached := by
        intro last known
        have before := reached last known
        rw [Array.size_push]
        omega
      unset := unset }
    grown := {
      code := by
        intro index raw found
        have inside := (Array.getElem?_eq_some_iff.mp found).1
        rw [Array.getElem?_push_lt inside, ← found, Array.getElem?_eq_getElem inside]
      constants := id
      length_le := Nat.le_refl _
      lines := kept }
    line := rfl }
  size := Array.size_push ..
  found := Array.getElem?_push_size
  marked := marked

/-- An instruction is appended unless the line in effect is before that of another; then nothing changes. -/
theorem emit_cases (sound : a.Sound) (instruction : Instruction) :
    (∃ error, emit instruction a = .error error a ∧
      ∀ request : AssemblerRequest ω, request.Unservable a.chunk a.line error) ∨
      ∃ next, emit instruction a = .ok a.chunk.code.size next ∧ Emitted instruction a next := by
  obtain ⟨⟨code, constants, lines⟩, line⟩ := a
  have reached : ∀ last, lines.lastOffset = some last → last ≤ code.size := by
    intro last known
    exact Nat.le_of_lt (sound.reached last known)
  cases line with
  | none =>
    -- without a line the table is still empty
    have entries : lines.entries = #[] := sound.unset rfl
    have unmarked : lines.lineFor code.size = none := by
      unfold LineTable.lineFor
      rw [entries]
      rfl
    exact .inr ⟨_, rfl, emitted_of_lines sound instruction sound.ordered reached sound.unset (fun _ => rfl) unmarked⟩
  | some current =>
    cases added : lines.add code.size current with
    | error error =>
      obtain ⟨start, previous, last, back, rfl⟩ := LineTable.add_eq_error added reached
      obtain ⟨final, known, before⟩ := sound.ordered _ (Array.mem_of_back? last)
      have inside : start < code.size := Nat.lt_of_le_of_lt before (sound.reached final known)
      refine .inl ⟨.lineOutOfOrder current previous, ?_, fun request => ?_⟩
      · simp only [emit, markLine, bind, EStateM.bind, added]
      · exact .back rfl back inside (LineTable.lineFor_of_back? last (Nat.le_refl start))
    | ok longer =>
      have latest : ∀ last, longer.lastOffset = some last → last ≤ code.size := by
        intro last known
        rw [(LineTable.add_eq_ok added).2.1] at known
        exact Nat.le_of_eq (Option.some.inj known).symm
      refine .inr ⟨_, ?_, emitted_of_lines sound instruction (sound.ordered.add added) latest
        (fun unset => nomatch unset) (fun inside => LineTable.lineFor_add_of_lt added inside)
        (sound.ordered.lineFor_add_of_ge added (Nat.le_refl _))⟩
      simp only [emit, markLine, append, bind, EStateM.bind, added]

/-- A constant is stored unless there is no room for it, and then nothing changes. -/
theorem write_cases (sound : a.Sound) (content : Argument ω) :
    (write content.ty content.value a = .error (.constantPoolFull a.chunk.constants.length) a ∧
      2 ^ 16 < a.chunk.constants.length + content.ty.size) ∨
      ∃ position next, write content.ty content.value a = .ok position next ∧ a.Carried next ∧
        next.chunk.code.size = a.chunk.code.size ∧ next.chunk.constants.Has ⟨content, position⟩ := by
  obtain ⟨⟨code, pool, lines⟩, line⟩ := a
  by_cases fits : ConstantPool.nextStart pool.length content.ty.size < 2 ^ 16
  · obtain ⟨position, start, written⟩ := ConstantPool.writeOperand_of_lt content fits
    have aligned : content.ty.size ∣ position.toNat := start ▸ ConstantPool.dvd_nextStart ..
    have after : pool.length ≤ position.toNat := start ▸ ConstantPool.le_nextStart content.ty.size_pos
    obtain ⟨constants, lays⟩ := sound.laid
    have longer := lays.append ⟨content, position⟩ aligned after
    have length_le : pool.length ≤ (pool.append ⟨content, position⟩).length := by
      rw [ConstantPool.length_append]
      exact Nat.le_max_left ..
    refine .inr ⟨position, ⟨⟨code, pool.append ⟨content, position⟩, lines⟩, line⟩, ?_, ⟨?_, ?_, rfl⟩, rfl, ?_⟩
    · simp only [write, written]
    · exact ⟨⟨_, longer⟩, sound.ordered, sound.reached, sound.unset⟩
    · exact ⟨id, fun has => has.append after, length_le, fun _ => rfl⟩
    · exact longer.has _ (List.mem_append_right _ (List.mem_singleton_self _))
  · have refused := ConstantPool.writeOperand_of_ge content (Nat.not_lt.mp fits)
    have least := @ConstantPool.nextStart_lt pool.length content.ty.size content.ty.size_pos
    refine .inl ⟨?_, ?_⟩
    · simp only [write, refused]
    · change 2 ^ 16 < pool.length + content.ty.size
      omega

/-- How a step ends that emits for a request: with the instruction in place, or with the code as it was and for a
reason. -/
def Emits (request : AssemblerRequest ω) (a : Assembler ω) : EStateM.Result ProgramError (Assembler ω) Nat → Prop
  | .ok index next => index = a.chunk.code.size ∧ ∃ instruction, Emitted instruction a next ∧
      request.Fulfilled next.chunk.constants.Has instruction
  | .error error next => a.Carried next ∧ next.chunk.code.size = a.chunk.code.size ∧
      request.Unservable next.chunk a.line error

theorem emits_emit (sound : a.Sound) {request : AssemblerRequest ω} {instruction : Instruction}
    (asked : ∀ holds, request.Fulfilled holds instruction) : Emits request a (emit instruction a) := by
  obtain ⟨error, refused, hindered⟩ | ⟨next, done, emitted⟩ := emit_cases sound instruction
  · rw [refused]
    exact ⟨Carried.refl sound, rfl, hindered request⟩
  · rw [done]
    exact ⟨rfl, instruction, emitted, asked _⟩

/-- A constant that is stored for an instruction stays behind even if the instruction is refused. -/
theorem emits_referring (sound : a.Sound) {request : AssemblerRequest ω} (content : Argument ω)
    (refer : Position → Instruction) (wanted : request.content? = some content)
    (asked : ∀ {holds : Constant ω → Prop} {position}, holds ⟨content, position⟩ →
      request.Fulfilled holds (refer position)) :
    Emits request a ((write content.ty content.value >>= fun position => emit (refer position)) a) := by
  simp only [bind, EStateM.bind]
  obtain ⟨refused, crowded⟩ | ⟨position, stored, written, carried, same, has⟩ := write_cases sound content
  · rw [refused]
    exact ⟨Carried.refl sound, rfl, .full wanted crowded (Nat.le_refl _)⟩
  · rw [written]
    dsimp only
    obtain ⟨error, refused, hindered⟩ | ⟨next, done, emitted⟩ := emit_cases carried.sound (refer position)
    · rw [refused]
      exact ⟨carried, same, carried.line ▸ hindered request⟩
    · rw [done]
      have found := emitted.found
      have marked := emitted.marked
      have size := emitted.size
      rw [same] at found marked size
      rw [carried.line] at marked
      exact ⟨same, refer position, ⟨carried.trans emitted.carried, size, found, marked⟩,
        asked (emitted.carried.grown.constants has)⟩

/-- What the reply to a request says about the assembler that it leaves behind. -/
structure Answered (request : AssemblerRequest ω) (a : Assembler ω) (reply : AssemblerReply) (next : Assembler ω) :
    Prop where
  sound : next.Sound
  grown : a.Extends next
  line : next.line = request.line?.or a.line
  suits : request.Suits reply
  indices : List.range next.chunk.code.size = List.range a.chunk.code.size ++ reply.index?.toList
  placed : ∀ position, reply = .placed position →
    ∃ content, request = .write content ∧ next.chunk.constants.Has ⟨content, position⟩
  emitted : ∀ index, reply = .emitted index → ∃ instruction, next.chunk.code[index]? = some instruction.encode ∧
    request.Fulfilled next.chunk.constants.Has instruction ∧ next.chunk.lineFor index = a.line
  refused : ∀ error, reply = .refused error → request.Unservable next.chunk a.line error

/-- A reply that does not tell an index is given only if the code is as it was. -/
theorem Carried.answered (carried : a.Carried next) (same : next.chunk.code.size = a.chunk.code.size)
    {request : AssemblerRequest ω} (silent : request.line? = none) {reply : AssemblerReply}
    (suits : request.Suits reply) (unindexed : reply.index? = none)
    (placed : ∀ position, reply = .placed position →
      ∃ content, request = .write content ∧ next.chunk.constants.Has ⟨content, position⟩)
    (refused : ∀ error, reply = .refused error → request.Unservable next.chunk a.line error) :
    Answered request a reply next where
  sound := carried.sound
  grown := carried.grown
  line := by rw [carried.line, silent, Option.none_or]
  suits := suits
  indices := by rw [same, unindexed, Option.toList_none, List.append_nil]
  placed := placed
  emitted := by
    rintro index rfl
    cases unindexed
  refused := refused

theorem Emits.answered {request : AssemblerRequest ω} (silent : request.line? = none)
    (told : ∀ reply, (∃ index, reply = .emitted index) ∨ (∃ error, reply = .refused error) → request.Suits reply)
    {result : EStateM.Result ProgramError (Assembler ω) Nat} (emits : Emits request a result) :
    Answered request a (answer .emitted result).1 (answer .emitted result).2 := by
  cases result with
  | error error next =>
    obtain ⟨carried, same, hindered⟩ := emits
    refine carried.answered same silent (told _ (.inr ⟨error, rfl⟩)) rfl (fun _ placed => nomatch placed) ?_
    rintro _ ⟨⟩
    exact hindered
  | ok index next =>
    obtain ⟨rfl, instruction, emitted, fulfilled⟩ := emits
    exact {
      sound := emitted.carried.sound
      grown := emitted.carried.grown
      line := by rw [silent, Option.none_or]; exact emitted.carried.line
      suits := told _ (.inl ⟨_, rfl⟩)
      indices := by
        change List.range next.chunk.code.size = List.range a.chunk.code.size ++ [a.chunk.code.size]
        rw [emitted.size, List.range_succ]
      placed := fun _ placed => nomatch placed
      emitted := by
        rintro index ⟨⟩
        exact ⟨instruction, emitted.found, fulfilled, emitted.marked⟩
      refused := fun _ refused => nomatch refused }

theorem serve_answered (sound : a.Sound) (request : AssemblerRequest ω) :
    Answered request a (a.serve request).1 (a.serve request).2 := by
  cases request with
  | line current =>
    exact {
      sound := ⟨sound.laid, sound.ordered, sound.reached, fun unset => nomatch unset⟩
      grown := ⟨id, id, Nat.le_refl _, fun _ => rfl⟩
      line := rfl
      suits := rfl
      indices := (List.append_nil _).symm
      placed := fun _ placed => nomatch placed
      emitted := fun _ emitted => nomatch emitted
      refused := fun _ refused => nomatch refused }
  | write content =>
    obtain ⟨refused, crowded⟩ | ⟨position, next, written, carried, same, has⟩ := write_cases sound content
    · simp only [serve, refused, answer]
      refine (Carried.refl sound).answered rfl rfl (.inr ⟨_, rfl⟩) rfl (fun _ placed => nomatch placed) ?_
      rintro _ ⟨⟩
      exact .full rfl crowded (Nat.le_refl _)
    · simp only [serve, written, answer]
      refine carried.answered same rfl (.inl ⟨_, rfl⟩) rfl ?_ (fun _ refused => nomatch refused)
      rintro position ⟨⟩
      exact ⟨content, rfl, has⟩
  | emit instruction => exact Emits.answered rfl (fun _ => id) (emits_emit sound fun _ => rfl)
  | add ty => exact Emits.answered rfl (fun _ => id) (emits_emit sound fun _ => rfl)
  | pop ty => exact Emits.answered rfl (fun _ => id) (emits_emit sound fun _ => rfl)
  | getLocal ty offset => exact Emits.answered rfl (fun _ => id) (emits_emit sound fun _ => rfl)
  | setLocal ty offset => exact Emits.answered rfl (fun _ => id) (emits_emit sound fun _ => rfl)
  | ret => exact Emits.answered rfl (fun _ => id) (emits_emit sound fun _ => rfl)
  | constant content =>
    exact Emits.answered rfl (fun _ => id)
      (emits_referring sound content (.constant content.ty) rfl fun held => ⟨_, rfl, held⟩)
  | call routine =>
    exact Emits.answered rfl (fun _ => id)
      (emits_referring sound ⟨.object, some routine⟩ .call rfl fun held => ⟨_, rfl, held⟩)
  | externalCall target =>
    exact Emits.answered rfl (fun _ => id)
      (emits_referring sound ⟨.object, some target⟩ .externalCall rfl fun held => ⟨_, rfl, held⟩)

/-- The replies so far are true of what has been assembled: the constants that were placed are held, and each index
that was returned has the instruction that was asked for, with the line that was in effect then. What was refused could
not be served. -/
structure Faithful (requests : List (AssemblerRequest ω)) (replies : List AssemblerReply) (a : Assembler ω) : Prop where
  sound : a.Sound
  line : a.line = AssemblerRequest.lineAfter requests
  length : replies.length = requests.length
  suits : ∀ {time : Nat} {request reply}, requests[time]? = some request → replies[time]? = some reply →
    request.Suits reply
  indices : replies.filterMap AssemblerReply.index? = List.range a.chunk.code.size
  placed : ∀ {time : Nat} {request position}, requests[time]? = some request →
    replies[time]? = some (.placed position) →
    ∃ content, request = .write content ∧ a.chunk.constants.Has ⟨content, position⟩
  emitted : ∀ {time : Nat} {request index}, requests[time]? = some request →
    replies[time]? = some (.emitted index) → ∃ instruction, a.chunk.code[index]? = some instruction.encode ∧
      request.Fulfilled a.chunk.constants.Has instruction ∧
      a.chunk.lineFor index = AssemblerRequest.lineAfter (requests.take time)
  refused : ∀ {time : Nat} {request error}, requests[time]? = some request → replies[time]? = some (.refused error) →
    request.Unservable a.chunk (AssemblerRequest.lineAfter (requests.take time)) error

theorem empty_faithful : Faithful [] [] (empty : Assembler ω) where
  sound := empty_sound
  line := rfl
  length := rfl
  suits := fun asked => nomatch asked
  indices := rfl
  placed := fun asked => nomatch asked
  emitted := fun asked => nomatch asked
  refused := fun asked => nomatch asked

/-- A request that has a reply is an earlier one, or the last. -/
theorem concat_cases {requests : List (AssemblerRequest ω)} {replies : List AssemblerReply}
    (length : replies.length = requests.length) {request asking : AssemblerRequest ω} {reply replying : AssemblerReply}
    {time : Nat} (asked : (requests ++ [request])[time]? = some asking)
    (replied : (replies ++ [reply])[time]? = some replying) :
    (requests[time]? = some asking ∧ replies[time]? = some replying) ∨
      (time = requests.length ∧ request = asking ∧ reply = replying) := by
  rcases Nat.lt_trichotomy time requests.length with earlier | rfl | later
  · rw [List.getElem?_append_left earlier] at asked
    rw [List.getElem?_append_left (length ▸ earlier)] at replied
    exact .inl ⟨asked, replied⟩
  · rw [List.getElem?_concat_length] at asked
    rw [← length, List.getElem?_concat_length] at replied
    exact .inr ⟨rfl, Option.some.inj asked, Option.some.inj replied⟩
  · have inside := (List.getElem?_eq_some_iff.mp asked).1
    rw [List.length_append, List.length_singleton] at inside
    omega

/-- One more request: what earlier replies say stays true, as everything stays in its place. -/
theorem Faithful.concat {requests : List (AssemblerRequest ω)} {replies : List AssemblerReply}
    (faithful : Faithful requests replies a) {request : AssemblerRequest ω} {reply : AssemblerReply}
    (answered : Answered request a reply next) : Faithful (requests ++ [request]) (replies ++ [reply]) next where
  sound := answered.sound
  line := by rw [answered.line, faithful.line, AssemblerRequest.lineAfter_concat]
  length := by
    rw [List.length_append, List.length_append, faithful.length]
    rfl
  suits := by
    intro time asking replying asked replied
    obtain ⟨asked, replied⟩ | ⟨_, rfl, rfl⟩ := concat_cases faithful.length asked replied
    · exact faithful.suits asked replied
    · exact answered.suits
  indices := by
    rw [List.filterMap_append, faithful.indices, answered.indices, List.filterMap_cons, List.filterMap_nil]
    cases reply.index? <;> rfl
  placed := by
    intro time asking position asked replied
    obtain ⟨asked, replied⟩ | ⟨_, rfl, last⟩ := concat_cases faithful.length asked replied
    · obtain ⟨content, same, has⟩ := faithful.placed asked replied
      exact ⟨content, same, answered.grown.constants has⟩
    · exact answered.placed position last
  emitted := by
    intro time asking index asked replied
    obtain ⟨asked, replied⟩ | ⟨rfl, rfl, last⟩ := concat_cases faithful.length asked replied
    · obtain ⟨instruction, found, fulfilled, marked⟩ := faithful.emitted asked replied
      have inside := (Array.getElem?_eq_some_iff.mp found).1
      have before := (List.getElem?_eq_some_iff.mp asked).1
      refine ⟨instruction, answered.grown.code found, fulfilled.mono fun _ => answered.grown.constants, ?_⟩
      rw [answered.grown.lines inside, marked, List.take_append_of_le_length (by omega)]
    · obtain ⟨instruction, found, fulfilled, marked⟩ := answered.emitted index last
      refine ⟨instruction, found, fulfilled, ?_⟩
      rw [marked, faithful.line, List.take_left]
  refused := by
    intro time asking error asked replied
    obtain ⟨asked, replied⟩ | ⟨rfl, rfl, last⟩ := concat_cases faithful.length asked replied
    · have before := (List.getElem?_eq_some_iff.mp asked).1
      rw [List.take_append_of_le_length (by omega)]
      exact answered.grown.unservable (faithful.refused asked replied)
    · rw [List.take_left, ← faithful.line]
      exact answered.refused error last

theorem assembled_faithful (requests : List (AssemblerRequest ω)) :
    Faithful requests (assembled requests).1 (assembled requests).2 := by
  induction requests using List.reverseRecOn with
  | nil => exact empty_faithful
  | append_singleton requests request ih =>
    rw [assembled_concat]
    exact ih.concat (serve_answered ih.sound request)

/-- Whatever is asked of an assembler, and however much of it is refused, in the end there are as many instructions as
indices were returned, each index once and in order. A request that emits is told an index or that it is refused, one
that only sets a line is never refused, and no other is told that a line is set. Under the index that was returned to a
request the chunk has the instruction that was asked for; a constant that this refers to is read back from its
position; and it comes from the line that was set last before the request, or from none. A request is refused only if
there is no room for its constant or if the line in effect is before that of an instruction. -/
theorem replies_hold (requests : List (AssemblerRequest ω)) :
    let replies := (assembled requests).1
    let chunk := (assembled requests).2.chunk
    let holds := fun constant : Constant ω =>
      chunk.constants.readOperand constant.position constant.content.ty = .ok constant.content.value
    replies.length = requests.length ∧
    replies.filterMap AssemblerReply.index? = List.range chunk.code.size ∧
    ∀ (time : Nat) request, requests[time]? = some request →
      (∃ reply, replies[time]? = some reply ∧ request.Suits reply) ∧
      (∀ position, replies[time]? = some (.placed position) →
        ∃ content, request = .write content ∧ holds ⟨content, position⟩) ∧
      (∀ index, replies[time]? = some (.emitted index) →
        ∃ instruction, chunk.fetch index = .ok instruction ∧ request.Fulfilled holds instruction ∧
          chunk.lineFor index = AssemblerRequest.lineAfter (requests.take time)) ∧
      ∀ error, replies[time]? = some (.refused error) →
        request.Unservable chunk (AssemblerRequest.lineAfter (requests.take time)) error := by
  have faithful := assembled_faithful requests
  refine ⟨faithful.length, faithful.indices, fun time request asked => ⟨?_, ?_, ?_, ?_⟩⟩
  · have inside := (List.getElem?_eq_some_iff.mp asked).1
    rw [← faithful.length] at inside
    exact ⟨_, List.getElem?_eq_getElem inside, faithful.suits asked (List.getElem?_eq_getElem inside)⟩
  · intro position replied
    obtain ⟨content, same, has⟩ := faithful.placed asked replied
    exact ⟨content, same, has.readOperand⟩
  · intro index replied
    obtain ⟨instruction, found, fulfilled, marked⟩ := faithful.emitted asked replied
    exact ⟨instruction, Chunk.fetch_of_encode found, fulfilled.mono fun _ has => has.readOperand, marked⟩
  · exact fun error replied => faithful.refused asked replied

/-- A line that goes back is refused until it is corrected, and the index is not used up. -/
example : (assembled (ω := Empty) [.ret, .line 5, .pop .object, .line 3, .ret, .line 5, .add .object]).1 =
    [.emitted 0, .lineSet, .emitted 1, .lineSet, .refused (.lineOutOfOrder 3 5), .lineSet, .emitted 2] := rfl

end Assembler

end WordMachine
