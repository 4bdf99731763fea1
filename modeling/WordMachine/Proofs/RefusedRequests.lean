import WordMachine.Proofs.Assembly

namespace WordMachine

/-- A line table refuses an addition for its own reasons only. -/
theorem LineTable.not_full_of_add {table : LineTable} {offset line : Nat} {error : ProgramError}
    (refused : table.add offset line = .error error) (length : Nat) : error ≠ .constantPoolFull length := by
  rintro rfl
  obtain ⟨entries, lastOffset⟩ := table
  unfold add at refused
  dsimp only at refused
  split at refused
  · cases refused
  · split at refused
    · cases refused
    · split at refused
      · cases refused
      · split at refused <;> cases refused

/-- A pool either has no room for a value and stays as it is, or is longer with it. -/
theorem ConstantPool.writeOperand_cases {ω : Type} (pool : ConstantPool ω) (content : Argument ω) :
    writeOperand content.ty content.value pool = .error (.constantPoolFull pool.length) pool ∨
      ∃ position next, writeOperand content.ty content.value pool = .ok position next ∧ pool.length < next.length := by
  by_cases fits : nextStart pool.length content.ty.size < 2 ^ 16
  · obtain ⟨position, start, written⟩ := writeOperand_of_lt content fits
    refine .inr ⟨position, _, written, ?_⟩
    have after : pool.length ≤ nextStart pool.length content.ty.size := le_nextStart content.ty.size_pos
    have positive := content.ty.size_pos
    rw [length_append]
    change pool.length < max pool.length (position.toNat + content.ty.size)
    omega
  · exact .inl (writeOperand_of_ge content (Nat.not_lt.mp fits))

namespace Assembler

variable {ω : Type} {a next : Assembler ω} {error : ProgramError}

/-- The assembler with other constants. -/
def withConstants (a : Assembler ω) (constants : ConstantPool ω) : Assembler ω :=
  { a with chunk := { a.chunk with constants := constants } }

/-- The line in effect is refused for the next instruction. -/
def LineRefused (a : Assembler ω) (error : ProgramError) : Prop :=
  ∃ line, a.line = some line ∧ a.chunk.lines.add a.chunk.code.size line = .error error

theorem LineRefused.not_full (back : a.LineRefused error) (length : Nat) : error ≠ .constantPoolFull length := by
  obtain ⟨line, _, refused⟩ := back
  exact LineTable.not_full_of_add refused length

/-- How a request is refused that has a constant to store, or none. If there is no room for the constant, nothing
changes. If the line is refused, the constant has been stored already. -/
inductive Refuses (a : Assembler ω) : Option (Argument ω) → ProgramError → Assembler ω → Prop
  | full (content : Argument ω) : Refuses a (some content) (.constantPoolFull a.chunk.constants.length) a
  | bare {error : ProgramError} (back : a.LineRefused error) : Refuses a none error a
  | stored {error : ProgramError} {content : Argument ω} {position : Position} {constants : ConstantPool ω}
      (back : a.LineRefused error)
      (written : ConstantPool.writeOperand content.ty content.value a.chunk.constants = .ok position constants)
      (longer : a.chunk.constants.length < constants.length) :
      Refuses a (some content) error (a.withConstants constants)

/-- An instruction that is refused leaves everything as it was. -/
theorem emit_eq_error {instruction : Instruction} (refused : emit instruction a = .error error next) :
    next = a ∧ a.LineRefused error := by
  obtain ⟨⟨code, constants, lines⟩, line⟩ := a
  cases line with
  | none => cases refused
  | some current =>
    cases added : lines.add code.size current with
    | ok longer => simp only [emit, markLine, append, bind, EStateM.bind, added, reduceCtorEq] at refused
    | error reason =>
      simp only [emit, markLine, bind, EStateM.bind, added] at refused
      cases refused
      exact ⟨rfl, current, rfl, added⟩

theorem refuses_emit {instruction : Instruction} (refused : emit instruction a = .error error next) :
    a.Refuses none error next := by
  obtain ⟨rfl, back⟩ := emit_eq_error refused
  exact .bare back

theorem write_eq (a : Assembler ω) (content : Argument ω) :
    write content.ty content.value a =
      match ConstantPool.writeOperand content.ty content.value a.chunk.constants with
      | .error error constants => .error error (a.withConstants constants)
      | .ok position constants => .ok position (a.withConstants constants) := rfl

theorem refuses_write {content : Argument ω} (refused : write content.ty content.value a = .error error next) :
    a.Refuses (some content) error next := by
  rw [write_eq] at refused
  obtain full | ⟨position, constants, written, _⟩ := a.chunk.constants.writeOperand_cases content
  · rw [full] at refused
    cases refused
    exact .full content
  · rw [written] at refused
    cases refused

/-- The constant is stored before the line is looked at. -/
theorem refuses_referring (content : Argument ω) {refer : Position → Instruction}
    (refused : (write content.ty content.value >>= fun position => emit (refer position)) a = .error error next) :
    a.Refuses (some content) error next := by
  simp only [bind, EStateM.bind] at refused
  split at refused
  · rename_i position stored written
    obtain ⟨rfl, back⟩ := emit_eq_error refused
    rw [write_eq] at written
    obtain full | ⟨position, constants, fitted, longer⟩ := a.chunk.constants.writeOperand_cases content
    · rw [full] at written
      cases written
    · rw [fitted] at written
      cases written
      exact .stored back fitted longer
  · rename_i reason left failed
    cases refused
    exact refuses_write failed

/-- Only a step that fails is answered by a refusal. -/
theorem error_of_answer {α : Type} {reply : α → AssemblerReply} {result : EStateM.Result ProgramError (Assembler ω) α}
    (refused : answer reply result = (.refused error, next)) (accepting : ∀ value, reply value ≠ .refused error) :
    result = .error error next := by
  cases result with
  | ok value left => exact absurd (congrArg Prod.fst refused) (accepting value)
  | error reason left =>
    cases refused
    rfl

theorem error_of_emitted {result : EStateM.Result ProgramError (Assembler ω) Nat}
    (refused : answer .emitted result = (.refused error, next)) : result = .error error next :=
  error_of_answer refused fun _ same => nomatch same

theorem refuses_of_serve {request : AssemblerRequest ω} (refused : a.serve request = (.refused error, next)) :
    a.Refuses request.content? error next := by
  cases request with
  | line current => cases refused
  | write content => exact refuses_write (error_of_answer refused fun _ same => nomatch same)
  | emit instruction => exact refuses_emit (error_of_emitted refused)
  | add ty => exact refuses_emit (error_of_emitted refused)
  | pop ty => exact refuses_emit (error_of_emitted refused)
  | getLocal ty offset => exact refuses_emit (error_of_emitted refused)
  | setLocal ty offset => exact refuses_emit (error_of_emitted refused)
  | ret => exact refuses_emit (error_of_emitted refused)
  | constant content => exact refuses_referring content (error_of_emitted refused)
  | call routine => exact refuses_referring ⟨.object, some routine⟩ (error_of_emitted refused)
  | externalCall target => exact refuses_referring ⟨.object, some target⟩ (error_of_emitted refused)

/-- A request that is refused leaves the code, the line table and the line in effect as they were. The constants are as
they were exactly if the request has none to store or had no room for it; otherwise the refused request has stored its
constant, to which nothing refers. -/
theorem refused_keeps_all_but_constant {request : AssemblerRequest ω}
    (refused : a.serve request = (.refused error, next)) :
    next.chunk.code = a.chunk.code ∧ next.chunk.lines = a.chunk.lines ∧ next.line = a.line ∧
    (next.chunk = a.chunk ↔ request.content? = none ∨ error = .constantPoolFull a.chunk.constants.length) ∧
    (next.chunk ≠ a.chunk → a.LineRefused error ∧ ∃ content position, request.content? = some content ∧
      ConstantPool.writeOperand content.ty content.value a.chunk.constants = .ok position next.chunk.constants) := by
  have refuses := refuses_of_serve refused
  generalize request.content? = wanted at refuses
  cases refuses with
  | full content => exact ⟨rfl, rfl, rfl, ⟨fun _ => .inr rfl, fun _ => rfl⟩, fun changed => absurd rfl changed⟩
  | bare back => exact ⟨rfl, rfl, rfl, ⟨fun _ => .inl rfl, fun _ => rfl⟩, fun changed => absurd rfl changed⟩
  | @stored _ content position constants back written longer =>
    have changed : (a.withConstants constants).chunk ≠ a.chunk := by
      intro same
      have length : constants.length = a.chunk.constants.length := congrArg (fun chunk => chunk.constants.length) same
      omega
    refine ⟨rfl, rfl, rfl, ⟨fun same => absurd same changed, ?_⟩, fun _ => ⟨back, content, position, rfl, written⟩⟩
    rintro (bare | full)
    · cases bare
    · exact absurd full (back.not_full _)

end Assembler

namespace Remnant

/-- An assembler with one instruction, whose line has been set back since. -/
def setBack : Assembler Empty := (Assembler.assembled [.line 5, .ret, .line 4]).2

def seven : Argument Empty := ⟨.scalar .int, (7 : Int32)⟩

end Remnant

/-- The constant that a refused request leaves behind is part of the chunk. -/
theorem Assembler.refused_constant_remains :
    (Remnant.setBack.serve (.constant Remnant.seven)).1 = .refused (.lineOutOfOrder 4 5) ∧
      (Remnant.setBack.serve (.constant Remnant.seven)).2.chunk ≠ Remnant.setBack.chunk := by
  refine ⟨rfl, fun same => ?_⟩
  have length : (4 : Nat) = 0 := congrArg (fun chunk => chunk.constants.length) same
  omega

theorem Assembler.refused_keeps_all_but_constant_of_setBack :
    ∃ next, Remnant.setBack.serve (.constant Remnant.seven) = (.refused (.lineOutOfOrder 4 5), next) ∧
      next.chunk.code = Remnant.setBack.chunk.code ∧ next.chunk.lines = Remnant.setBack.chunk.lines ∧
      next.chunk ≠ Remnant.setBack.chunk := by
  have refused : Remnant.setBack.serve (.constant Remnant.seven) =
      (.refused (.lineOutOfOrder 4 5), (Remnant.setBack.serve (.constant Remnant.seven)).2) := rfl
  obtain ⟨code, lines, _, unchanged, _⟩ := refused_keeps_all_but_constant refused
  refine ⟨_, refused, code, lines, fun same => ?_⟩
  obtain wanted | full := unchanged.mp same
  · cases wanted
  · cases full

end WordMachine
