import Mathlib.Logic.Function.Defs
import WordMachine.Program.Instruction

namespace WordMachine

/-- In a list that is in the order of its tags, the entry at a tag has this tag. -/
theorem tag_of_getElem? {α : Type} {all : List α} {tag : α → UInt8}
    (numbered : all.map (fun entry => (tag entry).toNat) = List.range all.length) {byte : UInt8} {entry : α}
    (found : all[byte.toNat]? = some entry) : tag entry = byte := by
  have inside : byte.toNat < all.length := (List.getElem?_eq_some_iff.mp found).1
  have counted := congrArg (fun numbers => numbers[byte.toNat]?) numbered
  rw [List.getElem?_map, found, List.getElem?_range inside] at counted
  exact UInt8.toNat_inj.mp (Option.some.inj counted)

namespace Opcode

theorem ofTag?_eq_some_iff {tag : UInt8} {op : Opcode} : ofTag? tag = some op ↔ op.tag = tag := by
  constructor
  · intro found
    exact tag_of_getElem? (by decide) found
  · rintro rfl
    cases op <;> rfl

theorem ofTag?_eq_none_iff {tag : UInt8} : ofTag? tag = none ↔ 8 ≤ tag :=
  List.getElem?_eq_none_iff

/-- Whether the last two bytes of the instruction are a position. -/
def hasPosition : Opcode → Bool
  | constant => true
  | call => true
  | externalCall => true
  | add => false
  | ret => false
  | pop => false
  | setLocal => false
  | getLocal => false

/-- Whether the third byte of the instruction is the offset of a local. -/
def hasLocal : Opcode → Bool
  | setLocal => true
  | getLocal => true
  | constant => false
  | add => false
  | ret => false
  | call => false
  | pop => false
  | externalCall => false

/-- Whether an instruction has a use for its byte at an index. -/
def uses (op : Opcode) : Fin 4 → Bool
  | 0 => true
  | 1 => op.hasTypeOperand
  | 2 => op.hasPosition || op.hasLocal
  | 3 => op.hasPosition

end Opcode

namespace Ty

theorem ofTag?_eq_some_iff {tag : UInt8} {ty : Ty} : ofTag? tag = some ty ↔ ty.tag = tag := by
  constructor
  · intro found
    exact tag_of_getElem? (by decide) found
  · rintro rfl
    cases ty with
    | object => rfl
    | scalar kind => cases kind <;> rfl

theorem ofTag?_eq_none_iff {tag : UInt8} : ofTag? tag = none ↔ 14 ≤ tag :=
  List.getElem?_eq_none_iff

end Ty

namespace RawInstruction

def byte (raw : RawInstruction) : Fin 4 → UInt8
  | 0 => raw.tag
  | 1 => raw.first
  | 2 => raw.second
  | 3 => raw.third

theorem eq_of_bytes {raw other : RawInstruction} (same : ∀ index, raw.byte index = other.byte index) : raw = other := by
  obtain ⟨tag, first, second, third⟩ := raw
  have tags : tag = other.tag := same 0
  have firsts : first = other.first := same 1
  have seconds : second = other.second := same 2
  have thirds : third = other.third := same 3
  rw [tags, firsts, seconds, thirds]

end RawInstruction

namespace Instruction

theorem toNat_positionOperand (raw : RawInstruction) :
    (positionOperand raw).toNat = raw.second.toNat + 2 ^ 8 * raw.third.toNat := by
  have low := raw.second.toNat_lt
  have high := raw.third.toNat_lt
  have shifted : raw.third.toNat <<< 8 = 2 ^ 8 * raw.third.toNat := by
    rw [Nat.shiftLeft_eq, Nat.mul_comm]
  have joined : raw.second.toNat ||| raw.third.toNat <<< 8 = raw.third.toNat <<< 8 + raw.second.toNat := by
    rw [Nat.or_comm]
    exact (Nat.shiftLeft_add_eq_or_of_lt low raw.third.toNat).symm
  have small : raw.third.toNat <<< 8 % 2 ^ 16 = raw.third.toNat <<< 8 := by
    rw [shifted]
    exact Nat.mod_eq_of_lt (by omega)
  unfold positionOperand
  rw [UInt16.toNat_or, UInt16.toNat_shiftLeft, UInt8.toNat_toUInt16, UInt8.toNat_toUInt16]
  change raw.second.toNat ||| raw.third.toNat <<< 8 % 2 ^ 16 = _
  rw [small, joined, shifted]
  omega

theorem toNat_upper (position : Position) : (position >>> 8).toNat = position.toNat / 2 ^ 8 := by
  rw [UInt16.toNat_shiftRight]
  exact Nat.shiftRight_eq_div_pow ..

/-- A position is read back from its two bytes. -/
theorem positionOperand_of_bytes {raw : RawInstruction} {position : Position} (low : raw.second = position.toUInt8)
    (high : raw.third = (position >>> 8).toUInt8) : positionOperand raw = position := by
  have bound := position.toNat_lt
  refine UInt16.toNat_inj.mp ?_
  rw [toNat_positionOperand, low, high, UInt16.toNat_toUInt8, UInt16.toNat_toUInt8, toNat_upper]
  omega

theorem low_positionOperand (raw : RawInstruction) : (positionOperand raw).toUInt8 = raw.second := by
  have low := raw.second.toNat_lt
  refine UInt8.toNat_inj.mp ?_
  rw [UInt16.toNat_toUInt8, toNat_positionOperand]
  omega

theorem high_positionOperand (raw : RawInstruction) : (positionOperand raw >>> 8).toUInt8 = raw.third := by
  have low := raw.second.toNat_lt
  have high := raw.third.toNat_lt
  refine UInt8.toNat_inj.mp ?_
  rw [UInt16.toNat_toUInt8, toNat_upper, toNat_positionOperand]
  omega

theorem typeOperand_of_tag {raw : RawInstruction} {ty : Ty} (tagged : ty.tag = raw.first) :
    typeOperand raw = .ok ty := by
  unfold typeOperand
  rw [Ty.ofTag?_eq_some_iff.mpr tagged]

theorem typeOperand_of_ge {raw : RawInstruction} (unknown : 14 ≤ raw.first) :
    typeOperand raw = .error (.unknownTypeTag raw.first) := by
  unfold typeOperand
  rw [Ty.ofTag?_eq_none_iff.mpr unknown]

theorem exists_ty_of_lt {raw : RawInstruction} (known : ¬14 ≤ raw.first) : ∃ ty : Ty, ty.tag = raw.first := by
  cases found : Ty.ofTag? raw.first with
  | none => exact (known (Ty.ofTag?_eq_none_iff.mp found)).elim
  | some ty => exact ⟨ty, Ty.ofTag?_eq_some_iff.mp found⟩

theorem exists_opcode_of_lt {raw : RawInstruction} (known : ¬8 ≤ raw.tag) : ∃ op : Opcode, op.tag = raw.tag := by
  cases found : Opcode.ofTag? raw.tag with
  | none => exact (known (Opcode.ofTag?_eq_none_iff.mp found)).elim
  | some op => exact ⟨op, Opcode.ofTag?_eq_some_iff.mp found⟩

/-- The instruction that an opcode makes of a type and of the last two bytes, as far as it has a use for them. -/
def ofOperands (op : Opcode) (raw : RawInstruction) (ty : Ty) : Instruction :=
  match op with
  | .constant => constant ty (positionOperand raw)
  | .add => add ty
  | .ret => ret
  | .call => call (positionOperand raw)
  | .pop => pop ty
  | .setLocal => setLocal ty raw.second
  | .getLocal => getLocal ty raw.second
  | .externalCall => externalCall (positionOperand raw)

theorem opcode_ofOperands (op : Opcode) (raw : RawInstruction) (ty : Ty) : (ofOperands op raw ty).opcode = op := by
  cases op <;> rfl

theorem decode_eq {raw : RawInstruction} {op : Opcode} (tagged : op.tag = raw.tag) :
    decode raw =
      if op.hasTypeOperand then (typeOperand raw).map (ofOperands op raw) else .ok (ofOperands op raw default) := by
  unfold decode
  rw [Opcode.ofTag?_eq_some_iff.mpr tagged]
  cases op <;> rfl

theorem decode_of_ge {raw : RawInstruction} (unknown : 8 ≤ raw.tag) :
    decode raw = .error (.unknownOpcode raw.tag) := by
  unfold decode
  rw [Opcode.ofTag?_eq_none_iff.mpr unknown]

theorem decode_of_unknown_type {raw : RawInstruction} {op : Opcode} (tagged : op.tag = raw.tag)
    (takesType : op.hasTypeOperand = true) (unknown : 14 ≤ raw.first) :
    decode raw = .error (.unknownTypeTag raw.first) := by
  rw [decode_eq tagged, if_pos takesType, typeOperand_of_ge unknown]
  rfl

/-- Bytes with a known opcode and, where it takes one, a known type are an instruction. -/
theorem decode_of_known {raw : RawInstruction} {op : Opcode} (tagged : op.tag = raw.tag)
    (known : op.hasTypeOperand = true → ¬14 ≤ raw.first) :
    ∃ ty : Ty, (op.hasTypeOperand = true → ty.tag = raw.first) ∧ decode raw = .ok (ofOperands op raw ty) := by
  rw [decode_eq tagged]
  split
  · rename_i takesType
    obtain ⟨ty, typed⟩ := exists_ty_of_lt (known takesType)
    refine ⟨ty, fun _ => typed, ?_⟩
    rw [typeOperand_of_tag typed]
    rfl
  · rename_i takesNone
    exact ⟨default, fun takesType => (takesNone takesType).elim, rfl⟩

theorem decode_encode (instruction : Instruction) : decode instruction.encode = .ok instruction := by
  have tagged : instruction.opcode.tag = instruction.encode.tag := by cases instruction <;> rfl
  rw [decode_eq tagged]
  cases instruction with
  | constant ty position =>
    rw [typeOperand_of_tag rfl]
    have read := @positionOperand_of_bytes (constant ty position).encode position rfl rfl
    exact congrArg (fun found => Except.ok (constant ty found)) read
  | call position =>
    have read := @positionOperand_of_bytes (call position).encode position rfl rfl
    exact congrArg (fun found => Except.ok (call found)) read
  | externalCall position =>
    have read := @positionOperand_of_bytes (externalCall position).encode position rfl rfl
    exact congrArg (fun found => Except.ok (externalCall found)) read
  | add ty =>
    rw [typeOperand_of_tag rfl]
    rfl
  | pop ty =>
    rw [typeOperand_of_tag rfl]
    rfl
  | setLocal ty offset =>
    rw [typeOperand_of_tag rfl]
    rfl
  | getLocal ty offset =>
    rw [typeOperand_of_tag rfl]
    rfl
  | ret => rfl

theorem encode_injective : Function.Injective encode := by
  intro instruction other same
  have decoded := decode_encode instruction
  rw [same, decode_encode] at decoded
  exact (Except.ok.inj decoded).symm

/-- Encoding keeps the bytes that an opcode uses and clears the others. -/
theorem byte_encode_ofOperands {raw : RawInstruction} {op : Opcode} {ty : Ty} (tagged : op.tag = raw.tag)
    (typed : op.hasTypeOperand = true → ty.tag = raw.first) (index : Fin 4) :
    (ofOperands op raw ty).encode.byte index = if op.uses index then raw.byte index else 0 := by
  have low := low_positionOperand raw
  have high := high_positionOperand raw
  match index with
  | 0 => cases op <;> exact tagged
  | 1 =>
    cases op with
    | constant | add | pop | setLocal | getLocal => exact typed rfl
    | ret | call | externalCall => rfl
  | 2 =>
    cases op with
    | constant | call | externalCall => exact low
    | add | ret | pop | setLocal | getLocal => rfl
  | 3 =>
    cases op with
    | constant | call | externalCall => exact high
    | add | ret | pop | setLocal | getLocal => rfl

/-- Bytes come back from decoding and encoding exactly if those without a use are zero. -/
theorem encode_eq_iff {raw : RawInstruction} {op : Opcode} {instruction : Instruction}
    (kept : ∀ index, instruction.encode.byte index = if op.uses index then raw.byte index else 0) :
    instruction.encode = raw ↔ ∀ index, op.uses index = false → raw.byte index = 0 := by
  constructor
  · intro same index useless
    have cleared := kept index
    rw [useless, same] at cleared
    exact cleared
  · intro cleared
    refine RawInstruction.eq_of_bytes fun index => ?_
    rw [kept index]
    cases useful : op.uses index with
    | true => rfl
    | false => exact (cleared index useful).symm

/-- Every instruction is read back from its bytes, so that no two have the same. Four bytes are refused exactly if
there is no opcode with their tag or if it takes a type and there is none with the tag that follows. Otherwise they are
an instruction with this opcode, whose own bytes are the same where the opcode has a use for them and zero elsewhere. -/
theorem decode_exact :
    (∀ instruction : Instruction, decode instruction.encode = .ok instruction) ∧ Function.Injective encode ∧
    ∀ raw : RawInstruction, (decode raw = .error (.unknownOpcode raw.tag) ↔ 8 ≤ raw.tag) ∧
      (¬8 ≤ raw.tag ↔ ∃ op : Opcode, op.tag = raw.tag) ∧
      ∀ op : Opcode, op.tag = raw.tag →
        (decode raw = .error (.unknownTypeTag raw.first) ↔ op.hasTypeOperand = true ∧ 14 ≤ raw.first) ∧
        ((∃ instruction, decode raw = .ok instruction) ↔ ¬(op.hasTypeOperand = true ∧ 14 ≤ raw.first)) ∧
        ∀ instruction, decode raw = .ok instruction → instruction.opcode = op ∧
          (∀ index, instruction.encode.byte index = if op.uses index then raw.byte index else 0) ∧
          (instruction.encode = raw ↔ ∀ index, op.uses index = false → raw.byte index = 0) := by
  refine ⟨decode_encode, encode_injective, fun raw => ⟨⟨?_, decode_of_ge⟩, ?_, ?_⟩⟩
  · intro refused
    refine Decidable.byContradiction fun known => ?_
    obtain ⟨op, tagged⟩ := exists_opcode_of_lt known
    by_cases bad : op.hasTypeOperand = true ∧ 14 ≤ raw.first
    · rw [decode_of_unknown_type tagged bad.1 bad.2] at refused
      cases refused
    · obtain ⟨ty, _, decoded⟩ := decode_of_known tagged fun takesType unknown => bad ⟨takesType, unknown⟩
      rw [decoded] at refused
      cases refused
  · constructor
    · exact exists_opcode_of_lt
    · rintro ⟨op, tagged⟩ unknown
      rw [← tagged] at unknown
      cases op <;> revert unknown <;> decide
  · intro op tagged
    by_cases bad : op.hasTypeOperand = true ∧ 14 ≤ raw.first
    · have refused := decode_of_unknown_type tagged bad.1 bad.2
      rw [refused]
      exact ⟨iff_of_true rfl bad, iff_of_false nofun (fun good => good bad), nofun⟩
    · obtain ⟨ty, typed, decoded⟩ := decode_of_known tagged fun takesType unknown => bad ⟨takesType, unknown⟩
      have kept := byte_encode_ofOperands tagged typed
      rw [decoded]
      refine ⟨iff_of_false nofun bad, iff_of_true ⟨_, rfl⟩ bad, ?_⟩
      rintro _ ⟨⟩
      exact ⟨opcode_ofOperands op raw ty, kept, encode_eq_iff kept⟩

end Instruction

end WordMachine
