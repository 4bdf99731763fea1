import WordMachine.Program.ConstantPool
import WordMachine.Proofs.Memory

namespace WordMachine

/-- The object that a value refers to. -/
def Argument.object? {ω : Type} : Argument ω → Option ω
  | ⟨.scalar _, _⟩ => none
  | ⟨.object, object⟩ => object

theorem Argument.ty_of_object? {ω : Type} {argument : Argument ω} {object : ω}
    (refers : argument.object? = some object) : argument.ty = .object := by
  obtain ⟨ty, value⟩ := argument
  cases ty with
  | scalar kind => cases refers
  | object => rfl

/-- A value and the position that it was given in a pool. -/
structure Constant (ω : Type) where
  content : Argument ω
  position : Position

/-- The first byte after a constant. -/
def Constant.finish {ω : Type} (constant : Constant ω) : Nat :=
  constant.position.toNat + constant.content.ty.size

/-- The sizes divide the number of positions, so no value reaches over the last one. -/
theorem Ty.size_dvd (ty : Ty) : ty.size ∣ 2 ^ 16 := by
  cases ty with
  | object => decide
  | scalar kind => cases kind <;> decide

theorem Ty.size_pos (ty : Ty) : 0 < ty.size :=
  Nat.pos_of_dvd_of_pos ty.size_dvd (by decide)

namespace ConstantPool

variable {ω : Type}

/-- Writes values one after the other, also those that come after one without a place, and keeps what was returned for
each. -/
def writeAll : List (Argument ω) → ConstantPool ω → List (Argument ω × Except ProgramError Position) × ConstantPool ω
  | [], pool => ([], pool)
  | argument :: rest, pool =>
    match writeOperand argument.ty argument.value pool with
    | .ok position next => ((argument, .ok position) :: (writeAll rest next).1, (writeAll rest next).2)
    | .error error next => ((argument, .error error) :: (writeAll rest next).1, (writeAll rest next).2)

/-- The pool that the values leave behind when they are written to an empty one. -/
def filled (values : List (Argument ω)) : ConstantPool ω :=
  (writeAll values empty).2

/-- The constant that an attempt to write a value has made. -/
def made? : Argument ω × Except ProgramError Position → Option (Constant ω)
  | (argument, .ok position) => some ⟨argument, position⟩
  | (_, .error _) => none

/-- The values that were given a place, in the order in which they were written. -/
def placed (values : List (Argument ω)) : List (Constant ω) :=
  (writeAll values empty).1.filterMap made?

section Start

variable {length size : Nat}

theorem dvd_nextStart (length size : Nat) : size ∣ nextStart length size :=
  Nat.dvd_mul_left size _

theorem le_nextStart (positive : 0 < size) : length ≤ nextStart length size := by
  have split := Nat.div_add_mod (length + (size - 1)) size
  have rest := Nat.mod_lt (length + (size - 1)) positive
  rw [Nat.mul_comm] at split
  unfold nextStart
  omega

theorem nextStart_lt (positive : 0 < size) : nextStart length size < length + size := by
  have below := Nat.div_mul_le_self (length + (size - 1)) size
  unfold nextStart
  omega

theorem reserve_of_lt (fits : nextStart length size < 2 ^ 16) :
    ∃ position : Position, reserve length size = .ok position ∧ position.toNat = nextStart length size := by
  refine ⟨UInt16.ofNat (nextStart length size), if_pos fits, ?_⟩
  rw [UInt16.toNat_ofNat']
  exact Nat.mod_eq_of_lt fits

theorem reserve_of_ge (full : 2 ^ 16 ≤ nextStart length size) :
    reserve length size = .error (.constantPoolFull length) :=
  if_neg (Nat.not_lt.mpr full)

end Start

/-- The number that is stored for a value in a pool with so many objects. -/
def number (objects : Nat) : Argument ω → Nat
  | ⟨.scalar kind, value⟩ => kind.bits value
  | ⟨.object, none⟩ => 0
  | ⟨.object, some _⟩ => objects + 1

/-- The pool with one more constant. -/
def append (pool : ConstantPool ω) (constant : Constant ω) : ConstantPool ω where
  bytes := extend pool.bytes constant.position (number pool.objects.size constant.content) constant.content.ty.size
  objects := pool.objects ++ constant.content.object?.toArray
  handlePositions := pool.handlePositions ++ (constant.content.object?.map fun _ => constant.position).toArray

theorem writeOperand_eq (pool : ConstantPool ω) (argument : Argument ω) :
    writeOperand argument.ty argument.value pool =
      match reserve pool.length argument.ty.size with
      | .error error => .error error pool
      | .ok position => .ok position (pool.append ⟨argument, position⟩) := by
  obtain ⟨bytes, objects, handlePositions⟩ := pool
  obtain ⟨ty, value⟩ := argument
  cases ty with
  | scalar kind =>
    simp only [writeOperand, write, length, Ty.size]
    cases reserve bytes.size kind.size with
    | error error => rfl
    | ok position => simp [append, number, Argument.object?, Ty.size]
  | object =>
    simp only [writeOperand, writeObject, length, Ty.size]
    cases reserve bytes.size handleSize with
    | error error => rfl
    | ok position =>
      cases value with
      | none => simp [append, number, Argument.object?, Ty.size]
      | some object => simp [append, number, Argument.object?, Ty.size]

/-- A write whose start two bytes can hold appends a constant there. -/
theorem writeOperand_of_lt {pool : ConstantPool ω} (argument : Argument ω)
    (fits : nextStart pool.length argument.ty.size < 2 ^ 16) :
    ∃ position : Position, position.toNat = nextStart pool.length argument.ty.size ∧
      writeOperand argument.ty argument.value pool = .ok position (pool.append ⟨argument, position⟩) := by
  obtain ⟨position, reserved, start⟩ := reserve_of_lt fits
  refine ⟨position, start, ?_⟩
  rw [writeOperand_eq, reserved]

/-- Any other write fails and changes nothing. -/
theorem writeOperand_of_ge {pool : ConstantPool ω} (argument : Argument ω)
    (full : 2 ^ 16 ≤ nextStart pool.length argument.ty.size) :
    writeOperand argument.ty argument.value pool = .error (.constantPoolFull pool.length) pool := by
  rw [writeOperand_eq, reserve_of_ge full]

section Append

variable {pool : ConstantPool ω} {constant : Constant ω}

theorem size_extended (pool : ConstantPool ω) (constant : Constant ω) :
    (pool.bytes ++ Bytes.zeros (constant.finish - pool.bytes.size)).size = max pool.length constant.finish := by
  rw [Array.size_append, Bytes.zeros, Array.size_replicate]
  unfold length
  omega

theorem length_append (pool : ConstantPool ω) (constant : Constant ω) :
    (pool.append constant).length = max pool.length constant.finish := by
  rw [← size_extended]
  exact Bytes.size_store ..

/-- The bytes that were there stay as they are. -/
theorem getD_append (after : pool.length ≤ constant.position.toNat) {i : Nat} (inside : i < pool.length) :
    (pool.append constant).bytes.getD i 0 = pool.bytes.getD i 0 := by
  simp only [append, extend]
  rw [Bytes.getD_store_of_lt (by omega), Array.getD_eq_getD_getElem?, Array.getD_eq_getD_getElem?,
    Array.getElem?_append_left inside]

theorem load_append_self :
    (pool.append constant).bytes.load constant.position.toNat constant.content.ty.size =
      number pool.objects.size constant.content % 256 ^ constant.content.ty.size := by
  refine Bytes.load_store ?_
  have size := size_extended pool constant
  unfold Constant.finish at size
  omega

/-- An object keeps its number. -/
theorem object_append {index : Nat} {object : ω} (found : pool.objects[index]? = some object) :
    (pool.append constant).objects[index]? = some object := by
  have inside := (Array.getElem?_eq_some_iff.mp found).1
  simp only [append]
  rw [Array.getElem?_append_left inside, found]

end Append

/-- An aligned value that lies inside the pool passes the check of its position. -/
theorem check_of_le {pool : ConstantPool ω} {position : Position} {size : Nat} (aligned : size ∣ position.toNat)
    (inside : position.toNat + size ≤ pool.length) : pool.check position size = .ok position.toNat := by
  unfold check
  rw [if_neg (by rw [Nat.mod_eq_zero_of_dvd aligned]; simp), if_neg (Nat.not_lt.mpr inside)]

/-- A constant can be read from a pool that has its number at its place, and its object under this number. -/
structure Has (pool : ConstantPool ω) (constant : Constant ω) : Prop where
  aligned : constant.content.ty.size ∣ constant.position.toNat
  inside : constant.finish ≤ pool.length
  stored : ∃ index, pool.bytes.load constant.position.toNat constant.content.ty.size = number index constant.content ∧
    ∀ object, constant.content.object? = some object → pool.objects[index]? = some object

namespace Has

variable {pool : ConstantPool ω} {constant : Constant ω}

theorem readOperand (has : pool.Has constant) :
    pool.readOperand constant.position constant.content.ty = .ok constant.content.value := by
  have checked := check_of_le has.aligned has.inside
  obtain ⟨index, loaded, known⟩ := has.stored
  obtain ⟨⟨ty, value⟩, position⟩ := constant
  cases ty with
  | scalar kind =>
    simp only [ConstantPool.readOperand, read, Ty.size, number] at checked loaded ⊢
    rw [checked]
    dsimp only
    rw [loaded]
    exact congrArg Except.ok (Scalar.ofBits_bits kind value)
  | object =>
    simp only [ConstantPool.readOperand, readObject, Ty.size] at checked loaded ⊢
    rw [checked]
    dsimp only
    cases value with
    | none =>
      rw [loaded]
      rfl
    | some object =>
      rw [loaded]
      dsimp only [number]
      rw [known object rfl]
      rfl

/-- Constants that come later leave it readable. -/
theorem append (has : pool.Has constant) {other : Constant ω} (after : pool.length ≤ other.position.toNat) :
    (pool.append other).Has constant where
  aligned := has.aligned
  inside := by
    have inside := has.inside
    rw [length_append]
    omega
  stored := by
    obtain ⟨index, loaded, known⟩ := has.stored
    refine ⟨index, ?_, fun object refers => object_append (known object refers)⟩
    have inside := has.inside
    rw [← loaded]
    refine Bytes.load_congr fun i _ upper => getD_append after ?_
    unfold Constant.finish at inside
    omega

/-- The constant itself is readable as long as the number of an object fits into its bytes. -/
theorem append_self (aligned : constant.content.ty.size ∣ constant.position.toNat)
    (few : pool.objects.size + 1 < 256 ^ handleSize) : (pool.append constant).Has constant where
  aligned := aligned
  inside := by
    rw [length_append]
    omega
  stored := by
    refine ⟨pool.objects.size, ?_, ?_⟩
    · rw [load_append_self]
      refine Nat.mod_eq_of_lt ?_
      obtain ⟨⟨ty, value⟩, position⟩ := constant
      cases ty with
      | scalar kind => exact Scalar.bits_lt kind value
      | object =>
        cases value with
        | none => exact Nat.pow_pos (by decide)
        | some object => exact few
    · intro object refers
      simp [ConstantPool.append, refers]

end Has

/-- How the constants lie in a pool: one after the other, each readable, with the positions of the objects listed. The
pool has no more objects than references have room in it. -/
structure Lays (pool : ConstantPool ω) (constants : List (Constant ω)) : Prop where
  has : ∀ constant ∈ constants, pool.Has constant
  ordered : constants.Pairwise fun former latter => former.finish ≤ latter.position.toNat
  listed : pool.handlePositions.toList =
    (constants.filter fun constant => constant.content.object?.isSome).map Constant.position
  bounded : pool.length ≤ 2 ^ 16
  counted : pool.objects.size * handleSize ≤ pool.length

theorem empty_lays : (empty : ConstantPool ω).Lays [] where
  has := by simp
  ordered := List.Pairwise.nil
  listed := rfl
  bounded := Nat.zero_le _
  counted := Nat.zero_le _

/-- A value that starts below the last position also ends there. -/
theorem finish_le {constant : Constant ω} (aligned : constant.content.ty.size ∣ constant.position.toNat) :
    constant.finish ≤ 2 ^ 16 := by
  have below : constant.position.toNat < 2 ^ 16 := constant.position.toNat_lt
  obtain ⟨count, total⟩ := constant.content.ty.size_dvd
  obtain ⟨index, start⟩ := aligned
  have least : index < count := by
    rw [total, start] at below
    exact Nat.lt_of_mul_lt_mul_left below
  calc constant.finish
    _ = constant.content.ty.size * (index + 1) := by rw [Constant.finish, start, Nat.mul_succ]
    _ ≤ constant.content.ty.size * count := Nat.mul_le_mul_left _ least
    _ = 2 ^ 16 := total.symm

theorem Lays.append {pool : ConstantPool ω} {constants : List (Constant ω)} (lays : pool.Lays constants)
    (constant : Constant ω) (aligned : constant.content.ty.size ∣ constant.position.toNat)
    (after : pool.length ≤ constant.position.toNat) : (pool.append constant).Lays (constants ++ [constant]) where
  has := by
    have bounded := lays.bounded
    have counted := lays.counted
    have few : pool.objects.size + 1 < 256 ^ handleSize := by
      unfold handleSize at counted ⊢
      omega
    intro other member
    rcases List.mem_append.mp member with former | latest
    · exact (lays.has other former).append after
    · rw [List.mem_singleton.mp latest]
      exact Has.append_self aligned few
  ordered := by
    refine List.pairwise_append.mpr ⟨lays.ordered, List.pairwise_singleton .., ?_⟩
    intro former member latter last
    have inside := (lays.has former member).inside
    rw [List.mem_singleton.mp last]
    omega
  listed := by
    simp only [ConstantPool.append, Array.toList_append, lays.listed, List.filter_append, List.map_append]
    cases refers : constant.content.object? with
    | none => simp [refers]
    | some object => simp [refers]
  bounded := by
    have bounded := lays.bounded
    have ends := finish_le aligned
    rw [length_append]
    omega
  counted := by
    have counted := lays.counted
    rw [length_append]
    simp only [ConstantPool.append, Array.size_append]
    cases refers : constant.content.object? with
    | none =>
      rw [Option.toArray_none, Array.size_empty, Nat.add_zero]
      omega
    | some object =>
      have finish : constant.finish = constant.position.toNat + handleSize := by
        rw [Constant.finish, Argument.ty_of_object? refers, Ty.size]
      have one : #[object].size = 1 := rfl
      rw [Option.toArray_some, one, Nat.add_mul]
      omega

/-- Whatever is written to a pool, the constants that this makes are laid after the ones it has. -/
theorem Lays.writeAll {pool : ConstantPool ω} {constants : List (Constant ω)} (lays : pool.Lays constants)
    (values : List (Argument ω)) :
    (writeAll values pool).2.Lays (constants ++ (writeAll values pool).1.filterMap made?) := by
  induction values generalizing pool constants with
  | nil =>
    rw [ConstantPool.writeAll, List.filterMap_nil, List.append_nil]
    exact lays
  | cons argument rest ih =>
    rw [ConstantPool.writeAll]
    by_cases fits : nextStart pool.length argument.ty.size < 2 ^ 16
    · obtain ⟨position, start, written⟩ := writeOperand_of_lt argument fits
      have aligned : argument.ty.size ∣ position.toNat := start ▸ dvd_nextStart ..
      have after : pool.length ≤ position.toNat := start ▸ le_nextStart argument.ty.size_pos
      have next := ih (lays.append ⟨argument, position⟩ aligned after)
      simp only [written, List.filterMap_cons, made?]
      rwa [List.append_cons]
    · -- a failed attempt makes no constant and leaves the pool to the next one
      simp only [writeOperand_of_ge argument (Nat.not_lt.mp fits), List.filterMap_cons, made?]
      exact ih lays

theorem filled_lays (values : List (Argument ω)) : (filled values).Lays (placed values) := by
  have lays := empty_lays.writeAll values
  rwa [List.nil_append] at lays

/-- Single bytes are written without gaps. -/
theorem length_writeAll_bytes {count : Nat} {pool : ConstantPool ω} (value : UInt8)
    (room : pool.length + count ≤ 2 ^ 16) :
    (writeAll (List.replicate count ⟨.scalar .byte, value⟩) pool).2.length = pool.length + count := by
  induction count generalizing pool with
  | zero => rfl
  | succ count ih =>
    have start : nextStart pool.length 1 = pool.length := by simp [nextStart]
    have fits : nextStart pool.length (Ty.scalar .byte).size < 2 ^ 16 := by
      change nextStart pool.length 1 < 2 ^ 16
      omega
    obtain ⟨position, at_end, written⟩ := writeOperand_of_lt ⟨.scalar .byte, value⟩ fits
    have longer : (pool.append ⟨⟨.scalar .byte, value⟩, position⟩).length = pool.length + 1 := by
      rw [length_append]
      change position.toNat = nextStart pool.length 1 at at_end
      change max pool.length (position.toNat + 1) = pool.length + 1
      omega
    simp only [List.replicate_succ, writeAll, written]
    rw [ih (by omega), longer]
    omega

/-- A pool can have any length up to the number of positions. -/
theorem exists_filled_length {count : Nat} (room : count ≤ 2 ^ 16) :
    ∃ values : List (Argument ω), (filled values).length = count := by
  have none : (empty : ConstantPool ω).length = 0 := rfl
  refine ⟨List.replicate count ⟨.scalar .byte, (0 : UInt8)⟩, ?_⟩
  unfold filled
  rw [length_writeAll_bytes 0 (by omega), none, Nat.zero_add]

/-- Whatever is written to an empty pool, every value that got a place is read back from it. The places are aligned
and lie one after the other, and the positions of the objects are listed in this order. A value has no place exactly if
the first start that suits it, from the end of the pool on, is too large for two bytes; the pool then stays as it is and
a smaller value may still have one. -/
theorem filled_round_trip (values : List (Argument ω)) :
    (∀ constant ∈ placed values, constant.content.ty.size ∣ constant.position.toNat ∧
      constant.finish ≤ (filled values).length ∧
      (filled values).readOperand constant.position constant.content.ty = .ok constant.content.value) ∧
    (placed values).Pairwise (fun former latter => former.finish ≤ latter.position.toNat) ∧
    (filled values).length ≤ 2 ^ 16 ∧
    (filled values).handlePositions.toList =
      ((placed values).filter fun constant => constant.content.object?.isSome).map Constant.position ∧
    (∀ argument : Argument ω, ∃ start, argument.ty.size ∣ start ∧ (filled values).length ≤ start ∧
      start < (filled values).length + argument.ty.size ∧
      (65535 < start → writeOperand argument.ty argument.value (filled values) =
        .error (.constantPoolFull (filled values).length) (filled values)) ∧
      (start ≤ 65535 → ∃ position : Position, position.toNat = start ∧ ∃ next,
        writeOperand argument.ty argument.value (filled values) = .ok position next)) ∧
    ∃ crowded : List (Argument ω),
      write .decimal Decimal.zero (filled crowded) =
        .error (.constantPoolFull (filled crowded).length) (filled crowded) ∧
      ∃ position next, write .byte (0 : UInt8) (filled crowded) = .ok position next := by
  have lays := filled_lays values
  refine ⟨?_, lays.ordered, lays.bounded, lays.listed, ?_, ?_⟩
  · intro constant member
    have has := lays.has constant member
    exact ⟨has.aligned, has.inside, has.readOperand⟩
  · intro argument
    refine ⟨nextStart (filled values).length argument.ty.size, dvd_nextStart .., le_nextStart argument.ty.size_pos,
      nextStart_lt argument.ty.size_pos, ?_, ?_⟩
    · intro full
      exact writeOperand_of_ge argument full
    · intro fits
      obtain ⟨position, start, written⟩ := writeOperand_of_lt argument (Nat.lt_succ_of_le fits)
      exact ⟨position, start, _, written⟩
  · obtain ⟨crowded, length⟩ := exists_filled_length (ω := ω) (show 65530 ≤ 2 ^ 16 by decide)
    have full : 2 ^ 16 ≤ nextStart (filled crowded).length (Ty.scalar .decimal).size := by
      rw [length]
      decide
    have fits : nextStart (filled crowded).length (Ty.scalar .byte).size < 2 ^ 16 := by
      rw [length]
      decide
    obtain ⟨position, _, written⟩ := writeOperand_of_lt ⟨.scalar .byte, (0 : UInt8)⟩ fits
    exact ⟨crowded, writeOperand_of_ge ⟨.scalar .decimal, Decimal.zero⟩ full, position, _, written⟩

end ConstantPool

end WordMachine
