import WordMachine.Value.Decimal

namespace WordMachine

namespace Digits

/-- Characters that are all decimal digits. -/
def All (chars : List Char) : Prop :=
  ∀ c ∈ chars, c.isDigit = true

/-- The number with the given digits, the most significant one first. -/
def value (chars : List Char) : Nat :=
  Nat.ofDigitChars 10 chars 0

variable {c : Char} {chars other : List Char}

/-- A digit counts for as many places as follow it. -/
theorem value_cons (c : Char) (rest : List Char) :
    value (c :: rest) = 10 ^ rest.length * (c.toNat - '0'.toNat) + value rest := by
  unfold value
  rw [Nat.ofDigitChars_cons, Nat.mul_zero, Nat.zero_add, Nat.ofDigitChars_eq_ofDigitChars_zero]

theorem digit_lt (digit : c.isDigit = true) : c.toNat - '0'.toNat < 10 := by
  obtain ⟨_, upper⟩ := Char.isDigit_iff_toNat.mp digit
  have nine : '9'.toNat = '0'.toNat + 9 := rfl
  omega

theorem digit_ext {d : Char} (digit : c.isDigit = true) (otherDigit : d.isDigit = true)
    (same : c.toNat - '0'.toNat = d.toNat - '0'.toNat) : c = d := by
  obtain ⟨lower, _⟩ := Char.isDigit_iff_toNat.mp digit
  obtain ⟨otherLower, _⟩ := Char.isDigit_iff_toNat.mp otherDigit
  exact Char.toNat_inj.mp (by omega)

theorem digit_pos (digit : c.isDigit = true) (nonzero : c ≠ '0') : 1 ≤ c.toNat - '0'.toNat := by
  obtain ⟨lower, _⟩ := Char.isDigit_iff_toNat.mp digit
  have different : c.toNat ≠ '0'.toNat := fun same => nonzero (Char.toNat_inj.mp same)
  omega

theorem value_lt (digits : All chars) : value chars < 10 ^ chars.length := by
  induction chars with
  | nil => exact Nat.one_pos
  | cons c rest ih =>
    obtain ⟨digit, digits⟩ := List.forall_mem_cons.mp digits
    have bound := Nat.mul_le_mul_left (10 ^ rest.length) (digit_lt digit)
    have smaller := ih digits
    rw [Nat.mul_succ] at bound
    rw [value_cons, List.length_cons, Nat.pow_succ]
    omega

theorem le_value_cons (digit : c.isDigit = true) (nonzero : c ≠ '0') (rest : List Char) :
    10 ^ rest.length ≤ value (c :: rest) := by
  have bound := Nat.mul_le_mul_left (10 ^ rest.length) (digit_pos digit nonzero)
  rw [value_cons]
  omega

/-- Digits are determined by their number and by how many there are. -/
theorem eq_of_value (digits : All chars) (otherDigits : All other) (length : chars.length = other.length)
    (same : value chars = value other) : chars = other := by
  induction chars generalizing other with
  | nil => exact (List.eq_nil_of_length_eq_zero length.symm).symm
  | cons c rest ih =>
    obtain ⟨d, more, rfl⟩ := List.exists_cons_of_length_eq_add_one length.symm
    obtain ⟨digit, digits⟩ := List.forall_mem_cons.mp digits
    obtain ⟨otherDigit, otherDigits⟩ := List.forall_mem_cons.mp otherDigits
    have shorter : rest.length = more.length := Nat.succ.inj length
    have bound := value_lt digits
    have otherBound := value_lt otherDigits
    rw [value_cons, value_cons, shorter] at same
    rw [shorter] at bound
    have remainder := congrArg (· % 10 ^ more.length) same
    simp only [Nat.mul_add_mod, Nat.mod_eq_of_lt bound, Nat.mod_eq_of_lt otherBound] at remainder
    have first : c.toNat - '0'.toNat = d.toNat - '0'.toNat := by
      refine Nat.eq_of_mul_eq_mul_left (Nat.pow_pos (n := more.length) (show 0 < 10 by omega)) ?_
      omega
    rw [digit_ext digit otherDigit first, ih digits otherDigits shorter remainder]

/-- The digits of a number start with a zero only if it is the only one. -/
theorem toDigits_leading {n : Nat} (zero : (Nat.toDigits 10 n).head? = some '0') : Nat.toDigits 10 n = ['0'] := by
  obtain ⟨rest, parts⟩ := List.head?_eq_some_iff.mp zero
  have digits : All rest := fun c member =>
    Nat.isDigit_of_mem_toDigits (by omega) (Nat.le_refl 10) (parts ▸ List.mem_cons_of_mem _ member)
  have number : value rest = n := by
    have whole : value (Nat.toDigits 10 n) = n := Nat.ofDigitChars_ten_toDigits
    rwa [parts, value_cons, Nat.sub_self, Nat.mul_zero, Nat.zero_add] at whole
  cases rest with
  | nil => exact parts
  | cons d more =>
    -- the rest alone would be digits enough
    have fewer := (Nat.length_toDigits_le_iff (by omega) (Nat.succ_pos _)).mpr (number ▸ value_lt digits)
    rw [parts, List.length_cons, List.length_cons] at fewer
    omega

end Digits

namespace Decimal

/-- How a number is written: a sign if it is negative, digits before the point with no zero in front of others, and
as many digits after the point as its scale says; without these there is no point either. All digits together are the
mantissa. -/
structure Spells (text : String) (mantissa : Int) (scale : Nat) (whole fraction : List Char) : Prop where
  written : text.toList =
    (if mantissa < 0 then ['-'] else []) ++ whole ++ if 0 < scale then '.' :: fraction else []
  digits : Digits.All (whole ++ fraction)
  nonempty : whole ≠ []
  leading : whole.head? = some '0' → whole = ['0']
  length_fraction : fraction.length = scale
  magnitude : Digits.value (whole ++ fraction) = mantissa.natAbs

namespace Spells

variable {text other : String} {mantissa : Int} {scale : Nat} {whole fraction otherWhole otherFraction : List Char}

/-- More digits before the point are a larger number, as the first of them is not zero. -/
theorem length_whole_le (spells : Spells text mantissa scale whole fraction)
    (again : Spells other mantissa scale otherWhole otherFraction) : otherWhole.length ≤ whole.length := by
  refine Nat.le_of_not_lt fun longer => ?_
  have few := Digits.value_lt spells.digits
  obtain ⟨c, rest, rfl⟩ := List.exists_cons_of_ne_nil again.nonempty
  have positive := List.length_pos_iff.mpr spells.nonempty
  rw [List.length_cons] at longer
  have nonzero : c ≠ '0' := by
    rintro rfl
    have alone := congrArg List.length (again.leading rfl)
    simp only [List.length_cons, List.length_nil] at alone
    omega
  have many := Digits.le_value_cons (again.digits c List.mem_cons_self) nonzero (rest ++ otherFraction)
  rw [← List.cons_append, again.magnitude, ← spells.magnitude] at many
  have more : (10 : Nat) ^ (whole ++ fraction).length ≤ 10 ^ (rest ++ otherFraction).length := by
    refine Nat.pow_le_pow_right (by omega) ?_
    rw [List.length_append, List.length_append, spells.length_fraction, again.length_fraction]
    omega
  omega

/-- The rules leave no choice. -/
theorem unique (spells : Spells text mantissa scale whole fraction)
    (again : Spells other mantissa scale otherWhole otherFraction) : text = other := by
  have fractions : fraction.length = otherFraction.length :=
    spells.length_fraction.trans again.length_fraction.symm
  have wholes : whole.length = otherWhole.length :=
    Nat.le_antisymm (again.length_whole_le spells) (spells.length_whole_le again)
  have same : whole ++ fraction = otherWhole ++ otherFraction := by
    refine Digits.eq_of_value spells.digits again.digits ?_ (spells.magnitude.trans again.magnitude.symm)
    rw [List.length_append, List.length_append, wholes, fractions]
  obtain ⟨rfl, rfl⟩ := List.append_inj same wholes
  exact String.toList_inj.mp (spells.written.trans again.written.symm)

end Spells

/-- Reads a mantissa and a scale: the digits as one number, negative if there is a minus sign, and how many characters
come after the point. -/
def read (text : String) : Int × Nat :=
  let magnitude := Digits.value (text.toList.filter Char.isDigit)
  (if '-' ∈ text.toList then -(magnitude : Int) else magnitude, (text.toList.dropWhile (· != '.')).length - 1)

namespace Spells

variable {text : String} {mantissa : Int} {scale : Nat} {whole fraction : List Char}

theorem filter_isDigit (spells : Spells text mantissa scale whole fraction) :
    text.toList.filter Char.isDigit = whole ++ fraction := by
  obtain ⟨wholeDigits, fractionDigits⟩ := List.forall_mem_append.mp spells.digits
  have sign : (if mantissa < 0 then ['-'] else []).filter Char.isDigit = [] := by
    split <;> rfl
  have point : (if 0 < scale then '.' :: fraction else []).filter Char.isDigit = fraction := by
    split
    · exact List.filter_eq_self.mpr fractionDigits
    · have none : fraction.length = 0 := by
        have length := spells.length_fraction
        omega
      rw [List.eq_nil_of_length_eq_zero none]
      rfl
  rw [spells.written, List.filter_append, List.filter_append, sign, point, List.nil_append,
    List.filter_eq_self.mpr wholeDigits]

theorem mem_minus_iff (spells : Spells text mantissa scale whole fraction) : '-' ∈ text.toList ↔ mantissa < 0 := by
  have noDigit : '-' ∉ whole ++ fraction := fun member => absurd (spells.digits '-' member) (by decide)
  rw [List.mem_append, not_or] at noDigit
  rw [spells.written]
  by_cases negative : mantissa < 0
  · simp [negative]
  · by_cases fractional : 0 < scale
    · simp [negative, fractional, noDigit.1, noDigit.2]
    · simp [negative, fractional, noDigit.1]

theorem dropWhile_point (spells : Spells text mantissa scale whole fraction) :
    text.toList.dropWhile (· != '.') = if 0 < scale then '.' :: fraction else [] := by
  have before : ∀ c ∈ (if mantissa < 0 then ['-'] else []) ++ whole, (c != '.') = true := by
    intro c member
    rcases List.mem_append.mp member with sign | digit
    · split at sign
      · rw [List.mem_singleton.mp sign]
        rfl
      · cases sign
    · have isDigit := spells.digits c (List.mem_append_left _ digit)
      refine bne_iff_ne.mpr ?_
      rintro rfl
      exact absurd isDigit (by decide)
  rw [spells.written, List.dropWhile_append_of_pos before]
  split <;> rfl

/-- A text that keeps to the rules tells the mantissa and the scale. -/
theorem read_eq (spells : Spells text mantissa scale whole fraction) : read text = (mantissa, scale) := by
  have sign : (if '-' ∈ text.toList then -(mantissa.natAbs : Int) else mantissa.natAbs) = mantissa := by
    simp only [spells.mem_minus_iff]
    split <;> omega
  have length : (text.toList.dropWhile (· != '.')).length - 1 = scale := by
    rw [spells.dropWhile_point]
    split
    · rw [List.length_cons, spells.length_fraction]
      rfl
    · rw [List.length_nil]
      omega
  unfold read
  rw [spells.filter_isDigit, spells.magnitude, length]
  exact congrArg (·, scale) sign

end Spells

theorem isNegative_iff (d : Decimal) : d.isNegative = true ↔ d.mantissa < 0 := by
  unfold isNegative mantissa
  cases d.hasSign with
  | true =>
    simp only [if_true, Bool.true_and, bne_iff_ne]
    omega
  | false =>
    simp only [Bool.false_and, Bool.false_eq_true, if_false, false_iff]
    omega

theorem digits_paddedDigits (d : Decimal) : Digits.All d.paddedDigits := by
  intro c member
  rcases List.mem_append.mp member with zero | digit
  · rw [(List.mem_replicate.mp zero).2]
    rfl
  · exact Nat.isDigit_of_mem_toDigits (by omega) (Nat.le_refl 10) digit

theorem value_paddedDigits (d : Decimal) : Digits.value d.paddedDigits = d.mantissa.natAbs := by
  unfold Digits.value paddedDigits
  rw [Nat.ofDigitChars_append, Nat.ofDigitChars_replicate_zero, Nat.mul_zero, Nat.ofDigitChars_ten_toDigits]

theorem length_paddedDigits (d : Decimal) :
    d.paddedDigits.length = max (Nat.toDigits 10 d.mantissa.natAbs).length (d.scale + 1) := by
  unfold paddedDigits
  rw [List.length_append, List.length_replicate]
  omega

/-- The digits before the point. -/
def wholeDigits (d : Decimal) : List Char :=
  d.paddedDigits.take (d.paddedDigits.length - d.scale)

/-- The digits after the point. -/
def fractionDigits (d : Decimal) : List Char :=
  d.paddedDigits.drop (d.paddedDigits.length - d.scale)

theorem length_wholeDigits (d : Decimal) : d.wholeDigits.length = d.paddedDigits.length - d.scale := by
  unfold wholeDigits
  rw [List.length_take]
  omega

theorem length_fractionDigits (d : Decimal) : d.fractionDigits.length = d.scale := by
  have padded := d.length_paddedDigits
  unfold fractionDigits
  rw [List.length_drop]
  omega

theorem leading_wholeDigits (d : Decimal) (zero : d.wholeDigits.head? = some '0') : d.wholeDigits = ['0'] := by
  have length := d.length_wholeDigits
  have padded := d.length_paddedDigits
  obtain ⟨rest, parts⟩ := List.head?_eq_some_iff.mp zero
  by_cases enough : (Nat.toDigits 10 d.mantissa.natAbs).length ≤ d.scale + 1
  · -- one digit is left before the point
    have none : rest.length = 0 := by
      rw [parts, List.length_cons] at length
      omega
    rw [parts, List.eq_nil_of_length_eq_zero none]
  · -- nothing was put in front, and a number with several digits does not start with a zero
    have unpadded : d.paddedDigits = Nat.toDigits 10 d.mantissa.natAbs := by
      have fill : d.scale + 1 - (Nat.toDigits 10 d.mantissa.natAbs).length = 0 := by omega
      simp only [paddedDigits, fill, List.replicate_zero, List.nil_append]
    have first : (Nat.toDigits 10 d.mantissa.natAbs).head? = some '0' := by
      rw [wholeDigits, List.head?_take, if_neg (by omega), unpadded] at zero
      exact zero
    have single := congrArg List.length (Digits.toDigits_leading first)
    rw [List.length_singleton] at single
    omega

theorem spells_text (d : Decimal) : Spells d.text d.mantissa d.scale d.wholeDigits d.fractionDigits where
  written := by
    have sign : (if d.isNegative then ['-'] else []) = if d.mantissa < 0 then ['-'] else [] := by
      simp only [d.isNegative_iff]
    have point : (if d.fractionDigits.isEmpty then [] else '.' :: d.fractionDigits) =
        if 0 < d.scale then '.' :: d.fractionDigits else [] := by
      simp only [List.isEmpty_iff_length_eq_zero, d.length_fractionDigits]
      by_cases fractional : 0 < d.scale
      · rw [if_neg (by omega), if_pos fractional]
      · rw [if_pos (by omega), if_neg fractional]
    rw [← sign, ← point]
    exact String.toList_ofList
  digits := by
    have parts : d.wholeDigits ++ d.fractionDigits = d.paddedDigits := List.take_append_drop ..
    rw [parts]
    exact d.digits_paddedDigits
  nonempty := by
    have length := d.length_wholeDigits
    have padded := d.length_paddedDigits
    exact List.ne_nil_of_length_pos (by omega)
  leading := d.leading_wholeDigits
  length_fraction := d.length_fractionDigits
  magnitude := by
    have parts : d.wholeDigits ++ d.fractionDigits = d.paddedDigits := List.take_append_drop ..
    rw [parts]
    exact d.value_paddedDigits

/-- The text of a decimal is the one that the rules allow for its mantissa and its scale, whatever bits it is made of.
Both can be read from it, so that decimals have the same text exactly if they have the same mantissa and scale. -/
theorem text_faithful (d : Decimal) :
    (∀ text, (∃ whole fraction, Spells text d.mantissa d.scale whole fraction) ↔ text = d.text) ∧
    read d.text = (d.mantissa, d.scale) ∧
    ∀ other : Decimal, d.text = other.text ↔ d.mantissa = other.mantissa ∧ d.scale = other.scale := by
  have spells := d.spells_text
  refine ⟨fun text => ⟨?_, ?_⟩, spells.read_eq, fun other => ⟨?_, ?_⟩⟩
  · rintro ⟨whole, fraction, written⟩
    exact written.unique spells
  · rintro rfl
    exact ⟨_, _, spells⟩
  · intro same
    have parts := other.spells_text.read_eq
    rw [← same, spells.read_eq] at parts
    exact Prod.mk.inj parts
  · rintro ⟨mantissa, scale⟩
    have otherSpells := other.spells_text
    rw [← mantissa, ← scale] at otherSpells
    exact spells.unique otherSpells

-- a negative fraction without a digit of its own before the point, and a zero with a sign bit and a scale
example : text ⟨0x80030000, 0, 7⟩ = "-0.007" ∧ text ⟨0x80020000, 0, 0⟩ = "0.00" := by decide +kernel

end Decimal

end WordMachine
