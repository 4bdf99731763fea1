import WordMachine.Proofs.Image

namespace WordMachine

/-- The number in several bytes is that in the first of them and that in the others. -/
theorem Bytes.load_add (memory : Bytes) (start first second : Nat) :
    memory.load start (first + second) =
      memory.load start first + 256 ^ first * memory.load (start + first) second := by
  induction first generalizing start with
  | zero => simp [load]
  | succ first ih =>
    rw [Nat.add_right_comm, load, load, ih, show start + (first + 1) = start + 1 + first by omega, Nat.pow_succ',
      Nat.mul_add, Nat.mul_assoc, ← Nat.add_assoc]

theorem Bytes.load_lt (memory : Bytes) (start count : Nat) : memory.load start count < 256 ^ count := by
  induction count generalizing start with
  | zero => exact Nat.one_pos
  | succ count ih =>
    have first := (memory.getD start 0).toNat_lt
    have rest := ih (start + 1)
    rw [load, Nat.pow_succ']
    omega

/-- The object that a handle refers to, or none if it refers to nothing. -/
def HandleTable.object {ω : Type} (table : HandleTable ω) (handle : Handle) : Option ω :=
  match table.get handle with
  | .ok object => object
  | .error _ => none

namespace OperandStack

variable {ω : Type}

def objectAt (stack : OperandStack ω) (slot : Nat) : Option ω :=
  stack.handles.object (stack.handleAt slot)

/-- What the word at a slot stands for. -/
def word (stack : OperandStack ω) (slot : Nat) : Word ω :=
  match stack.tags.get slot with
  | none => .rest (stack.memory.load (slot * wordSize) wordSize)
  | some (.scalar kind) => .scalar kind (stack.memory.load (slot * wordSize) (min kind.size wordSize))
  | some .object => .object (stack.objectAt slot)

def image (stack : OperandStack ω) (known : Known) : Image ω where
  capacity := stack.capacity
  live := stack.handles.live
  words := (List.range stack.offset).map stack.word
  known := known

/-- An image that shows a stack, with nothing wrong in what it knows of the memory. -/
def Shown (stack : OperandStack ω) (image : Image ω) : Prop :=
  ∃ known, stack.memory.Confirms known ∧ stack.image known = image

@[simp]
theorem length_words (stack : OperandStack ω) (known : Known) : (stack.image known).words.length = stack.offset := by
  simp [image]

theorem Shown.live_eq {stack : OperandStack ω} {image : Image ω} (shows : stack.Shown image) :
    stack.handles.live = image.live := by
  obtain ⟨known, _, rfl⟩ := shows
  rfl

/-- An image that knows nothing of the memory shows the stack as well. -/
theorem Shown.forget {stack : OperandStack ω} {image : Image ω} (shows : stack.Shown image) :
    stack.Shown { image with known := .nothing } := by
  obtain ⟨known, _, rfl⟩ := shows
  exact ⟨.nothing, stack.memory.confirms_nothing, rfl⟩

theorem Shown.length_words {stack : OperandStack ω} {image : Image ω} (shows : stack.Shown image) :
    image.words.length = stack.offset := by
  obtain ⟨known, _, rfl⟩ := shows
  exact stack.length_words known

theorem getElem?_words (stack : OperandStack ω) (known : Known) (slot : Nat) :
    (stack.image known).words[slot]? = if slot < stack.offset then some (stack.word slot) else none := by
  simp only [image, List.getElem?_map]
  by_cases live : slot < stack.offset
  · rw [List.getElem?_range live, if_pos live]
    rfl
  · rw [List.getElem?_eq_none (by simpa using Nat.le_of_not_lt live), if_neg live]
    rfl

@[simp]
theorem tag_word (stack : OperandStack ω) (slot : Nat) : (stack.word slot).tag = stack.tags.get slot := by
  unfold word
  cases tag : stack.tags.get slot with
  | none => rfl
  | some ty => cases ty <;> rfl

/-- A word depends on its tag, on its bytes, and for a reference on the object alone. -/
theorem word_congr {stack other : OperandStack ω} {slot place : Nat}
    (tags : stack.tags.get slot = other.tags.get place)
    (bytes : ∀ count, count ≤ wordSize →
      stack.memory.load (slot * wordSize) count = other.memory.load (place * wordSize) count)
    (objects : stack.tags.get slot = some .object → stack.objectAt slot = other.objectAt place) :
    stack.word slot = other.word place := by
  unfold word
  rw [← tags]
  cases tag : stack.tags.get slot with
  | none => exact congrArg Word.rest (bytes wordSize (Nat.le_refl _))
  | some ty =>
    cases ty with
    | scalar kind => exact congrArg (Word.scalar kind) (bytes _ (Nat.min_le_right ..))
    | object => exact congrArg Word.object (objects tag)

theorem word_put_outside {stack : OperandStack ω} {slot place : Nat} {ty : Ty} {cell : Cell ty}
    (apart : place < slot ∨ slot + ty.words ≤ place) : (stack.put slot ty cell).word place = stack.word place := by
  refine word_congr (tag_put_outside apart) (fun count short => load_put_outside apart short) fun _ => ?_
  unfold objectAt
  rw [handleAt_put_outside apart]
  rfl

theorem words_eq_two {kind : Scalar} (wide : ¬ kind.size ≤ wordSize) : (Ty.scalar kind).words = 2 := by
  revert wide
  cases kind <;> decide

/-- A scalar that is stored occupies its own words. -/
theorem words_put_scalar {stack : OperandStack ω} {slot : Nat} {kind : Scalar} {value : Cell kind}
    (sound : stack.Sound) (room : slot + (Ty.scalar kind).words ≤ stack.capacity) :
    (List.range (Ty.scalar kind).words).map (fun k => (stack.put slot kind value).word (slot + k)) =
      (Operand.words kind value : List (Word ω)) := by
  have tag : (stack.put slot kind value).tags.get slot = some (.scalar kind) := tag_put_self sound room
  have stored : (stack.put slot kind value).memory.load (slot * wordSize) (Ty.scalar kind).size = kind.bits value :=
    load_put_self sound room
  have first : (stack.put slot kind value).word slot =
      .scalar kind ((stack.put slot kind value).memory.load (slot * wordSize) (min kind.size wordSize)) := by
    unfold word
    rw [tag]
  by_cases narrow : kind.size ≤ wordSize
  · have one : (Ty.scalar kind).words = 1 := by
      revert narrow
      cases kind <;> decide
    rw [one, List.range_one, List.map_singleton, Nat.add_zero, first, Nat.min_eq_left narrow]
    rw [show kind.size = (Ty.scalar kind).size from rfl, stored]
    exact (if_pos narrow).symm
  · have two := words_eq_two narrow
    have full : (Ty.scalar kind).size = wordSize + wordSize := (Ty.size_of_two_words two).trans (Nat.two_mul _)
    have second : (stack.put slot kind value).word (slot + 1) =
        .rest ((stack.put slot kind value).memory.load ((slot + 1) * wordSize) wordSize) := by
      unfold word
      rw [tag_put_rest sound room (by omega) (by omega)]
    rw [full, Bytes.load_add, ← Nat.succ_mul] at stored
    have low := Bytes.load_lt (stack.put slot kind value).memory (slot * wordSize) wordSize
    have remainder : kind.bits value % 256 ^ wordSize =
        (stack.put slot kind value).memory.load (slot * wordSize) wordSize := by
      rw [← stored, Nat.add_mul_mod_self_left, Nat.mod_eq_of_lt low]
    have quotient : kind.bits value / 256 ^ wordSize =
        (stack.put slot kind value).memory.load ((slot + 1) * wordSize) wordSize := by
      rw [← stored, Nat.add_mul_div_left _ _ (by decide), Nat.div_eq_of_lt low, Nat.zero_add]
    have wide : min kind.size wordSize = wordSize := Nat.min_eq_right (by omega)
    have range : List.range 2 = [0, 1] := rfl
    rw [two, range, List.map_cons, List.map_singleton, Nat.add_zero, first, second, wide, ← remainder, ← quotient]
    exact (if_neg narrow).symm

theorem word_putHandle_ne {stack : OperandStack ω} {slot place : Nat} {handle : Handle} (different : place ≠ slot) :
    (stack.putHandle slot handle).word place = stack.word place :=
  word_put_outside (Nat.lt_or_gt_of_ne different)

theorem word_putHandle_self {stack : OperandStack ω} {slot : Nat} {handle : Handle} (sound : stack.Sound)
    (room : slot < stack.capacity) :
    (stack.putHandle slot handle).word slot = .object (stack.handles.object handle) := by
  unfold word objectAt
  rw [tag_putHandle_self sound room, handleAt_putHandle_self sound room, handles_putHandle]

/-- A change of the handle table shows only where it changes what a reference refers to. -/
theorem word_handles {stack : OperandStack ω} {table : HandleTable ω} {slot : Nat}
    (same : stack.tags.get slot = some .object →
      table.get (stack.handleAt slot) = stack.handles.get (stack.handleAt slot)) :
    word { stack with handles := table } slot = stack.word slot := by
  refine word_congr rfl (fun _ _ => rfl) fun tag => ?_
  change table.object (stack.handleAt slot) = stack.handles.object (stack.handleAt slot)
  unfold HandleTable.object
  rw [same tag]

theorem drop_of_getElem? {words : List (Word ω)} {slot : Nat} {word : Word ω} (entry : words[slot]? = some word) :
    words.drop slot = word :: words.drop (slot + 1) := by
  obtain ⟨inside, found⟩ := List.getElem?_eq_some_iff.mp entry
  rw [List.drop_eq_getElem_cons inside, found]

theorem drop_words {stack : OperandStack ω} {known : Known} {slot : Nat} (live : slot < stack.offset) :
    (stack.image known).words.drop slot = stack.word slot :: (stack.image known).words.drop (slot + 1) :=
  drop_of_getElem? ((getElem?_words stack known slot).trans (if_pos live))

theorem valueAt_object {stack : OperandStack ω} {image : Image ω} {slot : Nat}
    (entry : image.words[slot]? = some (stack.word slot)) :
    match image.valueAt .object slot with
    | .ok object => stack.tags.check slot .object = .ok () ∧ object = stack.objectAt slot
    | .error (.fault fault) => stack.tags.check slot .object = .error fault
    | .error .torn => False := by
  unfold Image.valueAt
  rw [drop_of_getElem? entry]
  have tag := stack.tag_word slot
  unfold Tags.check
  cases content : stack.word slot with
  | object object =>
    rw [content] at tag
    unfold word at content
    rw [← tag] at content ⊢
    cases content
    exact ⟨if_pos rfl, rfl⟩
  | scalar kind bits =>
    rw [content] at tag
    rw [← tag]
    exact if_neg fun same => by cases same
  | rest bits =>
    rw [content] at tag
    rw [← tag]
    exact if_neg fun same => by cases same

theorem whole?_word {stack : OperandStack ω} {slot bits : Nat} (whole : (stack.word slot).whole? = some bits) :
    bits = stack.memory.load (slot * wordSize) wordSize := by
  unfold word at whole
  cases tag : stack.tags.get slot with
  | none =>
    rw [tag] at whole
    exact (Option.some.inj whole).symm
  | some ty =>
    rw [tag] at whole
    cases ty with
    | object => cases whole
    | scalar kind =>
      simp only [Word.whole?] at whole
      split at whole
      · rename_i wide
        rw [Nat.min_eq_right wide] at whole
        exact (Option.some.inj whole).symm
      · cases whole

/-- A value that an image shows is what the bytes of the stack hold. -/
theorem valueAt_scalar {stack : OperandStack ω} {known : Known} (confirms : stack.memory.Confirms known) {slot : Nat}
    {kind : Scalar} (live : slot + (Ty.scalar kind).words ≤ stack.offset) :
    match (stack.image known).valueAt (.scalar kind) slot with
    | .ok value => stack.tags.check slot kind = .ok () ∧
        value = kind.ofBits (stack.memory.load (slot * wordSize) kind.size)
    | .error (.fault fault) => stack.tags.check slot kind = .error fault
    | .error .torn => True := by
  have positive := (Ty.scalar kind).words_pos
  unfold Image.valueAt
  rw [drop_words (by omega)]
  have tag := stack.tag_word slot
  unfold Tags.check
  cases content : stack.word slot with
  | object object =>
    rw [content] at tag
    rw [← tag]
    exact if_neg fun same => by cases same
  | rest bits =>
    rw [content] at tag
    rw [← tag]
    exact if_neg fun same => by cases same
  | scalar found low =>
    rw [content] at tag
    change some (Ty.scalar found) = _ at tag
    unfold word at content
    rw [← tag] at content ⊢
    obtain ⟨_, rfl⟩ := Word.scalar.inj content
    by_cases same : found = kind
    · subst same
      by_cases narrow : found.size ≤ wordSize
      · simp only [Image.decode, if_pos narrow, if_true]
        rw [Nat.min_eq_left narrow]
        exact ⟨trivial, rfl⟩
      · have two := words_eq_two narrow
        have full : found.size = wordSize + wordSize := (Ty.size_of_two_words two).trans (Nat.two_mul _)
        simp only [Image.decode, if_neg narrow, if_true]
        rw [drop_words (by omega), List.head?_cons, Option.bind_some]
        cases second : (stack.word (slot + 1)).whole?.or
            ((stack.image known).known.load? ((slot + 1) * wordSize) wordSize) with
        | none => exact trivial
        | some high =>
          have upper : high = stack.memory.load ((slot + 1) * wordSize) wordSize := by
            rcases Option.or_eq_some_iff.mp second with whole | ⟨_, loaded⟩
            · exact whole?_word whole
            · exact (confirms.load loaded).symm
          rw [upper, full, Nat.min_eq_right (Nat.le_add_right ..), Bytes.load_add, ← Nat.succ_mul]
          exact ⟨trivial, rfl⟩
    · simp only [Image.decode, if_neg same]
      exact if_neg fun equal => same (Ty.scalar.inj (Option.some.inj equal))

theorem map_range_add {α : Type} (f : Nat → α) (first second : Nat) :
    (List.range (first + second)).map f =
      (List.range first).map f ++ (List.range second).map fun k => f (first + k) := by
  rw [List.range_add, List.map_append, List.map_map]
  rfl

theorem take_words {stack : OperandStack ω} {known : Known} {count : Nat} (inside : count ≤ stack.offset) :
    (stack.image known).words.take count = (List.range count).map stack.word := by
  obtain ⟨more, same⟩ := Nat.exists_eq_add_of_le inside
  simp only [image, same]
  rw [map_range_add, List.take_append_of_le_length (by simp), List.take_of_length_le (by simp)]

theorem drop_words_eq {stack : OperandStack ω} {known : Known} {count more : Nat}
    (same : stack.offset = count + more) :
    (stack.image known).words.drop count = (List.range more).map fun k => stack.word (count + k) := by
  simp only [image, same]
  rw [map_range_add, List.drop_append_of_le_length (by simp), List.drop_of_length_le (by simp), List.nil_append]

theorem image_withOffset (stack : OperandStack ω) (known : Known) (count : Nat) :
    image { stack with offset := count } known =
      ⟨stack.capacity, stack.handles.live, (List.range count).map stack.word, known⟩ :=
  rfl

theorem image_setOffset {stack : OperandStack ω} (known : Known) {count : Nat} (inside : count ≤ stack.offset) :
    image { stack with offset := count } known =
      { stack.image known with words := (stack.image known).words.take count } := by
  rw [take_words inside, image_withOffset]
  rfl

theorem image_handles {stack : OperandStack ω} {table : HandleTable ω} {known : Known}
    (same : ∀ slot < stack.offset, stack.tags.get slot = some .object →
      table.get (stack.handleAt slot) = stack.handles.get (stack.handleAt slot)) :
    image { stack with handles := table } known = { stack.image known with live := table.live } := by
  have words : (List.range stack.offset).map (word { stack with handles := table }) =
      (List.range stack.offset).map stack.word :=
    List.map_congr_left fun slot member => word_handles (same slot (List.mem_range.mp member))
  simp only [image, words]

theorem confirms_putScalar {stack : OperandStack ω} {known : Known} {slot : Nat} {kind : Scalar} {value : Cell kind}
    (sound : stack.Sound) (room : slot + (Ty.scalar kind).words ≤ stack.capacity)
    (confirms : stack.memory.Confirms known) :
    (stack.put slot kind value).memory.Confirms (@Known.put ω known slot kind value) := by
  unfold put Known.put
  exact confirms.store (sound.inside room).stored

/-- Nothing is known of the bytes of a handle, except of the one for no object. -/
theorem confirms_putHandle {stack : OperandStack ω} {known : Known} {slot : Nat} {handle : Handle} {object : Option ω}
    (sound : stack.Sound) (room : slot < stack.capacity) (missing : object = none → handle = Handle.null)
    (confirms : stack.memory.Confirms known) :
    (stack.putHandle slot handle).memory.Confirms (known.put slot .object object) := by
  have inside : slot + Ty.object.words ≤ stack.capacity := room
  have memory : (stack.putHandle slot handle).memory =
      stack.memory.store (slot * wordSize) (Cell.bits .object handle) Ty.object.size := by
    simp only [putHandle, put]
  rw [memory]
  cases object with
  | none =>
    rw [missing rfl, Known.put]
    exact confirms.store (sound.inside inside).stored
  | some object =>
    rw [Known.put]
    exact confirms.forget

theorem confirms_moved {stack : OperandStack ω} {known : Known} {src dst words : Nat} (sound : stack.Sound)
    (below : dst ≤ src) (used : src + words ≤ stack.offset) (confirms : stack.memory.Confirms known) :
    (stack.moved src dst words).memory.Confirms
      (known.copy (src * wordSize) (dst * wordSize) (words * wordSize)) :=
  confirms.copy (sound.copy_bytes used) (Nat.mul_le_mul_right _ below)

theorem image_pushScalar {stack : OperandStack ω} {known after : Known} {kind : Scalar} {value : Cell kind}
    (sound : stack.Sound) (room : stack.offset + (Ty.scalar kind).words ≤ stack.capacity) :
    image { stack.put stack.offset kind value with offset := stack.offset + (Ty.scalar kind).words } after =
      { stack.image known with
        words := (stack.image known).words ++ Operand.words kind value
        known := after } := by
  have below : (List.range stack.offset).map (stack.put stack.offset kind value).word = (stack.image known).words :=
    List.map_congr_left fun slot member => word_put_outside (.inl (List.mem_range.mp member))
  have words : (List.range (stack.offset + (Ty.scalar kind).words)).map (stack.put stack.offset kind value).word =
      (stack.image known).words ++ Operand.words kind value := by
    rw [map_range_add, below, words_put_scalar sound room]
  rw [image_withOffset, words]
  rfl

theorem image_writeScalar {stack : OperandStack ω} {known after : Known} {slot : Nat} {kind : Scalar}
    {value : Cell kind} (sound : stack.Sound) (live : slot + (Ty.scalar kind).words ≤ stack.offset) :
    (stack.put slot kind value).image after =
      { stack.image known with
        words := (stack.image known).words.take slot ++ Operand.words kind value ++
          (stack.image known).words.drop (slot + (Ty.scalar kind).words)
        known := after } := by
  have bound := sound.offset_le
  obtain ⟨more, same⟩ := Nat.exists_eq_add_of_le live
  have below : (List.range slot).map (stack.put slot kind value).word = (stack.image known).words.take slot := by
    rw [take_words (by omega)]
    exact List.map_congr_left fun place member => word_put_outside (.inl (List.mem_range.mp member))
  have above : (List.range more).map (fun k => (stack.put slot kind value).word (slot + (Ty.scalar kind).words + k)) =
      (stack.image known).words.drop (slot + (Ty.scalar kind).words) := by
    rw [drop_words_eq same]
    exact List.map_congr_left fun k _ => word_put_outside (.inr (Nat.le_add_right ..))
  have words : (List.range stack.offset).map (stack.put slot kind value).word =
      (stack.image known).words.take slot ++ Operand.words kind value ++
        (stack.image known).words.drop (slot + (Ty.scalar kind).words) := by
    rw [same, map_range_add, map_range_add, below, above, words_put_scalar sound (by omega)]
  rw [← words]
  rfl

theorem image_pushHandle {stack : OperandStack ω} {known after : Known} {handle : Handle} (sound : stack.Sound)
    (room : stack.offset < stack.capacity) :
    image { stack.putHandle stack.offset handle with offset := stack.offset + 1 } after =
      { stack.image known with
        words := (stack.image known).words ++ [.object (stack.handles.object handle)]
        known := after } := by
  have below : (List.range stack.offset).map (stack.putHandle stack.offset handle).word =
      (stack.image known).words :=
    List.map_congr_left fun slot member => word_putHandle_ne (Nat.ne_of_lt (List.mem_range.mp member))
  have words : (List.range (stack.offset + 1)).map (stack.putHandle stack.offset handle).word =
      (stack.image known).words ++ [.object (stack.handles.object handle)] := by
    rw [map_range_add, below, List.range_one, List.map_singleton, Nat.add_zero, word_putHandle_self sound room]
  rw [image_withOffset, words, capacity_putHandle, handles_putHandle]
  rfl

theorem image_writeHandle {stack : OperandStack ω} {known after : Known} {slot : Nat} {handle : Handle}
    (sound : stack.Sound) (live : slot < stack.offset) :
    (stack.putHandle slot handle).image after =
      { stack.image known with
        words := (stack.image known).words.take slot ++ [.object (stack.handles.object handle)] ++
          (stack.image known).words.drop (slot + 1)
        known := after } := by
  have bound := sound.offset_le
  obtain ⟨more, same⟩ := Nat.exists_eq_add_of_le (Nat.succ_le_of_lt live)
  have below : (List.range slot).map (stack.putHandle slot handle).word = (stack.image known).words.take slot := by
    rw [take_words (by omega)]
    exact List.map_congr_left fun place member => word_putHandle_ne (Nat.ne_of_lt (List.mem_range.mp member))
  have above : (List.range more).map (fun k => (stack.putHandle slot handle).word (slot + 1 + k)) =
      (stack.image known).words.drop (slot + 1) := by
    rw [drop_words_eq same]
    exact List.map_congr_left fun k _ => word_putHandle_ne (by omega)
  have words : (List.range stack.offset).map (stack.putHandle slot handle).word =
      (stack.image known).words.take slot ++ [.object (stack.handles.object handle)] ++
        (stack.image known).words.drop (slot + 1) := by
    rw [same, Nat.succ_eq_add_one, map_range_add, map_range_add, below, above, List.range_one, List.map_singleton,
      Nat.add_zero, word_putHandle_self sound (by omega)]
  rw [← words]
  simp only [image, capacity_putHandle, handles_putHandle, offset_putHandle]

/-- Moving words down moves what they stand for. -/
theorem words_moved {stack : OperandStack ω} (known : Known) {src dst words : Nat} (sound : stack.Sound)
    (below : dst ≤ src) (used : src + words ≤ stack.offset) :
    ((stack.moved src dst words).image known).words =
      (List.range dst).map stack.word ++ (List.range words).map fun k => stack.word (src + k) := by
  have low : (List.range dst).map (stack.moved src dst words).word = (List.range dst).map stack.word := by
    refine List.map_congr_left fun slot member => ?_
    have inside := List.mem_range.mp member
    refine word_congr (tag_moved_below sound used inside) (fun _ => load_moved_below sound used inside) fun _ => ?_
    exact congrArg stack.handles.object
      (Bytes.handleAt_congr (load_moved_below sound used inside (Nat.le_refl 8)))
  have high : (List.range words).map (fun k => (stack.moved src dst words).word (dst + k)) =
      (List.range words).map fun k => stack.word (src + k) := by
    refine List.map_congr_left fun k member => ?_
    have inside := List.mem_range.mp member
    refine word_congr (tag_moved_inside sound below used inside)
      (fun _ => load_moved_inside sound below used inside) fun _ => ?_
    exact congrArg stack.handles.object
      (Bytes.handleAt_congr (load_moved_inside sound below used inside (Nat.le_refl 8)))
  rw [← low, ← high, ← map_range_add]
  rfl

end OperandStack

end WordMachine
