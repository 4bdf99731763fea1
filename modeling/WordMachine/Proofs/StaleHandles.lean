import WordMachine.Proofs.HandleMap

namespace WordMachine

/-- The handle that is issued for a request, as far as the answer tells. Null is handed back for null but never
issued. -/
def HandleRequest.issued? {ω : Type} : (request : HandleRequest ω) → Except Fault request.Reply → Option Handle
  | .alloc _, .ok handle => some handle
  | .duplicate source, .ok copy => if source = Handle.null then none else some copy
  | _, _ => none

namespace HandleTable

variable {ω : Type} {table next : HandleTable ω} {request : HandleRequest ω} {issued : Option Handle} {slot : Nat}
  {generation : UInt64} {object : ω}

/-- The table after some more requests. -/
def after (table : HandleTable ω) (requests : List (HandleRequest ω)) : HandleTable ω :=
  requests.foldl (fun table request => (table.serve request).2) table

/-- The object in a slot. -/
def objectAt (table : HandleTable ω) (slot : Nat) : Option ω :=
  table.slots[slot]?.bind Slot.object

/-- A request takes the object out of a slot. -/
def vacates (table : HandleTable ω) (slot : Nat) (request : HandleRequest ω) : Bool :=
  (table.objectAt slot).isSome && ((table.serve request).2.objectAt slot).isNone

/-- How often a sequence of requests takes an object out of a slot. -/
def vacations (slot : Nat) (table : HandleTable ω) : List (HandleRequest ω) → Nat
  | [] => 0
  | request :: rest => (table.vacates slot request).toNat + vacations slot (table.serve request).2 rest

theorem after_append (table : HandleTable ω) (earlier later : List (HandleRequest ω)) :
    table.after (earlier ++ later) = (table.after earlier).after later :=
  List.foldl_append ..

theorem objectAt_of_slot {content : Slot ω} (at_slot : table.slots[slot]? = some content) :
    table.objectAt slot = content.object := by
  rw [objectAt, at_slot]
  rfl

theorem vacates_eq {content last : Slot ω} (before : table.slots[slot]? = some content)
    (step : (table.serve request).2.slots[slot]? = some last) :
    table.vacates slot request = (content.object.isSome && last.object.isNone) := by
  rw [vacates, objectAt_of_slot before, objectAt_of_slot step]

/-- A request that takes nothing back. -/
def Spares (table : HandleTable ω) (request : HandleRequest ω) : Prop :=
  request ≠ .clear ∧ ∀ handle, request = .release handle → table.locate? handle = none

/-- What a request does to a table: nothing, or an object is stored under the handle that is issued, or one is taken
back with its handle, or all are. -/
inductive Turns (table : HandleTable ω) : HandleRequest ω → Option Handle → HandleTable ω → Prop
  | idle {request : HandleRequest ω} (spares : table.Spares request) : Turns table request none table
  | store {request : HandleRequest ω} (spares : table.Spares request) (object : ω) :
      Turns table request (some (table.alloc object).1) (table.alloc object).2
  | takeBack {handle : Handle} {index : Nat} {object : ω} (located : table.locate? handle = some (index, object)) :
      Turns table (.release handle) none (table.vacate index)
  | clear : Turns table .clear none table.clear

theorem locate?_of_get_error {handle : Handle} {fault : Fault} (invalid : table.get handle = .error fault) :
    table.locate? handle = none := by
  cases located : table.locate? handle with
  | none => rfl
  | some place =>
    rw [get_of_locate? located] at invalid
    cases invalid

theorem locate?_null (table : HandleTable ω) : table.locate? Handle.null = none := by
  rw [locate?, unpack?_eq, if_pos (by decide)]

/-- Only a release or a clearing takes anything back. -/
theorem spares_of_ne (released : ∀ handle, request ≠ .release handle) (cleared : request ≠ .clear) :
    table.Spares request :=
  ⟨cleared, fun handle same => absurd same (released handle)⟩

theorem spares_release {handle : Handle} (missing : table.locate? handle = none) :
    table.Spares (.release handle) := by
  refine ⟨by simp, ?_⟩
  rintro _ ⟨⟩
  exact missing

theorem serve_turns (table : HandleTable ω) (request : HandleRequest ω) :
    table.Turns request (request.issued? (table.serve request).1) (table.serve request).2 := by
  cases request with
  | alloc object => exact .store (spares_of_ne (by simp) (by simp)) object
  | duplicate handle =>
    have spares : table.Spares (.duplicate handle) := spares_of_ne (by simp) (by simp)
    rcases table.get_cases handle with ⟨rfl, got⟩ | ⟨real, object, got⟩ | ⟨real, invalid⟩
    · simp only [serve, duplicate, got, HandleRequest.issued?, if_true]
      exact .idle spares
    · simp only [serve, duplicate, got, HandleRequest.issued?, if_neg real]
      exact .store spares object
    · rw [serve_of_get_error rfl real invalid]
      exact .idle spares
  | get handle => exact .idle (spares_of_ne (by simp) (by simp))
  | release handle =>
    rcases table.get_cases handle with ⟨rfl, _⟩ | ⟨_, object, got⟩ | ⟨real, invalid⟩
    · simp only [serve, table.release_null]
      exact .idle (spares_release table.locate?_null)
    · obtain ⟨index, located⟩ := get_eq_some_iff.mp got
      simp only [serve, release_of_locate? located]
      exact .takeBack located
    · rw [serve_of_get_error rfl real invalid]
      exact .idle (spares_release (locate?_of_get_error invalid))
  | clear => exact .clear

theorem Consistent.turns (consistent : table.Consistent) (turns : table.Turns request issued next) :
    next.Consistent := by
  cases turns with
  | idle => exact consistent
  | store _ object => exact consistent.alloc object
  | takeBack located =>
    obtain ⟨generation, _, _, filled⟩ := locate?_eq_some_iff.mp located
    exact consistent.vacate filled
  | clear => exact consistent.clear

theorem Turns.size_le (turns : table.Turns request issued next) : table.slots.size ≤ next.slots.size := by
  cases turns with
  | idle => exact Nat.le_refl _
  | store _ object => exact table.size_le_alloc object
  | takeBack => exact Nat.le_of_eq (table.size_vacate _).symm
  | clear => exact Nat.le_of_eq table.size_clear.symm

theorem consistent_after (consistent : table.Consistent) (requests : List (HandleRequest ω)) :
    (table.after requests).Consistent := by
  induction requests generalizing table with
  | nil => exact consistent
  | cons request rest ih => exact ih (consistent.turns (table.serve_turns request))

theorem size_le_after (table : HandleTable ω) (requests : List (HandleRequest ω)) :
    table.slots.size ≤ (table.after requests).slots.size := by
  induction requests generalizing table with
  | nil => exact Nat.le_refl _
  | cons request rest ih => exact Nat.le_trans (table.serve_turns request).size_le (ih (table.serve request).2)

/-- An empty slot stays in its generation, whether it is filled or not. -/
theorem Turns.slot_of_empty (turns : table.Turns request issued next) (consistent : table.Consistent)
    (empty : table.slots[slot]? = some ⟨generation, none⟩) :
    ∃ object, next.slots[slot]? = some ⟨generation, object⟩ := by
  cases turns with
  | idle => exact ⟨none, empty⟩
  | store _ object =>
    obtain ⟨index, filling, _, filled, before, others⟩ := alloc_slot consistent object
    by_cases same : slot = index
    · subst same
      rw [empty] at before
      obtain absent | known := before
      · cases absent
      · cases known
        exact ⟨some object, filled⟩
    · exact ⟨none, (others slot same).trans empty⟩
  | @takeBack handle index object located =>
    obtain ⟨_, _, _, filled⟩ := locate?_eq_some_iff.mp located
    have other : slot ≠ index := by
      rintro rfl
      rw [filled] at empty
      cases empty
    exact ⟨none, (slot_vacate_ne other).trans empty⟩
  | clear =>
    refine ⟨none, ?_⟩
    simp only [HandleTable.clear, Array.getElem?_map, empty, Option.map_some, Slot.vacate]

/-- A slot keeps its object until the handle of its generation is taken back, or all are. Then it is empty and in the
next generation. -/
theorem Turns.slot_of_filled (turns : table.Turns request issued next) (consistent : table.Consistent)
    (filled : table.slots[slot]? = some ⟨generation, some object⟩) (fits : slot + 1 < 2 ^ 32) :
    ((request = .release (pack slot generation) ∨ request = .clear) ∧
      next.slots[slot]? = some ⟨generation + 1, none⟩) ∨
    (request ≠ .release (pack slot generation) ∧ request ≠ .clear ∧
      next.slots[slot]? = some ⟨generation, some object⟩) := by
  have located := locate?_eq_some_iff.mpr ⟨generation, fits, rfl, filled⟩
  have spared : table.Spares request → request ≠ .release (pack slot generation) ∧ request ≠ .clear := by
    rintro ⟨kept, missing⟩
    refine ⟨fun taken => ?_, kept⟩
    rw [missing _ taken] at located
    cases located
  cases turns with
  | idle spares => exact .inr ⟨(spared spares).1, (spared spares).2, filled⟩
  | store spares stored =>
    obtain ⟨index, filling, _, _, before, others⟩ := alloc_slot consistent stored
    have other : slot ≠ index := by
      rintro rfl
      rw [filled] at before
      obtain absent | empty := before
      · cases absent
      · cases empty
    exact .inr ⟨(spared spares).1, (spared spares).2, (others slot other).trans filled⟩
  | @takeBack handle index taken at_handle =>
    obtain ⟨current, _, packed, at_index⟩ := locate?_eq_some_iff.mp at_handle
    by_cases same : slot = index
    · subst same
      rw [filled] at at_index
      cases at_index
      exact .inl ⟨.inl (congrArg _ packed), slot_vacate filled⟩
    · refine .inr ⟨fun own => ?_, nofun, (slot_vacate_ne same).trans filled⟩
      rw [HandleRequest.release.inj own, located] at at_handle
      cases at_handle
      exact same rfl
  | clear =>
    refine .inl ⟨.inr rfl, ?_⟩
    simp only [HandleTable.clear, Array.getElem?_map, filled, Option.map_some, Slot.vacate]

/-- A request that vacates a slot moves it on by one generation, and no other does. -/
theorem generation_serve {content : Slot ω} (consistent : table.Consistent)
    (at_slot : table.slots[slot]? = some content) (fits : slot + 1 < 2 ^ 32) (request : HandleRequest ω) :
    ∃ next, (table.serve request).2.slots[slot]? = some next ∧
      next.generation = content.generation + UInt64.ofNat (table.vacates slot request).toNat := by
  have turns := table.serve_turns request
  obtain ⟨generation, object⟩ := content
  cases object with
  | none =>
    obtain ⟨object, step⟩ := turns.slot_of_empty consistent at_slot
    refine ⟨_, step, ?_⟩
    rw [vacates_eq at_slot step]
    exact (UInt64.add_zero generation).symm
  | some object =>
    obtain ⟨_, step⟩ | ⟨_, _, step⟩ := turns.slot_of_filled consistent at_slot fits
    · refine ⟨_, step, ?_⟩
      rw [vacates_eq at_slot step]
      rfl
    · refine ⟨_, step, ?_⟩
      rw [vacates_eq at_slot step]
      exact (UInt64.add_zero generation).symm

/-- The generation of a slot counts how often it was vacated, up to wrapping around. -/
theorem generation_after {content : Slot ω} (consistent : table.Consistent)
    (at_slot : table.slots[slot]? = some content) (fits : slot + 1 < 2 ^ 32) (requests : List (HandleRequest ω)) :
    ∃ last, (table.after requests).slots[slot]? = some last ∧
      last.generation = content.generation + UInt64.ofNat (vacations slot table requests) := by
  induction requests generalizing table content with
  | nil => exact ⟨content, at_slot, (UInt64.add_zero _).symm⟩
  | cons request rest ih =>
    obtain ⟨next, step, moved⟩ := generation_serve consistent at_slot fits request
    obtain ⟨last, reached, counted⟩ := ih (consistent.turns (table.serve_turns request)) step
    refine ⟨last, reached, ?_⟩
    rw [counted, moved, vacations, UInt64.ofNat_add, UInt64.add_assoc]

/-- As long as neither its handle nor all handles are taken back, a slot keeps its object. -/
theorem slot_after_of_kept (consistent : table.Consistent)
    (filled : table.slots[slot]? = some ⟨generation, some object⟩) (fits : slot + 1 < 2 ^ 32)
    {requests : List (HandleRequest ω)} (kept : .release (pack slot generation) ∉ requests)
    (uncleared : .clear ∉ requests) :
    vacations slot table requests = 0 ∧ (table.after requests).slots[slot]? = some ⟨generation, some object⟩ := by
  induction requests generalizing table with
  | nil => exact ⟨rfl, filled⟩
  | cons request rest ih =>
    obtain ⟨own, kept⟩ := not_or.mp (mt List.mem_cons.mpr kept)
    obtain ⟨other, uncleared⟩ := not_or.mp (mt List.mem_cons.mpr uncleared)
    have turns := table.serve_turns request
    obtain ⟨taken | taken, _⟩ | ⟨_, _, step⟩ := turns.slot_of_filled consistent filled fits
    · exact absurd taken.symm own
    · exact absurd taken.symm other
    · obtain ⟨none, reached⟩ := ih (consistent.turns turns) step kept uncleared
      refine ⟨?_, reached⟩
      rw [vacations, none, vacates_eq filled step]
      rfl

/-- Once its handle or all handles are taken back, a slot has been vacated. -/
theorem vacations_pos (consistent : table.Consistent)
    (filled : table.slots[slot]? = some ⟨generation, some object⟩) (fits : slot + 1 < 2 ^ 32)
    {requests : List (HandleRequest ω)} (taken : .release (pack slot generation) ∈ requests ∨ .clear ∈ requests) :
    0 < vacations slot table requests := by
  induction requests generalizing table with
  | nil => simp at taken
  | cons request rest ih =>
    have turns := table.serve_turns request
    rw [vacations]
    obtain ⟨_, step⟩ | ⟨own, other, step⟩ := turns.slot_of_filled consistent filled fits
    · rw [vacates_eq filled step]
      exact Nat.add_pos_left Nat.one_pos _
    · refine Nat.add_pos_right _ (ih (consistent.turns turns) step ?_)
      rw [List.mem_cons, List.mem_cons] at taken
      exact taken.imp (fun found => found.resolve_left (Ne.symm own)) fun found => found.resolve_left (Ne.symm other)

/-- What a handle has of a generation comes back only after going all the way around. -/
theorem generation_add_eq_iff (generation : UInt64) (count : Nat) :
    (generation + UInt64.ofNat count) &&& indexMask = generation &&& indexMask ↔ 2 ^ 32 ∣ count := by
  rw [← UInt64.toNat_inj, toNat_and_indexMask, toNat_and_indexMask, UInt64.toNat_add, UInt64.toNat_ofNat']
  omega

/-- A handle is accepted if its slot has come back to what it has of a generation and is not empty. -/
theorem get_eq_some_of_slot {last : Slot ω} (at_slot : table.slots[slot]? = some last) (fits : slot + 1 < 2 ^ 32) :
    table.get (pack slot generation) = .ok (some object) ↔
      last.generation &&& indexMask = generation &&& indexMask ∧ last.object = some object := by
  rw [get_eq_some_iff]
  constructor
  · rintro ⟨index, located⟩
    obtain ⟨current, within, packed, at_index⟩ := locate?_eq_some_iff.mp located
    obtain ⟨rfl, same⟩ := pack_inj fits within packed
    rw [at_slot] at at_index
    cases at_index
    exact ⟨same.symm, rfl⟩
  · rintro ⟨same, known⟩
    obtain ⟨current, content⟩ := last
    dsimp only at same known
    subst known
    have packed : pack slot generation = pack slot current := by rw [pack, pack, same]
    exact ⟨slot, locate?_eq_some_iff.mpr ⟨current, fits, packed, at_slot⟩⟩

/-- A handle is issued for the generation of a slot that was empty, or new. -/
theorem Turns.issued_slot {handle : Handle} (turns : table.Turns request (some handle) next)
    (consistent : table.Consistent) (small : table.Small) :
    ∃ slot generation object, slot + 1 < 2 ^ 32 ∧ handle = pack slot generation ∧
      next.slots[slot]? = some ⟨generation, some object⟩ ∧
      ∀ last, table.slots[slot]? = some last → last.generation = generation := by
  cases turns with
  | store _ object =>
    obtain ⟨slot, generation, issued, filled, before, _⟩ := alloc_slot consistent object
    have inside := lt_size_of_slot filled
    have grown := consistent.size_alloc object
    have balance := consistent.live_eq
    refine ⟨slot, generation, object, ?_, issued, filled, fun last known => ?_⟩
    · unfold Small at small
      omega
    · rw [known] at before
      obtain absent | empty := before
      · cases absent
      · cases empty
        rfl

/-- A handle whose slot is in another generation is good for nothing, and is not issued. -/
theorem rejects_of_generation_ne {last : Slot ω} (consistent : table.Consistent) (small : table.Small)
    (at_slot : table.slots[slot]? = some last) (fits : slot + 1 < 2 ^ 32)
    (stale : last.generation &&& indexMask ≠ generation &&& indexMask) :
    (∀ request : HandleRequest ω, request.handle? = some (pack slot generation) →
      table.serve request = (.error (.invalidHandle (pack slot generation)), table)) ∧
    ∀ request : HandleRequest ω, request.issued? (table.serve request).1 ≠ some (pack slot generation) := by
  constructor
  · intro request refers
    obtain ⟨null, _⟩ | ⟨_, object, got⟩ | ⟨real, invalid⟩ := table.get_cases (pack slot generation)
    · exact absurd null (pack_ne_null fits)
    · exact absurd ((get_eq_some_of_slot at_slot fits).mp got).1 stale
    · exact serve_of_get_error refers real invalid
  · intro request again
    have turns := table.serve_turns request
    rw [again] at turns
    obtain ⟨other, current, _, within, packed, _, before⟩ := turns.issued_slot consistent small
    obtain ⟨rfl, same⟩ := pack_inj fits within packed
    exact stale (by rw [before last at_slot, same])

/-- A handle is good for its object until it is taken back, by itself or with all others. From then on, until its slot
has been vacated 2 ^ 32 times since it was issued, every request for it is rejected and changes nothing, and it is not
issued again. It is good again exactly when this number is a multiple of 2 ^ 32 and the slot is filled. -/
theorem stale_until_wrapped (earlier later : List (HandleRequest ω)) {request : HandleRequest ω} {handle : Handle}
    (issued : request.issued? ((empty.after earlier).serve request).1 = some handle)
    (small : (empty.after (earlier ++ request :: later)).Small) :
    ∃ slot generation object, unpack? handle = some (slot, generation) ∧
      let current := empty.after (earlier ++ request :: later)
      let count := vacations slot (empty.after (earlier ++ [request])) later
      (.release handle ∉ later ∧ .clear ∉ later → current.get handle = .ok (some object)) ∧
      (.release handle ∈ later ∨ .clear ∈ later → 0 < count ∧
        (count < 2 ^ 32 →
          (∀ again : HandleRequest ω, again.handle? = some handle →
            current.serve again = (.error (.invalidHandle handle), current)) ∧
          ∀ again : HandleRequest ω, again.issued? (current.serve again).1 ≠ some handle)) ∧
      ∀ found, current.get handle = .ok (some found) ↔ 2 ^ 32 ∣ count ∧ current.objectAt slot = some found := by
  have run : (empty : HandleTable ω).after (earlier ++ request :: later) =
      (empty.after (earlier ++ [request])).after later := by
    rw [← after_append, List.append_assoc, List.singleton_append]
  have step : (empty : HandleTable ω).after (earlier ++ [request]) = ((empty.after earlier).serve request).2 :=
    after_append ..
  have start : ((empty : HandleTable ω).after earlier).Consistent := consistent_after empty_consistent earlier
  have turns := (empty.after earlier).serve_turns request
  rw [issued, ← step] at turns
  have sizes := Nat.le_trans turns.size_le ((empty.after (earlier ++ [request])).size_le_after later)
  rw [← run] at sizes
  obtain ⟨slot, generation, object, fits, rfl, filled, _⟩ :=
    turns.issued_slot start (Nat.lt_of_le_of_lt sizes small)
  have consistent := start.turns turns
  have final := consistent_after consistent later
  obtain ⟨last, reached, counted⟩ := generation_after consistent filled fits later
  rw [← run] at final reached
  refine ⟨slot, generation &&& indexMask, object, unpack?_eq_some_iff.mpr ⟨fits, rfl⟩, ?_, ?_, ?_⟩
  · rintro ⟨kept, uncleared⟩
    have unchanged := (slot_after_of_kept consistent filled fits kept uncleared).2
    rw [← run] at unchanged
    exact (get_eq_some_of_slot unchanged fits).mpr ⟨rfl, rfl⟩
  · intro taken
    have positive := vacations_pos consistent filled fits taken
    refine ⟨positive, fun few => rejects_of_generation_ne final small reached fits ?_⟩
    rw [counted]
    intro wrapped
    exact Nat.not_dvd_of_pos_of_lt positive few ((generation_add_eq_iff _ _).mp wrapped)
  · intro found
    rw [get_eq_some_of_slot reached fits, counted, generation_add_eq_iff, objectAt_of_slot reached]

/-- A second handle is released and its slot is used again twice, with a clearing in between. The slot is filled in the
end, and still the handle is rejected. -/
theorem stale_until_wrapped_of_reuse :
    let current := (empty : HandleTable Nat).after
      [.alloc 7, .duplicate (pack 0 0), .release (pack 1 0), .alloc 8, .clear, .alloc 9]
    current.objectAt 1 = some 9 ∧
      current.serve (.release (pack 1 0)) = (.error (.invalidHandle (pack 1 0)), current) := by
  have issued : HandleRequest.issued? (.duplicate (pack 0 0))
      (((empty : HandleTable Nat).after [.alloc 7]).serve (.duplicate (pack 0 0))).1 = some (pack 1 0) := by decide
  obtain ⟨slot, generation, _, place, _, stale, _⟩ :=
    stale_until_wrapped [.alloc 7] [.release (pack 1 0), .alloc 8, .clear, .alloc 9] issued (by decide +kernel)
  have own : unpack? (pack 1 0) = some (1, 0) := by decide
  cases own.symm.trans place
  have cleared : HandleRequest.clear ∈ [.release (pack 1 0), .alloc 8, .clear, .alloc 9] := by simp
  obtain ⟨_, rejected⟩ := stale (.inr cleared)
  exact ⟨by decide +kernel, (rejected (by decide +kernel)).1 (.release (pack 1 0)) rfl⟩

end HandleTable

end WordMachine
