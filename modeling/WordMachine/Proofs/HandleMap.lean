import Mathlib.Data.Finmap
import WordMachine.Proofs.Ownership

namespace WordMachine

/-- What a table of handles can be asked for. The handles may be any, also ones that were never issued. -/
inductive HandleRequest (ω : Type)
  | alloc (object : ω)
  | duplicate (handle : Handle)
  | get (handle : Handle)
  | release (handle : Handle)
  | clear

namespace HandleRequest

variable {ω : Type}

/-- What is answered: a new handle, the object of a handle, or the number of handles that were still out. -/
def Reply : HandleRequest ω → Type
  | alloc _ => Handle
  | duplicate _ => Handle
  | get _ => Option ω
  | release _ => Option ω
  | clear => Nat

/-- The handle that a request refers to. -/
def handle? : HandleRequest ω → Option Handle
  | alloc _ => none
  | duplicate handle => some handle
  | get handle => some handle
  | release handle => some handle
  | clear => none

end HandleRequest

/-- A request together with the answer to it. -/
abbrev HandleExchange (ω : Type) := (request : HandleRequest ω) × Except Fault request.Reply

/-- The handles that are out, each with its object. -/
abbrev Outstanding (ω : Type) := Finmap fun _ : Handle => ω

namespace Outstanding

variable {ω : Type}

/-- How a map answers a request and what becomes of it. A handle that is issued may be any that is neither null nor
out; nothing else is left open. -/
inductive Answers : Outstanding ω → (request : HandleRequest ω) → Except Fault request.Reply → Outstanding ω → Prop
  | alloc {map : Outstanding ω} {object : ω} {handle : Handle} (issued : handle ≠ Handle.null) (unused : handle ∉ map) :
      Answers map (.alloc object) (.ok handle) (map.insert handle object)
  | duplicate {map : Outstanding ω} {handle copy : Handle} {object : ω} (found : map.lookup handle = some object)
      (issued : copy ≠ Handle.null) (unused : copy ∉ map) :
      Answers map (.duplicate handle) (.ok copy) (map.insert copy object)
  | duplicateNull {map : Outstanding ω} : Answers map (.duplicate Handle.null) (.ok Handle.null) map
  | get {map : Outstanding ω} {handle : Handle} {object : ω} (found : map.lookup handle = some object) :
      Answers map (.get handle) (.ok (some object)) map
  | getNull {map : Outstanding ω} : Answers map (.get Handle.null) (.ok none) map
  | release {map : Outstanding ω} {handle : Handle} {object : ω} (found : map.lookup handle = some object) :
      Answers map (.release handle) (.ok (some object)) (map.erase handle)
  | releaseNull {map : Outstanding ω} : Answers map (.release Handle.null) (.ok none) map
  | clear {map : Outstanding ω} : Answers map .clear (.ok map.keys.card) ∅
  | rejected {map : Outstanding ω} {request : HandleRequest ω} {handle : Handle}
      (refers : request.handle? = some handle) (issued : handle ≠ Handle.null) (unknown : handle ∉ map) :
      Answers map request (.error (.invalidHandle handle)) map

/-- The maps that can come of a sequence of requests with these answers. -/
inductive Answered : List (HandleExchange ω) → Outstanding ω → Prop
  | start : Answered [] ∅
  | next {log : List (HandleExchange ω)} {map next : Outstanding ω} {request : HandleRequest ω}
      {reply : Except Fault request.Reply} (answered : Answered log map) (answers : map.Answers request reply next) :
      Answered (log ++ [⟨request, reply⟩]) next

theorem keys_insert (map : Outstanding ω) (handle : Handle) (object : ω) :
    Finmap.keys (map.insert handle object) = insert handle map.keys := by
  ext other
  simp only [Finmap.mem_keys, Finmap.mem_insert, Finset.mem_insert]

theorem card_insert {map : Outstanding ω} {handle : Handle} (unused : handle ∉ map) (object : ω) :
    (Finmap.keys (map.insert handle object)).card = map.keys.card + 1 := by
  rw [keys_insert]
  exact Finset.card_insert_of_notMem (mt Finmap.mem_keys.mp unused)

theorem card_erase {map : Outstanding ω} {handle : Handle} (known : handle ∈ map) :
    (Finmap.keys (map.erase handle)).card + 1 = map.keys.card := by
  rw [Finmap.keys_erase]
  exact Finset.card_erase_add_one (Finmap.mem_keys.mpr known)

end Outstanding

namespace HandleTable

variable {ω : Type}

/-- The answer to a request and the table after it. A request that is rejected leaves the table as it is. -/
def serve (table : HandleTable ω) : (request : HandleRequest ω) → Except Fault request.Reply × HandleTable ω
  | .alloc object => (.ok (table.alloc object).1, (table.alloc object).2)
  | .duplicate handle =>
    match table.duplicate handle with
    | .ok (copy, next) => (.ok copy, next)
    | .error fault => (.error fault, table)
  | .get handle => (table.get handle, table)
  | .release handle =>
    match table.release handle with
    | .ok (object, next) => (.ok object, next)
    | .error fault => (.error fault, table)
  | .clear => (.ok table.live, table.clear)

/-- A table that stands for a map: handles refer to the objects that the map gives them, and it counts them right. -/
structure Represents (table : HandleTable ω) (map : Outstanding ω) : Prop where
  consistent : table.Consistent
  get_iff : ∀ handle object, table.get handle = .ok (some object) ↔ map.lookup handle = some object
  live_eq : table.live = map.keys.card

theorem empty_represents : (empty : HandleTable ω).Represents ∅ where
  consistent := empty_consistent
  get_iff handle object := by
    rw [get_eq_some_iff, Finmap.lookup_empty]
    constructor
    · rintro ⟨index, located⟩
      obtain ⟨generation, _, _, filled⟩ := locate?_eq_some_iff.mp located
      simp [empty] at filled
    · intro found
      cases found
  live_eq := rfl

/-- A request for a handle that is not out is rejected and changes nothing. -/
theorem serve_of_get_error {table : HandleTable ω} {request : HandleRequest ω} {handle : Handle}
    (refers : request.handle? = some handle) (issued : handle ≠ Handle.null)
    (invalid : table.get handle = .error (.invalidHandle handle)) :
    table.serve request = (.error (.invalidHandle handle), table) := by
  cases request with
  | alloc object => cases refers
  | duplicate other =>
    cases refers
    simp only [serve, duplicate, invalid]
  | get other =>
    cases refers
    simp only [serve, invalid]
    rfl
  | release other =>
    cases refers
    simp only [serve, release_of_get_error issued invalid]
  | clear => cases refers

namespace Represents

variable {table : HandleTable ω} {map : Outstanding ω}

theorem notMem_of_locate? (represents : table.Represents map) {handle : Handle}
    (missing : table.locate? handle = none) : handle ∉ map := by
  intro known
  obtain ⟨object, found⟩ := Finmap.mem_iff.mp known
  obtain ⟨index, located⟩ := get_eq_some_iff.mp ((represents.get_iff handle object).mpr found)
  rw [missing] at located
  cases located

theorem notMem_of_get_error (represents : table.Represents map) {handle : Handle} {fault : Fault}
    (invalid : table.get handle = .error fault) : handle ∉ map := by
  intro known
  obtain ⟨object, found⟩ := Finmap.mem_iff.mp known
  have got := (represents.get_iff handle object).mpr found
  rw [invalid] at got
  cases got

theorem null_notMem (represents : table.Represents map) : Handle.null ∉ map := by
  intro known
  obtain ⟨object, found⟩ := Finmap.mem_iff.mp known
  have got := (represents.get_iff Handle.null object).mpr found
  rw [table.get_null] at got
  cases got

/-- An issued handle is bound to its object and nothing else changes. -/
theorem alloc (represents : table.Represents map) (small : table.Small) (object : ω) :
    (table.alloc object).1 ≠ Handle.null ∧ (table.alloc object).1 ∉ map ∧
      (table.alloc object).2.Represents (map.insert (table.alloc object).1 object) := by
  -- the table may have one slot more afterwards, and that is the last one with a handle
  have room : (table.alloc object).2.slots.size < 2 ^ 32 := by
    have grown := represents.consistent.size_alloc object
    have balance := represents.consistent.live_eq
    unfold Small at small
    omega
  obtain ⟨⟨index, issued⟩, fresh, others⟩ := represents.consistent.locate?_alloc_of_lt room
  have unused := represents.notMem_of_locate? fresh
  refine ⟨ne_null_of_locate? issued, unused, represents.consistent.alloc object, ?_, ?_⟩
  · intro handle found
    by_cases same : handle = (table.alloc object).1
    · rw [same, Finmap.lookup_insert, get_of_locate? issued]
      simp only [Except.ok.injEq]
    · rw [Finmap.lookup_insert_of_ne _ same, get_congr (others handle same)]
      exact represents.get_iff handle found
  · rw [live_alloc, represents.live_eq, Outstanding.card_insert unused]

/-- A handle that is taken back loses its binding and nothing else changes. -/
theorem release (represents : table.Represents map) {handle : Handle} {object : ω}
    (got : table.get handle = .ok (some object)) :
    ∃ next, table.release handle = .ok (some object, next) ∧ next.Represents (map.erase handle) ∧
      next.live + 1 = table.live := by
  obtain ⟨index, located⟩ := get_eq_some_iff.mp got
  obtain ⟨generation, _, _, filled⟩ := locate?_eq_some_iff.mp located
  have positive := represents.consistent.live_pos filled
  have known := Finmap.mem_of_lookup_eq_some ((represents.get_iff handle object).mp got)
  have fewer : (table.vacate index).live + 1 = table.live := by
    change table.live - 1 + 1 = table.live
    omega
  refine ⟨table.vacate index, release_of_locate? located, ⟨represents.consistent.vacate filled, ?_, ?_⟩, fewer⟩
  · intro other found
    by_cases same : other = handle
    · rw [same, Finmap.lookup_erase, get_eq_some_iff, (locate?_vacate located).1]
      simp only [reduceCtorEq, exists_false]
    · rw [Finmap.lookup_erase_ne same, get_congr ((locate?_vacate located).2 other same)]
      exact represents.get_iff other found
  · have balance := Outstanding.card_erase known
    have before := represents.live_eq
    omega

theorem clear (represents : table.Represents map) : table.clear.Represents ∅ where
  consistent := represents.consistent.clear
  get_iff handle object := by
    rw [Finmap.lookup_empty, get_eq_some_iff, locate?_clear]
    simp only [reduceCtorEq, exists_false]
  live_eq := rfl

/-- A table in which every index fits into a handle answers a request as the map does for which it stands, and stands
for the next map afterwards. -/
theorem serve (represents : table.Represents map) (small : table.Small) (request : HandleRequest ω) :
    ∃ next, map.Answers request (table.serve request).1 next ∧ (table.serve request).2.Represents next := by
  cases request with
  | alloc object =>
    obtain ⟨issued, unused, after⟩ := represents.alloc small object
    exact ⟨_, .alloc issued unused, after⟩
  | duplicate handle =>
    rcases table.get_cases handle with ⟨rfl, got⟩ | ⟨_, object, got⟩ | ⟨issued, invalid⟩
    · simp only [HandleTable.serve, duplicate, got]
      exact ⟨map, .duplicateNull, represents⟩
    · obtain ⟨issued, unused, after⟩ := represents.alloc small object
      simp only [HandleTable.serve, duplicate, got]
      exact ⟨_, .duplicate ((represents.get_iff handle object).mp got) issued unused, after⟩
    · rw [serve_of_get_error rfl issued invalid]
      exact ⟨map, .rejected rfl issued (represents.notMem_of_get_error invalid), represents⟩
  | get handle =>
    rcases table.get_cases handle with ⟨rfl, got⟩ | ⟨_, object, got⟩ | ⟨issued, invalid⟩
    · simp only [HandleTable.serve, got]
      exact ⟨map, .getNull, represents⟩
    · simp only [HandleTable.serve, got]
      exact ⟨map, .get ((represents.get_iff handle object).mp got), represents⟩
    · rw [serve_of_get_error rfl issued invalid]
      exact ⟨map, .rejected rfl issued (represents.notMem_of_get_error invalid), represents⟩
  | release handle =>
    rcases table.get_cases handle with ⟨rfl, got⟩ | ⟨_, object, got⟩ | ⟨issued, invalid⟩
    · simp only [HandleTable.serve, table.release_null]
      exact ⟨map, .releaseNull, represents⟩
    · obtain ⟨next, released, after, _⟩ := represents.release got
      simp only [HandleTable.serve, released]
      exact ⟨_, .release ((represents.get_iff handle object).mp got), after⟩
    · rw [serve_of_get_error rfl issued invalid]
      exact ⟨map, .rejected rfl issued (represents.notMem_of_get_error invalid), represents⟩
  | clear =>
    have counted : table.serve .clear = (.ok map.keys.card, table.clear) := by
      rw [← represents.live_eq]
      rfl
    rw [counted]
    exact ⟨∅, .clear, represents.clear⟩

end Represents

/-- The tables that can come of a sequence of requests with these answers, as long as the table has few enough slots
whenever a request comes. -/
inductive Served : List (HandleExchange ω) → HandleTable ω → Prop
  | start : Served [] empty
  | next {log : List (HandleExchange ω)} {table : HandleTable ω} (served : Served log table) (small : table.Small)
      (request : HandleRequest ω) : Served (log ++ [⟨request, (table.serve request).1⟩]) (table.serve request).2

/-- Every run of a table is a run of a map with the same answers. -/
theorem Served.represents {log : List (HandleExchange ω)} {table : HandleTable ω} (served : Served log table) :
    ∃ map : Outstanding ω, map.Answered log ∧ table.Represents map := by
  induction served with
  | start => exact ⟨∅, .start, empty_represents⟩
  | next served small request ih =>
    obtain ⟨map, answered, represents⟩ := ih
    obtain ⟨next, answers, after⟩ := represents.serve small request
    exact ⟨next, answered.next answers, after⟩

/-- Only requests that refer to a handle are rejected, and then nothing happens. -/
theorem serve_error {table : HandleTable ω} {request : HandleRequest ω} {fault : Fault}
    (rejected : (table.serve request).1 = .error fault) :
    (table.serve request).2 = table ∧ ∃ handle, request.handle? = some handle ∧ fault = .invalidHandle handle := by
  have unknown : ∀ handle, request.handle? = some handle → handle ≠ Handle.null →
      table.get handle = .error (.invalidHandle handle) →
      (table.serve request).2 = table ∧ ∃ handle, request.handle? = some handle ∧ fault = .invalidHandle handle := by
    intro handle refers issued invalid
    rw [serve_of_get_error refers issued invalid] at rejected ⊢
    exact ⟨rfl, handle, refers, (Except.error.inj rejected).symm⟩
  cases request with
  | alloc object => cases rejected
  | duplicate handle =>
    rcases table.get_cases handle with ⟨_, got⟩ | ⟨_, object, got⟩ | ⟨issued, invalid⟩
    · simp only [serve, duplicate, got, reduceCtorEq] at rejected
    · simp only [serve, duplicate, got, reduceCtorEq] at rejected
    · exact unknown handle rfl issued invalid
  | get handle =>
    rcases table.get_cases handle with ⟨_, got⟩ | ⟨_, object, got⟩ | ⟨issued, invalid⟩
    · simp only [serve, got, reduceCtorEq] at rejected
    · simp only [serve, got, reduceCtorEq] at rejected
    · exact unknown handle rfl issued invalid
  | release handle =>
    rcases table.get_cases handle with ⟨rfl, got⟩ | ⟨_, object, got⟩ | ⟨issued, invalid⟩
    · simp only [serve, table.release_null, reduceCtorEq] at rejected
    · obtain ⟨index, located⟩ := get_eq_some_iff.mp got
      simp only [serve, release_of_locate? located, reduceCtorEq] at rejected
    · exact unknown handle rfl issued invalid
  | clear => cases rejected

/-- However a table is used, it is a map from the handles that are out to their objects: it gives the answers of the
map, accepts the handles that the map has and counts them. The free list enumerates the empty slots, so there is
something to count down whenever an object is taken back. -/
theorem Served.refines_map {log : List (HandleExchange ω)} {table : HandleTable ω} (served : Served log table) :
    ∃ map : Outstanding ω, map.Answered log ∧ Handle.null ∉ map ∧
      (∀ handle, handle ≠ Handle.null → table.get handle =
        (map.lookup handle).elim (.error (.invalidHandle handle)) fun object => .ok (some object)) ∧
      table.live = map.keys.card ∧
      (table.free.Nodup ∧
        ∀ index, index ∈ table.free ↔ ∃ generation, table.slots[index]? = some ⟨generation, none⟩) ∧
      (∀ request fault, (table.serve request).1 = .error fault → (table.serve request).2 = table ∧
        ∃ handle, request.handle? = some handle ∧ fault = .invalidHandle handle) ∧
      ∀ handle object next, table.release handle = .ok (some object, next) → next.live + 1 = table.live := by
  obtain ⟨map, answered, represents⟩ := served.represents
  have sound := represents.consistent
  refine ⟨map, answered, represents.null_notMem, ?_, represents.live_eq, ⟨sound.free_nodup, sound.mem_free⟩, ?_, ?_⟩
  · intro handle issued
    rcases table.get_cases handle with ⟨null, _⟩ | ⟨_, object, got⟩ | ⟨_, invalid⟩
    · exact absurd null issued
    · rw [got, (represents.get_iff handle object).mp got]
      rfl
    · rw [invalid, Finmap.lookup_eq_none.mpr (represents.notMem_of_get_error invalid)]
      rfl
  · intro request fault rejected
    exact serve_error rejected
  · intro handle object next released
    rcases table.get_cases handle with ⟨rfl, _⟩ | ⟨_, found, got⟩ | ⟨issued, invalid⟩
    · rw [table.release_null] at released
      cases released
    · obtain ⟨after, taken, _, fewer⟩ := represents.release got
      rw [taken] at released
      cases released
      exact fewer
    · rw [release_of_get_error issued invalid] at released
      cases released

/-- A slot that is used again does not answer for the handle that it was issued for first. -/
theorem Served.refines_map_of_reuse :
    ∃ map : Outstanding Nat,
      map.Answered
        [⟨.alloc 7, .ok (pack 0 0)⟩, ⟨.duplicate (pack 0 0), .ok (pack 1 0)⟩, ⟨.release (pack 0 0), .ok (some 7)⟩,
          ⟨.alloc 8, .ok (pack 0 1)⟩, ⟨.get (pack 0 0), .error (.invalidHandle (pack 0 0))⟩] ∧
      map.keys.card = 2 := by
  have served := ((((Served.start.next (by decide) (.alloc 7)).next (by decide) (.duplicate (pack 0 0))).next
    (by decide) (.release (pack 0 0))).next (by decide) (.alloc 8)).next (by decide) (.get (pack 0 0))
  obtain ⟨map, answered, _, _, live, _⟩ := served.refines_map
  exact ⟨map, answered, live.symm⟩

end HandleTable

end WordMachine
