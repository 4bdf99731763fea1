import Mathlib.Data.List.Basic
import Mathlib.Data.List.Induction
import Mathlib.Data.List.Perm.Basic
import WordMachine.Proofs.Storage

namespace WordMachine

namespace Pool

variable {α β : Type}

/-- A search that finds nothing has met no entry that fits. -/
theorem lastFit?_eq_none {fits : α → Bool} {free : Array α} {count : Nat} (missing : lastFit? fits free count = none)
    {index : Nat} (searched : index < count) {value : α} (entry : free[index]? = some value) : fits value = false := by
  induction count with
  | zero => exact (Nat.not_lt_zero index searched).elim
  | succ count ih =>
    rw [lastFit?] at missing
    by_cases last : index = count
    · subst last
      rw [entry] at missing
      cases suitable : fits value with
      | true => simp [suitable] at missing
      | false => rfl
    · have earlier : index < count := by omega
      split at missing
      · split at missing
        · cases missing
        · exact ih missing earlier
      · exact ih missing earlier

theorem toList_swapRemove {free : Array α} {last : α} (at_end : free.back? = some last) (index : Nat) :
    (swapRemove free index).toList = (free.toList.set index last).dropLast := by
  rw [swapRemove, at_end]
  dsimp only
  rw [Array.toList_pop, Array.toList_setIfInBounds]

/-- Removing an entry leaves all others, in some order. -/
theorem perm_swapRemove {free : Array α} {index : Nat} {value : α} (entry : free[index]? = some value) :
    free.toList.Perm (value :: (swapRemove free index).toList) := by
  obtain ⟨inside, at_index⟩ := Array.getElem?_eq_some_iff.mp entry
  obtain ⟨init, last, rfl⟩ := Array.exists_push_of_size_pos (Nat.zero_lt_of_lt inside)
  rw [toList_swapRemove Array.back?_push, Array.toList_push]
  by_cases at_end : index = init.size
  · have same : last = value := by
      rw [at_end, Array.getElem?_push_size] at entry
      exact Option.some.inj entry
    have unchanged : (init.toList ++ [last]).set index last = init.toList ++ [last] := by
      rw [at_end, List.set_append_right _ _ (by simp)]
      simp
    rw [unchanged, List.dropLast_concat, same]
    exact List.perm_append_singleton value init.toList
  · have before : index < init.toList.length := by
      rw [Array.size_push] at inside
      rw [Array.length_toList]
      omega
    have found : init.toList[index] = value := by
      rw [Array.getElem?_push_lt (by simpa using before)] at entry
      simpa using entry
    rw [List.set_append_left _ _ before, List.dropLast_concat]
    have others := List.getElem_cons_eraseIdx_perm before
    rw [found] at others
    calc (init.toList ++ [last]).Perm (last :: init.toList) := List.perm_append_singleton last init.toList
      List.Perm _ (last :: value :: init.toList.eraseIdx index) := others.symm.cons last
      List.Perm _ (value :: last :: init.toList.eraseIdx index) := .swap ..
      List.Perm _ (value :: init.toList.set index last) := (List.set_perm_cons_eraseIdx before last).symm.cons value

/-- A pool hands out the value that is made for it exactly if no value that waits fits. Otherwise it hands out one that
does and loses only this one. -/
theorem acquireWhere_cases (pool : Pool α) (fits : α → Bool) (make : Unit → α) :
    ((∀ value ∈ pool.free, fits value = false) ∧ pool.acquireWhere fits make = (make (), pool.missed)) ∨
      ∃ value rest, pool.acquireWhere fits make = (value, rest) ∧ fits value = true ∧
        pool.free.toList.Perm (value :: rest.free.toList) ∧ rest.retain = pool.retain ∧
        rest.stats = { pool.stats with reuses := pool.stats.reuses + 1 } := by
  obtain ⟨retain, free, stats⟩ := pool
  simp only [acquireWhere, take?]
  cases found : lastFit? fits free free.size with
  | none =>
    refine .inl ⟨fun value member => ?_, rfl⟩
    obtain ⟨index, inside, entry⟩ := Array.mem_iff_getElem.mp member
    exact lastFit?_eq_none found inside (Array.getElem?_eq_some_iff.mpr ⟨inside, entry⟩)
  | some entry =>
    obtain ⟨index, value⟩ := entry
    obtain ⟨at_index, suitable⟩ := lastFit?_eq_some found
    exact .inr ⟨value, _, rfl, suitable, perm_swapRemove at_index, rfl, rfl⟩

theorem release_of_lt {pool : Pool α} (room : pool.free.size < pool.retain) (value : α) :
    pool.release value =
      ⟨pool.retain, pool.free.push value, { pool.stats with releases := pool.stats.releases + 1 }⟩ :=
  if_pos room

theorem release_of_ge {pool : Pool α} (full : pool.retain ≤ pool.free.size) (value : α) :
    pool.release value = { pool with stats := { pool.stats with discarded := pool.stats.discarded + 1 } } :=
  if_neg (Nat.not_lt.mpr full)

/-- The pool with every value replaced. -/
def map (f : α → β) (pool : Pool α) : Pool β where
  retain := pool.retain
  free := pool.free.map f
  stats := pool.stats

theorem lastFit?_map (f : α → β) (fits : β → Bool) (free : Array α) (count : Nat) :
    lastFit? fits (free.map f) count =
      (lastFit? (fun value => fits (f value)) free count).map fun entry => (entry.1, f entry.2) := by
  induction count with
  | zero => rfl
  | succ count ih =>
    simp only [lastFit?, Array.getElem?_map]
    cases free[count]? with
    | none => exact ih
    | some value =>
      simp only [Option.map_some]
      split
      · rfl
      · exact ih

theorem swapRemove_map (f : α → β) (free : Array α) (index : Nat) :
    swapRemove (free.map f) index = (swapRemove free index).map f := by
  unfold swapRemove
  rw [Array.back?_map]
  cases free.back? with
  | none => rfl
  | some last => simp only [Option.map_some, Array.map_pop, Array.map_setIfInBounds]

theorem acquireWhere_map (f : α → β) (pool : Pool α) (fits : β → Bool) (make : Unit → α) :
    (pool.map f).acquireWhere fits (fun _ => f (make ())) =
      (f (pool.acquireWhere (fun value => fits (f value)) make).1,
        (pool.acquireWhere (fun value => fits (f value)) make).2.map f) := by
  obtain ⟨retain, free, stats⟩ := pool
  simp only [acquireWhere, take?, map, lastFit?_map, Array.size_map]
  cases lastFit? (fun value => fits (f value)) free free.size with
  | none => rfl
  | some entry => simp only [Option.map_some, swapRemove_map]

theorem release_map (f : α → β) (pool : Pool α) (value : α) :
    (pool.map f).release (f value) = (pool.release value).map f := by
  obtain ⟨retain, free, stats⟩ := pool
  simp only [map, release, Array.size_map]
  split
  · rw [Array.map_push]
  · rfl

end Pool

/-- What a pool can be asked for. -/
inductive PoolRequest (α : Type)
  | acquire (make : Unit → α)
  | acquireWhere (fits : α → Bool) (make : Unit → α)
  | release (value : α)

namespace PoolRequest

variable {α : Type}

def isRelease : PoolRequest α → Bool
  | release _ => true
  | _ => false

theorem eq_release {request : PoolRequest α} (kind : request.isRelease = true) : ∃ value, request = release value := by
  cases request with
  | acquire make => cases kind
  | acquireWhere fits make => cases kind
  | release value => exact ⟨value, rfl⟩

/-- The request at a time, with this time written on the value that it gives back or that has to be made for it. -/
def stamped (time : Nat) : PoolRequest α → PoolRequest (Nat × α)
  | acquire make => acquire fun _ => (time, make ())
  | acquireWhere fits make => acquireWhere (fun entry => fits entry.2) fun _ => (time, make ())
  | release value => release (time, value)

end PoolRequest

namespace Pool

variable {α : Type}

/-- The value that a request is given, if it wants one, and the pool after it. -/
def serve (pool : Pool α) : PoolRequest α → Option α × Pool α
  | .acquire make => (some (pool.acquire make).1, (pool.acquire make).2)
  | .acquireWhere fits make => (some (pool.acquireWhere fits make).1, (pool.acquireWhere fits make).2)
  | .release value => (none, pool.release value)

/-- The pool that a sequence of requests leaves behind. -/
def after (retain : Nat) (requests : List (PoolRequest α)) : Pool α :=
  requests.foldl (fun pool request => (pool.serve request).2) (empty retain)

/-- Every request for a value is one for a value that fits. -/
theorem serve_of_acquiring {request : PoolRequest α} (kind : request.isRelease = false) (pool : Pool (Nat × α))
    (time : Nat) : ∃ (fits : Nat × α → Bool) (make : Unit → α), pool.serve (request.stamped time) =
      (some (pool.acquireWhere fits fun _ => (time, make ())).1,
        (pool.acquireWhere fits fun _ => (time, make ())).2) := by
  cases request with
  | acquire make => exact ⟨fun _ => true, make, rfl⟩
  | acquireWhere fits make => exact ⟨fun entry => fits entry.2, make, rfl⟩
  | release value => cases kind

/-- A pool does not look at the times on its values. -/
theorem serve_stamped (pool : Pool (Nat × α)) (request : PoolRequest α) (time : Nat) :
    (pool.map Prod.snd).serve request =
      ((pool.serve (request.stamped time)).1.map Prod.snd, (pool.serve (request.stamped time)).2.map Prod.snd) := by
  have acquired := fun fits (make : Unit → α) => acquireWhere_map Prod.snd pool fits fun _ => (time, make ())
  cases request with
  | acquire make =>
    simp only [serve, acquire, PoolRequest.stamped, acquired, Option.map_some]
  | acquireWhere fits make => simp only [serve, PoolRequest.stamped, acquired, Option.map_some]
  | release value =>
    simp only [serve, PoolRequest.stamped, ← release_map, Option.map_none]

end Pool

/-- What becomes of a request: a value is made or one is handed out that was given back at some time; a value that is
given back is kept or dropped. -/
inductive PoolEvent (α : Type)
  | made (value : α)
  | reused (since : Nat) (value : α)
  | kept
  | dropped

namespace PoolEvent

variable {α : Type}

/-- When the value was given back that is handed out. -/
def since? : PoolEvent α → Option Nat
  | reused since _ => some since
  | _ => none

def isDropped : PoolEvent α → Bool
  | dropped => true
  | _ => false

end PoolEvent

/-- A pool whose values tell when they were given back, and what became of each request. -/
structure PoolRun (α : Type) where
  pool : Pool (Nat × α)
  log : List (PoolEvent α)

namespace PoolRun

variable {α : Type}

/-- What becomes of the next request. It shows in the time on the value that is handed out and in the number of values
that wait. -/
def event (run : PoolRun α) (request : PoolRequest α) : PoolEvent α :=
  match run.pool.serve (request.stamped run.log.length) with
  | (some (since, value), _) => if since = run.log.length then .made value else .reused since value
  | (none, next) => if run.pool.idle < next.idle then .kept else .dropped

def next (run : PoolRun α) (request : PoolRequest α) : PoolRun α where
  pool := (run.pool.serve (request.stamped run.log.length)).2
  log := run.log ++ [run.event request]

/-- The run of a sequence of requests. -/
def of (retain : Nat) (requests : List (PoolRequest α)) : PoolRun α :=
  requests.foldl next ⟨.empty retain, []⟩

/-- The times at which the values that wait were given back. -/
def idleTimes (run : PoolRun α) : List Nat :=
  run.pool.free.toList.map Prod.fst

theorem of_append (retain : Nat) (requests : List (PoolRequest α)) (request : PoolRequest α) :
    of retain (requests ++ [request]) = (of retain requests).next request := by
  unfold of
  rw [List.foldl_append]
  rfl

/-- Without the times it is the run of the pool. -/
theorem map_of (retain : Nat) (requests : List (PoolRequest α)) :
    (of retain requests).pool.map Prod.snd = Pool.after retain requests := by
  induction requests using List.reverseRecOn with
  | nil => simp [of, Pool.after, Pool.map, Pool.empty]
  | append_singleton requests request ih =>
    have served := Pool.serve_stamped (of retain requests).pool request (of retain requests).log.length
    rw [ih] at served
    rw [of_append]
    unfold Pool.after at served ⊢
    rw [List.foldl_append]
    exact (congrArg Prod.snd served).symm

/-- What can become of a request, as long as all times on values that wait are past. -/
theorem next_cases (run : PoolRun α) (request : PoolRequest α)
    (past : ∀ entry ∈ run.pool.free, entry.1 < run.log.length) :
    (request.isRelease = false ∧ ∃ value, run.next request = ⟨run.pool.missed, run.log ++ [.made value]⟩) ∨
    (request.isRelease = false ∧ ∃ since value rest, run.next request = ⟨rest, run.log ++ [.reused since value]⟩ ∧
      run.pool.free.toList.Perm ((since, value) :: rest.free.toList) ∧ rest.retain = run.pool.retain ∧
      rest.stats = { run.pool.stats with reuses := run.pool.stats.reuses + 1 }) ∨
    (∃ value, request = .release value ∧ run.pool.free.size < run.pool.retain ∧ run.next request =
      ⟨⟨run.pool.retain, run.pool.free.push (run.log.length, value),
        { run.pool.stats with releases := run.pool.stats.releases + 1 }⟩, run.log ++ [.kept]⟩) ∨
    ∃ value, request = .release value ∧ run.next request =
      ⟨{ run.pool with stats := { run.pool.stats with discarded := run.pool.stats.discarded + 1 } },
        run.log ++ [.dropped]⟩ := by
  cases kind : request.isRelease with
  | false =>
    obtain ⟨fits, make, served⟩ := Pool.serve_of_acquiring kind run.pool run.log.length
    rcases run.pool.acquireWhere_cases fits fun _ => (run.log.length, make ()) with
      ⟨_, acquired⟩ | ⟨⟨since, value⟩, rest, acquired, _, perm, retain_eq, stats_eq⟩
    · refine .inl ⟨rfl, make (), ?_⟩
      simp only [next, event, served, acquired, if_pos]
    · have waiting : (since, value) ∈ run.pool.free :=
        Array.mem_toList_iff.mp (perm.mem_iff.mpr (List.mem_cons_self ..))
      have earlier : since ≠ run.log.length := Nat.ne_of_lt (past _ waiting)
      refine .inr (.inl ⟨rfl, since, value, rest, ?_, perm, retain_eq, stats_eq⟩)
      simp only [next, event, served, acquired, if_neg earlier]
  | true =>
    obtain ⟨value, rfl⟩ := PoolRequest.eq_release kind
    refine .inr (.inr ?_)
    by_cases room : run.pool.free.size < run.pool.retain
    · refine .inl ⟨value, rfl, room, ?_⟩
      simp only [next, event, Pool.serve, PoolRequest.stamped, Pool.release_of_lt room, Pool.idle, Array.size_push,
        Nat.lt_succ_self, if_pos]
    · refine .inr ⟨value, rfl, ?_⟩
      simp only [next, event, Pool.serve, PoolRequest.stamped, Pool.release_of_ge (Nat.not_lt.mp room), Pool.idle,
        Nat.lt_irrefl, if_false]

/-- The account of a run: every value that was given back waits, was handed out again later, or was dropped, and the
counters tell how many there are of each kind. -/
structure Accounts (run : PoolRun α) (retain : Nat) (requests : List (PoolRequest α)) : Prop where
  length_eq : run.log.length = requests.length
  retain_eq : run.pool.retain = retain
  size_le : run.pool.free.size ≤ retain
  conserved : (run.idleTimes ++ run.log.filterMap PoolEvent.since? ++ run.log.findIdxs PoolEvent.isDropped).Perm
    (requests.findIdxs PoolRequest.isRelease)
  waiting : ∀ entry ∈ run.pool.free, requests[entry.1]? = some (.release entry.2)
  handed : ∀ (time since : Nat) (value : α), run.log[time]? = some (.reused since value) →
    since < time ∧ requests[since]? = some (.release value)
  acquires : run.pool.stats.allocations + run.pool.stats.reuses = requests.countP fun request => !request.isRelease
  reuses : run.pool.stats.reuses = (run.log.filterMap PoolEvent.since?).length
  releases : run.pool.stats.releases = run.pool.free.size + run.pool.stats.reuses
  discarded : run.pool.stats.discarded = run.log.countP PoolEvent.isDropped

namespace Accounts

variable {run : PoolRun α} {retain : Nat} {requests : List (PoolRequest α)}

theorem start (retain : Nat) : Accounts (⟨.empty retain, []⟩ : PoolRun α) retain [] where
  length_eq := rfl
  retain_eq := rfl
  size_le := Nat.zero_le _
  conserved := .refl _
  waiting _ member := (Array.not_mem_empty _ member).elim
  handed _ _ _ found := by simp at found
  acquires := rfl
  reuses := rfl
  releases := rfl
  discarded := rfl

theorem past (accounts : Accounts run retain requests) : ∀ entry ∈ run.pool.free, entry.1 < run.log.length := by
  intro entry member
  rw [accounts.length_eq]
  exact (List.getElem?_eq_some_iff.mp (accounts.waiting entry member)).1

theorem total (accounts : Accounts run retain requests) :
    run.pool.free.size + run.pool.stats.reuses + run.pool.stats.discarded =
      requests.countP PoolRequest.isRelease := by
  have lengths := accounts.conserved.length_eq
  simp only [idleTimes, List.length_append, List.length_map, Array.length_toList, List.length_findIdxs] at lengths
  rw [accounts.reuses, accounts.discarded, lengths]

theorem getElem?_append {request other : PoolRequest α} {time : Nat} (found : requests[time]? = some request) :
    (requests ++ [other])[time]? = some request := by
  rw [List.getElem?_append_left (List.getElem?_eq_some_iff.mp found).1, found]

/-- What was handed out before stays so, and what is handed out now was waiting. -/
theorem handed_append (accounts : Accounts run retain requests) (request : PoolRequest α) {event : PoolEvent α}
    (now : ∀ since value, event = .reused since value → (since, value) ∈ run.pool.free) {time since : Nat} {value : α}
    (found : (run.log ++ [event])[time]? = some (.reused since value)) :
    since < time ∧ (requests ++ [request])[since]? = some (.release value) := by
  by_cases earlier : time < run.log.length
  · rw [List.getElem?_append_left earlier] at found
    obtain ⟨before, released⟩ := accounts.handed time since value found
    exact ⟨before, getElem?_append released⟩
  · rw [List.getElem?_append_right (Nat.not_lt.mp earlier)] at found
    have member := now since value (List.mem_singleton.mp (List.mem_of_getElem? found)).symm
    have before := accounts.past _ member
    exact ⟨by omega, getElem?_append (accounts.waiting _ member)⟩

/-- The account goes on over a request if what becomes of it balances: each time leaves the values that wait as often as
it comes to those that are handed out or dropped, unless it is that of a value given back now. -/
theorem concat (accounts : Accounts run retain requests) {request : PoolRequest α} {event : PoolEvent α}
    {pool : Pool (Nat × α)} (retain_eq : pool.retain = run.pool.retain) (size_le : pool.free.size ≤ retain)
    (balance : ∀ time, (pool.free.toList.map Prod.fst).count time + event.since?.toList.count time +
        (if event.isDropped then [requests.length] else []).count time =
      run.idleTimes.count time + (if request.isRelease then [requests.length] else []).count time)
    (waiting : ∀ entry ∈ pool.free, entry ∈ run.pool.free ∨ entry.1 = requests.length ∧ request = .release entry.2)
    (now : ∀ since value, event = .reused since value → (since, value) ∈ run.pool.free)
    (acquires : pool.stats.allocations + pool.stats.reuses =
      run.pool.stats.allocations + run.pool.stats.reuses + if request.isRelease then 0 else 1)
    (reuses : pool.stats.reuses = run.pool.stats.reuses + event.since?.toList.length)
    (releases : pool.stats.releases = pool.free.size + pool.stats.reuses)
    (discarded : pool.stats.discarded = run.pool.stats.discarded + if event.isDropped then 1 else 0) :
    Accounts ⟨pool, run.log ++ [event]⟩ retain (requests ++ [request]) where
  length_eq := by
    rw [List.length_append, List.length_append, accounts.length_eq]
    rfl
  retain_eq := retain_eq.trans accounts.retain_eq
  size_le := size_le
  conserved := by
    have handed : (run.log ++ [event]).filterMap PoolEvent.since? =
        run.log.filterMap PoolEvent.since? ++ event.since?.toList := by
      rw [List.filterMap_append, List.filterMap_cons, List.filterMap_nil]
      cases event.since? <;> rfl
    have conserved := List.perm_iff_count.mp accounts.conserved
    refine List.perm_iff_count.mpr fun time => ?_
    have before := conserved time
    have change := balance time
    rw [handed, List.findIdxs_append, List.findIdxs_append, List.findIdxs_singleton, List.findIdxs_singleton,
      accounts.length_eq, Nat.zero_add]
    simp only [idleTimes, List.count_append] at before change ⊢
    omega
  waiting entry member := by
    obtain old | ⟨latest, released⟩ := waiting entry member
    · exact getElem?_append (accounts.waiting entry old)
    · rw [latest, released, List.getElem?_concat_length]
  handed _ _ _ found := accounts.handed_append request now found
  acquires := by
    rw [List.countP_append, ← accounts.acquires, acquires, List.countP_singleton]
    cases request.isRelease <;> rfl
  reuses := by
    rw [List.filterMap_append, List.length_append, ← accounts.reuses, reuses, List.filterMap_cons, List.filterMap_nil]
    cases event.since? <;> rfl
  releases := releases
  discarded := by
    rw [List.countP_append, ← accounts.discarded, discarded, List.countP_singleton]

/-- A request that a new value is made for changes nothing but a counter. -/
theorem made (accounts : Accounts run retain requests) {request : PoolRequest α} (kind : request.isRelease = false)
    (value : α) : Accounts ⟨run.pool.missed, run.log ++ [.made value]⟩ retain (requests ++ [request]) := by
  refine accounts.concat rfl accounts.size_le ?_ ?_ nofun ?_ rfl accounts.releases rfl
  · intro time
    rw [kind]
    rfl
  · exact fun entry member => .inl member
  · rw [kind]
    exact Nat.add_right_comm ..

/-- A value that is handed out no longer waits. -/
theorem reused (accounts : Accounts run retain requests) {request : PoolRequest α} (kind : request.isRelease = false)
    {since : Nat} {value : α} {rest : Pool (Nat × α)}
    (perm : run.pool.free.toList.Perm ((since, value) :: rest.free.toList)) (retain_eq : rest.retain = run.pool.retain)
    (stats_eq : rest.stats = { run.pool.stats with reuses := run.pool.stats.reuses + 1 }) :
    Accounts ⟨rest, run.log ++ [.reused since value]⟩ retain (requests ++ [request]) := by
  have size_eq : run.pool.free.size = rest.free.size + 1 := by simpa using perm.length_eq
  have members : ∀ entry, entry = (since, value) ∨ entry ∈ rest.free → entry ∈ run.pool.free := by
    intro entry member
    rw [← Array.mem_toList_iff] at member ⊢
    exact perm.mem_iff.mpr (List.mem_cons.mpr member)
  have size_le := accounts.size_le
  have releases := accounts.releases
  refine accounts.concat retain_eq (by omega) ?_ (fun entry member => .inl (members entry (.inr member))) ?_ ?_ ?_ ?_ ?_
  · intro time
    have idle := (perm.map Prod.fst).count_eq time
    rw [List.map_cons, ← List.singleton_append, List.count_append] at idle
    rw [kind, idleTimes, idle]
    change _ + [since].count time + 0 = [since].count time + _ + 0
    omega
  · rintro _ _ ⟨⟩
    exact members _ (.inl rfl)
  · rw [stats_eq, kind]
    rfl
  · rw [stats_eq]
    rfl
  · rw [stats_eq]
    change run.pool.stats.releases = rest.free.size + (run.pool.stats.reuses + 1)
    omega
  · rw [stats_eq]
    rfl

theorem kept (accounts : Accounts run retain requests) (value : α) (room : run.pool.free.size < run.pool.retain) :
    Accounts ⟨⟨run.pool.retain, run.pool.free.push (run.log.length, value),
      { run.pool.stats with releases := run.pool.stats.releases + 1 }⟩, run.log ++ [.kept]⟩ retain
      (requests ++ [.release value]) := by
  have retain_eq := accounts.retain_eq
  have releases := accounts.releases
  have size : (run.pool.free.push (run.log.length, value)).size = run.pool.free.size + 1 := Array.size_push _
  refine accounts.concat rfl (by rw [size]; omega) ?_ ?_ nofun rfl rfl ?_ rfl
  · intro time
    rw [Array.toList_push, List.map_append, List.count_append, accounts.length_eq]
    rfl
  · intro entry member
    rcases Array.mem_push.mp member with old | rfl
    · exact .inl old
    · exact .inr ⟨accounts.length_eq, rfl⟩
  · rw [size]
    change run.pool.stats.releases + 1 = run.pool.free.size + 1 + run.pool.stats.reuses
    omega

theorem dropped (accounts : Accounts run retain requests) (value : α) :
    Accounts ⟨{ run.pool with stats := { run.pool.stats with discarded := run.pool.stats.discarded + 1 } },
      run.log ++ [.dropped]⟩ retain (requests ++ [.release value]) :=
  accounts.concat rfl accounts.size_le (fun _ => rfl) (fun _ member => .inl member) nofun rfl rfl accounts.releases rfl

theorem next (accounts : Accounts run retain requests) (request : PoolRequest α) :
    Accounts (run.next request) retain (requests ++ [request]) := by
  rcases run.next_cases request accounts.past with
    ⟨kind, value, step⟩ | ⟨kind, since, value, rest, step, perm, retain_eq, stats_eq⟩ | ⟨value, rfl, room, step⟩ |
      ⟨value, rfl, step⟩
  · rw [step]
    exact accounts.made kind value
  · rw [step]
    exact accounts.reused kind perm retain_eq stats_eq
  · rw [step]
    exact accounts.kept value room
  · rw [step]
    exact accounts.dropped value

end Accounts

theorem accounts_of (retain : Nat) (requests : List (PoolRequest α)) :
    Accounts (of retain requests) retain requests := by
  induction requests using List.reverseRecOn with
  | nil => exact .start retain
  | append_singleton requests request ih =>
    rw [of_append]
    exact ih.next request

end PoolRun

/-- Whatever a pool is asked for, it never keeps more than it may. Every value that was given back waits once, was
handed out once later, or was dropped and counted as such, and nothing else waits or is handed out again. A value is
made only if none that waits fits; otherwise one that fits leaves the pool and all others stay. A value is dropped only
if the pool is full. The counters agree with the requests. -/
theorem Pool.values_conserved {α : Type} (retain : Nat) (requests : List (PoolRequest α)) :
    let pool := after retain requests
    let run := PoolRun.of retain requests
    run.pool.map Prod.snd = pool ∧ pool.idle ≤ retain ∧
    (run.idleTimes ++ run.log.filterMap PoolEvent.since? ++ run.log.findIdxs PoolEvent.isDropped).Perm
      (requests.findIdxs PoolRequest.isRelease) ∧
    (∀ entry ∈ run.pool.free, requests[entry.1]? = some (.release entry.2)) ∧
    (∀ (time since : Nat) (value : α), run.log[time]? = some (.reused since value) →
      since < time ∧ requests[since]? = some (.release value)) ∧
    pool.stats.discarded = run.log.countP PoolEvent.isDropped ∧
    (∀ (fits : α → Bool) (make : Unit → α),
      ((∀ value ∈ pool.free, fits value = false) → pool.acquireWhere fits make = (make (), pool.missed)) ∧
      ((∃ value ∈ pool.free, fits value = true) → ∃ value rest, pool.acquireWhere fits make = (value, rest) ∧
        fits value = true ∧ pool.free.toList.Perm (value :: rest.free.toList) ∧
        rest.stats = { pool.stats with reuses := pool.stats.reuses + 1 })) ∧
    (∀ value, pool.idle < retain → (pool.release value).free = pool.free.push value) ∧
    pool.stats.allocations + pool.stats.reuses = requests.countP (fun request => !request.isRelease) ∧
    pool.stats.releases + pool.stats.discarded = requests.countP PoolRequest.isRelease ∧
    pool.idle = pool.stats.releases - pool.stats.reuses := by
  intro pool run
  have accounts : run.Accounts retain requests := PoolRun.accounts_of retain requests
  have plain : run.pool.map Prod.snd = pool := PoolRun.map_of retain requests
  have idle_eq : pool.idle = run.pool.free.size := by
    rw [← plain]
    exact Array.size_map
  have stats_eq : pool.stats = run.pool.stats := by
    rw [← plain]
    rfl
  have total : pool.idle + pool.stats.reuses + pool.stats.discarded = requests.countP PoolRequest.isRelease := by
    rw [idle_eq, stats_eq]
    exact accounts.total
  have releases : pool.stats.releases = pool.idle + pool.stats.reuses := by
    rw [stats_eq, idle_eq]
    exact accounts.releases
  have retain_eq : pool.retain = retain := by
    rw [← plain]
    exact accounts.retain_eq
  refine ⟨plain, idle_eq ▸ accounts.size_le, accounts.conserved, accounts.waiting, accounts.handed, ?_, ?_, ?_, ?_, ?_,
    ?_⟩
  · rw [stats_eq]
    exact accounts.discarded
  · intro fits make
    rcases pool.acquireWhere_cases fits make with ⟨none, made⟩ | ⟨value, rest, reused, suitable, perm, _, stats⟩
    · refine ⟨fun _ => made, ?_⟩
      rintro ⟨value, member, suitable⟩
      rw [none value member] at suitable
      cases suitable
    · refine ⟨fun none => ?_, fun _ => ⟨value, rest, reused, suitable, perm, stats⟩⟩
      have member : value ∈ pool.free := Array.mem_toList_iff.mp (perm.mem_iff.mpr (List.mem_cons_self ..))
      rw [none value member] at suitable
      cases suitable
  · intro value room
    rw [← retain_eq] at room
    rw [release_of_lt room]
  · rw [stats_eq]
    exact accounts.acquires
  · omega
  · omega

end WordMachine
