import WordMachine.Proofs.Reuse

namespace WordMachine

namespace Pool

variable {α : Type}

/-- A search finds the last entry that fits. -/
theorem lastFit?_beyond {fits : α → Bool} {free : Array α} {count index : Nat} {value : α}
    (found : lastFit? fits free count = some (index, value)) {later : Nat} (beyond : index < later)
    (searched : later < count) {other : α} (entry : free[later]? = some other) : fits other = false := by
  induction count with
  | zero => cases found
  | succ count ih =>
    rw [lastFit?] at found
    by_cases last : later = count
    · subst last
      rw [entry] at found
      dsimp only at found
      split at found
      · cases found
        exact absurd beyond (Nat.lt_irrefl _)
      · rename_i unfit
        simpa using unfit
    · have earlier : later < count := by omega
      split at found
      · split at found
        · cases found
          omega
        · exact ih found earlier
      · exact ih found earlier

/-- The last entry goes to the place of the one that is removed. -/
theorem toList_swapRemove_of_division {free : Array α} {before after : List α} {value : α}
    (division : free.toList = before ++ value :: after) :
    (swapRemove free before.length).toList = before ++ (after.getLast?.toList ++ after.dropLast) := by
  rcases List.eq_nil_or_concat after with rfl | ⟨rest, final, rfl⟩
  · have at_end : free.back? = some value := by rw [← Array.getLast?_toList, division, List.getLast?_concat]
    rw [toList_swapRemove at_end, division]
    simp
  · rw [List.concat_eq_append, ← List.cons_append, ← List.append_assoc] at division
    have at_end : free.back? = some final := by rw [← Array.getLast?_toList, division, List.getLast?_concat]
    have inside : before.length < (before ++ value :: rest).length := by simp
    rw [toList_swapRemove at_end, division, List.set_append_left _ _ inside, List.dropLast_concat,
      List.set_append_right _ _ (Nat.le_refl _), Nat.sub_self, List.set_cons_zero, List.concat_eq_append,
      List.getLast?_concat, List.dropLast_concat]
    rfl

/-- What is taken from a pool is the last entry that fits. The entries before it stay where they are; the last one of
all takes its place. -/
theorem take?_eq_some {pool rest : Pool α} {fits : α → Bool} {value : α}
    (taken : pool.take? fits = some (value, rest)) :
    ∃ before after, pool.free.toList = before ++ value :: after ∧ (∀ other ∈ after, fits other = false) ∧
      rest.free.toList = before ++ (after.getLast?.toList ++ after.dropLast) := by
  obtain ⟨retain, free, stats⟩ := pool
  rw [take?] at taken
  split at taken
  · rename_i index found search
    cases taken
    obtain ⟨entry, _⟩ := lastFit?_eq_some search
    obtain ⟨inside, at_index⟩ := Array.getElem?_eq_some_iff.mp entry
    have within : index < free.toList.length := inside
    have division : free.toList = free.toList.take index ++ value :: free.toList.drop (index + 1) := by
      rw [← at_index, ← Array.getElem_toList, ← List.drop_eq_getElem_cons within, List.take_append_drop]
    have position : (free.toList.take index).length = index := List.length_take_of_le (Nat.le_of_lt within)
    refine ⟨_, _, division, ?_, ?_⟩
    · intro other member
      obtain ⟨distance, found⟩ := List.mem_iff_getElem?.mp member
      rw [List.getElem?_drop, Array.getElem?_toList] at found
      have beyond := (Array.getElem?_eq_some_iff.mp found).1
      exact lastFit?_beyond search (by omega) beyond found
    · have removed := toList_swapRemove_of_division division
      rw [position] at removed
      exact removed
  · cases taken

/-- What stays in a pool does not go up when something is taken from it. -/
theorem exists_of_take? {pool rest : Pool α} {fits : α → Bool} {value other : α}
    (taken : pool.take? fits = some (value, rest)) {place : Nat} (entry : rest.free[place]? = some other) :
    ∃ former, place ≤ former ∧ pool.free[former]? = some other := by
  obtain ⟨retain, free, stats⟩ := pool
  rw [take?] at taken
  split at taken
  · cases taken
    exact exists_of_swapRemove entry
  · cases taken

/-- A value that was not made for the request is taken from the pool. -/
theorem take?_of_ne_made {pool : Pool α} {fits : α → Bool} {make : Unit → α}
    (reused : (pool.acquireWhere fits make).1 ≠ make ()) :
    pool.take? fits = some (pool.acquireWhere fits make) := by
  unfold acquireWhere at reused ⊢
  cases taken : pool.take? fits with
  | none =>
    rw [taken] at reused
    exact absurd rfl reused
  | some found => rfl

end Pool

/-- The values that a request can be served with. -/
def PoolRequest.accepts {α : Type} : PoolRequest α → α → Bool
  | acquire _, _ => true
  | acquireWhere fits _, value => fits value
  | release _, _ => false

namespace PoolRun

variable {α : Type} {run : PoolRun α} {request : PoolRequest α} {since : Nat} {value : α}

/-- Whatever is asked for next, if it is served with a value that waits, then with the one that was given back last of
those that it accepts. -/
def LatestFirst (run : PoolRun α) : Prop :=
  ∀ request since value, run.event request = .reused since value →
    ∀ entry ∈ run.pool.free, request.accepts entry.2 = true → entry.1 ≤ since

/-- The values wait in the order in which they were given back. -/
def Ascending (run : PoolRun α) : Prop :=
  run.idleTimes.Pairwise (· < ·)

theorem take?_of_acquireWhere (fits : α → Bool) {make : Unit → α}
    (reused : run.event (.acquireWhere fits make) = .reused since value) :
    run.pool.take? (fun entry => fits entry.2) =
      some ((since, value), (run.next (.acquireWhere fits make)).pool) := by
  simp only [event, Pool.serve, PoolRequest.stamped] at reused
  split at reused
  · cases reused
  · rename_i earlier
    rw [Pool.take?_of_ne_made fun made => earlier (congrArg Prod.fst made)]
    cases reused
    rfl

/-- A value that is handed out again is taken from the pool, and is one that the request accepts. -/
theorem take?_of_event (reused : run.event request = .reused since value) :
    run.pool.take? (fun entry => request.accepts entry.2) = some ((since, value), (run.next request).pool) := by
  cases request with
  | acquire make => exact take?_of_acquireWhere (fun _ => true) reused
  | acquireWhere fits make => exact take?_of_acquireWhere fits reused
  | release value =>
    simp only [event, Pool.serve, PoolRequest.stamped] at reused
    split at reused <;> cases reused

theorem event_of_next {pool : Pool (Nat × α)} {event : PoolEvent α}
    (step : run.next request = ⟨pool, run.log ++ [event]⟩) : run.event request = event := by
  have logs := congrArg PoolRun.log step
  exact List.singleton_inj.mp (List.append_cancel_left logs)

/-- A request that accepts everything is not kept waiting. -/
theorem exists_reused (past : ∀ entry ∈ run.pool.free, entry.1 < run.log.length) {entry : Nat × α}
    (waits : entry ∈ run.pool.free) (make : Unit → α) :
    ∃ since value, run.event (.acquire make) = .reused since value := by
  rcases run.pool.acquireWhere_cases (fun _ => true) fun _ => (run.log.length, make ()) with
    ⟨none, _⟩ | ⟨⟨since, value⟩, rest, acquired, _, perm, _⟩
  · cases none entry waits
  · have waiting : (since, value) ∈ run.pool.free :=
      Array.mem_toList_iff.mp (perm.mem_iff.mpr (List.mem_cons_self ..))
    refine ⟨since, value, ?_⟩
    simp only [event, Pool.serve, Pool.acquire, PoolRequest.stamped, acquired, if_neg (Nat.ne_of_lt (past _ waiting))]

theorem Ascending.parts (ascending : run.Ascending) {before after : List (Nat × α)}
    (division : run.pool.free.toList = before ++ (since, value) :: after) :
    (∀ entry ∈ before, entry.1 < since) ∧ (∀ entry ∈ after, since < entry.1) ∧
      (before ++ after).Pairwise fun first second => first.1 < second.1 := by
  unfold Ascending idleTimes at ascending
  rw [List.pairwise_map, division] at ascending
  obtain ⟨sorted, sortedAfter, across⟩ := List.pairwise_append.mp ascending
  obtain ⟨least, sortedAfter⟩ := List.pairwise_cons.mp sortedAfter
  refine ⟨fun entry member => across entry member _ (List.mem_cons_self ..), least, ?_⟩
  exact List.pairwise_append.mpr ⟨sorted, sortedAfter, fun entry member other later =>
    across entry member other (List.mem_cons_of_mem _ later)⟩

/-- In ascending order, those given back later are those behind. -/
theorem Ascending.countP_later (ascending : run.Ascending) {before after : List (Nat × α)}
    (division : run.pool.free.toList = before ++ (since, value) :: after) :
    run.idleTimes.countP (since < ·) = after.length := by
  obtain ⟨earlier, later, _⟩ := ascending.parts division
  have none : before.countP (fun entry => since < entry.1) = 0 := by
    refine List.countP_eq_zero.mpr fun entry member => ?_
    have order := earlier entry member
    simp only [decide_eq_true_eq]
    omega
  have all : after.countP (fun entry => since < entry.1) = after.length := by
    refine List.countP_eq_length.mpr fun entry member => ?_
    simpa using later entry member
  unfold idleTimes
  rw [division, List.countP_map, List.countP_append, List.countP_cons]
  simp [Function.comp_def, none, all]

/-- As long as the values wait in the order in which they were given back, the latest is found first. -/
theorem Ascending.latestFirst (ascending : run.Ascending) : run.LatestFirst := by
  intro request since value reused entry waits accepted
  obtain ⟨before, after, division, unfit, _⟩ := Pool.take?_eq_some (take?_of_event reused)
  obtain ⟨earlier, _, _⟩ := ascending.parts division
  rw [← Array.mem_toList_iff, division, List.mem_append, List.mem_cons] at waits
  obtain found | rfl | behind := waits
  · exact Nat.le_of_lt (earlier entry found)
  · exact Nat.le_refl _
  · rw [unfit entry behind] at accepted
    cases accepted

/-- If a request is served with a value that waits, at most one that was given back later waits too. -/
def TakesFromEnd (run : PoolRun α) (request : PoolRequest α) : Prop :=
  ∀ since value, run.event request = .reused since value → run.idleTimes.countP (since < ·) ≤ 1

/-- The order stays if nothing is handed out while two values wait that were given back later. -/
theorem Ascending.next {retain : Nat} {requests : List (PoolRequest α)} (ascending : run.Ascending)
    (accounts : run.Accounts retain requests) (orderly : run.TakesFromEnd request) : (run.next request).Ascending := by
  rcases run.next_cases request accounts.past with
    ⟨_, value, step⟩ | ⟨_, since, value, rest, step, _⟩ | ⟨value, _, _, step⟩ | ⟨value, _, step⟩
  · rw [step]
    exact ascending
  · have reused := event_of_next step
    obtain ⟨before, after, division, _, left⟩ := Pool.take?_eq_some (take?_of_event reused)
    have few := orderly since value reused
    rw [ascending.countP_later division] at few
    obtain ⟨_, _, sorted⟩ := ascending.parts division
    -- the last entry moves to where it is next in order anyway
    have kept : after.getLast?.toList ++ after.dropLast = after := by
      match after, few with
      | [], _ => rfl
      | [_], _ => rfl
    unfold Ascending idleTimes
    rw [left, kept, List.pairwise_map]
    exact sorted
  · unfold Ascending idleTimes at ascending ⊢
    rw [step, Array.toList_push, List.map_append]
    refine List.pairwise_append.mpr ⟨ascending, List.pairwise_singleton .., ?_⟩
    intro time member latest at_end
    obtain ⟨entry, waits, rfl⟩ := List.mem_map.mp member
    rw [List.mem_singleton.mp at_end]
    exact accounts.past entry (Array.mem_toList_iff.mp waits)
  · rw [step]
    exact ascending

/-- Otherwise the next request that accepts everything is not served with the value that was given back last. -/
theorem Ascending.not_latestFirst_next {retain : Nat} {requests : List (PoolRequest α)} (ascending : run.Ascending)
    (accounts : run.Accounts retain requests) (reused : run.event request = .reused since value)
    (crowded : 1 < run.idleTimes.countP (since < ·)) : ¬(run.next request).LatestFirst := by
  intro latest
  obtain ⟨before, after, division, _, left⟩ := Pool.take?_eq_some (take?_of_event reused)
  rw [ascending.countP_later division] at crowded
  obtain ⟨_, _, sorted⟩ := ascending.parts division
  rcases List.eq_nil_or_concat after with rfl | ⟨others, final, rfl⟩
  · cases crowded
  rcases List.eq_nil_or_concat others with rfl | ⟨middle, second, rfl⟩
  · exact absurd crowded (Nat.lt_irrefl 1)
  simp only [List.concat_eq_append] at left sorted
  have order : second.1 < final.1 := by
    rw [← List.append_assoc, ← List.append_assoc] at sorted
    exact (List.pairwise_append.mp sorted).2.2 second (by simp) final (List.mem_singleton_self _)
  rw [List.getLast?_concat, List.dropLast_concat, Option.toList_some] at left
  -- now the second to last waits behind the last
  have waits : final ∈ (run.next request).pool.free := by
    rw [← Array.mem_toList_iff, left]
    simp
  obtain ⟨again, found, served⟩ := exists_reused (accounts.next request).past waits fun _ => value
  have bound := latest _ again found served final waits rfl
  obtain ⟨front, behind, divided, unfit, _⟩ := Pool.take?_eq_some (take?_of_event served)
  have at_end : behind = [] := List.eq_nil_iff_forall_not_mem.mpr fun other member => nomatch unfit other member
  rw [left, at_end, ← List.append_assoc, ← List.append_assoc] at divided
  obtain ⟨_, same⟩ := List.append_inj' divided rfl
  have time : second.1 = again := congrArg Prod.fst (List.singleton_inj.mp same)
  omega

theorem ascending_of {retain : Nat} {requests : List (PoolRequest α)}
    (orderly : ∀ before request, before ++ [request] <+: requests → (of retain before).TakesFromEnd request) :
    (of retain requests).Ascending := by
  induction requests using List.reverseRecOn with
  | nil => exact .nil
  | append_singleton requests request ih =>
    rw [of_append]
    have ascending := ih fun before other within => orderly before other (within.trans (List.prefix_append ..))
    exact ascending.next (accounts_of retain requests) (orderly requests request (List.prefix_refl _))

/-- The first value that is handed out while two wait that were given back later spoils the order. -/
theorem takesFromEnd_of {retain : Nat} {requests : List (PoolRequest α)}
    (latest : ∀ before, before <+: requests → (of retain before).LatestFirst) {before : List (PoolRequest α)}
    {request : PoolRequest α} (within : before ++ [request] <+: requests) :
    (of retain before).TakesFromEnd request := by
  induction requests using List.reverseRecOn generalizing before request with
  | nil => simp at within
  | append_singleton requests last ih =>
    have earlier := fun {before : List (PoolRequest α)} {request : PoolRequest α} =>
      @ih (fun before within => latest before (within.trans (List.prefix_append ..))) before request
    rcases List.prefix_concat_iff.mp within with same | within
    · obtain ⟨rfl, final⟩ := List.append_inj' same rfl
      cases final
      intro since value reused
      by_contra crowded
      have ascending : (of retain before).Ascending := ascending_of fun _ _ within => earlier within
      have spoiled := ascending.not_latestFirst_next (accounts_of retain before) reused (Nat.not_le.mp crowded)
      rw [← of_append] at spoiled
      exact spoiled (latest _ (List.prefix_refl _))
    · exact earlier within

/-- How many values waited at a time. A value that is kept then is given this place. -/
def placeAt (retain : Nat) (requests : List (PoolRequest α)) (time : Nat) : Nat :=
  (of retain (requests.take time)).pool.idle

theorem placeAt_append (retain : Nat) {requests : List (PoolRequest α)} {time : Nat} (past : time ≤ requests.length)
    (request : PoolRequest α) : placeAt retain (requests ++ [request]) time = placeAt retain requests time := by
  rw [placeAt, placeAt, List.take_append_of_le_length past]

/-- No value waits above the place that it was given, and as long as it is there, those above were given back later. -/
def Settled (retain : Nat) (requests : List (PoolRequest α)) (pool : Pool (Nat × α)) : Prop :=
  ∀ place entry, pool.free[place]? = some entry → place ≤ placeAt retain requests entry.1 ∧
    (place = placeAt retain requests entry.1 →
      ∀ above other, place < above → pool.free[above]? = some other → entry.1 < other.1)

section Settled

variable {retain : Nat} {requests : List (PoolRequest α)} {pool next : Pool (Nat × α)}

/-- Values may go down: one that is still in its place has not moved, and those above it were above it before. -/
theorem Settled.lowered (settled : Settled retain requests pool)
    (past : ∀ entry ∈ pool.free, entry.1 < requests.length)
    (former : ∀ {place : Nat} {entry}, next.free[place]? = some entry →
      ∃ start, place ≤ start ∧ pool.free[start]? = some entry) (request : PoolRequest α) :
    Settled retain (requests ++ [request]) next := by
  intro place entry waits
  obtain ⟨start, down, waited⟩ := former waits
  obtain ⟨bound, above⟩ := settled start entry waited
  rw [placeAt_append retain (Nat.le_of_lt (past entry (Array.mem_of_getElem? waited)))]
  refine ⟨Nat.le_trans down bound, fun still higher other order found => ?_⟩
  obtain ⟨origin, lower, known⟩ := former found
  exact above (by omega) origin other (by omega) known

/-- A value that is given back goes on top of all others. -/
theorem Settled.push (settled : Settled retain requests pool)
    (past : ∀ entry ∈ pool.free, entry.1 < requests.length) (top : placeAt retain requests requests.length = pool.idle)
    (value : α) (stats : PoolStats) :
    Settled retain (requests ++ [.release value]) ⟨pool.retain, pool.free.push (requests.length, value), stats⟩ := by
  intro place entry waits
  dsimp only at waits ⊢
  rw [Array.getElem?_push] at waits
  split at waits
  · rename_i at_top
    cases waits
    rw [placeAt_append retain (Nat.le_refl _), top, at_top]
    refine ⟨Nat.le_refl _, fun _ above other order found => ?_⟩
    have inside := (Array.getElem?_eq_some_iff.mp found).1
    rw [Array.size_push] at inside
    omega
  · obtain ⟨bound, above⟩ := settled place entry waits
    have earlier := past entry (Array.mem_of_getElem? waits)
    rw [placeAt_append retain (Nat.le_of_lt earlier)]
    refine ⟨bound, fun still higher other order found => ?_⟩
    rw [Array.getElem?_push] at found
    split at found
    · cases found
      exact earlier
    · exact above still higher other order found

theorem settled_of (retain : Nat) (requests : List (PoolRequest α)) :
    Settled retain requests (of retain requests).pool := by
  induction requests using List.reverseRecOn with
  | nil =>
    intro place entry waits
    simp [of, Pool.empty] at waits
  | append_singleton requests request ih =>
    have accounts := accounts_of retain requests
    have past := accounts.past
    rw [accounts.length_eq] at past
    have unmoved : ∀ {place : Nat} {entry}, (of retain requests).pool.free[place]? = some entry →
        ∃ start, place ≤ start ∧ (of retain requests).pool.free[start]? = some entry :=
      fun waits => ⟨_, Nat.le_refl _, waits⟩
    rw [of_append]
    rcases (of retain requests).next_cases request accounts.past with
      ⟨_, value, step⟩ | ⟨_, since, value, rest, step, _⟩ | ⟨value, rfl, _, step⟩ | ⟨value, _, step⟩
    · rw [step]
      exact ih.lowered past unmoved request
    · have taken := take?_of_event (event_of_next step)
      exact ih.lowered past (fun waits => Pool.exists_of_take? taken waits) request
    · have top : placeAt retain requests requests.length = (of retain requests).pool.idle := by
        rw [placeAt, List.take_length]
      rw [step, accounts.length_eq]
      exact ih.push past top value _
    · rw [step]
      exact ih.lowered past unmoved request

end Settled

/-- A request overlooks only values that have gone down. -/
theorem lt_placeAt_of_overlooked {retain : Nat} {requests : List (PoolRequest α)} {request : PoolRequest α}
    (reused : (of retain requests).event request = .reused since value) {place : Nat} {entry : Nat × α}
    (waits : (of retain requests).pool.free[place]? = some entry) (accepted : request.accepts entry.2 = true)
    (later : since < entry.1) : place < placeAt retain requests entry.1 := by
  obtain ⟨bound, above⟩ := settled_of retain requests place entry waits
  obtain ⟨before, after, division, unfit, _⟩ := Pool.take?_eq_some (take?_of_event reused)
  by_contra still
  have listed : (before ++ (since, value) :: after)[place]? = some entry := by
    rw [← division, Array.getElem?_toList]
    exact waits
  have below : place < before.length := by
    by_contra beyond
    rw [List.getElem?_append_right (Nat.not_lt.mp beyond)] at listed
    cases distance : place - before.length with
    | zero =>
      rw [distance, List.getElem?_cons_zero] at listed
      cases listed
      exact Nat.lt_irrefl _ later
    | succ rest =>
      rw [distance, List.getElem?_cons_succ] at listed
      rw [unfit entry (List.mem_of_getElem? listed)] at accepted
      cases accepted
  have found : (of retain requests).pool.free[before.length]? = some (since, value) := by
    rw [← Array.getElem?_toList, division, List.getElem?_append_right (Nat.le_refl _), Nat.sub_self,
      List.getElem?_cons_zero]
  have order := above (by omega) before.length (since, value) below found
  exact Nat.lt_asymm order later

end PoolRun

/-- A request that is served with a value that waits overlooks one that was given back later only if this has gone down
from the place that it was given. No request overlooks any, whatever is asked for in between, exactly if no value is
handed out while two or more wait that were given back later. -/
theorem Pool.latest_first_iff {α : Type} (retain : Nat) (requests : List (PoolRequest α)) :
    (PoolRun.of retain requests).pool.map Prod.snd = Pool.after retain requests ∧
    (∀ request since value, (PoolRun.of retain requests).event request = .reused since value →
      ∀ (place : Nat) entry, (PoolRun.of retain requests).pool.free[place]? = some entry →
        request.accepts entry.2 = true → since < entry.1 → place < PoolRun.placeAt retain requests entry.1) ∧
    ((∀ before, before <+: requests → (PoolRun.of retain before).LatestFirst) ↔
      ∀ before request, before ++ [request] <+: requests → (PoolRun.of retain before).TakesFromEnd request) := by
  refine ⟨PoolRun.map_of retain requests, ?_, ?_, ?_⟩
  · intro request since value reused place entry waits accepted later
    exact PoolRun.lt_placeAt_of_overlooked reused waits accepted later
  · intro latest before request within
    exact PoolRun.takesFromEnd_of latest within
  · intro orderly before within
    exact (PoolRun.ascending_of fun _ _ part => orderly _ _ (part.trans within)).latestFirst

namespace Overlooked

/-- Three values are given back, and the first of them is taken again. -/
def requests : List (PoolRequest Nat) :=
  [.release 1, .release 2, .release 3, .acquireWhere (· == 1) fun _ => 0]

end Overlooked

/-- The value that was given back last waits, and still the one before it is handed out. -/
theorem Pool.latest_overlooked :
    (Pool.after 3 Overlooked.requests).free = #[3, 2] ∧
      ((Pool.after 3 Overlooked.requests).acquire fun _ => 0).1 = 2 ∧
      ¬(PoolRun.of 3 Overlooked.requests).LatestFirst := by
  refine ⟨rfl, rfl, fun latest => ?_⟩
  have waits : (PoolRun.of 3 Overlooked.requests).pool.free[0]? = some (2, 3) := rfl
  have bound := latest (.acquire fun _ => 0) 1 2 rfl (2, 3) (Array.mem_of_getElem? waits) rfl
  omega

end WordMachine
