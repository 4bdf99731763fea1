import WordMachine.Text.Record

namespace WordMachine

/-- How a pool has been used. -/
structure PoolStats where
  /-- Values that had to be made. -/
  allocations : Nat
  /-- Values that were handed out again. -/
  reuses : Nat
  /-- Values that were given back and kept. -/
  releases : Nat
  /-- Values that were given back to a full pool. -/
  discarded : Nat
deriving DecidableEq

namespace PoolStats

def zero : PoolStats := ⟨0, 0, 0, 0⟩

/-- The counters as a diagnostic record. -/
def record (stats : PoolStats) : String :=
  recordText "PoolStats"
    [("allocations", toString stats.allocations), ("reuses", toString stats.reuses),
      ("releases", toString stats.releases), ("discarded", toString stats.discarded)]

end PoolStats

/-- Values kept for reuse, at most `retain` of them. -/
structure Pool (α : Type) where
  retain : Nat
  free : Array α
  stats : PoolStats

namespace Pool

variable {α : Type}

def empty (retain : Nat) : Pool α := ⟨retain, #[], .zero⟩

/-- How many values wait for reuse. -/
def idle (pool : Pool α) : Nat :=
  pool.free.size

/-- The last of the first `count` entries that fits. -/
def lastFit? (fits : α → Bool) (free : Array α) : Nat → Option (Nat × α)
  | 0 => none
  | count + 1 =>
    match free[count]? with
    | some value => if fits value then some (count, value) else lastFit? fits free count
    | none => lastFit? fits free count

/-- Removes an entry; the last entry takes its place. -/
def swapRemove (free : Array α) (index : Nat) : Array α :=
  match free.back? with
  | some last => (free.setIfInBounds index last).pop
  | none => free

/-- Hands out the last value that fits, if there is one. -/
def take? : Pool α → (α → Bool) → Option (α × Pool α)
  | ⟨retain, free, stats⟩, fits =>
    match lastFit? fits free free.size with
    | some (index, value) =>
      some (value, ⟨retain, swapRemove free index, { stats with reuses := stats.reuses + 1 }⟩)
    | none => none

/-- Counts a value that had to be made. -/
def missed (pool : Pool α) : Pool α :=
  { pool with stats := { pool.stats with allocations := pool.stats.allocations + 1 } }

/-- Hands out the last value that fits, or else the made one. -/
def acquireWhere (pool : Pool α) (fits : α → Bool) (make : Unit → α) : α × Pool α :=
  match pool.take? fits with
  | some found => found
  | none => (make (), pool.missed)

/-- Hands out any value, or else the made one. -/
def acquire (pool : Pool α) (make : Unit → α) : α × Pool α :=
  pool.acquireWhere (fun _ => true) make

/-- Takes a value back; a full pool lets it go. -/
def release : Pool α → α → Pool α
  | ⟨retain, free, stats⟩, value =>
    if free.size < retain then
      ⟨retain, free.push value, { stats with releases := stats.releases + 1 }⟩
    else
      ⟨retain, free, { stats with discarded := stats.discarded + 1 }⟩

/-- The pool as a diagnostic record. -/
def record (pool : Pool α) : String :=
  recordText "Pool"
    [("retain", toString pool.retain), ("idle", toString pool.idle), ("stats", pool.stats.record)]

end Pool

end WordMachine
