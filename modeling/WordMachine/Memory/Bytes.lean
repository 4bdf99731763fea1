import WordMachine.Arithmetic

namespace WordMachine

/-- Byte memory. Numbers stand in it with their low byte first. -/
abbrev Bytes := Array UInt8

namespace Bytes

/-- The number in the `count` bytes from `start` on. -/
def load (memory : Bytes) (start : Nat) : Nat → Nat
  | 0 => 0
  | count + 1 => (memory.getD start 0).toNat + 256 * load memory (start + 1) count

/-- Writes the low `count` bytes of a number from `start` on and leaves all other bytes alone. -/
def store (memory : Bytes) (start value : Nat) : Nat → Bytes
  | 0 => memory
  | count + 1 => store (memory.setIfInBounds start (UInt8.ofNat value)) (start + 1) (value / 256) count

/-- As many zero bytes as asked for. -/
def zeros (count : Nat) : Bytes :=
  Array.replicate count 0

theorem size_store (memory : Bytes) (start value count : Nat) :
    (memory.store start value count).size = memory.size := by
  induction count generalizing memory start value with
  | zero => rfl
  | succ count ih => rw [store, ih, Array.size_setIfInBounds]

/-- Bytes before the ones written stay as they are. -/
theorem getD_store_of_lt {memory : Bytes} {start value count i : Nat} (before : i < start) :
    (memory.store start value count).getD i 0 = memory.getD i 0 := by
  induction count generalizing memory start value with
  | zero => rfl
  | succ count ih =>
    rw [store, ih (by omega)]
    simp only [Array.getD_eq_getD_getElem?]
    rw [Array.getElem?_setIfInBounds_ne (by omega)]

/-- A number depends only on its own bytes. -/
theorem load_congr {memory other : Bytes} {start count : Nat}
    (same : ∀ i, start ≤ i → i < start + count → memory.getD i 0 = other.getD i 0) :
    memory.load start count = other.load start count := by
  induction count generalizing start with
  | zero => rfl
  | succ count ih =>
    rw [load, load, same start (by omega) (by omega), ih fun i lower upper => same i (by omega) (by omega)]

/-- What is stored is read back, up to the bytes that were not written. -/
theorem load_store {memory : Bytes} {start value count : Nat} (room : start + count ≤ memory.size) :
    (memory.store start value count).load start count = value % 256 ^ count := by
  induction count generalizing memory start value with
  | zero => simp [load, Nat.mod_one]
  | succ count ih =>
    rw [store, load, ih (by simp; omega), getD_store_of_lt (by omega)]
    have first : ((memory.setIfInBounds start (UInt8.ofNat value)).getD start 0).toNat = value % 256 := by
      simp [Array.getElem?_setIfInBounds_self_of_lt (show start < memory.size by omega)]
    rw [first, Nat.pow_succ', Nat.mod_mul]

end Bytes

end WordMachine
