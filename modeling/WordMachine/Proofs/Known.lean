import Mathlib.Logic.Function.Basic
import WordMachine.Proofs.Memory

namespace WordMachine

/-- What is known of the bytes of a memory. -/
abbrev Known := Nat → Option UInt8

namespace Known

def nothing : Known := fun _ => none

/-- The number in the `count` bytes from `start` on, if all of them are known. -/
def load? (known : Known) (start : Nat) : Nat → Option Nat
  | 0 => some 0
  | count + 1 => do
    let byte ← known start
    let rest ← load? known (start + 1) count
    some (byte.toNat + 256 * rest)

/-- The low `count` bytes of a number stand from `start` on. -/
def store (known : Known) (start value : Nat) : Nat → Known
  | 0 => known
  | count + 1 => store (Function.update known start (some (UInt8.ofNat value))) (start + 1) (value / 256) count

/-- Nothing is known any more of `count` bytes from `start` on. -/
def forget (known : Known) (start count : Nat) : Known := fun position =>
  if start ≤ position ∧ position < start + count then none else known position

/-- What is known of `count` bytes from `src` on holds from `dst` on as well. -/
def copy (known : Known) (src dst count : Nat) : Known := fun position =>
  if dst ≤ position ∧ position < dst + count then known (src + (position - dst)) else known position

end Known

namespace Bytes

/-- The bytes that are known are the ones in memory. -/
def Confirms (memory : Bytes) (known : Known) : Prop :=
  ∀ position byte, known position = some byte → memory.getD position 0 = byte

theorem confirms_nothing (memory : Bytes) : memory.Confirms .nothing := by
  intro position byte found
  cases found

theorem Confirms.load {memory : Bytes} {known : Known} (confirms : memory.Confirms known) {start count bits : Nat}
    (found : known.load? start count = some bits) : memory.load start count = bits := by
  induction count generalizing start bits with
  | zero => exact Option.some.inj found
  | succ count ih =>
    obtain ⟨byte, first, rest⟩ := Option.bind_eq_some_iff.mp found
    obtain ⟨others, later, same⟩ := Option.bind_eq_some_iff.mp rest
    rw [Bytes.load, confirms start byte first, ih later]
    exact Option.some.inj same

theorem Confirms.set {memory : Bytes} {known : Known} (confirms : memory.Confirms known) {position : Nat} {byte : UInt8}
    (inside : position < memory.size) :
    Confirms (memory.setIfInBounds position byte) (Function.update known position (some byte)) := by
  intro place value found
  by_cases same : place = position
  · subst same
    rw [Function.update_self] at found
    rw [getD_setIfInBounds_self inside]
    exact Option.some.inj found
  · rw [Function.update_of_ne same] at found
    rw [getD_setIfInBounds_ne (Ne.symm same)]
    exact confirms place value found

theorem Confirms.store {memory : Bytes} {known : Known} (confirms : memory.Confirms known) {start value count : Nat}
    (room : start + count ≤ memory.size) :
    (memory.store start value count).Confirms (known.store start value count) := by
  induction count generalizing memory known start value with
  | zero => exact confirms
  | succ count ih =>
    refine ih (confirms.set (by omega)) ?_
    rw [Array.size_setIfInBounds]
    omega

theorem Confirms.forget {memory : Bytes} {known : Known} (confirms : memory.Confirms known) {start value count : Nat} :
    (memory.store start value count).Confirms (known.forget start count) := by
  intro position byte found
  unfold Known.forget at found
  split at found
  · cases found
  · rename_i outside
    rw [← confirms position byte found]
    rcases Nat.lt_or_ge position start with before | after
    · exact getD_store_of_lt before
    · exact getD_store_of_ge (by omega)

theorem Confirms.copy {memory : Bytes} {known : Known} (confirms : memory.Confirms known) {src dst count : Nat}
    (room : src + count ≤ memory.size) (below : dst ≤ src) :
    Confirms (copyBlock memory src dst count) (known.copy src dst count) := by
  intro position byte found
  unfold Known.copy at found
  split at found
  · rename_i inside
    have copied := @getD_copyBlock_inside _ memory src dst count (position - dst) 0 room below (by omega)
    rw [Nat.add_sub_cancel' inside.1] at copied
    rw [copied]
    exact confirms _ byte found
  · rename_i outside
    rw [getD_copyBlock_outside room (by omega)]
    exact confirms position byte found

end Bytes

end WordMachine
