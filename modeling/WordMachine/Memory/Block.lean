namespace WordMachine

/-- The array with `count` entries from `start` on set to `value`. -/
def fillBlock {α : Type} (xs : Array α) (start : Nat) (value : α) : Nat → Array α
  | 0 => xs
  | count + 1 => fillBlock (xs.setIfInBounds start value) (start + 1) value count

/-- The array with the given entries written from `start` on. -/
def writeBlock {α : Type} (xs : Array α) (start : Nat) : List α → Array α
  | [] => xs
  | value :: rest => writeBlock (xs.setIfInBounds start value) (start + 1) rest

/-- The array with the block of `count` entries at `src` also written to `dst`. The two blocks may overlap: the entries
written are those that stood at `src` before. -/
def copyBlock {α : Type} (xs : Array α) (src dst count : Nat) : Array α :=
  writeBlock xs dst (xs.extract src (src + count)).toList

end WordMachine
