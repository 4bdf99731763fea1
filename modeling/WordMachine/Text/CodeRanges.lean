namespace WordMachine

/-- A table of runs of code points, each with its first and last member. -/
abbrev CodeRanges := List (Nat × Nat)

/-- Whether a run holds `n`. The search ends at the first run that does not lie wholly below `n`. -/
def CodeRanges.covers : CodeRanges → Nat → Bool
  | [], _ => false
  | (first, last) :: rest, n => if n ≤ last then decide (first ≤ n) else CodeRanges.covers rest n

end WordMachine
