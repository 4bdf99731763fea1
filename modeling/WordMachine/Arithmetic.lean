-- Powers and sums of numbers are those of the core library in every module, also in one that brings algebraic
-- structures with powers and zeros of their own along.
attribute [instance (high)] instPowNat Zero.ofOfNat0
attribute [default_instance high] instPowNat
