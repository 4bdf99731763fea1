import WordMachine.Fault
import WordMachine.Memory.Block

namespace WordMachine

/-- For every stack slot, the type of the value that starts there, if one is known to. The machine is that of a build
with tags: a debug build or one with the feature `type-tags`. Other builds keep none and check nothing against them. -/
abbrev Tags := Array (Option Ty)

namespace Tags

/-- As many slots without a tag. -/
def blank (capacity : Nat) : Tags :=
  Array.replicate capacity none

/-- The tag of a slot; a slot out of range has none. -/
def get (tags : Tags) (slot : Nat) : Option Ty :=
  tags.getD slot none

/-- Marks a slot as the start of a value that spans `words` slots. Nothing happens if these are not all in range. -/
def record (tags : Tags) (slot : Nat) (ty : Ty) : Nat → Tags
  | 0 => tags
  | rest + 1 =>
    if slot + rest < tags.size then fillBlock (tags.setIfInBounds slot (some ty)) (slot + 1) none rest else tags

/-- Fails unless a value of the type starts at the slot. -/
def check (tags : Tags) (slot : Nat) (ty : Ty) : Except Fault Unit :=
  if tags.get slot = some ty then .ok () else .error (.typeMismatch ty (tags.get slot))

/-- Copies the tags of `words` slots, which may overlap those they are copied to. -/
def copy (tags : Tags) (src dst words : Nat) : Tags :=
  copyBlock tags src dst words

end Tags

end WordMachine
