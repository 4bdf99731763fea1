import WordMachine.Fault

namespace WordMachine

/-- Which source line each instruction comes from. An entry says from which instruction on a line holds; it is made
only where the line changes. -/
structure LineTable where
  entries : Array (Nat × Nat)
  lastOffset : Option Nat
deriving DecidableEq

namespace LineTable

def empty : LineTable := ⟨#[], none⟩

instance : Inhabited LineTable := ⟨empty⟩

/-- Records that the instruction at `offset` comes from `line`. Neither offsets nor lines go back. -/
def add : LineTable → Nat → Nat → Except ProgramError LineTable
  | ⟨entries, lastOffset⟩, offset, line =>
    match lastOffset.filter (offset < ·) with
    | some previous => .error (.offsetOutOfOrder offset previous)
    | none =>
      match entries.back? with
      | none => .ok ⟨entries.push (offset, line), some offset⟩
      | some (_, previous) =>
        if line < previous then .error (.lineOutOfOrder line previous)
        else if line = previous then .ok ⟨entries, some offset⟩
        else .ok ⟨entries.push (offset, line), some offset⟩

/-- The line of the last entry at or before `offset`. -/
def lineFor (table : LineTable) (offset : Nat) : Option Nat :=
  (table.entries.findRev? fun entry => entry.1 ≤ offset).map Prod.snd

end LineTable

end WordMachine
