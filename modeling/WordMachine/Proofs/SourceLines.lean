import WordMachine.Program.LineTable

namespace WordMachine

namespace LineTable

variable {table next : LineTable} {offset line index : Nat}

/-- What is added to a table lies at or after all that was added before. It makes an entry of its own unless the line
is that of the last entry. -/
theorem add_eq_ok (added : table.add offset line = .ok next) :
    (∀ last, table.lastOffset = some last → last ≤ offset) ∧ next.lastOffset = some offset ∧
      (next.entries = table.entries.push (offset, line) ∨
        next.entries = table.entries ∧ ∃ start, table.entries.back? = some (start, line)) := by
  obtain ⟨entries, lastOffset⟩ := table
  unfold add at added
  dsimp only at added
  split at added
  · cases added
  · rename_i ordered
    have after : ∀ last, lastOffset = some last → last ≤ offset := by
      intro last known
      rw [known] at ordered
      simpa using ordered
    split at added
    · cases added
      exact ⟨after, rfl, .inl rfl⟩
    · rename_i start previous at_back
      split at added
      · cases added
      · split at added
        · rename_i same
          cases added
          exact ⟨after, rfl, .inr ⟨rfl, start, same ▸ at_back⟩⟩
        · cases added
          exact ⟨after, rfl, .inl rfl⟩

/-- An addition at or after all former ones is refused only if its line is before that of the last entry. -/
theorem add_eq_error {error : ProgramError} (refused : table.add offset line = .error error)
    (reached : ∀ last, table.lastOffset = some last → last ≤ offset) :
    ∃ start previous, table.entries.back? = some (start, previous) ∧ line < previous ∧
      error = .lineOutOfOrder line previous := by
  obtain ⟨entries, lastOffset⟩ := table
  have ordered : lastOffset.filter (offset < ·) = none := by
    cases known : lastOffset with
    | none => rfl
    | some last => exact Option.filter_some_neg (by simpa using reached last known)
  unfold add at refused
  dsimp only at refused ⊢
  rw [ordered] at refused
  dsimp only at refused
  split at refused
  · cases refused
  · rename_i start previous at_back
    split at refused
    · rename_i back
      cases refused
      exact ⟨start, previous, at_back, back, rfl⟩
    · split at refused <;> cases refused

/-- The last entry decides from its offset on. -/
theorem lineFor_of_back? (last : table.entries.back? = some (offset, line)) (reached : offset ≤ index) :
    table.lineFor index = some line := by
  obtain ⟨entries, pushed⟩ := Array.back?_eq_some_iff.mp last
  unfold lineFor
  rw [pushed, Array.findRev?_push_of_pos (by simpa using reached)]
  rfl

/-- A table whose entries are not behind what was added last. -/
def Ordered (table : LineTable) : Prop :=
  ∀ entry ∈ table.entries, ∃ last, table.lastOffset = some last ∧ entry.1 ≤ last

theorem empty_ordered : empty.Ordered := fun _ member => (Array.not_mem_empty _ member).elim

/-- An addition leaves the lines of the instructions before it as they are. -/
theorem lineFor_add_of_lt (added : table.add offset line = .ok next) (before : index < offset) :
    next.lineFor index = table.lineFor index := by
  unfold lineFor
  obtain ⟨_, _, pushed | ⟨same, _⟩⟩ := add_eq_ok added
  · rw [pushed, Array.findRev?_push_of_neg (by simpa using before)]
  · rw [same]

namespace Ordered

theorem entry_le (ordered : table.Ordered) (added : table.add offset line = .ok next) {entry : Nat × Nat}
    (member : entry ∈ table.entries) : entry.1 ≤ offset := by
  obtain ⟨last, known, before⟩ := ordered entry member
  have after := (add_eq_ok added).1 last known
  omega

theorem add (ordered : table.Ordered) (added : table.add offset line = .ok next) : next.Ordered := by
  obtain ⟨_, last, pushed | ⟨same, _⟩⟩ := add_eq_ok added
  · intro entry member
    rw [pushed] at member
    rcases Array.mem_push.mp member with old | rfl
    · exact ⟨offset, last, ordered.entry_le added old⟩
    · exact ⟨offset, last, Nat.le_refl offset⟩
  · intro entry member
    rw [same] at member
    exact ⟨offset, last, ordered.entry_le added member⟩

/-- The instruction that is added, and those after it, come from its line. -/
theorem lineFor_add_of_ge (ordered : table.Ordered) (added : table.add offset line = .ok next)
    (reached : offset ≤ index) : next.lineFor index = some line := by
  obtain ⟨_, _, pushed | ⟨same, start, at_back⟩⟩ := add_eq_ok added
  · refine lineFor_of_back? ?_ reached
    rw [pushed, Array.back?_push]
  · have before : start ≤ offset := ordered.entry_le added (Array.mem_of_back? at_back)
    refine lineFor_of_back? ?_ (Nat.le_trans before reached)
    rw [same, at_back]

end Ordered

end LineTable

end WordMachine
