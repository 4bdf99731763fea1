import WordMachine.Proofs.SourceLines

namespace WordMachine

/-- All additions to a line table that were accepted, as they came. -/
abbrev LineLog := List (Nat × Nat)

namespace LineLog

/-- Accepts an addition unless it is before the last one that was accepted, by its offset or else by its line. -/
def add (log : LineLog) (offset line : Nat) : Except ProgramError LineLog :=
  match log.getLast? with
  | none => .ok [(offset, line)]
  | some (lastOffset, lastLine) =>
    if offset < lastOffset then .error (.offsetOutOfOrder offset lastOffset)
    else if line < lastLine then .error (.lineOutOfOrder line lastLine)
    else .ok (log ++ [(offset, line)])

/-- The line of the last addition at or before `offset`. -/
def lineFor (log : LineLog) (offset : Nat) : Option Nat :=
  (log.filter fun entry => entry.1 ≤ offset).getLast?.map Prod.snd

theorem lineFor_concat_of_le {offset index : Nat} (log : LineLog) (line : Nat) (reached : offset ≤ index) :
    lineFor (log ++ [(offset, line)]) index = some line := by
  simp [lineFor, List.filter_append, reached]

theorem lineFor_concat_of_lt {offset index : Nat} (log : LineLog) (line : Nat) (before : index < offset) :
    lineFor (log ++ [(offset, line)]) index = log.lineFor index := by
  simp [lineFor, List.filter_append, Nat.not_le.mpr before]

/-- Additions beyond an offset do not count for it. -/
theorem lineFor_append {before after : LineLog} {offset : Nat} (upTo : ∀ entry ∈ before, entry.1 ≤ offset)
    (beyond : ∀ entry ∈ after, offset < entry.1) : lineFor (before ++ after) offset = before.getLast?.map Prod.snd := by
  have kept : before.filter (fun entry => entry.1 ≤ offset) = before :=
    List.filter_eq_self.mpr fun entry member => decide_eq_true (upTo entry member)
  have dropped : after.filter (fun entry => entry.1 ≤ offset) = [] := by
    refine List.filter_eq_nil_iff.mpr fun entry member => ?_
    have later := beyond entry member
    simpa using later
  rw [lineFor, List.filter_append, kept, dropped, List.append_nil]

/-- If the offsets of a log ascend, the additions up to an offset come before all others. -/
theorem exists_division {log : LineLog} (ascending : log.Pairwise fun first second => first.1 ≤ second.1)
    (offset : Nat) :
    ∃ before after, log = before ++ after ∧ (∀ entry ∈ before, entry.1 ≤ offset) ∧
      ∀ entry ∈ after, offset < entry.1 := by
  induction log with
  | nil => exact ⟨[], [], rfl, nofun, nofun⟩
  | cons first rest ih =>
    obtain ⟨least, ascending⟩ := List.pairwise_cons.mp ascending
    by_cases reached : first.1 ≤ offset
    · obtain ⟨before, after, rfl, upTo, beyond⟩ := ih ascending
      exact ⟨first :: before, after, rfl, List.forall_mem_cons.mpr ⟨reached, upTo⟩, beyond⟩
    · refine ⟨[], first :: rest, rfl, nofun, fun entry member => ?_⟩
      rcases List.mem_cons.mp member with rfl | later
      · exact Nat.not_le.mp reached
      · have order := least entry later
        omega

end LineLog

/-- The errors of additions that are made one after the other, also after one that is refused, and what is recorded in
the end. A refused addition leaves what was recorded as it is. -/
def recordAll {σ : Type} (add : σ → Nat → Nat → Except ProgramError σ) :
    σ → List (Nat × Nat) → List (Option ProgramError) × σ
  | recorded, [] => ([], recorded)
  | recorded, (offset, line) :: rest =>
    match add recorded offset line with
    | .ok next => (none :: (recordAll add next rest).1, (recordAll add next rest).2)
    | .error error => (some error :: (recordAll add recorded rest).1, (recordAll add recorded rest).2)

namespace LineTable

variable {table : LineTable} {log : LineLog} {offset line : Nat}

theorem lineFor_eq (table : LineTable) (offset : Nat) :
    table.lineFor offset = LineLog.lineFor table.entries.toList offset := by
  rw [lineFor, LineLog.lineFor, List.getLast?_filter, Array.findRev?_eq_find?_reverse, ← Array.find?_toList,
    Array.toList_reverse]

/-- What becomes of an addition that is not the first one. -/
theorem add_after {last start previous : Nat} (known : table.lastOffset = some last)
    (at_back : table.entries.back? = some (start, previous)) :
    table.add offset line =
      if offset < last then .error (.offsetOutOfOrder offset last)
      else if line < previous then .error (.lineOutOfOrder line previous)
      else if line = previous then .ok ⟨table.entries, some offset⟩
      else .ok ⟨table.entries.push (offset, line), some offset⟩ := by
  obtain ⟨entries, lastOffset⟩ := table
  dsimp only at known at_back
  subst known
  by_cases early : offset < last
  · have refused : (some last).filter (offset < ·) = some last := Option.filter_some_pos (by simpa using early)
    simp only [add, refused, if_pos early]
  · have ordered : (some last).filter (offset < ·) = none := Option.filter_some_neg (by simpa using early)
    simp only [add, ordered, at_back, if_neg early]

/-- A table that stands for a log. It keeps the additions at which the line changes, and the offset that was accepted
last also if the line was the same. -/
structure Condenses (table : LineTable) (log : LineLog) : Prop where
  ordered : table.Ordered
  ascending : table.entries.toList.Pairwise fun first second => first.1 ≤ second.1
  lastOffset : table.lastOffset = log.getLast?.map Prod.fst
  lastLine : table.entries.back?.map Prod.snd = log.getLast?.map Prod.snd
  lineFor : ∀ offset, table.lineFor offset = log.lineFor offset

theorem empty_condenses : empty.Condenses [] where
  ordered := empty_ordered
  ascending := .nil
  lastOffset := rfl
  lastLine := rfl
  lineFor _ := rfl

namespace Condenses

/-- What a table accepts goes to the end of the log. -/
theorem concat (condenses : table.Condenses log) {next : LineTable} (added : table.add offset line = .ok next) :
    next.Condenses (log ++ [(offset, line)]) where
  ordered := condenses.ordered.add added
  ascending := by
    obtain ⟨_, _, pushed | ⟨same, _⟩⟩ := add_eq_ok added
    · rw [pushed, Array.toList_push]
      refine List.pairwise_append.mpr ⟨condenses.ascending, List.pairwise_singleton .., ?_⟩
      intro entry member last atEnd
      rw [List.mem_singleton.mp atEnd]
      exact condenses.ordered.entry_le added (Array.mem_toList_iff.mp member)
    · rw [same]
      exact condenses.ascending
  lastOffset := by
    rw [(add_eq_ok added).2.1, List.getLast?_concat]
    rfl
  lastLine := by
    rw [List.getLast?_concat]
    obtain ⟨_, _, pushed | ⟨same, start, at_back⟩⟩ := add_eq_ok added
    · rw [pushed, Array.back?_push]
    · rw [same, at_back]
      rfl
  lineFor index := by
    by_cases reached : offset ≤ index
    · rw [condenses.ordered.lineFor_add_of_ge added reached, LineLog.lineFor_concat_of_le log line reached]
    · have before := Nat.not_le.mp reached
      rw [lineFor_add_of_lt added before, LineLog.lineFor_concat_of_lt log line before, condenses.lineFor]

/-- A table accepts what its log accepts, and refuses the rest with the same error. -/
theorem add_cases (condenses : table.Condenses log) (offset line : Nat) :
    (∃ error, table.add offset line = .error error ∧ log.add offset line = .error error) ∨
      ∃ next, table.add offset line = .ok next ∧ log.add offset line = .ok (log ++ [(offset, line)]) := by
  have lastOffset := condenses.lastOffset
  have lastLine := condenses.lastLine
  cases known : log.getLast? with
  | none =>
    rw [known] at lastOffset lastLine
    have unmarked : table.entries.back? = none := Option.map_eq_none_iff.mp lastLine
    have start : log = [] := List.getLast?_eq_none_iff.mp known
    obtain ⟨entries, last⟩ := table
    dsimp only at lastOffset unmarked
    subst lastOffset start
    refine .inr ⟨⟨entries.push (offset, line), some offset⟩, ?_, rfl⟩
    simp only [LineTable.add, Option.map_none, Option.filter_none, unmarked]
  | some final =>
    rw [known] at lastOffset lastLine
    obtain ⟨⟨start, previous⟩, at_back, same⟩ := Option.map_eq_some_iff.mp lastLine
    rw [add_after lastOffset at_back, LineLog.add, known]
    dsimp only at same ⊢
    rw [same]
    split
    · exact .inl ⟨_, rfl, rfl⟩
    · split
      · exact .inl ⟨_, rfl, rfl⟩
      · split <;> exact .inr ⟨_, rfl, rfl⟩

/-- A table and the log that it stands for go on recording alike. -/
theorem recordAll (condenses : table.Condenses log) (additions : List (Nat × Nat)) :
    (WordMachine.recordAll LineTable.add table additions).1 = (WordMachine.recordAll LineLog.add log additions).1 ∧
      (WordMachine.recordAll LineTable.add table additions).2.Condenses
        (WordMachine.recordAll LineLog.add log additions).2 := by
  induction additions generalizing table log with
  | nil => exact ⟨rfl, condenses⟩
  | cons addition rest ih =>
    obtain ⟨offset, line⟩ := addition
    obtain ⟨error, refused, refuses⟩ | ⟨next, added, adds⟩ := condenses.add_cases offset line
    · have after := ih condenses
      simp only [WordMachine.recordAll, refused, refuses, after.1]
      exact ⟨trivial, after.2⟩
    · have after := ih (condenses.concat added)
      simp only [WordMachine.recordAll, added, adds, after.1]
      exact ⟨trivial, after.2⟩

end Condenses

/-- Whatever is added to an empty table, it answers as the log of all additions does: it accepts and refuses the same
ones with the same errors, and tells the same line for every offset. Its entries can be searched by halves: those up to
an offset come before all others, and the last of them tells the line. -/
theorem answers_as_log (additions : List (Nat × Nat)) :
    let table := (recordAll add empty additions).2
    let log := (recordAll LineLog.add [] additions).2
    (recordAll add empty additions).1 = (recordAll LineLog.add [] additions).1 ∧
    ∀ offset, table.lineFor offset = log.lineFor offset ∧
      ∃ before after, table.entries.toList = before ++ after ∧ (∀ entry ∈ before, entry.1 ≤ offset) ∧
        (∀ entry ∈ after, offset < entry.1) ∧ table.lineFor offset = before.getLast?.map Prod.snd := by
  obtain ⟨answers, condenses⟩ := empty_condenses.recordAll additions
  refine ⟨answers, fun offset => ⟨condenses.lineFor offset, ?_⟩⟩
  obtain ⟨before, after, division, upTo, beyond⟩ := LineLog.exists_division condenses.ascending offset
  refine ⟨before, after, division, upTo, beyond, ?_⟩
  rw [lineFor_eq, division, LineLog.lineFor_append upTo beyond]

/-- A repeated line makes no entry but still moves the offset that must not be passed. -/
example : recordAll add empty [(3, 7), (5, 7), (4, 8), (5, 6), (5, 9)] =
    ([none, none, some (.offsetOutOfOrder 4 5), some (.lineOutOfOrder 6 7), none], ⟨#[(3, 7), (5, 9)], some 5⟩) := by
  decide

end LineTable

end WordMachine
