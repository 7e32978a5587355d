import Faberun.Soundness.ProjectionLines

/-! # What a projection covers

A call that resumes folds exactly what the journal gained since the stored byte. A call that reads the whole journal
folds what it read, and then measures the complete bytes of the journal as it is by that time: an entry completed in
between is counted as covered and is folded by no later call.
-/

namespace Faberun.CampaignProjection

open Journal

variable {ν : Type}

/-! ## The fold -/

theorem foldEntries_append (state : Projection ν) (first second : List (Entry ν)) :
    foldEntries state (first ++ second) = foldEntries (foldEntries state first) second := List.foldl_append

@[simp] theorem resume_state (stored : Record ν) (journalSize nextByte : Nat) (entries : List (Entry ν)) :
    (resume stored journalSize nextByte entries).state = foldEntries stored.projection entries := by
  cases entries <;> rfl

@[simp] theorem resume_cursor (stored : Record ν) (journalSize nextByte : Nat) (entries : List (Entry ν)) :
    (resume stored journalSize nextByte entries).cursor = stored.cursor + entries.length := by
  cases entries <;> rfl

@[simp] theorem resume_byte (stored : Record ν) (journalSize nextByte : Nat) (entries : List (Entry ν)) :
    (resume stored journalSize nextByte entries).byte = nextByte := by
  cases entries <;> rfl

section Read

variable [Numerals ν] {dateParses : String → Bool} {bytes : List UInt8}

/-! ## Exact projections -/

/-- Exactness over the lines of the first bytes. -/
theorem exact_iff {cursor byte : Nat} {projection : Projection ν} :
    Exact dateParses bytes cursor byte projection ↔ byte ≤ bytes.length ∧ Ended (bytes.take byte) ∧
      ∃ entries, deltaEntries dateParses (completeLines (bytes.take byte)) = some entries ∧
        projection = projectState entries ∧ cursor = entries.length := by
  constructor
  · rintro ⟨bound, ended, entries, read, folded⟩
    exact ⟨bound, ended, entries, readJournal_decode_iff.mp read, folded⟩
  · rintro ⟨bound, ended, entries, read, folded⟩
    exact ⟨bound, ended, entries, readJournal_decode_iff.mpr read, folded⟩

/-- What is appended later makes no difference. -/
theorem Exact.append {cursor byte : Nat} {projection : Projection ν}
    (exact : Exact dateParses bytes cursor byte projection) (more : List UInt8) :
    Exact dateParses (bytes ++ more) cursor byte projection := by
  have same : (bytes ++ more).take byte = bytes.take byte := List.take_append_of_le_length exact.bound
  refine ⟨?_, ?_, ?_⟩
  · have bound := exact.bound
    rw [List.length_append]
    omega
  · rw [same]
    exact exact.ended
  · rw [same]
    exact exact.folded

/-! ## The incremental path -/

/-- The bytes up to the last line break of a part that begins at a byte. -/
private theorem take_complete (byte size : Nat) :
    bytes.take (byte + completeBytes ((bytes.take size).drop byte)) =
      bytes.take byte ++ ((bytes.take size).drop byte).take (completeBytes ((bytes.take size).drop byte)) := by
  have bound := completeBytes_le ((bytes.take size).drop byte)
  rw [List.length_drop, List.length_take] at bound
  rw [List.take_add, List.drop_take, List.take_take, ← List.drop_take, min_eq_left (by omega)]

/-- Resuming an exact projection folds what the buffer completes. -/
theorem Exact.resume {stored : Record ν} {size : Nat} {entries : List (Entry ν)}
    (exact : Exact dateParses bytes stored.cursor stored.byte stored.projection)
    (read : deltaEntries dateParses (completeLines ((bytes.take size).drop stored.byte)) = some entries)
    (journalSize : Nat) :
    (resume stored journalSize (stored.byte + completeBytes ((bytes.take size).drop stored.byte)) entries).Exact
      dateParses bytes := by
  obtain ⟨bound, ended, before, folded, same, count⟩ := exact_iff.mp exact
  have within := completeBytes_le ((bytes.take size).drop stored.byte)
  rw [List.length_drop, List.length_take] at within
  refine exact_iff.mpr ⟨?_, ?_, before ++ entries, ?_, ?_, ?_⟩
  · rw [resume_byte]
    omega
  · rw [resume_byte, take_complete]
    exact ended.append (ended_take_completeBytes _)
  · rw [resume_byte, take_complete, completeLines_append ended, completeLines_take, deltaEntries_append, folded, read]
    rfl
  · rw [resume_state, same, projectState, projectState, foldEntries_append]
  · rw [resume_cursor, count, List.length_append]

theorem Exact.unchanged {stored : Record ν}
    (exact : Exact dateParses bytes stored.cursor stored.byte stored.projection) (journalSize : Nat) :
    (CampaignProjection.resume stored journalSize stored.byte []).Exact dateParses bytes := by
  rw [Answer.Exact, resume_state, resume_cursor, resume_byte]
  exact exact

/-! ## The scan for the last line break -/

/-- A window that ends with a line break ends the complete lines. -/
theorem scan_ended {start : Nat} (last : (bytes.drop start).getLast? = some newline) :
    completeBytes bytes = bytes.length := by
  have ended : Ended (bytes.drop start) := completeBytes_of_getLast last
  have whole : completeBytes (bytes.drop start) = bytes.length - start := by rw [ended, List.length_drop]
  have shown : bytes.drop start ≠ [] := by
    rintro none
    rw [none] at last
    exact nomatch last
  have inside : start < bytes.length := by
    by_contra outside
    exact shown (List.drop_eq_nil_of_le (by omega))
  have some : completeBytes (bytes.drop start) ≠ 0 := by omega
  rw [completeBytes_of_drop some, whole]
  omega

theorem scan_found {start index : Nat} (found : lastNewline? (bytes.drop start) = some index) :
    completeBytes bytes = start + index + 1 := by
  rw [lastNewline?_eq] at found
  split_ifs at found with none
  obtain rfl := Option.some.inj found
  rw [completeBytes_of_drop none]
  omega

theorem scan_none (none : lastNewline? bytes = none) : completeBytes bytes = 0 := by
  rw [lastNewline?_eq] at none
  split_ifs at none with zero
  exact zero

/-! ## The whole journal -/

/-- The whole journal as a call read it, below the size it measured. -/
structure Measured (dateParses : String → Bool) (bytes seen : List UInt8) (journal : List (Entry ν)) (size : Nat) :
    Prop where
  bound : size ≤ bytes.length
  begins : seen <+: bytes.take size
  read : deltaEntries dateParses (completeLines seen) = some journal

theorem completeLines_begins (first more : List UInt8) : completeLines first <+: completeLines (first ++ more) := by
  refine ⟨completeLines (first.drop (completeBytes first) ++ more), ?_⟩
  rw [← completeLines_take first, ← completeLines_append (ended_take_completeBytes first), ← List.append_assoc,
    List.take_append_drop]

/-- The measured projection is exact when no entry was completed after the read, and only then. -/
theorem Measured.exact_iff {seen : List UInt8} {journal : List (Entry ν)} {size : Nat}
    (measured : Measured dateParses bytes seen journal size) :
    Exact dateParses bytes journal.length (completeBytes (bytes.take size)) (projectState journal) ↔
      entryLines (bytes.take size) = entryLines seen := by
  have below := completeBytes_le (bytes.take size)
  have bound := measured.bound
  rw [List.length_take] at below
  have covered : bytes.take (completeBytes (bytes.take size)) =
      (bytes.take size).take (completeBytes (bytes.take size)) := by
    rw [List.take_take, min_eq_left (by omega)]
  rw [CampaignProjection.exact_iff, covered, completeLines_take]
  constructor
  · rintro ⟨-, -, entries, read, -, count⟩
    have here := deltaEntries_length measured.read
    have there := deltaEntries_length read
    obtain ⟨more, shape⟩ := measured.begins
    have lines : entryLines seen <+: entryLines (bytes.take size) := by
      rw [← shape]
      exact (completeLines_begins seen more).filter _
    exact (lines.eq_of_length (by rw [entryLines, entryLines]; omega)).symm
  · intro same
    refine ⟨by omega, ended_take_completeBytes _, journal, ?_, rfl, rfl⟩
    rw [← deltaEntries_filter]
    change deltaEntries dateParses (entryLines (bytes.take size)) = some journal
    rw [same, entryLines, deltaEntries_filter]
    exact measured.read

end Read

end Faberun.CampaignProjection
