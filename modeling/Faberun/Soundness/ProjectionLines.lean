import Faberun.Model.Campaign.Projection
import Faberun.Soundness.Journal

/-! # The two readers of the journal

`readJournal` decodes the whole file and splits the text; the incremental reader splits the bytes and decodes each
line. They find the same entries, so what the first bytes of a journal hold does not depend on the path that read it,
and a journal cut behind a line is read in two parts.
-/

namespace Faberun.CampaignProjection

open Journal

variable {ν : Type}

/-! ## Splitting -/

private theorem splitLines_carriage {line : List Char} (plain : '\n' ∉ line) (rest : List Char) :
    splitLines (line ++ '\r' :: '\n' :: rest) = line :: splitLines rest := by
  induction line with
  | nil => rw [List.nil_append, splitLines]
  | cons c line ih =>
    simp only [List.mem_cons, not_or] at plain
    refine splitLines_cons (Ne.symm plain.1) ?_ (ih plain.2)
    rintro - here
    cases line with
    | nil => exact absurd (Option.some.inj here) (by decide)
    | cons next line =>
      obtain rfl := Option.some.inj here
      exact plain.2 (by simp)

/-- A line is split off with its carriage return. -/
theorem splitLines_break {line : List Char} (plain : '\n' ∉ line) (rest : List Char) :
    splitLines (line ++ '\n' :: rest) = withoutCarriage line :: splitLines rest := by
  by_cases carriage : line.getLast? = some '\r'
  · obtain ⟨before, rfl⟩ := List.getLast?_eq_some_iff.mp carriage
    rw [withoutCarriage, if_pos carriage, List.dropLast_concat, List.append_assoc, List.singleton_append]
    exact splitLines_carriage (fun member => plain (by simp [member])) rest
  · rw [withoutCarriage, if_neg carriage]
    exact splitLines_line plain carriage rest

section Read

variable [Numerals ν] {dateParses : String → Bool}

/-! ## The same entries -/

private theorem readLine_number (number : Nat) (line : List Char) :
    (readLine (ν := ν) dateParses number line).toOption = (readLine dateParses 0 line).toOption := by
  unfold readLine
  split
  · rfl
  · rfl
  · split <;> rfl
  · rfl

private theorem toOption_bind {ε α β : Type} (first : Except ε α) (next : α → Except ε β) :
    (first >>= next).toOption = first.toOption.bind fun value => (next value).toOption := by
  cases first <;> rfl

/-- The two loops do the same with a line. -/
private theorem readLines_cons (terminated : Bool) (number : Nat) (line : List Char) {rest : List (List Char)}
    (more : rest ≠ []) : (readLines (ν := ν) dateParses terminated number (line :: rest)).toOption =
      if isBlankLine line then (readLines dateParses terminated (number + 1) rest).toOption
      else (readLine dateParses 0 line).toOption.bind fun entry =>
        (readLines dateParses terminated (number + 1) rest).toOption.map fun others => entry :: others := by
  have follows : rest.isEmpty = false := by simpa using more
  rw [readLines, follows, Bool.false_and, Bool.or_false]
  split_ifs
  · rfl
  · rw [toOption_bind, readLine_number]
    congr 1
    funext entry
    rw [toOption_bind, Option.map_eq_bind]
    rfl

private theorem deltaEntries_cons (line : List UInt8) (rest : List (List UInt8)) :
    deltaEntries (ν := ν) dateParses (line :: rest) =
      if isBlankLine (lineText line) then deltaEntries dateParses rest
      else (readLine dateParses 0 (lineText line)).toOption.bind fun entry =>
        (deltaEntries dateParses rest).map fun others => entry :: others := by
  rw [deltaEntries]
  split_ifs
  · rfl
  · simp only [Option.bind_eq_bind, Option.map_eq_bind]
    rfl

/-- The last line of a split text counts only when the text ends with a line break. -/
private theorem readLines_decode {terminated : Bool} (bytes : List UInt8)
    (ends : terminated = true → Utf8.decode bytes = [] ∨ endsLine (Utf8.decode bytes) = true) (number : Nat) :
    (readLines (ν := ν) dateParses terminated number (splitLines (Utf8.decode bytes))).toOption =
      deltaEntries dateParses (completeLines bytes) := by
  induction bytes using line_induction generalizing number with
  | plain tail plain =>
    have text := Utf8.newline_notMem_decode plain
    have skipped : (isBlankLine (Utf8.decode tail) || !terminated) = true := by
      cases terminated with
      | false => simp
      | true =>
        have blank : Utf8.decode tail = [] := by
          rcases ends rfl with none | broken
          · exact none
          · by_contra some
            have open' := endsLine_append_tail [] text some
            rw [List.nil_append, broken] at open'
            exact absurd open' (by decide)
        simp [blank, isBlankLine]
    rw [splitLines_tail text, completeLines_plain plain, readLines, List.isEmpty_nil, Bool.true_and, skipped]
    rfl
  | line line rest plain ih =>
    have text := Utf8.newline_notMem_decode plain
    have decoded : Utf8.decode (line ++ newline :: rest) = Utf8.decode line ++ '\n' :: Utf8.decode rest :=
      Utf8.decode_ascii line rest (by decide)
    have later : terminated = true → Utf8.decode rest = [] ∨ endsLine (Utf8.decode rest) = true := by
      intro whole
      rcases ends whole with none | broken
      · simp [decoded] at none
      · rcases List.eq_nil_or_concat (Utf8.decode rest) with none | ⟨before, last, shape⟩
        · exact .inl none
        · right
          rw [decoded, shape, List.concat_eq_append, endsLine, ← List.cons_append, ← List.append_assoc, List.getLast?_concat] at broken
          rw [shape, List.concat_eq_append, endsLine, List.getLast?_concat]
          exact broken
    rw [decoded, splitLines_break text, completeLines_line plain, readLines_cons _ _ _ (splitLines_ne_nil _), ih later,
      deltaEntries_cons]
    rfl

/-- The whole journal read as text holds what its complete lines hold. -/
theorem readJournal_decode (bytes : List UInt8) :
    (readJournal (ν := ν) dateParses (some (Utf8.decode bytes))).toOption =
      deltaEntries dateParses (completeLines bytes) :=
  readLines_decode bytes .inr 1

theorem readJournal_decode_iff {bytes : List UInt8} {entries : List (Entry ν)} :
    readJournal dateParses (some (Utf8.decode bytes)) = .ok entries ↔
      deltaEntries dateParses (completeLines bytes) = some entries := by
  rw [← readJournal_decode]
  cases readJournal (ν := ν) dateParses (some (Utf8.decode bytes)) <;> simp [Except.toOption]

/-! ## Two parts -/

theorem deltaEntries_append (first second : List (List UInt8)) :
    deltaEntries (ν := ν) dateParses (first ++ second) = (deltaEntries dateParses first).bind fun entries =>
      (deltaEntries dateParses second).map fun others => entries ++ others := by
  induction first with
  | nil => simp [deltaEntries]
  | cons line rest ih =>
    rw [List.cons_append, deltaEntries_cons, deltaEntries_cons, ih]
    split_ifs
    · rfl
    · cases (readLine (ν := ν) dateParses 0 (lineText line)).toOption <;>
        cases deltaEntries (ν := ν) dateParses rest <;> cases deltaEntries (ν := ν) dateParses second <;> rfl

/-- Every complete line that is not blank is an entry. -/
theorem deltaEntries_length {lines : List (List UInt8)} {entries : List (Entry ν)}
    (success : deltaEntries dateParses lines = some entries) :
    entries.length = (lines.filter fun line => !isBlankLine (lineText line)).length := by
  induction lines generalizing entries with
  | nil =>
    obtain rfl := Option.some.inj success
    rfl
  | cons line rest ih =>
    rw [deltaEntries_cons] at success
    split_ifs at success with blank
    · simpa [blank] using ih success
    · obtain ⟨entry, -, success⟩ := Option.bind_eq_some_iff.mp success
      obtain ⟨others, read, rfl⟩ := Option.map_eq_some_iff.mp success
      simpa [blank] using ih read

/-- Blank lines make no difference. -/
theorem deltaEntries_filter (lines : List (List UInt8)) :
    deltaEntries (ν := ν) dateParses (lines.filter fun line => !isBlankLine (lineText line)) =
      deltaEntries dateParses lines := by
  induction lines with
  | nil => rfl
  | cons line rest ih =>
    by_cases blank : isBlankLine (lineText line) = true
    · rw [List.filter_cons_of_neg (by simp [blank]), ih, deltaEntries_cons, if_pos blank]
    · rw [List.filter_cons_of_pos (by simpa using blank), deltaEntries_cons, deltaEntries_cons, ih]

end Read

end Faberun.CampaignProjection
