import Faberun.Soundness.Journal

/-! # Runs of calls and crashes

In a run whose calls are all sound, the journal stays the text of its committed entries with at most one torn line
after them, and every call meets what it owes. A torn line is what breaks this: a retry after a crash glues its entry
to it, and `readJournal` refuses the file from then on.
-/

namespace Faberun.Journal

open JsonText

variable {ν : Type} [Numerals ν] {dateParses : String → Bool} {disk : Disk ν}

/-- The file is the text of the committed entries and at most one torn line. -/
def Disk.Holds (dateParses : String → Bool) (disk : Disk ν) : Prop :=
  (∃ tail, disk.file.getD [] = journalText disk.ledger ++ tail ∧ '\n' ∉ tail) ∧
    ∀ entry ∈ disk.ledger, Readable dateParses entry

theorem Disk.Initial.holds (initial : disk.Initial) : disk.Holds dateParses := by
  obtain rfl := initial
  exact ⟨⟨[], rfl, by simp⟩, nofun⟩

/-- The committed entries are read back. -/
theorem Disk.Holds.readJournal (holds : disk.Holds dateParses) :
    Journal.readJournal dateParses disk.file = .ok disk.ledger := by
  obtain ⟨⟨tail, text, plain⟩, readable⟩ := holds
  cases file : disk.file with
  | none =>
    rw [file] at text
    cases ledger : disk.ledger with
    | nil => rfl
    | cons entry rest => simp [ledger, journalText] at text
  | some content =>
    rw [file] at text
    have whole := readJournal_text readable plain
    rw [← text] at whole
    exact whole

private theorem complete_tail {text tail : List Char} {file : Option (List Char)}
    (whole : file.getD [] = text ++ tail) (plain : '\n' ∉ tail) (complete : isComplete file = true) : tail = [] := by
  by_contra torn
  have ends := endsLine_append_tail text plain torn
  cases file with
  | none => simp at whole; exact torn whole.2
  | some content =>
    have same : content = text ++ tail := whole
    simp [isComplete, same, torn, ends] at complete

/-! ## One call -/

omit [Numerals ν] in
/-- The accepted entry of a call. -/
private theorem accepted_object {entry : JsValue ν} {normalized : Entry ν}
    (accepted : validateJournalEntry dateParses entry >>= normalizeEntry = .ok normalized) :
    ∃ record, entry = .object record ∧ validateRecord dateParses record = .ok () ∧ normalized = foldFields record ∧
      showsText (get record "text") = true := by
  cases entry with
  | object record =>
    rw [validateJournalEntry] at accepted
    cases valid : validateRecord dateParses record with
    | error refusal =>
      rw [valid] at accepted
      cases accepted
    | ok done =>
      rw [valid] at accepted
      obtain ⟨rfl, text⟩ := normalizeEntry_eq_ok accepted
      exact ⟨record, rfl, valid, rfl, text⟩
  | _ => cases accepted

omit [Numerals ν] in
private theorem repeats_iff {ledger : List (Entry ν)} {record : Entry ν} {wanted : String}
    (named : folded (get record "eventId") = .string wanted) :
    repeats ledger record = true ↔ ∃ existing ∈ ledger, get existing "eventId" = .string wanted := by
  rw [repeats, List.any_eq_true]
  refine exists_congr fun existing => and_congr_right fun _ => ?_
  rw [named]
  cases get existing "eventId" <;> simp

/-- What a call does to a journal that holds. -/
theorem appendJournal_cases (holds : disk.Holds dateParses) {entry : JsValue ν}
    (sound : disk.Sound dateParses (.append entry)) :
    (∃ refusal, appendJournal dateParses disk.file entry = (.error refusal, disk.file)) ∨
    (∃ record existing, entry = .object record ∧ existing ∈ disk.ledger ∧
      validateJournalEntry dateParses entry >>= normalizeEntry = .ok (foldFields record) ∧
      get existing "eventId" = get (foldFields record) "eventId" ∧
      appendJournal dateParses disk.file entry = (.ok ⟨.object existing, true⟩, disk.file)) ∨
    (∃ record, entry = .object record ∧
      validateJournalEntry dateParses entry >>= normalizeEntry = .ok (foldFields record) ∧
      Readable dateParses (written (foldFields record)) ∧
      disk.file.getD [] = journalText disk.ledger ∧
      appendJournal dateParses disk.file entry =
        (.ok ⟨.object (foldFields record), false⟩,
          some (journalText disk.ledger ++ render (.object (foldFields record)) ++ ['\n']))) := by
  obtain ⟨⟨tail, text, plain⟩, readable⟩ := holds
  cases accepted : validateJournalEntry dateParses entry >>= normalizeEntry with
  | error refusal => exact .inl ⟨refusal, by simp [appendJournal, accepted]⟩
  | ok normalized =>
    refine .inr ?_
    obtain ⟨record, rfl, valid, rfl, shown⟩ := accepted_object accepted
    simp only [Disk.Sound, Disk.sound, accepted, Bool.and_eq_true, Bool.or_eq_true] at sound
    obtain ⟨keeps, fits⟩ := sound
    obtain ⟨type, -, -, -, event, -⟩ := validateRecord_ok_iff.mp (validateRecord_folded keeps shown valid)
    obtain ⟨wanted, named⟩ := get_string_of_isText event
    obtain ⟨torn, lines, none⟩ := dedupe_text readable plain
    rw [← text] at lines
    rcases findEvent_ledger readable wanted torn with ⟨existing, member, same, found⟩ | ⟨fresh, found⟩
    · refine .inl ⟨record, existing, rfl, member, rfl, same.trans named.symm, ?_⟩
      simp only [appendJournal, accepted, named, lines, found]
    · have unrepeated : repeats disk.ledger record ≠ true := by
        rw [ne_eq, repeats_iff (by rw [← get_foldFields, named])]
        rintro ⟨existing, member, same⟩
        exact fresh existing member same
      obtain ⟨complete, json⟩ := fits.resolve_left unrepeated
      obtain rfl := complete_tail text plain complete
      rw [List.append_nil] at text
      refine .inr ⟨record, rfl, rfl, readable_written json keeps shown valid, text, ?_⟩
      obtain rfl := none rfl
      simp only [appendJournal, accepted, named, lines, found, findEvent]
      rw [text]

private theorem journalText_singleton (entry : Entry ν) :
    journalText [written entry] = render (.object entry) ++ ['\n'] := by
  rw [journalText, List.flatMap_singleton, render_written]

/-- A sound call keeps the journal, and meets what it owes. -/
theorem Disk.Holds.append (holds : disk.Holds dateParses) {entry : JsValue ν}
    (sound : disk.Sound dateParses (.append entry)) :
    (disk.append dateParses entry).Holds dateParses ∧ disk.Meets dateParses entry := by
  have reads := holds.readJournal
  obtain ⟨refusal, call⟩ | ⟨record, existing, rfl, member, accepted, same, call⟩ |
    ⟨record, rfl, accepted, fresh, text, call⟩ := appendJournal_cases holds sound
  · refine ⟨?_, by simp only [Disk.Meets, call]⟩
    simpa only [Disk.append, call, Disk.added, List.append_nil] using holds
  · constructor
    · simpa only [Disk.append, call, Disk.added, List.append_nil] using holds
    · simp only [Disk.Meets, call, ↓reduceIte]
      exact ⟨_, accepted, trivial, reads, existing, member, rfl, same⟩
  · have lines : journalText disk.ledger ++ render (.object (foldFields record)) ++ ['\n'] =
        journalText (disk.ledger ++ [written (foldFields record)]) ++ [] := by
      rw [journalText_append, journalText_singleton, List.append_nil, List.append_assoc]
    have readable : ∀ entry ∈ disk.ledger ++ [written (foldFields record)], Readable dateParses entry := by
      intro entry member
      rcases List.mem_append.mp member with old | new
      · exact holds.2 entry old
      · rw [List.mem_singleton.mp new]
        exact fresh
    constructor
    · refine ⟨⟨[], ?_, by simp⟩, ?_⟩
      · simp only [Disk.append, call, Disk.added, Option.getD_some]
        exact lines
      · simpa only [Disk.append, call, Disk.added] using readable
    · simp only [Disk.Meets, call, Bool.false_eq_true, ↓reduceIte]
      refine ⟨_, accepted, rfl, ?_⟩
      rw [lines]
      exact readJournal_text readable (by simp)

/-! ## One crash -/

section Tear

variable {body last : List Char} (lines : body = [] ∨ endsLine body = true) (some : last ≠ [])
  (one : '\n' ∉ last.dropLast) (count : Nat) (cut : Bool)

private theorem tornChar_plain : '\n' ∉ tornChar count cut last := by
  rw [tornChar]
  split_ifs <;> decide

include lines some one

private theorem tear_append : tear count cut (body ++ last) = body ++ (last.take count ++ tornChar count cut last) := by
  simp only [tear, withoutLastLine_append lines some one, List.drop_left]

private theorem losesLine_append :
    Disk.losesLine count (body ++ last) = (endsLine (body ++ last) && decide (count < last.length)) := by
  rw [Disk.losesLine, withoutLastLine_append lines some one, List.drop_left]

end Tear

private theorem journalText_lines (ledger : List (Entry ν)) :
    journalText ledger = [] ∨ endsLine (journalText ledger) = true := by
  rcases eq_or_ne ledger [] with rfl | some
  · exact .inl rfl
  · exact .inr (endsLine_journalText some)

private theorem crash_torn (ledger : List (Entry ν)) {tail : List Char} (plain : '\n' ∉ tail) (torn : tail ≠ [])
    (count : Nat) (cut : Bool) :
    Disk.losesLine count (journalText ledger ++ tail) = false ∧
      ∃ rest, tear count cut (journalText ledger ++ tail) = journalText ledger ++ rest ∧ '\n' ∉ rest := by
  have one : '\n' ∉ tail.dropLast := fun member => plain ((List.dropLast_sublist tail).subset member)
  refine ⟨?_, tail.take count ++ tornChar count cut tail, tear_append (journalText_lines ledger) torn one count cut, ?_⟩
  · rw [losesLine_append (journalText_lines ledger) torn one, endsLine_append_tail _ plain torn]
    rfl
  · rw [List.mem_append, not_or]
    exact ⟨fun member => plain (List.mem_of_mem_take member), tornChar_plain count cut⟩

private theorem crash_complete (before : List (Entry ν)) (entry : Entry ν)
    (count : Nat) (cut : Bool) :
    (Disk.losesLine count (journalText (before ++ [entry])) = true ∧
      ∃ rest, tear count cut (journalText (before ++ [entry])) = journalText before ++ rest ∧ '\n' ∉ rest) ∨
    (Disk.losesLine count (journalText (before ++ [entry])) = false ∧
      tear count cut (journalText (before ++ [entry])) = journalText (before ++ [entry])) := by
  have text : journalText (before ++ [entry]) = journalText before ++ (render (.object entry) ++ ['\n']) := by
    simp [journalText]
  have plain := newline_notMem_render (JsValue.object entry)
  have ends : endsLine (journalText before ++ (render (.object entry) ++ ['\n'])) = true := by simp [endsLine]
  have one : '\n' ∉ (render (.object entry) ++ ['\n']).dropLast := by simpa using plain
  rw [text, losesLine_append (journalText_lines before) (by simp) one, ends, Bool.true_and,
    tear_append (journalText_lines before) (by simp) one]
  rcases Nat.lt_or_ge count (render (.object entry) ++ ['\n']).length with lost | kept
  · refine .inl ⟨decide_eq_true lost, _, rfl, ?_⟩
    have inside : (render (.object entry) ++ ['\n']).take count = (render (.object entry)).take count := by
      rw [List.length_append, List.length_singleton] at lost
      exact List.take_append_of_le_length (by omega)
    rw [inside, List.mem_append, not_or]
    exact ⟨fun member => plain (List.mem_of_mem_take member), tornChar_plain count cut⟩
  · refine .inr ⟨decide_eq_false (by omega), ?_⟩
    have whole : tornChar count cut (render (.object entry) ++ ['\n']) = [] := by
      rw [tornChar, List.getElem?_eq_none kept]
      simp
    rw [List.take_of_length_le kept, whole, List.append_nil]

/-- A crash takes at most the last line. -/
theorem Disk.Holds.crash (holds : disk.Holds dateParses) (count : Nat) (cut : Bool) :
    (disk.crash count cut).Holds dateParses := by
  obtain ⟨file, ledger⟩ := disk
  obtain ⟨⟨tail, text, plain⟩, readable⟩ := holds
  cases file with
  | none => exact ⟨⟨tail, text, plain⟩, readable⟩
  | some content =>
    obtain rfl : content = journalText ledger ++ tail := text
    rcases eq_or_ne tail [] with rfl | torn
    · rw [List.append_nil]
      rcases List.eq_nil_or_concat ledger with rfl | ⟨before, entry, rfl⟩
      · refine ⟨⟨[], ?_, by simp⟩, ?_⟩
        · simp [Disk.crash, tear, withoutLastLine, journalText, tornChar, Disk.losesLine, endsLine]
        · simp [Disk.crash, Disk.losesLine, journalText, endsLine]
      · rw [List.concat_eq_append] at readable ⊢
        rcases crash_complete before entry count cut with ⟨lost, rest, kept, torn⟩ | ⟨whole, same⟩
        · simp only [Disk.crash, Disk.Holds, Option.any_some, lost, ↓reduceIte, Option.map_some, Option.getD_some,
            List.dropLast_concat]
          exact ⟨⟨rest, kept, torn⟩, fun entry member => readable entry (List.mem_append_left _ member)⟩
        · simp only [Disk.crash, Disk.Holds, Option.any_some, whole, Bool.false_eq_true, ↓reduceIte, Option.map_some,
            Option.getD_some, same]
          exact ⟨⟨[], by simp, by simp⟩, readable⟩
    · obtain ⟨whole, rest, kept, plain⟩ := crash_torn ledger plain torn count cut
      simp only [Disk.crash, Disk.Holds, Option.any_some, whole, Bool.false_eq_true, ↓reduceIte, Option.map_some,
        Option.getD_some]
      exact ⟨⟨rest, kept, plain⟩, readable⟩

/-! ## Runs -/

theorem Disk.Holds.step (holds : disk.Holds dateParses) {label : Label ν} (sound : disk.Sound dateParses label)
    {next : Disk ν} (taken : disk.step dateParses label = some next) : next.Holds dateParses := by
  cases label with
  | append entry =>
    obtain rfl := Option.some.inj taken
    exact (holds.append sound).1
  | crash count cut =>
    obtain rfl := Option.some.inj taken
    exact holds.crash count cut

theorem Disk.holds_of_reach
    (reach : (Disk.machine dateParses).Reach (Disk.Sound dateParses) Disk.Initial disk) : disk.Holds dateParses := by
  refine reach.invariant (Disk.Holds dateParses) ?_ ?_
  · exact fun _ initial => initial.holds
  · exact fun _ _ _ holds sound taken => holds.step sound taken

/-- A call that is answered over a file nobody can read any more. -/
private theorem not_meets {entry : JsValue ν} (answered : (appendJournal dateParses disk.file entry).1.isOk = true)
    (refused : (readJournal (ν := ν) dateParses (appendJournal dateParses disk.file entry).2).isOk = false) :
    ¬ disk.Meets dateParses entry := by
  intro meets
  rw [Disk.Meets] at meets
  split at meets
  · rename_i call
    rw [call] at answered
    cases answered
  · rename_i call
    obtain ⟨normalized, -, meets⟩ := meets
    rw [call] at refused
    split_ifs at meets
    · rw [meets.2.1] at refused
      cases refused
    · rw [meets.2] at refused
      cases refused

/-- In every run of sound calls and arbitrary crashes, a sound call meets what it owes, and its entry is still valid
once normalized. -/
theorem appendJournal_survives
    (reach : (Disk.machine dateParses).Reach (Disk.Sound dateParses) Disk.Initial disk) (entry : JsValue ν)
    (sound : disk.Sound dateParses (.append entry)) :
    disk.Meets dateParses entry ∧
      ∀ normalized, validateJournalEntry dateParses entry >>= normalizeEntry = .ok normalized →
        validateJournalEntry dateParses (.object normalized) = .ok normalized := by
  refine ⟨((Disk.holds_of_reach reach).append sound).2, fun normalized accepted => ?_⟩
  obtain ⟨record, rfl, valid, rfl, shown⟩ := accepted_object accepted
  simp only [Disk.Sound, Disk.sound, accepted, Bool.and_eq_true] at sound
  rw [validateJournalEntry, validateRecord_folded sound.1 shown valid]
  rfl

/-! ## A torn line -/

/-- The timestamp of the entries below, and the only one known. -/
def noon : String := "2026-09-01T12:00:00.000Z"

def isNoon (text : String) : Bool := text == noon

def note (eventId : String) : JsValue Nat :=
  .object [("at", .string noon), ("type", .string "campaign.closed"), ("eventId", .string eventId)]

/-- The retry after a crash is answered, and the journal is unreadable from then on. An event id of control characters
is accepted, and is no event id once folded. -/
theorem appendJournal_torn :
    (∃ disk, (Disk.machine isNoon).Reach Machine.free Disk.Initial disk ∧ ¬ disk.Meets isNoon (note "b")) ∧
      ∃ record, validateJournalEntry isNoon (note "\x01") >>= normalizeEntry = .ok record ∧
        (validateJournalEntry isNoon (.object record)).isOk = false := by
  constructor
  · have ran : ∃ disk, (Disk.machine isNoon).replay? Machine.free ⟨none, []⟩ [.append (note "a"), .crash 5 false] =
        some disk ∧ (appendJournal isNoon disk.file (note "b")).1.isOk = true ∧
          (readJournal (ν := Nat) isNoon (appendJournal isNoon disk.file (note "b")).2).isOk = false :=
      Machine.exists_replay (fun disk => (appendJournal isNoon disk.file (note "b")).1.isOk = true ∧
        (readJournal (ν := Nat) isNoon (appendJournal isNoon disk.file (note "b")).2).isOk = false)
        (fun _ _ held => held) (by decide +kernel)
    obtain ⟨disk, ran, answered, refused⟩ := ran
    exact ⟨disk, .of_replay rfl _ ran, not_meets answered refused⟩
  · exact ⟨_, rfl, by decide⟩

/-- After a crash tore the second line, the first call can be repeated. -/
theorem appendJournal_survives_retry :
    ∃ disk, (Disk.machine isNoon).replay? (Disk.Sound isNoon) ⟨none, []⟩
        [.append (note "a"), .append (note "b"), .crash 5 false] = some disk ∧
      disk.Meets isNoon (note "a") ∧
        ∀ normalized, validateJournalEntry isNoon (note "a") >>= normalizeEntry = .ok normalized →
          validateJournalEntry isNoon (.object normalized) = .ok normalized :=
  Machine.exists_replay (fun disk => disk.sound isNoon (.append (note "a")) = true)
    (fun _ ran sound => appendJournal_survives (.of_replay rfl _ ran) (note "a") sound) (by decide +kernel)

end Faberun.Journal
