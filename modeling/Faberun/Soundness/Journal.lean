import Faberun.Text.JsonRoundTrip
import Faberun.Soundness.JournalEntry

/-! # The journal across calls and crashes

A journal whose calls all found complete lines is the text of its committed entries and at most one torn line after
them, and is read back entry by entry (`Disk.Holds`). A call that finds a torn line does not look for it: the new entry
is appended to the torn bytes, and the line they make together is no entry, so the whole file is refused from then on.
-/

namespace Faberun.Journal

open JsonText

variable {ν : Type} {dateParses : String → Bool}

/-! ## Lines -/

theorem splitLines_ne_nil (text : List Char) : splitLines text ≠ [] := by
  fun_cases splitLines text <;> simp_all

theorem splitLines_cons {c : Char} {text line : List Char} {lines : List (List Char)} (plain : c ≠ '\n')
    (carriage : c = '\r' → text.head? ≠ some '\n') (rest : splitLines text = line :: lines) :
    splitLines (c :: text) = (c :: line) :: lines := by
  rw [splitLines, rest]
  · rintro tail rfl rfl
    exact carriage rfl rfl
  · exact plain

/-- A line that does not end in a carriage return is split off whole. -/
theorem splitLines_line {line : List Char} (plain : '\n' ∉ line) (last : line.getLast? ≠ some '\r')
    (rest : List Char) : splitLines (line ++ '\n' :: rest) = line :: splitLines rest := by
  induction line with
  | nil => rw [List.nil_append, splitLines]
  | cons c line ih =>
    simp only [List.mem_cons, not_or] at plain
    have tail : line.getLast? ≠ some '\r' := by
      cases line with
      | nil => simp
      | cons next line => simpa using last
    refine splitLines_cons (Ne.symm plain.1) ?_ (ih plain.2 tail)
    rintro rfl here
    cases line with
    | nil => exact last rfl
    | cons next line =>
      obtain rfl := Option.some.inj here
      exact plain.2 (by simp)

theorem splitLines_tail {tail : List Char} (plain : '\n' ∉ tail) : splitLines tail = [tail] := by
  induction tail with
  | nil => rfl
  | cons c tail ih =>
    simp only [List.mem_cons, not_or] at plain
    refine splitLines_cons (Ne.symm plain.1) ?_ (ih plain.2)
    rintro - here
    obtain ⟨rest, rfl⟩ := List.head?_eq_some_iff.mp here
    exact plain.2 (by simp)

theorem endsLine_append_tail (text : List Char) {tail : List Char} (plain : '\n' ∉ tail) (some : tail ≠ []) :
    endsLine (text ++ tail) = false := by
  rw [endsLine, List.getLast?_append_of_ne_nil _ some, beq_eq_false_iff_ne]
  intro last
  exact plain (List.mem_of_getLast? last)

section Text

variable [Numerals ν]

/-- The text of committed entries. -/
def journalText (ledger : List (Entry ν)) : List Char := ledger.flatMap fun entry => render (.object entry) ++ ['\n']

private theorem render_last (entry : Entry ν) : (render (.object entry)).getLast? = some '}' := by
  rw [render, List.getLast?_concat]

private theorem render_shown (entry : Entry ν) : isBlankLine (render (.object entry)) = false := by
  have shown : isJsWhitespace '{' = false := by decide
  simp [render, isBlankLine, shown]

theorem journalText_append (ledger more : List (Entry ν)) :
    journalText (ledger ++ more) = journalText ledger ++ journalText more := List.flatMap_append

/-- The lines of committed entries are their texts. -/
theorem splitLines_journalText (ledger : List (Entry ν)) {tail : List Char} (plain : '\n' ∉ tail) :
    splitLines (journalText ledger ++ tail) = ledger.map (fun entry => render (.object entry)) ++ [tail] := by
  induction ledger with
  | nil => exact splitLines_tail plain
  | cons entry rest ih =>
    have shape : journalText (entry :: rest) ++ tail =
        render (.object entry) ++ '\n' :: (journalText rest ++ tail) := by simp [journalText]
    rw [shape, splitLines_line (newline_notMem_render _) (by simp [render_last]), ih]
    rfl

theorem endsLine_journalText {ledger : List (Entry ν)} (some : ledger ≠ []) : endsLine (journalText ledger) = true := by
  obtain ⟨before, entry, rfl⟩ := List.eq_nil_or_concat ledger |>.resolve_left some
  simp [journalText, endsLine]

/-- An entry whose line is read back as it is. -/
structure Readable (dateParses : String → Bool) (entry : Entry ν) : Prop where
  json : isJson (.object entry) = true
  valid : validateRecord dateParses entry = .ok ()

theorem Readable.parse {entry : Entry ν} (readable : Readable dateParses entry) :
    parse (render (.object entry)) = some (.object entry) := by
  rw [parse_render, recorded_of_isJson _ readable.json]

theorem Readable.readLine {entry : Entry ν} (readable : Readable dateParses entry) (number : Nat) :
    readLine dateParses number (render (.object entry)) = .ok entry := by
  have current : withoutLegacyLivenessFields entry = entry := by
    rw [withoutLegacyLivenessFields]
    split
    · rename_i live
      obtain ⟨type, typed, allowed, -⟩ := validateRecord_ok_iff.mp readable.valid
      rw [live] at typed
      obtain rfl := Option.some.inj typed
      apply List.filter_eq_self.mpr
      intro field member
      have known := allowed field member
      simp only [EntryType.shape, List.mem_cons, List.not_mem_nil, or_false] at known
      rcases known with same | same | same | same | same | same | same | same | same | same | same | same | same <;>
        rw [same] <;> decide
    · rfl
  simp only [Journal.readLine, readable.parse, current, validateJournalEntry, readable.valid, Except.map]

private theorem readLines_ledger {terminated : Bool} {tail : List Char} (ends : tail = [] ∨ terminated = false)
    {ledger : List (Entry ν)} (readable : ∀ entry ∈ ledger, Readable dateParses entry) (number : Nat) :
    readLines dateParses terminated number (ledger.map (fun entry => render (.object entry)) ++ [tail]) = .ok ledger := by
  induction ledger generalizing number with
  | nil =>
    rcases ends with rfl | open'
    · rfl
    · simp [readLines, open']
  | cons entry rest ih =>
    have here := (readable entry (by simp)).readLine number
    have tail := ih (fun entry member => readable entry (by simp [member])) (number + 1)
    have more (rest : List (List Char)) (last : List Char) : (rest ++ [last]).isEmpty = false := by simp
    rw [List.map_cons, List.cons_append, readLines]
    simp only [render_shown, more, Bool.or_self, Bool.false_and, Bool.false_eq_true, ↓reduceIte, here, tail]
    rfl

/-- Committed entries are read back, whatever torn line follows them. -/
theorem readJournal_text {ledger : List (Entry ν)} (readable : ∀ entry ∈ ledger, Readable dateParses entry)
    {tail : List Char} (plain : '\n' ∉ tail) :
    readJournal dateParses (some (journalText ledger ++ tail)) = .ok ledger := by
  rw [readJournal, splitLines_journalText ledger plain]
  refine readLines_ledger ?_ readable 1
  rcases eq_or_ne tail [] with rfl | torn
  · exact .inl rfl
  · exact .inr (endsLine_append_tail _ plain torn)

/-! ## The dedupe -/

theorem dedupe_text {ledger : List (Entry ν)} (readable : ∀ entry ∈ ledger, Readable dateParses entry)
    {tail : List Char} (plain : '\n' ∉ tail) : ∃ torn : List (JsValue ν),
      readJournalForDedupe (journalText ledger ++ tail) = ledger.map JsValue.object ++ torn ∧ (tail = [] → torn = []) := by
  refine ⟨([tail].filter fun line => !isBlankLine line).filterMap JsonText.parse, ?_, ?_⟩
  · rw [readJournalForDedupe, splitLines_journalText ledger plain, List.filter_append, List.filterMap_append]
    congr 1
    induction ledger with
    | nil => rfl
    | cons entry rest ih =>
      rw [List.map_cons, List.filter_cons, if_pos (by simp [render_shown]), List.filterMap_cons,
        (readable entry (by simp)).parse, ih fun entry member => readable entry (by simp [member])]
      rfl
  · rintro rfl
    rfl

omit [Numerals ν] in
theorem get_string_of_isText {entry : Entry ν} {key : String} (text : isText (get entry key) = true) :
    ∃ value, get entry key = .string value := by
  cases same : get entry key with
  | string value => exact ⟨value, rfl⟩
  | _ => simp [same, isText] at text

/-- A committed entry with the event id is found, and before anything a torn line may parse to. -/
theorem findEvent_ledger {ledger : List (Entry ν)} (readable : ∀ entry ∈ ledger, Readable dateParses entry)
    (wanted : String) (torn : List (JsValue ν)) :
    (∃ existing ∈ ledger, get existing "eventId" = .string wanted ∧
        findEvent (.string wanted) (ledger.map JsValue.object ++ torn) = .ok (some (.object existing))) ∨
      ((∀ entry ∈ ledger, get entry "eventId" ≠ .string wanted) ∧
        findEvent (.string wanted) (ledger.map JsValue.object ++ torn) = findEvent (.string wanted) torn) := by
  induction ledger with
  | nil => exact .inr ⟨nofun, rfl⟩
  | cons entry rest ih =>
    obtain ⟨type, -, -, -, event, -⟩ := validateRecord_ok_iff.mp (readable entry (by simp)).valid
    obtain ⟨value, named⟩ := get_string_of_isText event
    by_cases same : value = wanted
    · subst same
      exact .inl ⟨entry, by simp, named, by simp [findEvent, named]⟩
    · rcases ih fun entry member => readable entry (by simp [member]) with ⟨existing, member, event, found⟩ | ⟨none, found⟩
      · exact .inl ⟨existing, by simp [member], event, by simpa [findEvent, named, same] using found⟩
      · refine .inr ⟨?_, by simpa [findEvent, named, same] using found⟩
        intro other member
        rcases List.mem_cons.mp member with rfl | later
        · simpa [named] using same
        · exact none other later

/-! ## What is written -/

section Written

variable {record : Entry ν}

theorem render_written (record : Entry ν) : render (.object (written record)) = render (.object record) := by
  have same : fieldTexts (written record) = fieldTexts record := by
    induction record with
    | nil => rfl
    | cons field rest ih =>
      obtain ⟨key, value⟩ := field
      by_cases defined : value = .undefined
      · subst defined
        exact ih
      · have shown : value.isUndefined = false := by cases value <;> first | rfl | exact absurd rfl defined
        rw [written, List.filter_cons, if_pos (by simp [shown]), fieldTexts_defined defined, fieldTexts_defined defined]
        exact congrArg _ ih
  rw [render, render, same]

omit [Numerals ν] in
private theorem get_of_notMem {key : String} (absent : key ∉ record.map (·.1)) : get record key = .undefined := by
  have none : record.find? (fun field => field.1 == key) = none := by
    rw [List.find?_eq_none]
    rintro field member same
    exact absent (List.mem_map.mpr ⟨field, member, beq_iff_eq.mp same⟩)
  rw [get, none]
  rfl

omit [Numerals ν] in
/-- An undefined property and an absent one read the same. -/
theorem get_written (distinct : (record.map (·.1)).Nodup) (key : String) : get (written record) key = get record key := by
  induction record with
  | nil => rfl
  | cons field rest ih =>
    obtain ⟨name, value⟩ := field
    rw [List.map_cons, List.nodup_cons] at distinct
    have tail := ih distinct.2
    rw [get_cons]
    cases defined : value.isUndefined with
    | false =>
      rw [written, List.filter_cons, if_pos (by simp [defined]), get_cons, ← written, tail]
    | true =>
      obtain rfl : value = .undefined := by cases value <;> first | rfl | cases defined
      rw [written, List.filter_cons, if_neg (by simp [defined]), ← written, tail]
      split_ifs with same
      · obtain rfl : name = key := same
        exact get_of_notMem distinct.1
      · rfl

omit [Numerals ν] in
theorem validateRecord_written (distinct : (record.map (·.1)).Nodup) (success : validateRecord dateParses record = .ok ()) :
    validateRecord dateParses (written record) = .ok () := by
  have reads := get_written distinct
  rw [validateRecord_ok_iff] at success ⊢
  obtain ⟨type, typed, allowed, date, event, session, shape⟩ := success
  refine ⟨type, ?_, ?_, ?_, ?_, ?_, ?_⟩
  · rwa [entryType?, reads, ← entryType?]
  · exact fun field member => allowed field (List.mem_filter.mp member).1
  · rwa [reads]
  · rwa [reads]
  · rwa [reads]
  · cases type <;>
      simpa only [validateShape, validateSeatAllowanceEntry, validateSessionEntry, validateTranscript, reads] using shape

omit [Numerals ν] in
theorem written_foldFields (record : Entry ν) : written (foldFields record) = foldFields (written record) := by
  rw [written, written, foldFields, foldFields, List.filter_map]
  congr 1
  apply List.filter_congr
  intro field _
  simp

theorem fieldsJson_foldFields (record : Entry ν) : fieldsJson (foldFields record) = fieldsJson record := by
  induction record with
  | nil => rfl
  | cons field rest ih =>
    obtain ⟨key, value⟩ := field
    have head : isJson (folded value) = isJson value := by
      cases value with
      | string text => rw [folded, isJson, isJson]
      | _ => rfl
    rw [foldFields, List.map_cons, fieldsJson, fieldsJson, head, ← foldFields, ih]

/-- What a sound call writes is read back. -/
theorem readable_written (json : saysJson record = true) (keeps : keepsEntry dateParses record = true)
    (text : showsText (get record "text") = true) (success : validateRecord dateParses record = .ok ()) :
    Readable dateParses (written (foldFields record)) := by
  simp only [saysJson, Bool.and_eq_true, decide_eq_true_eq] at json
  have keys : (foldFields record).map (·.1) = record.map (·.1) := by simp [foldFields]
  constructor
  · rw [isJson, Bool.and_eq_true, decide_eq_true_eq]
    constructor
    · rw [written_foldFields, fieldsJson_foldFields]
      exact json.2
    · have all : ((foldFields record).map (·.1)).Nodup := by
        rw [keys]
        exact json.1
      exact all.sublist (List.filter_sublist.map _)
  · refine validateRecord_written ?_ (validateRecord_folded keeps text success)
    rw [keys]
    exact json.1

end Written

/-! ## Crashes -/

theorem withoutLastLine_append {body last : List Char} (lines : body = [] ∨ endsLine body = true) (some : last ≠ [])
    (one : '\n' ∉ last.dropLast) : withoutLastLine (body ++ last) = body := by
  have inner : ∀ c ∈ last.dropLast.reverse, (c != '\n') = true := by
    intro c member
    rw [bne_iff_ne]
    rintro rfl
    exact one (List.mem_reverse.mp member)
  rw [withoutLastLine, List.dropLast_append_of_ne_nil some, List.rdropWhile, List.reverse_append,
    List.dropWhile_append_of_pos inner, ← List.rdropWhile]
  rcases lines with rfl | ends
  · rfl
  · rw [endsLine, beq_iff_eq] at ends
    obtain ⟨before, rfl⟩ := List.getLast?_eq_some_iff.mp ends
    exact List.rdropWhile_concat_neg _ _ _ (by simp)

end Text

end Faberun.Journal
