import Faberun.Model.Campaign.Journal

/-! # Entries that survive their normalization

`appendJournal` checks an entry before it folds the texts of the entry to one line each, and `readJournal` checks what
came out. Folding leaves nothing of a text without a visible character, and may change a timestamp; an entry whose
required texts all have one, and whose timestamp is still one, passes the second check as it passed the first.
-/

namespace Faberun.Journal

variable {ν : Type} {dateParses : String → Bool} {record normalized : Entry ν}

def foldFields (record : Entry ν) : Entry ν := record.map fun field => (field.1, folded field.2)

/-! ## Folding -/

theorem get_cons (field : String × JsValue ν) (rest : Entry ν) (key : String) :
    get (field :: rest) key = if field.1 = key then field.2 else get rest key := by
  by_cases same : field.1 = key <;> simp [get, same]

theorem get_foldFields (record : Entry ν) (key : String) : get (foldFields record) key = folded (get record key) := by
  induction record with
  | nil => rfl
  | cons field rest ih =>
    rw [foldFields, List.map_cons, get_cons, get_cons]
    split_ifs
    · rfl
    · exact ih

theorem collapseLines_visible {value : String} (some : collapseLines value ≠ "") : hasVisible value = true := by
  rw [← isBlank_collapseLines]
  by_contra blank
  rw [Bool.not_eq_false, isBlank, collapseLines, String.toList_ofList, List.all_eq_true] at blank
  have nil : collapseChars value.toList = [] := by
    by_contra kept
    rw [collapseChars, trimText] at kept blank
    exact List.rdropWhile_last_not _ _ kept (blank _ (List.getLast_mem kept))
  exact some (by rw [collapseLines, nil])

private theorem normalizeText_eq_ok {value label text : String} {maxBytes : Nat}
    (success : normalizeText value label maxBytes = .ok text) :
    text = collapseLines value ∧ hasVisible value = true := by
  simp only [normalizeText, bind, Except.bind, pure, Except.pure] at success
  split at success
  · cases success
  split at success
  · cases success
  rename_i shown
  split at success
  · cases success
  cases success
  rw [check_ok_iff, bne_iff_ne] at shown
  exact ⟨rfl, collapseLines_visible shown⟩

private theorem normalizeField_eq_ok {field result : String × JsValue ν} (success : normalizeField field = .ok result) :
    result = (field.1, folded field.2) ∧ (field.1 = "text" → showsText field.2 = true) := by
  obtain ⟨key, value⟩ := field
  cases value with
  | string value =>
    simp only [normalizeField] at success
    split_ifs at success with text
    · cases normal : normalizeText value "entry.text" textBytes with
      | error refusal =>
        rw [normal] at success
        cases success
      | ok collapsed =>
        rw [normal] at success
        cases success
        obtain ⟨rfl, shown⟩ := normalizeText_eq_ok normal
        exact ⟨rfl, fun _ => shown⟩
    · cases success
      exact ⟨rfl, fun same => absurd same text⟩
  | _ =>
    cases success
    exact ⟨rfl, fun _ => rfl⟩

/-- Normalization folds every text, and refuses an entry whose own text shows nothing. -/
theorem normalizeEntry_eq_ok (success : normalizeEntry record = .ok normalized) :
    normalized = foldFields record ∧ showsText (get record "text") = true := by
  induction record generalizing normalized with
  | nil =>
    cases success
    exact ⟨rfl, rfl⟩
  | cons field rest ih =>
    rw [normalizeEntry, List.mapM_cons] at success
    simp only [bind, Except.bind, pure, Except.pure] at success
    split at success
    · cases success
    rename_i first head
    split at success
    · cases success
    rename_i others tail
    cases success
    obtain ⟨rfl, shows⟩ := normalizeField_eq_ok head
    obtain ⟨rfl, text⟩ := ih tail
    refine ⟨rfl, ?_⟩
    rw [get_cons]
    split_ifs with same
    · exact shows same
    · exact text

/-! ## The second check -/

private theorem requireText_ok_iff {value : JsValue ν} {label : String} :
    requireText value label = .ok () ↔ isText value = true := check_ok_iff

private theorem requireOptionalText_ok_iff {value : JsValue ν} {label : String} :
    requireOptionalText value label = .ok () ↔ value.isUndefined = true ∨ isText value = true := by
  rw [requireOptionalText]
  split_ifs with absent
  · simp [absent]
  · simp [absent, requireText_ok_iff]

@[simp] theorem folded_isNull (value : JsValue ν) : (folded value).isNull = value.isNull := by cases value <;> rfl

@[simp] theorem folded_isUndefined (value : JsValue ν) : (folded value).isUndefined = value.isUndefined := by
  cases value <;> rfl

@[simp] theorem folded_isString (value : JsValue ν) : (folded value).isString = value.isString := by
  cases value <;> rfl

@[simp] theorem folded_isNumber (value : JsValue ν) : (folded value).isNumber = value.isNumber := by
  cases value <;> rfl

/-- A text that shows something is still a text once folded. -/
theorem isText_folded {value : JsValue ν} (text : isText value = true) (shows : showsText value = true) :
    isText (folded value) = true := by
  cases value with
  | string value =>
    rw [folded, isText, Bool.not_eq_true', isBlank_collapseLines]
    exact shows
  | _ => cases text

private theorem isText_text (success : isText (get record "text") = true)
    (text : showsText (get record "text") = true) : isText (get (foldFields record) "text") = true := by
  rw [get_foldFields]
  exact isText_folded success text

section Shape

variable {type : EntryType} (shows : ∀ key ∈ type.texts, showsText (get record key) = true)

include shows

private theorem isText_get {key : String} (member : key ∈ type.texts) (success : isText (get record key) = true) :
    isText (get (foldFields record) key) = true := by
  rw [get_foldFields]
  exact isText_folded success (shows key member)

private theorem optionalText_get {key : String} (member : key ∈ type.texts)
    (success : (get record key).isUndefined = true ∨ isText (get record key) = true) :
    (get (foldFields record) key).isUndefined = true ∨ isText (get (foldFields record) key) = true := by
  rcases success with absent | text
  · rw [get_foldFields, folded_isUndefined]
    exact .inl absent
  · exact .inr (isText_get shows member text)

end Shape

private theorem isSample_folded {value : JsValue ν} (sample : isSample value = true) : isSample (folded value) = true := by
  cases value with
  | string text =>
    rw [isSample, Bool.or_eq_true, beq_iff_eq, beq_iff_eq] at sample
    have kept : collapseLines "start" = "start" ∧ collapseLines "freeze" = "freeze" := by decide
    rcases sample with rfl | rfl
    · rw [folded, kept.1]
      rfl
    · rw [folded, kept.2]
      rfl
  | _ => cases sample

private theorem isAbsolute_folded {value : JsValue ν} (absolute : isAbsolute value = true) :
    isAbsolute (folded value) = true := by
  cases value with
  | string path =>
    rw [isAbsolute, beq_iff_eq, List.head?_eq_some_iff] at absolute
    obtain ⟨rest, slash⟩ := absolute
    obtain ⟨tail, kept⟩ := collapseChars_slash rest
    rw [folded, isAbsolute, collapseLines, slash, kept, String.toList_ofList]
    rfl
  | _ => cases absolute

private theorem validateSeatAllowanceEntry_folded (success : validateSeatAllowanceEntry record = .ok ()) :
    validateSeatAllowanceEntry (foldFields record) = .ok () := by
  simp only [validateSeatAllowanceEntry, andThen_ok_iff, check_ok_iff, List.forM_eq_forM, List.forM_cons, List.forM_nil,
    nullOr, get_foldFields, folded_isNull, folded_isUndefined, folded_isString, folded_isNumber] at success ⊢
  obtain ⟨sample, others⟩ := success
  exact ⟨isSample_folded sample, others⟩

section Session

variable (shows : ∀ key ∈ EntryType.sessionAttached.texts, showsText (get record key) = true)

include shows

private theorem validateTranscript_folded (success : validateTranscript record = .ok ()) :
    validateTranscript (foldFields record) = .ok () := by
  rw [validateTranscript] at success
  split at success
  · rename_i unavailable
    have same : get (foldFields record) "transcriptUnavailable" = .bool true := by
      rw [get_foldFields, unavailable]
      rfl
    rw [validateTranscript, same]
    simpa only [andThen_ok_iff, check_ok_iff, get_foldFields, folded_isNull] using success
  · rename_i available
    have same : get (foldFields record) "transcriptUnavailable" = .bool false := by
      rw [get_foldFields, available]
      rfl
    rw [validateTranscript, same]
    simp only [andThen_ok_iff, check_ok_iff] at success ⊢
    refine ⟨?_, isText_get shows (by decide) success.2⟩
    rw [get_foldFields]
    exact isAbsolute_folded success.1
  · cases success

private theorem validateSessionEntry_folded (success : validateSessionEntry record = .ok ()) :
    validateSessionEntry (foldFields record) = .ok () := by
  simp only [validateSessionEntry, andThen_ok_iff, check_ok_iff, requireText_ok_iff] at success ⊢
  obtain ⟨tool, session, transcript, cursor⟩ := success
  refine ⟨isText_get shows (by decide) tool, isText_get shows (by decide) session,
    validateTranscript_folded shows transcript, ?_⟩
  simp only [nullOr, Bool.or_eq_true, get_foldFields, folded_isUndefined, folded_isNull] at cursor ⊢
  refine cursor.imp_right (Or.imp_right fun text => ?_)
  exact isText_folded text (shows "cursor" (by decide))

end Session

/-- The checks of its type hold of a folded entry. -/
private theorem validateShape_folded (type : EntryType) (text : showsText (get record "text") = true)
    (shows : ∀ key ∈ type.texts, showsText (get record key) = true) (success : validateShape record type = .ok ()) :
    validateShape (foldFields record) type = .ok () := by
  cases type with
  | liveness => rfl
  | campaignInitialized => rfl
  | campaignClosed => rfl
  | seatAllowance => exact validateSeatAllowanceEntry_folded success
  | sessionAttached => exact validateSessionEntry_folded shows success
  | runRegistered =>
    rw [validateShape, requireText_ok_iff] at success ⊢
    exact isText_get shows (by decide) success
  | operatorCommand =>
    simp only [validateShape, andThen_ok_iff, requireText_ok_iff, requireOptionalText_ok_iff] at success ⊢
    exact ⟨isText_get shows (by decide) success.1, optionalText_get shows (by decide) success.2.1,
      optionalText_get shows (by decide) success.2.2⟩
  | campaignUnparked =>
    simp only [validateShape, andThen_ok_iff, requireText_ok_iff] at success ⊢
    refine ⟨isText_get shows (by decide) success.1, ?_⟩
    have run := success.2
    rw [get_foldFields, folded_isNull, ← get_foldFields]
    split_ifs at run ⊢
    · rfl
    · rw [requireOptionalText_ok_iff] at run ⊢
      exact optionalText_get shows (by decide) run
  | decision | supersede | openQuestion | questionResolved =>
    simp only [validateShape, andThen_ok_iff, requireText_ok_iff] at success ⊢
    exact ⟨isText_text success.1 text, isText_get shows (by decide) success.2⟩
  | outcome =>
    simp only [validateShape, andThen_ok_iff, requireText_ok_iff, requireOptionalText_ok_iff] at success ⊢
    exact ⟨isText_text success.1 text, optionalText_get shows (by decide) success.2⟩
  | intent | constraint | next | retrospective =>
    rw [validateShape, requireText_ok_iff] at success ⊢
    exact isText_text success text

private theorem entryType?_name {type : EntryType} (typed : entryType? record = some type) :
    get record "type" = .string type.name := by
  rw [entryType?] at typed
  split at typed
  · rename_i name same
    have found := List.find?_some (p := fun type : EntryType => type.name == name) typed
    rw [same, ← beq_iff_eq.mp found]
  · cases typed

theorem entryType?_of_name {type : EntryType} (named : get record "type" = .string type.name) :
    entryType? record = some type := by
  rw [entryType?, named]
  cases type <;> rfl

private theorem collapseLines_name (type : EntryType) : collapseLines type.name = type.name := by
  cases type <;> decide

theorem entryType?_foldFields {type : EntryType} (typed : entryType? record = some type) :
    entryType? (foldFields record) = some type := by
  apply entryType?_of_name
  rw [get_foldFields, entryType?_name typed, folded, collapseLines_name]

theorem rejectUnexpected_ok_iff {type : EntryType} :
    rejectUnexpected type record = .ok () ↔ ∀ field ∈ record, field.1 ∈ type.shape := by
  rw [rejectUnexpected]
  cases found : record.find? fun field => !type.shape.contains field.1 with
  | none => simpa using found
  | some field =>
    have member := List.mem_of_find?_eq_some found
    have unexpected := List.find?_some found
    simp only [reduceCtorEq, false_iff, not_forall]
    exact ⟨field, member, by simpa using unexpected⟩

private theorem isTimestamp_folded {value : JsValue ν} (timestamp : isTimestamp dateParses value = true)
    (keeps : keepsDate dateParses value = true) : isTimestamp dateParses (folded value) = true := by
  cases value with
  | string value =>
    rw [keepsDate, Bool.and_eq_true] at keeps
    rw [folded, isTimestamp, Bool.and_eq_true, Bool.not_eq_true', isBlank_collapseLines]
    exact keeps
  | _ => cases timestamp

private theorem requireTimestamp_ok_iff {value : JsValue ν} {label : String} :
    requireTimestamp dateParses value label = .ok () ↔ isTimestamp dateParses value = true := check_ok_iff

/-- What the validation of an entry asks for. -/
theorem validateRecord_ok_iff : validateRecord dateParses record = .ok () ↔
    ∃ type, entryType? record = some type ∧ (∀ field ∈ record, field.1 ∈ type.shape) ∧
      isTimestamp dateParses (get record "at") = true ∧ isText (get record "eventId") = true ∧
      (type.sessionRequired = true → isText (get record "sessionId") = true) ∧ validateShape record type = .ok () := by
  rw [validateRecord]
  cases typed : entryType? record with
  | none => simp
  | some type =>
    simp only [andThen_ok_iff, rejectUnexpected_ok_iff, requireTimestamp_ok_iff, requireText_ok_iff, Option.some.injEq,
      exists_eq_left']
    by_cases session : type.sessionRequired = true
    · simp [session, andThen_ok_iff, requireText_ok_iff]
    · simp [session, andThen_ok_iff]

/-- The checks read an entry through its properties. -/
theorem validateRecord_folded (keeps : keepsEntry dateParses record = true) (text : showsText (get record "text") = true)
    (success : validateRecord dateParses record = .ok ()) : validateRecord dateParses (foldFields record) = .ok () := by
  rw [validateRecord_ok_iff] at success ⊢
  obtain ⟨type, typed, allowed, date, event, session, shape⟩ := success
  simp only [keepsEntry, typed, Option.all_some, List.all_eq_true, Bool.and_eq_true] at keeps
  obtain ⟨shows, onDate⟩ := keeps
  refine ⟨type, entryType?_foldFields typed, ?_, ?_, ?_, ?_, validateShape_folded type text shows shape⟩
  · intro field member
    obtain ⟨original, here, rfl⟩ := List.mem_map.mp member
    exact allowed original here
  · rw [get_foldFields]
    exact isTimestamp_folded date onDate
  · exact isText_get shows (by cases type <;> decide) event
  · intro required
    refine isText_get shows ?_ (session required)
    cases type <;> first | decide | cases required

end Faberun.Journal
