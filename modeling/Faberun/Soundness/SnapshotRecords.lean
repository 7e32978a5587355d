import Faberun.Soundness.SnapshotBytes

/-! # The records of a verification pass

What `persistVerificationAttempt` makes of the list of records, and that the validator accepts every record it writes:
the bounds of the streams, the last sixteen attempts, the fields and the times.
-/

namespace Faberun.Verify

open Journal (get isText requireText requireTimestamp nullOr isTimestamp)
open JsonText
open Snapshot

section Records

variable {dateParses : String → Bool}

/-! ## The record of an attempt -/

private theorem openedRecord_record (identity : AttemptIdentity dateParses) (status : String) :
    openedRecord (identity.record status) = .object (recordFields identity status .null .null) := by
  simp [openedRecord, recordFields, AttemptIdentity.record, spread, setField, Journal.get, presentOrNull, JsValue.isUndefined]

theorem spread_record (identity next : AttemptIdentity dateParses) (status later : String)
    (completedAt result : JsValue Rat) :
    spread (recordFields identity status completedAt result) (next.record later) =
      recordFields next later completedAt result := by
  simp [recordFields, AttemptIdentity.record, spread, setField]

theorem spread_recordFields (identity next : AttemptIdentity dateParses) (status later : String)
    (completedAt result completion answer : JsValue Rat) :
    spread (recordFields identity status completedAt result) (recordFields next later completion answer) =
      recordFields next later completion answer := by
  simp [recordFields, AttemptIdentity.record, spread, setField]

theorem isInvocation_record (identity : AttemptIdentity dateParses) (status : String)
    (completedAt result : JsValue Rat) :
    isInvocation identity.invocationId (.object (recordFields identity status completedAt result)) = true := by
  simp [isInvocation, propertiesOf, recordFields, AttemptIdentity.record, Journal.get, string?]

/-! ## The list of records -/

private theorem mergeAttempt_fresh {invocationId : String} {update : JsonFields} {attempts : List (JsValue Rat)}
    (fresh : attempts.any (isInvocation invocationId) = false) : mergeAttempt invocationId update attempts = none := by
  induction attempts with
  | nil => rfl
  | cons item rest ih =>
    simp only [List.any_cons, Bool.or_eq_false_iff] at fresh
    rw [mergeAttempt, if_neg (by simp [fresh.1]), ih fresh.2]
    rfl

private theorem mergeAttempt_last {invocationId : String} {update : JsonFields} {attempts : List (JsValue Rat)}
    {record : JsValue Rat} (fresh : attempts.any (isInvocation invocationId) = false)
    (same : isInvocation invocationId record = true) :
    mergeAttempt invocationId update (attempts ++ [record]) =
      some (attempts ++ [.object (spread (propertiesOf record) update)]) := by
  induction attempts with
  | nil => rw [List.nil_append, mergeAttempt, if_pos same, List.nil_append]
  | cons item rest ih =>
    simp only [List.any_cons, Bool.or_eq_false_iff] at fresh
    rw [List.cons_append, mergeAttempt, if_neg (by simp [fresh.1]), ih fresh.2]
    rfl

theorem window_fresh {invocationId : String} {attempts : List (JsValue Rat)}
    (fresh : attempts.any (isInvocation invocationId) = false) :
    (window attempts).any (isInvocation invocationId) = false := by
  rw [List.any_eq_false] at fresh ⊢
  exact fun item member => fresh item (List.mem_of_mem_drop member)

theorem window_length (attempts : List (JsValue Rat)) : (window attempts).length ≤ 15 := by
  rw [window, List.length_drop]
  omega

/-- The first write of an attempt adds its record behind the last fifteen. -/
theorem persistedAttempts_open {attempts : List (JsValue Rat)} (identity : AttemptIdentity dateParses)
    (status : String) (fresh : attempts.any (isInvocation identity.invocationId) = false) :
    persistedAttempts identity.invocationId (identity.record status) attempts =
      window attempts ++ [.object (recordFields identity status .null .null)] := by
  rw [persistedAttempts, mergeAttempt_fresh fresh, Option.getD_none, openedRecord_record, lastRecords, window,
    List.length_append, List.length_singleton]
  have cut : attempts.length + 1 - 16 = attempts.length - 15 := by omega
  rw [cut, List.drop_append_of_le_length (by omega)]

/-- A later write of it changes that record only. -/
theorem persistedAttempts_merge {attempts : List (JsValue Rat)} {invocationId : String} {old update : JsonFields}
    (short : attempts.length ≤ 15) (fresh : attempts.any (isInvocation invocationId) = false)
    (same : isInvocation invocationId (.object old) = true) :
    persistedAttempts invocationId update (attempts ++ [.object old]) = attempts ++ [.object (spread old update)] := by
  rw [persistedAttempts, mergeAttempt_last fresh same, Option.getD_some, lastRecords, List.length_append,
    List.length_singleton, Nat.sub_eq_zero_of_le (by omega), List.drop_zero]
  rfl

/-! ## Records are accepted -/

/-- A record the validator accepts, under any label. -/
def RecordValid (dateParses : String → Bool) (record : JsValue Rat) : Prop :=
  ∀ label, validateVerificationAttempt dateParses record label = .ok ()

/-- A completion that is null or a time. -/
def completionValid (dateParses : String → Bool) (completedAt : JsValue Rat) : Prop :=
  nullOr (isTimestamp dateParses) completedAt = true

def resultValid (result : JsValue Rat) : Prop := ∀ label, validateAttemptResult result label = .ok ()

theorem isTimestamp_text (time : Timestamp dateParses) :
    isTimestamp dateParses (.string time.text : JsValue Rat) = true := time.parses

private theorem isInteger_numberOrNull (value : Option Nat) : nullOr isInteger (numberOrNull value) = true := by
  cases value with
  | none => rfl
  | some value => simp [nullOr, numberOrNull, orNull, isInteger]

private theorem isText_token (token : Option StartToken) :
    nullOr isText (orNull (token.map fun token => .string token.text) : JsValue Rat) = true := by
  cases token with
  | none => rfl
  | some token => simp [nullOr, orNull, isText, token.named]

theorem record_valid {identity : AttemptIdentity dateParses} (positive : 0 < identity.attempt) {status : String}
    (known : status ∈ attemptStatusNames) {completedAt result : JsValue Rat}
    (completed : completionValid dateParses completedAt) (answered : resultValid result) :
    RecordValid dateParses (.object (recordFields identity status completedAt result)) := by
  intro label
  have named : isText (.string identity.invocationId : JsValue Rat) = true := by simp [isText, identity.named]
  have index : isNonNegativeInteger (.number identity.commandIndex) = true := by simp [isNonNegativeInteger, Rat.natCast_nonneg]
  have attempt : isPositiveInteger (.number identity.attempt) = true := by simp [isPositiveInteger, Rat.natCast_pos, positive]
  have statusKnown : isAttemptStatus (.string status) = true := by simpa [isAttemptStatus] using known
  have fields : (recordFields identity status completedAt result).find?
      (fun field => !attemptFields.contains field.1) = none := by
    simp [recordFields, AttemptIdentity.record, attemptFields]
  simp only [validateVerificationAttempt, fields, andThen_ok_iff, requireText, requireTimestamp, check_ok_iff]
  exact ⟨named, index, attempt, isInteger_numberOrNull _, isInteger_numberOrNull _, isText_token _,
    isTimestamp_text _, isTimestamp_text _, statusKnown, completed, answered label⟩

private theorem isBoundedText_boundedUtf8 (text : String) {maxBytes : Nat} (mark : 3 ≤ maxBytes) :
    isBoundedText maxBytes (.string (boundedUtf8 text maxBytes)) = true :=
  decide_eq_true (charBytes_boundedUtf8_le text mark)

/-- What `validateAttemptResult` asks of a stream or an error. -/
private def streamValid (value : JsValue Rat) : Prop :=
  (value.isNull || value.isUndefined || isBoundedText 2048 value) = true

private theorem streamValid_boundedUtf8 (text : String) : streamValid (.string (boundedUtf8 text (2 * 1024))) := by
  have bounded : isBoundedText 2048 (.string (boundedUtf8 text (2 * 1024))) = true :=
    isBoundedText_boundedUtf8 text (by decide)
  rw [streamValid, bounded, Bool.or_true]

theorem boundedResult_valid (result : VerificationAttemptResult) :
    resultValid (boundedVerificationAttemptResult result) := by
  intro label
  have error : ∀ value : Option String,
      streamValid (orNull (value.map fun error => .string (boundedUtf8 error (2 * 1024)))) := by
    rintro (_ | text)
    · rfl
    · exact streamValid_boundedUtf8 text
  obtain ⟨fields, named⟩ : ∃ fields, boundedVerificationAttemptResult result = .object fields := ⟨_, rfl⟩
  have read (key : String) : get fields key = get (propertiesOf (boundedVerificationAttemptResult result)) key := by
    rw [named, propertiesOf]
  have stdout : streamValid (get fields "stdout") := by
    rw [read]
    exact streamValid_boundedUtf8 result.stdout
  have stderr : streamValid (get fields "stderr") := by
    rw [read]
    exact streamValid_boundedUtf8 result.stderr
  have failure : streamValid (get fields "error") := by
    rw [read]
    exact error _
  have passed : isBool (get fields "passed") = true := by
    rw [read]
    rfl
  rw [named]
  simp only [validateAttemptResult, andThen_ok_iff, List.forM_eq_forM, List.forM_cons, List.forM_nil, check_ok_iff]
  exact ⟨⟨stdout, stderr, failure, rfl⟩, passed⟩

/-! ## Lists of records -/

private theorem attemptResult_label {value : JsValue Rat} {label : String}
    (accepted : validateAttemptResult value label = .ok ()) : resultValid value := by
  intro other
  cases value with
  | null => rfl
  | object fields =>
    simp only [validateAttemptResult, andThen_ok_iff, List.forM_eq_forM, List.forM_cons, List.forM_nil,
      check_ok_iff] at accepted ⊢
    exact accepted
  | _ => simp [validateAttemptResult] at accepted

/-- The label of a record is in the message of its refusal only. -/
private theorem record_label {value : JsValue Rat} {label : String}
    (accepted : validateVerificationAttempt dateParses value label = .ok ()) : RecordValid dateParses value := by
  intro other
  cases value with
  | object record =>
    cases unknown : record.find? (fun field => !attemptFields.contains field.1) with
    | some field =>
      simp only [validateVerificationAttempt, unknown] at accepted
      cases accepted
    | none =>
      simp only [validateVerificationAttempt, unknown, andThen_ok_iff, requireText, requireTimestamp,
        check_ok_iff] at accepted ⊢
      obtain ⟨named, index, attempt, pid, group, token, started, deadline, status, completed, answered⟩ := accepted
      exact ⟨named, index, attempt, pid, group, token, started, deadline, status, completed,
        attemptResult_label answered other⟩
  | _ => simp [validateVerificationAttempt] at accepted

private theorem validateAttempts_iff (attempts : List (JsValue Rat)) (index : Nat) :
    validateAttempts dateParses index attempts = .ok () ↔ ∀ record ∈ attempts, RecordValid dateParses record := by
  induction attempts generalizing index with
  | nil => simp [validateAttempts]
  | cons record rest ih =>
    rw [validateAttempts, andThen_ok_iff, ih, List.forall_mem_cons]
    exact and_congr_left fun _ => ⟨record_label, fun valid => valid _⟩

/-- The records a state may hold. -/
structure RecordsValid (dateParses : String → Bool) (attempts : List (JsValue Rat)) : Prop where
  short : attempts.length ≤ 16
  each : ∀ record ∈ attempts, RecordValid dateParses record

private theorem attemptList_iff (attempts : List (JsValue Rat)) :
    validateAttemptList dateParses (.array attempts) = .ok () ↔ RecordsValid dateParses attempts := by
  rw [validateAttemptList, andThen_ok_iff, check_ok_iff, decide_eq_true_eq, validateAttempts_iff]
  exact ⟨fun ⟨short, each⟩ => ⟨short, each⟩, fun valid => ⟨valid.short, valid.each⟩⟩

/-- What an interrupted pass left is kept in its place. -/
theorem openedState_valid {verification : JsValue Rat} (valid : validateVerificationField dateParses verification = .ok ()) :
    RecordsValid dateParses (VerificationContext.openedState verification).attempts := by
  have none : RecordsValid dateParses [] := ⟨Nat.zero_le _, by simp⟩
  cases verification with
  | object value =>
    have accepted : validateVerificationSnapshot dateParses (.object value) = .ok () := valid
    simp only [validateVerificationSnapshot, andThen_ok_iff] at accepted
    obtain ⟨_, _, attempts, _⟩ := accepted
    simp only [VerificationContext.openedState, propertiesOf]
    cases listed : get value "attempts" with
    | array items =>
      rw [listed] at attempts
      exact (attemptList_iff _).mp attempts
    | _ => exact none
  | _ => exact none

theorem state_valid {state : VerificationState} (commands : state.commands.length ≤ 32)
    (records : RecordsValid dateParses state.attempts)
    (error : ∀ text, state.error = some text → charBytes text.toList ≤ 4096) :
    validateVerificationSnapshot dateParses state.toJson = .ok () := by
  obtain ⟨fields, named⟩ : ∃ fields, state.toJson = .object fields := ⟨_, rfl⟩
  have read (key : String) : get fields key = get (propertiesOf state.toJson) key := by rw [named, propertiesOf]
  have listed : isBoundedArray 32 (get fields "commands") = true := by
    rw [read]
    exact decide_eq_true (by rw [List.length_map]; exact commands)
  have passed : isBool (get fields "passed") = true := by
    rw [read]
    rfl
  have completed : isBool (get fields "completed") = true := by
    rw [read]
    rfl
  have attempts : get fields "attempts" = .array state.attempts := by
    rw [read]
    rfl
  have failure : ((get fields "error").isUndefined || isBoundedText 4096 (get fields "error")) = true := by
    have same : get fields "error" = orUndefined (state.error.map .string) := by
      rw [read]
      rfl
    rw [same]
    cases failed : state.error with
    | none => rfl
    | some text =>
      have bounded := error text failed
      simpa [orUndefined, JsValue.isUndefined, isBoundedText] using bounded
  rw [named]
  simp only [validateVerificationSnapshot, andThen_ok_iff, check_ok_iff]
  refine ⟨by rw [passed, listed]; rfl, by rw [completed, Bool.or_true], ?_, failure⟩
  rw [attempts]
  exact (attemptList_iff _).mpr records

end Records

end Faberun.Verify
