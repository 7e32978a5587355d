import Faberun.Text.JsonText
import Faberun.Model.Util
import Faberun.Machine.Core

/-! # The campaign journal

The journal is a text file of one entry a line. `appendJournal` checks an entry, folds its texts to one line each and
appends it unless an entry with its event id is there; `readJournal` checks every committed line and refuses the whole
file for one bad line. The file is the text `readFileSync` decodes; `dateParses` is `Date.parse` giving a number.
-/

namespace Faberun.Journal

variable {ν : Type}

inductive EntryType where
  | campaignInitialized
  | campaignClosed
  | campaignUnparked
  | runRegistered
  | sessionAttached
  | intent
  | decision
  | supersede
  | constraint
  | outcome
  | next
  | openQuestion
  | questionResolved
  | operatorCommand
  | retrospective
  | liveness
  | seatAllowance
  deriving DecidableEq, Repr

namespace EntryType

def name : EntryType → String
  | campaignInitialized => "campaign.initialized"
  | campaignClosed => "campaign.closed"
  | campaignUnparked => "campaign.unparked"
  | runRegistered => "run.registered"
  | sessionAttached => "session.attached"
  | intent => "intent"
  | decision => "decision"
  | supersede => "supersede"
  | constraint => "constraint"
  | outcome => "outcome"
  | next => "next"
  | openQuestion => "open-question"
  | questionResolved => "question.resolved"
  | operatorCommand => "operator.command"
  | retrospective => "retrospective"
  | liveness => "liveness"
  | seatAllowance => "seat.allowance"

/-- `JOURNAL_TYPES`, in its order. -/
def all : List EntryType :=
  [campaignInitialized, campaignClosed, campaignUnparked, runRegistered, sessionAttached, intent, decision, supersede,
    constraint, outcome, next, openQuestion, questionResolved, operatorCommand, retrospective, liveness, seatAllowance]

/-- `SESSION_REQUIRED_TYPES`. -/
def sessionRequired : EntryType → Bool
  | sessionAttached | intent | decision | supersede | constraint | outcome | next | openQuestion | questionResolved
  | retrospective => true
  | _ => false

/-- `ENTRY_SHAPES`: the fields an entry may have. -/
def shape : EntryType → List String
  | campaignInitialized => ["at", "type", "eventId"]
  | campaignClosed => ["at", "type", "eventId"]
  | campaignUnparked => ["at", "type", "eventId", "code", "runId"]
  | runRegistered => ["at", "type", "eventId", "runId"]
  | sessionAttached =>
      ["at", "type", "eventId", "sessionId", "tool", "transcript", "transcriptUnavailable", "format", "cursor"]
  | intent => ["at", "type", "eventId", "sessionId", "text"]
  | decision => ["at", "type", "eventId", "sessionId", "decisionId", "text"]
  | supersede => ["at", "type", "eventId", "sessionId", "supersedes", "text"]
  | constraint => ["at", "type", "eventId", "sessionId", "text"]
  | outcome => ["at", "type", "eventId", "sessionId", "text", "runId"]
  | next => ["at", "type", "eventId", "sessionId", "text"]
  | openQuestion => ["at", "type", "eventId", "sessionId", "questionId", "text"]
  | questionResolved => ["at", "type", "eventId", "sessionId", "questionId", "text"]
  | operatorCommand => ["at", "type", "eventId", "command", "sessionId", "runId"]
  | retrospective => ["at", "type", "eventId", "sessionId", "text"]
  | liveness =>
      ["at", "type", "eventId", "campaignId", "runId", "nodeId", "phase", "checkpointsDone", "checkpointsTotal",
        "runtime", "state", "lastProgressAt", "attention"]
  | seatAllowance =>
      ["at", "type", "eventId", "sample", "harness", "remaining", "limit", "resetsAt", "delta", "window"]

end EntryType

/-- An entry: the properties of an object, in order. -/
abbrev Entry (ν : Type) := List (String × JsValue ν)

/-- `record[key]`. -/
def get (record : Entry ν) (key : String) : JsValue ν :=
  ((record.find? fun field => field.1 == key).map (·.2)).getD .undefined

/-! ## Validation -/

/-- A value that is null or of a kind. -/
def nullOr (kind : JsValue ν → Bool) (value : JsValue ν) : Bool := value.isNull || kind value

/-- A string that is not blank. -/
def isText : JsValue ν → Bool
  | .string value => !isBlank value
  | _ => false

def requireText (value : JsValue ν) (label : String) : Except Refusal Unit :=
  check (isText value) s!"{label} must be a non-empty string"

/-- `requireText` on a field that may be undefined. -/
def requireOptionalText (value : JsValue ν) (label : String) : Except Refusal Unit :=
  if value.isUndefined then .ok () else requireText value label

section Validate

variable (dateParses : String → Bool)

def isTimestamp : JsValue ν → Bool
  | .string value => !isBlank value && dateParses value
  | _ => false

def requireTimestamp (value : JsValue ν) (label : String) : Except Refusal Unit :=
  check (isTimestamp dateParses value) s!"{label} must be a valid timestamp"

/-- `SEAT_ALLOWANCE_SAMPLES.has(value)`. -/
def isSample : JsValue ν → Bool
  | .string sample => sample == "start" || sample == "freeze"
  | _ => false

def validateSeatAllowanceEntry (entry : Entry ν) : Except Refusal Unit := do
  check (isSample (get entry "sample")) "seat.allowance sample must be start or freeze"
  check (nullOr JsValue.isString (get entry "harness")) "seat.allowance harness must be null or a string"
  ["remaining", "limit", "delta"].forM fun field =>
    check (nullOr JsValue.isNumber (get entry field)) s!"seat.allowance {field} must be null or a number"
  check (nullOr JsValue.isString (get entry "resetsAt")) "seat.allowance resetsAt must be null or a string"
  check ((get entry "window").isUndefined || nullOr JsValue.isString (get entry "window"))
    "seat.allowance window must be null or a string"

/-- A path `isAbsolute` accepts. -/
def isAbsolute : JsValue ν → Bool
  | .string path => path.toList.head? == some '/'
  | _ => false

/-- A session names its transcript, or says that there is none. -/
def validateTranscript (entry : Entry ν) : Except Refusal Unit :=
  match get entry "transcriptUnavailable" with
  | .bool true => do
    check (get entry "transcript").isNull "unavailable session must not include a transcript path"
    check (get entry "format").isNull "unavailable session must not include a transcript format"
  | .bool false => do
    check (isAbsolute (get entry "transcript")) "session.transcript must be an absolute path when available"
    check (isText (get entry "format")) "session.format must be a non-empty string when a transcript is available"
  | _ => .error ⟨none, "session.transcriptUnavailable must be a boolean"⟩

def validateSessionEntry (entry : Entry ν) : Except Refusal Unit := do
  requireText (get entry "tool") "session.tool"
  requireText (get entry "sessionId") "session.sessionId"
  validateTranscript entry
  check ((get entry "cursor").isUndefined || nullOr isText (get entry "cursor"))
    "session.cursor must be null, omitted, or a non-empty string"

/-- The checks of an entry type beyond those all entries share. -/
def validateShape (entry : Entry ν) : EntryType → Except Refusal Unit
  | .liveness => .ok ()
  | .operatorCommand => do
    requireText (get entry "command") "entry.command"
    requireOptionalText (get entry "sessionId") "entry.sessionId"
    requireOptionalText (get entry "runId") "entry.runId"
  | .seatAllowance => validateSeatAllowanceEntry entry
  | .sessionAttached => validateSessionEntry entry
  | .runRegistered => requireText (get entry "runId") "entry.runId"
  | .campaignInitialized => .ok ()
  | .campaignClosed => .ok ()
  | .campaignUnparked => do
    requireText (get entry "code") "entry.code"
    if (get entry "runId").isNull then .ok () else requireOptionalText (get entry "runId") "entry.runId"
  | .decision => do
    requireText (get entry "text") "entry.text"
    requireText (get entry "decisionId") "entry.decisionId"
  | .supersede => do
    requireText (get entry "text") "entry.text"
    requireText (get entry "supersedes") "entry.supersedes"
  | .openQuestion => do
    requireText (get entry "text") "entry.text"
    requireText (get entry "questionId") "entry.questionId"
  | .questionResolved => do
    requireText (get entry "text") "entry.text"
    requireText (get entry "questionId") "entry.questionId"
  | .outcome => do
    requireText (get entry "text") "entry.text"
    requireOptionalText (get entry "runId") "entry.runId"
  | .intent => requireText (get entry "text") "entry.text"
  | .constraint => requireText (get entry "text") "entry.text"
  | .next => requireText (get entry "text") "entry.text"
  | .retrospective => requireText (get entry "text") "entry.text"

/-- The types as a refusal lists them. -/
def typeNames : String := String.intercalate ", " (EntryType.all.map EntryType.name)

/-- `record.type`, when it is one of the types. -/
def entryType? (entry : Entry ν) : Option EntryType :=
  match get entry "type" with
  | .string name => EntryType.all.find? fun type => type.name == name
  | _ => none

def rejectUnexpected (type : EntryType) (entry : Entry ν) : Except Refusal Unit :=
  match entry.find? fun field => !type.shape.contains field.1 with
  | none => .ok ()
  | some field => .error ⟨none, s!"journal entry {type.name} has unexpected field {field.1}"⟩

/-- `validateJournalEntry` on an object. -/
def validateRecord (entry : Entry ν) : Except Refusal Unit :=
  match entryType? entry with
  | none =>
    .error ⟨none, s!"journal entry type must be one of {typeNames}"⟩
  | some type => do
    rejectUnexpected type entry
    requireTimestamp dateParses (get entry "at") "entry.at"
    requireText (get entry "eventId") "entry.eventId"
    if type.sessionRequired then requireText (get entry "sessionId") "entry.sessionId" else .ok ()
    validateShape entry type

def validateJournalEntry : JsValue ν → Except Refusal (Entry ν)
  | .object entry => (validateRecord dateParses entry).map fun _ => entry
  | _ => .error ⟨none, "journal entry must be an object"⟩

end Validate

/-! ## Normalization -/

/-- `JOURNAL_TEXT_BYTES`. -/
def textBytes : Nat := 2 * 1024

def normalizeText (value : String) (label : String) (maxBytes : Nat) : Except Refusal String := do
  check (!isBlank value) s!"{label} must be a non-empty string"
  let collapsed := collapseLines value
  check (collapsed != "") s!"{label} must not be blank"
  let bytes := byteLength collapsed
  check (decide (bytes ≤ maxBytes))
    s!"{label} is {bytes} bytes, over the {maxBytes}-byte cap; cut {bytes - maxBytes} bytes and retry"
  return collapsed

def normalizeField (field : String × JsValue ν) : Except Refusal (String × JsValue ν) :=
  match field.2 with
  | .string value =>
    if field.1 = "text" then (normalizeText value "entry.text" textBytes).map fun text => (field.1, .string text)
    else .ok (field.1, .string (collapseLines value))
  | value => .ok (field.1, value)

def normalizeEntry (entry : Entry ν) : Except Refusal (Entry ν) := entry.mapM normalizeField

/-! ## The file -/

/-- `text.split(/\r?\n/u)`. -/
def splitLines : List Char → List (List Char)
  | [] => [[]]
  | '\r' :: '\n' :: rest => [] :: splitLines rest
  | '\n' :: rest => [] :: splitLines rest
  | c :: rest =>
    match splitLines rest with
    | [] => [[c]]
    | line :: lines => (c :: line) :: lines

/-- `!line.trim()`. -/
def isBlankLine (line : List Char) : Bool := line.all isJsWhitespace

/-- `text.endsWith("\n")`. -/
def endsLine (text : List Char) : Bool := text.getLast? == some '\n'

/-- `readJournal` refused a line; an error of `JSON.parse` has a text of its own. -/
structure InvalidLine where
  line : Nat
  cause : Option Refusal
  deriving DecidableEq, Repr

/-- Fields a historical liveness entry still has. -/
def legacyLivenessFields : List String := ["weightedUsed", "weightedCap"]

def withoutLegacyLivenessFields (entry : Entry ν) : Entry ν :=
  match entryType? entry with
  | some .liveness => entry.filter fun field => !legacyLivenessFields.contains field.1
  | _ => entry

section File

variable [Numerals ν] (dateParses : String → Bool)

/-- One committed line. -/
def readLine (number : Nat) (line : List Char) : Except InvalidLine (Entry ν) :=
  match JsonText.parse (ν := ν) line with
  | none => .error ⟨number, none⟩
  | some .null => .error ⟨number, none⟩
  | some (.object entry) =>
    match validateJournalEntry dateParses (.object (withoutLegacyLivenessFields entry)) with
    | .ok entry => .ok entry
    | .error refusal => .error ⟨number, some refusal⟩
  | some _ => .error ⟨number, some ⟨none, "journal entry must be an object"⟩⟩

/-- The loop of `readJournal` from a line on; an unterminated last line is not committed. -/
def readLines (terminated : Bool) : Nat → List (List Char) → Except InvalidLine (List (Entry ν))
  | _, [] => .ok []
  | number, line :: rest =>
    if isBlankLine line || (rest.isEmpty && !terminated) then readLines terminated (number + 1) rest
    else do
      let entry ← readLine dateParses number line
      let others ← readLines terminated (number + 1) rest
      return entry :: others

def readJournal (file : Option (List Char)) : Except InvalidLine (List (Entry ν)) :=
  match file with
  | none => .ok []
  | some text => readLines dateParses (endsLine text) 1 (splitLines text)

/-- The lines that parse, committed or not. -/
def readJournalForDedupe (text : List Char) : List (JsValue ν) :=
  ((splitLines text).filter fun line => !isBlankLine line).filterMap JsonText.parse

/-- The first entry with an event id; reading a property of null throws. -/
def findEvent (eventId : JsValue ν) : List (JsValue ν) → Except Refusal (Option (JsValue ν))
  | [] => .ok none
  | .null :: _ => .error ⟨none, "Cannot read properties of null (reading 'eventId')"⟩
  | .object entry :: rest =>
    match get entry "eventId", eventId with
    | .string existing, .string wanted =>
      if existing = wanted then .ok (some (.object entry)) else findEvent eventId rest
    | _, _ => findEvent eventId rest
  | _ :: rest => findEvent eventId rest

structure Appended (ν : Type) where
  entry : JsValue ν
  deduplicated : Bool

/-- What the call answers and the file it leaves. -/
def appendJournal (file : Option (List Char)) (entry : JsValue ν) :
    Except Refusal (Appended ν) × Option (List Char) :=
  match validateJournalEntry dateParses entry >>= normalizeEntry with
  | .error refusal => (.error refusal, file)
  | .ok normalized =>
    match findEvent (get normalized "eventId") (readJournalForDedupe (file.getD [])) with
    | .error refusal => (.error refusal, file)
    | .ok (some existing) => (.ok ⟨existing, true⟩, file)
    | .ok none =>
      (.ok ⟨.object normalized, false⟩, some (file.getD [] ++ JsonText.render (.object normalized) ++ ['\n']))

end File

/-! ## Calls and crashes -/

/-- A text without its last line, a line break at the end being part of that line. -/
def withoutLastLine (text : List Char) : List Char := text.dropLast.rdropWhile fun c => c != '\n'

/-- A character cut in two reads as U+FFFD. -/
def tornChar (count : Nat) (cut : Bool) (last : List Char) : List Char :=
  if cut && last[count]?.any (fun c => decide (0x80 ≤ c.toNat)) then ['\uFFFD'] else []

/-- What a crash leaves of a text: of the last line, some of its bytes. -/
def tear (count : Nat) (cut : Bool) (text : List Char) : List Char :=
  let last := text.drop (withoutLastLine text).length
  withoutLastLine text ++ (last.take count ++ tornChar count cut last)

/-- The fields with a text. -/
def written (entry : Entry ν) : Entry ν := entry.filter fun field => !field.2.isUndefined

/-- The file, and the normalized entries whose lines were completely written. -/
structure Disk (ν : Type) where
  file : Option (List Char)
  ledger : List (Entry ν)

inductive Label (ν : Type) where
  | append (entry : JsValue ν)
  | crash (count : Nat) (cut : Bool)

namespace Disk

variable [Numerals ν] (dateParses : String → Bool)

/-- The entry a call adds to the completely written ones. -/
def added : Except Refusal (Appended ν) → List (Entry ν)
  | .ok ⟨.object entry, false⟩ => [written entry]
  | _ => []

def append (disk : Disk ν) (entry : JsValue ν) : Disk ν :=
  let call := appendJournal dateParses disk.file entry
  ⟨call.2, disk.ledger ++ added call.1⟩

/-- Whether a crash takes the end of a complete line. -/
def losesLine (count : Nat) (text : List Char) : Bool :=
  endsLine text && decide (count < (text.drop (withoutLastLine text).length).length)

def crash (disk : Disk ν) (count : Nat) (cut : Bool) : Disk ν :=
  ⟨disk.file.map (tear count cut),
    if disk.file.any (losesLine count) then disk.ledger.dropLast else disk.ledger⟩

def step (disk : Disk ν) : Label ν → Option (Disk ν)
  | .append entry => some (disk.append dateParses entry)
  | .crash count cut => some (disk.crash count cut)

def machine : Machine (Disk ν) (Label ν) := ⟨step dateParses⟩

/-- A campaign without a journal. -/
def Initial (disk : Disk ν) : Prop := disk = ⟨none, []⟩

/-- What a call owes: it throws and leaves the file, or answers a committed entry with the event id, or the file
holds the committed entries and the normalized new one. -/
def Meets (disk : Disk ν) (entry : JsValue ν) : Prop :=
  match appendJournal dateParses disk.file entry with
  | (.error _, file) => file = disk.file
  | (.ok answer, file) => ∃ normalized, validateJournalEntry dateParses entry >>= normalizeEntry = .ok normalized ∧
      if answer.deduplicated then
        file = disk.file ∧ readJournal dateParses file = .ok disk.ledger ∧
          ∃ existing ∈ disk.ledger, answer.entry = .object existing ∧ get existing "eventId" = get normalized "eventId"
      else answer.entry = .object normalized ∧ readJournal dateParses file = .ok (disk.ledger ++ [written normalized])

end Disk

/-! ## What a call needs -/

/-- A value with its text folded. -/
def folded : JsValue ν → JsValue ν
  | .string value => .string (collapseLines value)
  | value => value

/-- The fields of an entry type that must hold a text where they hold a string. -/
def EntryType.texts : EntryType → List String
  | campaignInitialized => ["eventId"]
  | campaignClosed => ["eventId"]
  | campaignUnparked => ["eventId", "code", "runId"]
  | runRegistered => ["eventId", "runId"]
  | sessionAttached => ["eventId", "sessionId", "tool", "format", "cursor"]
  | intent => ["eventId", "sessionId"]
  | decision => ["eventId", "sessionId", "decisionId"]
  | supersede => ["eventId", "sessionId", "supersedes"]
  | constraint => ["eventId", "sessionId"]
  | outcome => ["eventId", "sessionId", "runId"]
  | next => ["eventId", "sessionId"]
  | openQuestion => ["eventId", "sessionId", "questionId"]
  | questionResolved => ["eventId", "sessionId", "questionId"]
  | operatorCommand => ["eventId", "command", "sessionId", "runId"]
  | retrospective => ["eventId", "sessionId"]
  | liveness => ["eventId"]
  | seatAllowance => ["eventId"]

/-- A string that shows something. -/
def showsText : JsValue ν → Bool
  | .string value => hasVisible value
  | _ => true

/-- A timestamp that is still one on its line. -/
def keepsDate (dateParses : String → Bool) : JsValue ν → Bool
  | .string value => hasVisible value && dateParses (collapseLines value)
  | _ => true

/-- Folding leaves the texts and the timestamp an entry must have. -/
def keepsEntry (dateParses : String → Bool) (record : Entry ν) : Bool :=
  (entryType? record).all (fun type => type.texts.all fun key => showsText (get record key)) &&
    keepsDate dateParses (get record "at")

/-- An entry with the event id of a call is committed. -/
def repeats (ledger : List (Entry ν)) (record : Entry ν) : Bool :=
  ledger.any fun entry => match get entry "eventId", folded (get record "eventId") with
    | .string existing, .string wanted => existing == wanted
    | _, _ => false

/-- One property a key, and every value JSON or undefined. -/
def saysJson [Numerals ν] (record : Entry ν) : Bool :=
  decide (record.map (·.1)).Nodup && JsonText.fieldsJson (written record)

/-- The file has no torn line. -/
def isComplete (file : Option (List Char)) : Bool := file.all fun text => text.isEmpty || endsLine text

namespace Disk

variable [Numerals ν] (dateParses : String → Bool)

/-- A call whose entry is accepted keeps its texts when they are folded and, unless it repeats a committed entry, finds
no torn line and holds only what JSON can say. -/
def sound (disk : Disk ν) : Label ν → Bool
  | .append (.object record) =>
    match validateJournalEntry dateParses (.object record) >>= normalizeEntry with
    | .error _ => true
    | .ok _ => keepsEntry dateParses record &&
        (repeats disk.ledger record || (isComplete disk.file && saysJson record))
  | _ => true

def Sound (disk : Disk ν) (label : Label ν) : Prop := disk.sound dateParses label = true

instance : DecidableRel (Sound (ν := ν) dateParses) := fun _ _ => inferInstanceAs (Decidable (_ = true))

end Disk

end Faberun.Journal
