import Faberun.Text.Utf8
import Faberun.Text.ByteLines
import Faberun.Model.Campaign.Journal

/-! # The campaign projection

The journal folded into current state, and the record that resumes the fold at the last complete journal byte. A call
reads the record, then only what the journal gained since, or the whole journal; every read of a file is a step of its
own, and the journal may be appended to between any two of them.
-/

namespace Faberun.CampaignProjection

open Journal

variable {ν : Type}

/-! ## The fold -/

/-- `PROJECTION_LIST_CAP`. -/
def listCap : Nat := 60

/-- `PROJECTION_ACTIVE_CAP`. -/
def activeCap : Nat := 100

/-- An object of entries: its properties in the order of `Object.keys`. -/
abbrev EntryMap (ν : Type) := List (String × Entry ν)

/-- The number a property name stands for, when it is an array index; such names come first, in their order. -/
def arrayIndex? (key : String) : Option Nat :=
  let index := Nat.ofDigitChars 10 key.toList 0
  if key ≠ "" ∧ key.toList.all Char.isDigit ∧ index < 2 ^ 32 - 1 ∧ Nat.toDigits 10 index = key.toList then some index
  else none

/-- An array index below another. -/
def comesBefore (index : Nat) (field : String × Entry ν) : Bool := (arrayIndex? field.1).any fun other => other < index

/-- `{ ...map, [key]: entry }`. -/
def assignKey (map : EntryMap ν) (key : String) (entry : Entry ν) : EntryMap ν :=
  if map.any fun field => field.1 == key then map.map fun field => if field.1 = key then (key, entry) else field
  else match arrayIndex? key with
    | none => map ++ [(key, entry)]
    | some index => map.takeWhile (comesBefore index) ++ (key, entry) :: map.dropWhile (comesBefore index)

/-- `delete map[key]`. -/
def deleteKey (map : EntryMap ν) (key : String) : EntryMap ν := map.filter fun field => field.1 != key

/-- How many entries a list or a map lost, by its name. -/
abbrev Evicted := List (String × Nat)

/-- `evicted[key] = (evicted[key] ?? 0) + count`. -/
def evict (evicted : Evicted) (key : String) (count : Nat) : Evicted :=
  if evicted.any fun field => field.1 == key then
    evicted.map fun field => if field.1 = key then (key, field.2 + count) else field
  else evicted ++ [(key, count)]

def pushCapped (list : List (Entry ν)) (entry : Entry ν) (key : String) (evicted : Evicted) :
    List (Entry ν) × Evicted :=
  let next := list ++ [entry]
  if next.length > listCap then
    let dropped := next.length - listCap
    (next.drop dropped, evict evicted key dropped)
  else (next, evicted)

/-- `entry.at`, a text in every entry that was read. -/
def entryAt (entry : Entry ν) : String :=
  match Journal.get entry "at" with
  | .string moment => moment
  | _ => ""

/-- The key `reduce` finds: of two entries at one moment, the first. -/
def oldestKey : EntryMap ν → Option String
  | [] => none
  | first :: rest =>
    some (rest.foldl (fun left right => if textLess (entryAt right.2) (entryAt left.2) then right else left) first).1

def setCapped (map : EntryMap ν) (key : String) (entry : Entry ν) (evicted : Evicted) (evictionKey : String) :
    EntryMap ν × Evicted :=
  let next := assignKey map key entry
  if next.length > activeCap then
    match oldestKey next with
    | some oldest => (deleteKey next oldest, evict evicted evictionKey 1)
    | none => (next, evicted)
  else (next, evicted)

structure Projection (ν : Type) where
  updatedAt : JsValue ν
  decisions : EntryMap ν
  questions : EntryMap ν
  constraints : List (Entry ν)
  intents : List (Entry ν)
  outcomes : List (Entry ν)
  sessions : List (Entry ν)
  next : Option (Entry ν)
  evicted : Evicted

def emptyProjection : Projection ν := ⟨.null, [], [], [], [], [], [], none, []⟩

/-- A text field of an entry; the entries read have a text there or nothing. -/
def textField (entry : Entry ν) (key : String) : Option String :=
  match Journal.get entry key with
  | .string value => some value
  | _ => none

/-- The body of the loop behind `next.updatedAt = entry.at`. -/
def foldType (state : Projection ν) (entry : Entry ν) : Option EntryType → Projection ν
  | some .sessionAttached =>
    let (sessions, evicted) := pushCapped state.sessions entry "sessions" state.evicted
    { state with sessions, evicted }
  | some .intent =>
    let (intents, evicted) := pushCapped state.intents entry "intents" state.evicted
    { state with intents, evicted }
  | some .decision =>
    match textField entry "decisionId" with
    | none => state
    | some key =>
      let (decisions, evicted) := setCapped state.decisions key entry state.evicted "decisions"
      { state with decisions, evicted }
  | some .supersede =>
    match textField entry "supersedes" with
    | none => state
    | some key => { state with decisions := deleteKey state.decisions key }
  | some .constraint =>
    let (constraints, evicted) := pushCapped state.constraints entry "constraints" state.evicted
    { state with constraints, evicted }
  | some .outcome | some .retrospective =>
    let (outcomes, evicted) := pushCapped state.outcomes entry "outcomes" state.evicted
    { state with outcomes, evicted }
  | some .next => { state with next := some entry }
  | some .openQuestion =>
    match textField entry "questionId" with
    | none => state
    | some key =>
      let (questions, evicted) := setCapped state.questions key entry state.evicted "questions"
      { state with questions, evicted }
  | some .questionResolved =>
    match textField entry "questionId" with
    | none => state
    | some key => { state with questions := deleteKey state.questions key }
  | _ => state

def foldEntry (state : Projection ν) (entry : Entry ν) : Projection ν :=
  if entryType? entry = some .liveness then state
  else foldType { state with updatedAt := Journal.get entry "at" } entry (entryType? entry)

def foldEntries (state : Projection ν) (entries : List (Entry ν)) : Projection ν := entries.foldl foldEntry state

def projectState (journal : List (Entry ν)) : Projection ν := foldEntries emptyProjection journal

/-! ## The record -/

/-- `projection.json`. -/
structure Record (ν : Type) where
  cursor : Nat
  byte : Nat
  size : Nat
  projection : Projection ν

/-- What `validProjectionRecord` asks of a record whose fields have their types. -/
def validProjectionRecord (stored : Record ν) : Bool := !(stored.byte == 0 && decide (0 < stored.cursor))

/-- What `readProjectionState` returns. -/
structure Answer (ν : Type) where
  state : Projection ν
  cursor : Nat
  byte : Nat
  size : Nat
  changed : Bool

/-! ## The journal's bytes -/

/-- `JOURNAL_TAIL_BYTES`. -/
def tailBytes : Nat := 4096

/-- `if (line.endsWith("\r")) line = line.slice(0, -1)`. -/
def withoutCarriage (line : List Char) : List Char := if line.getLast? = some '\r' then line.dropLast else line

/-- The text of a line's bytes. -/
def lineText (line : List UInt8) : List Char := withoutCarriage (Utf8.decode line)

section Read

variable [Numerals ν] (dateParses : String → Bool)

/-- The loop of `readJournalDelta` over the lines of its buffer; what it throws is caught. -/
def deltaEntries : List (List UInt8) → Option (List (Entry ν))
  | [] => some []
  | line :: rest =>
    if isBlankLine (lineText line) then deltaEntries rest
    else do
      let entry ← (readLine dateParses 0 (lineText line)).toOption
      let others ← deltaEntries rest
      return entry :: others

/-- The answer of the incremental path. -/
def resume (stored : Record ν) (journalSize nextByte : Nat) (entries : List (Entry ν)) : Answer ν :=
  if entries.isEmpty then ⟨stored.projection, stored.cursor, nextByte, stored.size, false⟩
  else ⟨foldEntries stored.projection entries, stored.cursor + entries.length, nextByte, journalSize, true⟩

/-- Where a call stands between two reads, with what the reads before gave. -/
inductive Reader (ν : Type) where
  | idle
  /-- The record was read. -/
  | loaded (stored : Option (Record ν))
  /-- The record is trusted; `readJournalDelta` begins. -/
  | resuming (stored : Record ν) (journalSize : Nat)
  /-- `readJournalDelta` knows the size of the journal. -/
  | delta (stored : Record ν) (journalSize size : Nat)
  /-- The whole journal is to be read. -/
  | parsing (journalSize : Nat)
  /-- `readJournal` read these bytes; `completeJournalByte` begins. -/
  | measuring (journalSize : Nat) (seen : List UInt8) (journal : List (Entry ν))
  /-- `completeJournalByte` knows the size and scans from a byte on. -/
  | scanning (journalSize : Nat) (seen : List UInt8) (journal : List (Entry ν)) (size start : Nat)
  /-- The complete bytes below the size were measured. -/
  | measured (journalSize : Nat) (seen : List UInt8) (journal : List (Entry ν)) (size byte : Nat)
  /-- The incremental path has its answer. -/
  | resumed (answer : Answer ν)
  /-- The call returned. -/
  | returned (answer : Answer ν)

namespace Reader

/-- The next read of a call; a refused journal ends the call. -/
def read (journal : Option (List UInt8)) : Reader ν → Option (Reader ν)
  | loaded stored =>
    let journalSize := (journal.getD []).length
    match stored with
    | some record =>
      some (if validProjectionRecord record ∧ record.size ≤ journalSize then resuming record journalSize
        else parsing journalSize)
    | none => some (parsing journalSize)
  | resuming stored journalSize =>
    match journal with
    | none => some (resumed (resume stored journalSize stored.byte []))
    | some bytes =>
      some (if bytes.length ≤ stored.byte then resumed (resume stored journalSize stored.byte [])
        else delta stored journalSize bytes.length)
  | delta stored journalSize size =>
    let buffer := ((journal.getD []).take size).drop stored.byte
    match deltaEntries dateParses (completeLines buffer) with
    | none => some (parsing journalSize)
    | some entries => some (resumed (resume stored journalSize (stored.byte + completeBytes buffer) entries))
  | parsing journalSize =>
    match readJournal dateParses (journal.map Utf8.decode) with
    | .error _ => some idle
    | .ok entries => some (measuring journalSize (journal.getD []) entries)
  | measuring journalSize seen entries =>
    let size := (journal.getD []).length
    some (if size = 0 then measured journalSize seen entries 0 0
      else scanning journalSize seen entries size (size - tailBytes))
  | scanning journalSize seen entries size start =>
    let buffer := ((journal.getD []).take size).drop start
    if buffer.getLast? = some newline then some (measured journalSize seen entries size size)
    else match lastNewline? buffer with
      | some index => some (measured journalSize seen entries size (start + index + 1))
      | none =>
        some (if start = 0 then measured journalSize seen entries size 0
          else scanning journalSize seen entries size (start - tailBytes))
  | _ => none

/-- What the call returns, when it has read all it needs. -/
def answer? : Reader ν → Option (Answer ν)
  | measured journalSize _ entries _ byte => some ⟨projectState entries, entries.length, byte, journalSize, true⟩
  | resumed answer => some answer
  | _ => none

end Reader

/-! ## Calls and appends -/

/-- The two files, the calls in flight and what calls returned so far. -/
structure State (ρ ν : Type) where
  journal : Option (List UInt8)
  stored : Option (Record ν)
  readers : ρ → Reader ν
  answers : List (Answer ν)

inductive Label (ρ : Type) where
  /-- Some bytes are appended to the journal. -/
  | append (bytes : List UInt8)
  /-- The projection file is deleted or damaged. -/
  | lose
  /-- A call reads the projection file. -/
  | begin (reader : ρ)
  | read (reader : ρ)
  | answer (reader : ρ)
  /-- `renderHandoff` writes the projection it was given. -/
  | store (reader : ρ)
  | leave (reader : ρ)

namespace State

variable {ρ : Type} [DecidableEq ρ]

/-- The bytes of the journal. -/
def bytes (s : State ρ ν) : List UInt8 := s.journal.getD []

def withReader (s : State ρ ν) (reader : ρ) (next : Reader ν) : State ρ ν :=
  { s with readers := Function.update s.readers reader next }

def step (s : State ρ ν) : Label ρ → Option (State ρ ν)
  | .append more => some { s with journal := some (s.bytes ++ more) }
  | .lose => some { s with stored := none }
  | .begin reader =>
    match s.readers reader with
    | .idle => some (s.withReader reader (.loaded s.stored))
    | _ => none
  | .read reader => ((s.readers reader).read dateParses s.journal).map (s.withReader reader)
  | .answer reader =>
    (s.readers reader).answer?.map fun answer =>
      { s.withReader reader (.returned answer) with answers := s.answers ++ [answer] }
  | .store reader =>
    match s.readers reader with
    | .returned answer =>
      some { s.withReader reader .idle with
        stored := if answer.changed then some ⟨answer.cursor, answer.byte, answer.size, answer.state⟩ else s.stored }
    | _ => none
  | .leave reader =>
    match s.readers reader with
    | .returned _ => some (s.withReader reader .idle)
    | _ => none

end State

def machine (ρ ν : Type) [DecidableEq ρ] [Numerals ν] (dateParses : String → Bool) : Machine (State ρ ν) (Label ρ) :=
  ⟨State.step dateParses⟩

/-! ## The fold of the first bytes -/

/-- A projection is the fold of the entries in the journal's first bytes, which end with a line. -/
structure Exact (bytes : List UInt8) (cursor byte : Nat) (projection : Projection ν) : Prop where
  bound : byte ≤ bytes.length
  ended : Ended (bytes.take byte)
  folded : ∃ entries, readJournal dateParses (some (Utf8.decode (bytes.take byte))) = .ok entries ∧
    projection = projectState entries ∧ cursor = entries.length

/-- The answer of a call is exact for a journal. -/
def Answer.Exact (answer : Answer ν) (bytes : List UInt8) : Prop :=
  CampaignProjection.Exact dateParses bytes answer.cursor answer.byte answer.state

/-- A journal of any bytes, a stored record that is exact for it or not trusted, and no call in flight. -/
def Initial {ρ : Type} (s : State ρ ν) : Prop :=
  (∀ record, s.stored = some record → validProjectionRecord record = true →
    Exact dateParses s.bytes record.cursor record.byte record.projection) ∧
    (∀ reader, s.readers reader = .idle) ∧ s.answers = []

/-- The complete lines that are not blank. -/
def entryLines (bytes : List UInt8) : List (List UInt8) :=
  (completeLines bytes).filter fun line => !isBlankLine (lineText line)

/-- No entry was completed between the read of the whole journal and the measure of its complete bytes. -/
def Unmoved {ρ : Type} (s : State ρ ν) : Label ρ → Prop
  | .answer reader =>
    match s.readers reader with
    | .measured _ seen _ size _ => entryLines (s.bytes.take size) = entryLines seen
    | _ => True
  | _ => True

end Read

end Faberun.CampaignProjection
