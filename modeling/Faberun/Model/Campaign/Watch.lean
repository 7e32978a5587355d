import Mathlib.Data.List.Infix
import Mathlib.Data.List.Sort
import Faberun.Model.Campaign.Journal

/-! # Watching the journal

A watcher reads the journal past a cursor. The cursor is a position, the timestamp and event id of an entry, and the
entries are sorted by position before the unseen ones are taken. Each call reads the journal, then the cursor, and
writes the cursor last; writers look an event id up and append later. `Feed` interleaves all of these.
-/

namespace Faberun.Journal

variable {ν : Type}

/-! ## Positions -/

structure Position where
  writtenAt : String
  eventId : String
  deriving DecidableEq, Repr

/-- Where a watcher that has seen nothing stands. -/
def Position.start : Position := ⟨"", ""⟩

/-- A negative, zero or positive number, as `sort` takes it. -/
def compareJournalPositions (left right : Position) : Int :=
  if left.writtenAt ≠ right.writtenAt then (if textLess left.writtenAt right.writtenAt then -1 else 1)
  else if textLess left.eventId right.eventId then -1
  else if textLess right.eventId left.eventId then 1
  else 0

namespace Position

/-- Positions are ordered by timestamp, then by event id. -/
def rank (position : Position) : List Nat ×ₗ List Nat :=
  toLex (textUnits position.writtenAt, textUnits position.eventId)

theorem rank_injective : Function.Injective rank := by
  rintro ⟨writtenAt, eventId⟩ ⟨writtenAt', eventId'⟩ same
  obtain ⟨times, events⟩ := Prod.mk.inj (toLex.injective same)
  obtain rfl := textUnits_injective times
  obtain rfl := textUnits_injective events
  rfl

instance : LinearOrder Position := LinearOrder.lift' rank rank_injective

theorem lt_iff {left right : Position} : left < right ↔ textUnits left.writtenAt < textUnits right.writtenAt ∨
    left.writtenAt = right.writtenAt ∧ textUnits left.eventId < textUnits right.eventId := by
  change rank left < rank right ↔ _
  rw [rank, rank, Prod.Lex.toLex_lt_toLex]
  exact or_congr_right (and_congr_left fun _ => textUnits_injective.eq_iff)

end Position

/-- The comparison is the order of positions. -/
theorem compareJournalPositions_pos_iff {left right : Position} :
    0 < compareJournalPositions left right ↔ right < left := by
  rw [compareJournalPositions, Position.lt_iff]
  rcases eq_or_ne left.writtenAt right.writtenAt with same | differs
  · rcases lt_trichotomy (textUnits left.eventId) (textUnits right.eventId) with less | equal | more
    · simp [same, textLess_iff.mpr less, less.asymm]
    · simp [same, textLess, equal]
    · simp [same, textLess, more, more.asymm]
  · have apart : textUnits left.writtenAt ≠ textUnits right.writtenAt := fun same => differs (textUnits_injective same)
    rcases lt_or_gt_of_ne apart with less | more
    · simp [differs, differs.symm, textLess_iff.mpr less, less.asymm]
    · simp [differs, textLess, more, more.asymm]

/-! ## Entries -/

def textOf : JsValue ν → String
  | .string value => value
  | _ => ""

def positionOf (entry : Entry ν) : Position := ⟨textOf (get entry "at"), textOf (get entry "eventId")⟩

/-- A heartbeat of the old mechanism, which no watcher is shown. -/
def isLiveness (entry : Entry ν) : Bool :=
  match get entry "type" with
  | .string name => name == "liveness"
  | _ => false

/-- The entries a watcher is shown. -/
def narrative (journal : List (Entry ν)) : List (Entry ν) := journal.filter fun entry => !isLiveness entry

/-- The entries in the order of their positions. -/
def sortEntries (journal : List (Entry ν)) : List (Entry ν) :=
  (narrative journal).insertionSort fun left right => compareJournalPositions (positionOf left) (positionOf right) ≤ 0

def unseen (entries : List (Entry ν)) (position : Position) : List (Entry ν) :=
  entries.filter fun entry => decide (0 < compareJournalPositions (positionOf entry) position)

/-! ## One call -/

/-- `/^[A-Za-z0-9][A-Za-z0-9._-]{0,127}$/u`. -/
def isSafeIdentifier (text : String) : Bool :=
  match text.toList with
  | [] => false
  | first :: rest =>
    first.isAlphanum && decide (rest.length ≤ 127) && rest.all fun c => c.isAlphanum || c == '.' || c == '_' || c == '-'

/-- The cursor files of a campaign. -/
abbrev Cursors := String → Option Position

def readJournalCursor (cursors : Cursors) (cursorId : String) : Except Refusal Position :=
  match cursors cursorId with
  | none => .ok .start
  | some position => do
    check (!isBlank position.writtenAt) "journal watch cursor.at must be a non-empty string"
    return position

def writeJournalCursor (cursors : Cursors) (cursorId : String) (position : Position) : Cursors :=
  fun other => if other = cursorId then some position else cursors other

/-- The position after some events. -/
def lastPosition (events : List (Entry ν)) (position : Position) : Position :=
  (events.getLast?.map positionOf).getD position

structure WatchOptions where
  since : Option String
  cursor : Option String
  readOnly : Bool

structure Watched (ν : Type) where
  cursor : Option (String × Position)
  events : List (Entry ν)

/-- `watchJournal` over what `readJournal` answered, and the cursor files it leaves. -/
def watchJournal (journal : List (Entry ν)) (cursors : Cursors) (options : WatchOptions) :
    Except Refusal (Watched ν) × Cursors :=
  let entries := sortEntries journal
  match options.since, options.cursor with
  | some since, none =>
    match entries.find? fun entry => (positionOf entry).eventId == since with
    | none => (.error ⟨none, "--since event ID is not retained in the journal"⟩, cursors)
    | some entry => (.ok ⟨none, unseen entries (positionOf entry)⟩, cursors)
  | none, some cursorId =>
    if !isSafeIdentifier cursorId then (.error ⟨none, "--cursor must be a safe identifier"⟩, cursors)
    else match readJournalCursor cursors cursorId with
    | .error refusal => (.error refusal, cursors)
    | .ok position =>
      let events := unseen entries position
      if options.readOnly || events.isEmpty then (.ok ⟨some (cursorId, position), events⟩, cursors)
      else
        let last := lastPosition events position
        (.ok ⟨some (cursorId, last), events⟩, writeJournalCursor cursors cursorId last)
  | _, _ => (.error ⟨none, "watch requires exactly one of --since or --cursor"⟩, cursors)

/-- `acknowledgeJournalEvent` over what `readJournal` answered. -/
def acknowledgeJournalEvent (journal : List (Entry ν)) (cursors : Cursors) (cursorId eventId : String) :
    Except Refusal Position × Cursors :=
  if !isSafeIdentifier cursorId then (.error ⟨none, "--cursor must be a safe identifier"⟩, cursors)
  else if isBlank eventId then (.error ⟨none, "--event-id requires a value"⟩, cursors)
  else match readJournalCursor cursors cursorId with
  | .error refusal => (.error refusal, cursors)
  | .ok current =>
    let found := (journal.find? fun entry => (positionOf entry).eventId == eventId).map positionOf
    match found.or (if current.eventId ≠ "" ∧ current.eventId = eventId then some current else none) with
    | none => (.error ⟨none, "--event-id is not retained in the journal"⟩, cursors)
    | some position =>
      if current.eventId ≠ "" ∧ compareJournalPositions position current ≤ 0 then (.ok current, cursors)
      else (.ok position, writeJournalCursor cursors cursorId position)

/-! ## Writers and watchers -/

/-- A call of `watchJournal` on a cursor that has read the journal, and then its cursor. -/
structure Watch (ν : Type) where
  cursorId : String
  readOnly : Bool
  journal : List (Entry ν)
  position : Option Position

/-- A call that returned. -/
structure Delivery (ν : Type) where
  cursorId : String
  readOnly : Bool
  journal : List (Entry ν)
  events : List (Entry ν)

/-- The journal, the writers past their lookup, the cursor files, the calls in flight and the calls that returned. -/
structure Feed (ν : Type) where
  journal : List (Entry ν)
  writers : List (Entry ν)
  cursors : Cursors
  watches : List (Watch ν)
  deliveries : List (Delivery ν)

namespace Feed

inductive Label (ν : Type) where
  | appendJournal (entry : Entry ν)
  | write (writer : Nat)
  | watchJournal (cursorId : String) (readOnly : Bool)
  | readCursor (watch : Nat)
  | deliver (watch : Nat)

/-- A writer looks the event id up, and goes on when it is new. -/
def appendJournal (feed : Feed ν) (entry : Entry ν) : Feed ν :=
  if feed.journal.any fun existing => (positionOf existing).eventId == (positionOf entry).eventId then feed
  else { feed with writers := feed.writers ++ [entry] }

def write (feed : Feed ν) (writer : Nat) (entry : Entry ν) : Feed ν :=
  { feed with journal := feed.journal ++ [entry], writers := feed.writers.eraseIdx writer }

def watch (feed : Feed ν) (cursorId : String) (readOnly : Bool) : Feed ν :=
  { feed with watches := feed.watches ++ [⟨cursorId, readOnly, feed.journal, none⟩] }

/-- A call throws when its cursor cannot be read. -/
def readCursor (feed : Feed ν) (index : Nat) (watch : Watch ν) : Feed ν :=
  match isSafeIdentifier watch.cursorId, readJournalCursor feed.cursors watch.cursorId with
  | true, .ok position => { feed with watches := feed.watches.set index { watch with position := some position } }
  | _, _ => { feed with watches := feed.watches.eraseIdx index }

/-- The events of a call that has read its cursor. -/
def Watch.events (watch : Watch ν) (position : Position) : List (Entry ν) := unseen (sortEntries watch.journal) position

def deliver (feed : Feed ν) (index : Nat) (watch : Watch ν) (position : Position) : Feed ν :=
  let events := Watch.events watch position
  { feed with
    cursors :=
      if watch.readOnly || events.isEmpty then feed.cursors
      else writeJournalCursor feed.cursors watch.cursorId (lastPosition events position)
    watches := feed.watches.eraseIdx index
    deliveries := feed.deliveries ++ [⟨watch.cursorId, watch.readOnly, watch.journal, events⟩] }

def step (feed : Feed ν) : Label ν → Option (Feed ν)
  | .appendJournal entry => some (feed.appendJournal entry)
  | .write writer => feed.writers[writer]?.map (feed.write writer)
  | .watchJournal cursorId readOnly => some (feed.watch cursorId readOnly)
  | .readCursor index =>
    match feed.watches[index]? with
    | some watch => if watch.position.isNone then some (feed.readCursor index watch) else none
    | none => none
  | .deliver index =>
    match feed.watches[index]? with
    | some watch => watch.position.map (feed.deliver index watch)
    | none => none

def machine : Machine (Feed ν) (Label ν) := ⟨step⟩

/-- A campaign without entries and without watchers. -/
def Initial (feed : Feed ν) : Prop := feed = ⟨[], [], fun _ => none, [], []⟩

/-! ## What a cursor promises -/

/-- Where a cursor stands. -/
def stands (feed : Feed ν) (cursorId : String) : Position := (feed.cursors cursorId).getD .start

def ofCursor (cursorId : String) (delivery : Delivery ν) : Bool := delivery.cursorId == cursorId && !delivery.readOnly

/-- The events the acknowledging calls on a cursor returned, in order. -/
def delivered (feed : Feed ν) (cursorId : String) : List (Entry ν) :=
  (feed.deliveries.filter (ofCursor cursorId)).flatMap (·.events)

/-- The acknowledging calls returned the entries of the journal once each and in its order, and after a call every
entry it found has been returned. -/
structure Delivers (feed : Feed ν) (cursorId : String) : Prop where
  once : feed.delivered cursorId <+: narrative feed.journal
  all : ∀ delivery ∈ feed.deliveries, ofCursor cursorId delivery = true →
    narrative delivery.journal <+: feed.delivered cursorId

/-- A watcher of a cursor that will acknowledge. -/
def onCursor (cursorId : String) (watch : Watch ν) : Bool := watch.cursorId == cursorId && !watch.readOnly

/-- An entry comes after all that a cursor has passed or a call on it is about to pass, and not before another entry. -/
def Follows (feed : Feed ν) (cursorId : String) (entry : Entry ν) : Prop :=
  feed.stands cursorId < positionOf entry ∧
    (∀ existing ∈ narrative feed.journal, positionOf existing ≤ positionOf entry) ∧
    ∀ watch ∈ feed.watches, onCursor cursorId watch = true →
      ∀ existing ∈ narrative watch.journal, positionOf existing < positionOf entry

/-- Entries are written in the order of their positions, and no two calls on the cursor deliver past one position. -/
def InOrder (cursorId : String) (feed : Feed ν) : Label ν → Prop
  | .write writer => ∀ entry ∈ feed.writers[writer]?, isLiveness entry = false → feed.Follows cursorId entry
  | .deliver index => ∀ watch ∈ feed.watches[index]?, onCursor cursorId watch = true →
      ∀ position ∈ watch.position, (Watch.events watch position).isEmpty = false → feed.stands cursorId = position
  | _ => True

instance {feed : Feed ν} {cursorId : String} {entry : Entry ν} : Decidable (feed.Follows cursorId entry) :=
  inferInstanceAs (Decidable (_ ∧ _))

instance {cursorId : String} : DecidableRel (InOrder (ν := ν) cursorId)
  | feed, .write writer => inferInstanceAs (Decidable (∀ entry ∈ feed.writers[writer]?, _))
  | feed, .deliver index => inferInstanceAs (Decidable (∀ watch ∈ feed.watches[index]?, _))
  | _, .appendJournal _ | _, .watchJournal _ _ | _, .readCursor _ => inferInstanceAs (Decidable True)

end Feed

end Faberun.Journal
