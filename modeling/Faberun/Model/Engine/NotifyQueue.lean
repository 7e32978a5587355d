import Faberun.Machine.Core
import Faberun.Machine.TornLog
import Faberun.Model.Util

/-! # Notifications

The embedding of `appendInbox`, `deliverNotification` and `NotifyQueue` in `notify/index.mjs`, with the senders of
`engine/notify-queue.mjs`, `engine/scheduler.mjs`, `engine/settle.mjs` and `campaign/watch.mjs`. What lasts is on disk: the
inbox of the campaign and a receipt log in each run and campaign directory. Both are only appended to, and a write may
stop short. A label is one such write or one attempt at the transports, and a call may die before each of them. The
history records the attempts and what they answered.
-/

namespace Faberun.Notify

/-! ## Events -/

inductive EventType where
  | nodeTerminal
  | runTerminal
  | attention
  | advisory
  | progress
  deriving DecidableEq, Repr

def EventType.text : EventType → String
  | nodeTerminal => "node.terminal"
  | runTerminal => "run.terminal"
  | attention => "attention"
  | advisory => "advisory"
  | progress => "progress"

/-- `NOTIFY_EVENT_TYPES`. -/
def notifyEventTypes : List EventType := [.nodeTerminal, .runTerminal, .attention, .advisory, .progress]

/-- `DEFAULT_NOTIFY_EVENTS`. -/
def defaultNotifyEvents : List EventType := [.runTerminal, .attention, .advisory]

/-- `deliverableEventTypes` of `FABERUN_NOTIFY_EVENTS`. -/
def deliverableEventTypes (setting : Option String) : List EventType :=
  let items := (((setting.getD "").toList.splitOn ',').map trimText).filter fun item => !item.isEmpty
  if items.isEmpty then defaultNotifyEvents
  else items.filterMap fun item => notifyEventTypes.find? fun type => decide (type.text.toList = item)

/-- What crossed a threshold of `nodeAdvisory`. -/
inductive CrossingKind where
  | cost
  | duration
  deriving DecidableEq, Repr

def CrossingKind.text : CrossingKind → String
  | cost => "cost"
  | duration => "duration"

/-- What a notification is about, with what its dedupe key names. -/
inductive Occasion where
  /-- `emitNodeAdvisory`; the threshold is as the key prints it. -/
  | advisory (runId nodeId : String) (kind : CrossingKind) (threshold : String)
  /-- `emitScheduledAttention`. -/
  | schedule (runId anchor : String) (slot : Int)
  /-- `raiseNodeAttention`. -/
  | nodeAttention (runId nodeId code : String)
  | nodeTerminal (runId nodeId status : String) (attempt revisions : Nat)
  | runTerminal (runId : String) (failed : Bool)
  /-- The alerts of the campaign watcher. -/
  | alert (alertId campaignId episode : String)
  | stale (campaignId runId : String)
  | idle (campaignId since : String) (window : Nat)
  deriving DecidableEq, Repr

/-- Where the receipts of an occasion are. -/
inductive Home where
  | run (runId : String)
  | campaign (campaignId : String)
  deriving DecidableEq, Repr

namespace Occasion

def home : Occasion → Home
  | advisory runId _ _ _ | schedule runId _ _ | nodeAttention runId _ _ | nodeTerminal runId _ _ _ _ | runTerminal runId _ =>
    .run runId
  | alert _ campaignId _ | stale campaignId _ | idle campaignId _ _ => .campaign campaignId

def subject : Occasion → String
  | advisory .. => "node.advisory"
  | schedule .. => "run.attention"
  | nodeAttention .. => "attention"
  | nodeTerminal .. => "node.terminal"
  | runTerminal .. => "run.terminal"
  | alert .. => "alert"
  | stale .. => "stale"
  | idle .. => "idle"

def details : Occasion → List String
  | advisory runId nodeId kind threshold => [runId, nodeId, kind.text, threshold]
  | schedule runId anchor slot => [runId, anchor, toString slot]
  | nodeAttention runId nodeId code => [runId, nodeId, code]
  | nodeTerminal runId nodeId status attempt revisions => [runId, nodeId, status, toString attempt, toString revisions]
  | runTerminal runId failed => [runId, if failed then "attention" else "done"]
  | alert alertId campaignId episode => [alertId, campaignId, episode]
  | stale _ runId => [runId]
  | idle campaignId since window => [campaignId, since, toString window]

/-- The parts of the key, joined by colons. -/
def dedupeKey (occasion : Occasion) : String :=
  String.ofList ([':'].intercalate ((occasion.subject :: occasion.details).map String.toList))

def type : Occasion → EventType
  | advisory .. => .advisory
  | nodeTerminal .. => .nodeTerminal
  | runTerminal .. => .runTerminal
  | schedule .. | nodeAttention .. | alert .. | stale .. | idle .. => .attention

/-- Its sender goes on only if it appends the inbox entry. -/
def claims : Occasion → Bool
  | advisory .. | alert .. | stale .. | idle .. => true
  | schedule .. | nodeAttention .. | nodeTerminal .. | runTerminal .. => false

/-- Its sender calls `appendInbox`. -/
def entersInbox : Occasion → Bool
  | advisory .. | alert .. | stale .. | idle .. | schedule .. => true
  | nodeAttention .. | nodeTerminal .. | runTerminal .. => false

/-- Its sender calls `alreadyNotified`. -/
def checksReceipts : Occasion → Bool
  | alert .. | stale .. | idle .. => false
  | advisory .. | schedule .. | nodeAttention .. | nodeTerminal .. | runTerminal .. => true

end Occasion

/-! ## The schedule of an attention -/

/-- `ATTENTION_SCHEDULE_MS`. -/
def attentionScheduleMs : Int × Int × Int := (10 * 60000, 60 * 60000, 4 * 60 * 60000)

/-- `ATTENTION_REPEAT_MS`. -/
def attentionRepeatMs : Int := 4 * 60 * 60000

/-- `attentionScheduleSlot`; an anchor that is no instant gives no elapsed time. -/
def attentionScheduleSlot : Option Int → Int
  | none => -1
  | some elapsedMs =>
    if elapsedMs < attentionScheduleMs.1 then -1
    else if elapsedMs < attentionScheduleMs.2.1 then 0
    else if elapsedMs < attentionScheduleMs.2.2 then 1
    else 2 + (elapsedMs - attentionScheduleMs.2.2) / attentionRepeatMs

/-! ## The transports -/

structure TransportOutcome where
  id : String
  ok : Bool
  error : Option String
  messageId : Option String
  deriving DecidableEq, Repr

structure DeliveryResult where
  ok : Bool
  noTransport : Bool
  messageId : Option String
  error : Option String
  transports : List TransportOutcome
  deriving DecidableEq, Repr

/-- `deliverNotification`, by what each bound transport answers. -/
def deliverNotification (transports : List TransportOutcome) : DeliveryResult :=
  if transports.isEmpty then ⟨false, true, none, none, []⟩
  else
    let failures := (transports.filter fun outcome => !outcome.ok).map fun outcome =>
      outcome.id ++ ": " ++ outcome.error.getD "failed"
    { ok := transports.any TransportOutcome.ok
      noTransport := false
      messageId := (transports.filterMap TransportOutcome.messageId).find? fun id => decide (id ≠ "")
      error := if failures.isEmpty then none else some ("; ".intercalate failures)
      transports }

inductive ReceiptStatus where
  | filtered
  | delivered
  | noTransport
  | failed
  deriving DecidableEq, Repr

/-- A line of `notify.jsonl`. -/
structure Receipt where
  type : EventType
  dedupeKey : String
  summary : String
  status : ReceiptStatus
  transports : List TransportOutcome
  error : Option String
  deriving DecidableEq, Repr

/-- The receipt `enqueue` writes; a transport that throws fails, and without a result the event was filtered. -/
def receiptOf (occasion : Occasion) (summary : String) (result : Option (Except String DeliveryResult)) : Receipt :=
  let receipt (status : ReceiptStatus) (transports : List TransportOutcome) (error : Option String) : Receipt :=
    ⟨occasion.type, occasion.dedupeKey, summary, status, transports, error⟩
  match result with
  | none => receipt .filtered [] none
  | some (.error message) => receipt .failed [] (some message)
  | some (.ok result) =>
    if result.ok then receipt .delivered result.transports none
    else if result.noTransport then receipt .noTransport result.transports none
    else receipt .failed result.transports result.error

/-! ## The outbox -/

/-- A line of `inbox.jsonl`. -/
structure InboxEntry where
  type : EventType
  dedupeKey : String
  summary : String
  deriving DecidableEq, Repr

inductive Stage where
  /-- `alreadyNotified` said no. -/
  | looked
  /-- `appendInbox` did not find the key, and is about to append its entry. -/
  | cleared
  /-- `appendInbox` is done, or not part of the call. -/
  | entered
  /-- The transports were tried, unless the event is filtered. -/
  | tried (result : Option (Except String DeliveryResult))

/-- A call of a sender. -/
structure Call where
  occasion : Occasion
  summary : String
  stage : Stage

/-- An attempt at the transports and its result. -/
structure Attempt where
  occasion : Occasion
  result : Except String DeliveryResult

structure Outbox where
  inbox : TornLog InboxEntry
  receipts : Home → TornLog Receipt
  calls : List Call
  attempts : List Attempt
  /-- The attempts whose call died before its receipt. -/
  unrecorded : List Attempt

/-- `alreadyNotified`. -/
def alreadyNotified (receipts : TornLog Receipt) (dedupeKey : String) : Bool :=
  receipts.committed.any fun receipt => decide (receipt.dedupeKey = dedupeKey)

/-- `readInbox` finds the key. -/
def inInbox (inbox : TornLog InboxEntry) (dedupeKey : String) : Bool :=
  inbox.committed.any fun entry => decide (entry.dedupeKey = dedupeKey)

inductive Label where
  /-- A sender other than `emitScheduledAttention` starts. -/
  | look (occasion : Occasion) (summary : String)
  /-- `emitScheduledAttention` finds so much time elapsed. -/
  | attend (runId anchor : String) (elapsedMs : Option Int) (summary : String)
  /-- `appendInbox` looks the key up. -/
  | search (index : Nat)
  | append (index : Nat) (written : Written)
  /-- The environment's setting, and what the transports answer or throw. -/
  | deliver (index : Nat) (setting : Option String) (answer : Except String (List TransportOutcome))
  | record (index : Nat) (written : Written)
  /-- Its process dies, or what it does next throws. -/
  | die (index : Nat)

namespace Outbox

def look (o : Outbox) (occasion : Occasion) (summary : String) : Outbox :=
  if occasion.checksReceipts && alreadyNotified (o.receipts occasion.home) occasion.dedupeKey then o
  else { o with calls := ⟨occasion, summary, if occasion.entersInbox then .looked else .entered⟩ :: o.calls }

/-- The calls with one of them at its next stage. -/
def advance (o : Outbox) (index : Nat) (call : Call) (stage : Stage) : List Call :=
  { call with stage := stage } :: o.calls.eraseIdx index

/-- The lookup of `appendInbox`, and how the sender takes it when nothing is to be appended. -/
def search (o : Outbox) (index : Nat) (call : Call) : Outbox :=
  if inInbox o.inbox call.occasion.dedupeKey then
    if call.occasion.claims then { o with calls := o.calls.eraseIdx index }
    else { o with calls := o.advance index call .entered }
  else { o with calls := o.advance index call .cleared }

def append (o : Outbox) (index : Nat) (call : Call) (written : Written) : Outbox :=
  { o with
    inbox := ⟨⟨call.occasion.type, call.occasion.dedupeKey, call.summary⟩, written⟩ :: o.inbox
    calls := o.advance index call .entered }

/-- `enqueue` up to the answer of the transports. -/
def deliver (o : Outbox) (index : Nat) (call : Call) (setting : Option String)
    (answer : Except String (List TransportOutcome)) : Outbox :=
  if call.occasion.type ∈ deliverableEventTypes setting then
    let result := answer.map deliverNotification
    { o with calls := o.advance index call (.tried (some result)), attempts := ⟨call.occasion, result⟩ :: o.attempts }
  else { o with calls := o.advance index call (.tried none) }

/-- The receipt of a call. -/
def record (o : Outbox) (index : Nat) (call : Call) (result : Option (Except String DeliveryResult)) (written : Written) :
    Outbox :=
  { o with
    receipts := Function.update o.receipts call.occasion.home
      (⟨receiptOf call.occasion call.summary result, written⟩ :: o.receipts call.occasion.home)
    calls := o.calls.eraseIdx index }

def die (o : Outbox) (index : Nat) (call : Call) : Outbox :=
  match call.stage with
  | .tried (some result) =>
    { o with calls := o.calls.eraseIdx index, unrecorded := ⟨call.occasion, result⟩ :: o.unrecorded }
  | .looked | .cleared | .entered | .tried none => { o with calls := o.calls.eraseIdx index }

end Outbox

def step (o : Outbox) : Label → Option Outbox
  | .look occasion summary =>
      match occasion with
      | .schedule _ _ _ => none
      | _ => some (o.look occasion summary)
  | .attend runId anchor elapsedMs summary =>
      let slot := attentionScheduleSlot elapsedMs
      if slot < 0 then some o else some (o.look (.schedule runId anchor slot) summary)
  | .search index => o.calls[index]?.bind fun call =>
      match call.stage with
      | .looked => some (o.search index call)
      | .cleared | .entered | .tried _ => none
  | .append index written => o.calls[index]?.bind fun call =>
      match call.stage with
      | .cleared => some (o.append index call written)
      | .looked | .entered | .tried _ => none
  | .deliver index setting answer => o.calls[index]?.bind fun call =>
      match call.stage with
      | .entered => some (o.deliver index call setting answer)
      | .looked | .cleared | .tried _ => none
  | .record index written => o.calls[index]?.bind fun call =>
      match call.stage with
      | .tried result => some (o.record index call result written)
      | .looked | .cleared | .entered => none
  | .die index => o.calls[index]?.map fun call => o.die index call

def machine : Machine Outbox Label := ⟨step⟩

/-- A campaign before its first notification. -/
def Initial (o : Outbox) : Prop := o = ⟨[], fun _ => [], [], [], []⟩

end Faberun.Notify
