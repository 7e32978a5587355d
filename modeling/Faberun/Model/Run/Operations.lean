import Faberun.Machine.FirstByKey
import Faberun.Model.Util
import Faberun.Text.JsonText

/-! # The operation ledger

The settlement record of one provider invocation, as `run/operations.mjs` merges it: the close callback, the finalizer
and the recovery of a controller all settle into one record, field by field.
-/

namespace Faberun.Operations

open JsonText

/-- A durable receipt of an invocation's effect. -/
structure Receipt where
  kind : String
  ref : String
  deriving DecidableEq

/-- What a caller supplies as a receipt: a text, a record with its two fields as texts, or something else. -/
inductive SuppliedReceipt where
  | text (ref : String)
  | record (kind ref : Option String)
  | other

/-- What the ledger reads of an invocation. -/
structure Invocation where
  runId : Option String
  campaignId : Option String
  role : Option String
  phase : Option String
  promptPath : Option String
  stdoutPath : Option String
  stderrPath : Option String
  snapshotPath : Option String
  continuationId : Option String

/-- What it reads of the intent record. -/
structure OperationIntent where
  runId : Option String
  campaignId : Option String
  nodeId : Option String
  role : Option String

/-- The settlement a caller passes; an absent field is undefined. -/
structure Settlement (ν : Type) where
  status : Option String
  usage : Option (JsValue ν)
  costUsd : Option (JsValue ν)
  structuredResult : Option (JsValue ν)
  result : Option (JsValue ν)
  receipts : Option (List SuppliedReceipt)
  nextState : Option (JsValue ν)
  terminalOutcome : Option (JsValue ν)
  unknownEffect : Option Bool
  classification : Option String
  reason : Option String
  error : Option (JsValue ν)

/-- The record on disk. -/
structure OperationRecord (ν : Type) where
  runId : String
  campaignId : Option String
  nodeId : Option String
  role : Option String
  status : String
  terminalOutcome : JsValue ν
  usage : JsValue ν
  costUsd : JsValue ν
  receipts : List Receipt
  nextState : JsValue ν
  structuredResult : JsValue ν
  result : JsValue ν
  unknownEffect : Bool
  classification : Option String
  reason : Option String
  error : JsValue ν
  settledAt : String

/-- `UNRESOLVED_OPERATION_STATUSES`. -/
def unresolvedOperationStatuses : List String := ["closed", "unknown_effect"]

/-- `RESOLVED_OPERATION_STATUSES`. -/
def resolvedOperationStatuses : List String :=
  ["done", "failed", "exhausted", "stalled", "canceled", "adopted", "rejudge", "restarted", "safe_replay", "reconciled"]

/-- The statuses that do not replace a resolved one. -/
def recoveryStatuses : List String := ["adopted", "rejudge", "restarted"]

variable {ν : Type}

/-- `operationNeedsRecovery`. -/
def operationNeedsRecovery (settlement : Option (OperationRecord ν)) : Bool :=
  settlement.all fun record => unresolvedOperationStatuses.contains record.status

/-! ## Receipts -/

def receiptKey (receipt : Receipt) : String := receipt.kind ++ "\u0000" ++ receipt.ref

def suppliedReceipt : SuppliedReceipt → Option Receipt
  | .text ref => some ⟨"provider", ref⟩
  | .record kind ref => some ⟨kind.getD "provider", ref.getD ""⟩
  | .other => none

/-- The receipts an invocation carries itself. -/
def invocationReceipts (invocation : Invocation) : List Receipt :=
  let path (kind : String) (ref : Option String) : List Receipt := (ref.map fun text => ⟨kind, text⟩).toList
  path "prompt" invocation.promptPath ++ path "stdout" invocation.stdoutPath ++ path "stderr" invocation.stderrPath ++
    (if invocation.phase = some "worker" then path "scope_snapshot" invocation.snapshotPath else []) ++
    path "provider" invocation.continuationId

/-- What a call adds, in order. -/
def offeredReceipts (invocation : Option Invocation) (supplied : Option (List SuppliedReceipt)) : List Receipt :=
  (supplied.getD []).filterMap suppliedReceipt ++ (invocation.map invocationReceipts).getD []

/-- `operationReceipts`: an empty reference is no receipt, and a receipt stands once. -/
def operationReceipts (invocation : Option Invocation) (supplied : Option (List SuppliedReceipt)) (existing : List Receipt) :
    List Receipt :=
  FirstByKey.firsts receiptKey ((existing ++ offeredReceipts invocation supplied).filter fun receipt => receipt.ref ≠ "")

/-! ## Settlement -/

/-- The left side of `??`. -/
def nonNull : JsValue ν → Option (JsValue ν)
  | .undefined | .null => none
  | value => some value

def settlementResultBytes : Nat := 64 * 1024

section

variable [Numerals ν]

/-- The text whose size bounds a result: a text is its own. -/
def serialized : JsValue ν → List Char
  | .string value => value.toList
  | value => render value

/-- `boundedSettlementResult`. -/
def boundedSettlementResult (value : JsValue ν) : JsValue ν :=
  match nonNull value with
  | none => .null
  | some value => if settlementResultBytes < charBytes (serialized value) then .null else value

/-- A call of `settleInvocation` for one operation, with the intent record and the clock it finds. -/
structure SettleCall (ν : Type) where
  invocation : Option Invocation
  settlement : Settlement ν
  intent : Option OperationIntent
  now : String

/-- The status a call leaves. -/
def settledStatus (requested : Option String) (previous : Option String) : String :=
  let requestedStatus := requested.getD (previous.getD "unknown_effect")
  let previousStatus := previous.getD ""
  if resolvedOperationStatuses.contains previousStatus && recoveryStatuses.contains requestedStatus then previousStatus
  else requestedStatus

/-- A field the settlement sets, or the one before. -/
def merged (given : Option (JsValue ν)) (previous : Option (JsValue ν)) : JsValue ν :=
  given.getD ((previous.bind nonNull).getD .null)

/-- `settleInvocation`: the record it writes. -/
def settleInvocation (runName : String) (previous : Option (OperationRecord ν)) (call : SettleCall ν) : OperationRecord ν :=
  let settlement := call.settlement
  let status := settledStatus settlement.status (previous.map (·.status))
  { runId := ((call.invocation.bind (·.runId)).or (call.intent.bind (·.runId))).getD runName
    campaignId := (call.invocation.bind (·.campaignId)).or (call.intent.bind (·.campaignId))
    nodeId := call.intent.bind (·.nodeId)
    role := (call.invocation.bind (·.role)).or (call.intent.bind (·.role))
    status := status
    terminalOutcome :=
      ((settlement.terminalOutcome.bind nonNull).or ((previous.map (·.terminalOutcome)).bind nonNull)).getD (.string status)
    usage := merged settlement.usage (previous.map (·.usage))
    costUsd := merged settlement.costUsd (previous.map (·.costUsd))
    receipts := operationReceipts call.invocation settlement.receipts ((previous.map (·.receipts)).getD [])
    nextState := merged settlement.nextState (previous.map (·.nextState))
    structuredResult := merged settlement.structuredResult (previous.map (·.structuredResult))
    result := merged (settlement.result.map boundedSettlementResult) (previous.map (·.result))
    unknownEffect := (settlement.unknownEffect.or (previous.map (·.unknownEffect))).getD (status == "unknown_effect")
    classification := settlement.classification.or (previous.bind (·.classification))
    reason := settlement.reason.or (previous.bind (·.reason))
    error := ((settlement.error.bind nonNull).or ((previous.map (·.error)).bind nonNull)).getD .null
    settledAt := (previous.map (·.settledAt)).getD call.now }

/-- The record some calls leave. -/
def ledger (runName : String) (calls : List (SettleCall ν)) : Option (OperationRecord ν) :=
  calls.foldl (fun previous call => some (settleInvocation runName previous call)) none

end

end Faberun.Operations
