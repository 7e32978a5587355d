import Mathlib.Data.List.Infix
import Mathlib.Data.List.Sort
import Mathlib.Logic.Function.Basic
import Faberun.Machine.UnlockedFile
import Faberun.Model.Campaign.Journal
import Faberun.Model.Campaign.Reserve
import Faberun.Model.Contract.Runtime
import Faberun.Model.Engine.Mutation

/-! # The campaign record

`campaign.json`: the check of `campaign/record.mjs` that every reader makes, and the operations that write it, of
`campaign/index.mjs`, `campaign/unpark.mjs`, `campaign/ledger.mjs` and `campaign/reserve.mjs`. Each reads the record,
changes it in memory and writes it back; the command line, the dashboard, the chain and the controllers all do so, and
none takes a lock. What an operation reads of other files is a part of the operation here.
-/

namespace Faberun.CampaignRecord

open Reserve (nonNegativeNumber)
open Mutation (textLe)

/-! ## The record -/

structure CampaignContract where
  path : String
  digest : String
  deriving DecidableEq, Repr

structure PromotionRecord where
  runId : String
  contractPath : Option String
  branch : String
  sha : String
  previousSha : Option String
  at' : String
  deriving DecidableEq, Repr

structure CampaignAttention where
  code : String
  message : String
  at' : String
  contractPath : Option String
  runId : Option String
  deriving DecidableEq, Repr

structure ContractReplacement where
  oldPath : String
  newPath : String
  runIds : List String
  at' : String
  deriving DecidableEq, Repr

structure RequirementNodeEvidence where
  runId : String
  node : String
  passed : Option Bool
  verdict : Option String
  deriving DecidableEq, Repr

inductive ClosureStatus where
  | covered
  | opened
  deriving DecidableEq, Repr

structure RequirementClosure where
  requirementId : String
  status : ClosureStatus
  nodes : List RequirementNodeEvidence
  deriving DecidableEq, Repr

structure Campaign where
  id : String
  goal : String
  closed : Bool
  linkedRunIds : List String
  contracts : List CampaignContract
  replacements : List ContractReplacement
  landBranch : String
  promotions : List PromotionRecord
  reserveUsd : Option Rat
  ledgerPreserved : Bool
  attention : Option CampaignAttention
  requirements : Option (List RequirementClosure)
  createdAt : String
  updatedAt : String
  closedAt : Option String
  deriving DecidableEq, Repr

/-! ## The check of the record -/

def requireString (value label : String) : Except Refusal Unit := check (!isBlank value) s!"{label} must be a non-empty string"

/-- `/^[a-f0-9]{64}$/u`. -/
def isPacketHash (value : String) : Bool :=
  value.length == 64 && value.toList.all fun c => c.isDigit || ('a' ≤ c && c ≤ 'f')

def requirePacketHash (value label : String) : Except Refusal Unit :=
  check (isPacketHash value) s!"{label} must be a SHA-256 hash"

/-- `requireText` without a limit. -/
def requireText (value label : String) : Except Refusal Unit := requireString value label

section

-- Whether `Date.parse` finds a time in a text.
variable (isTimestamp : String → Bool)

def requireTimestamp (value label : String) : Except Refusal Unit :=
  check (!isBlank value && isTimestamp value) s!"{label} must be a valid timestamp"

def checkContract (index : Nat) (entry : CampaignContract) : Except Refusal Unit := do
  requireString entry.path s!"campaign.contracts[{index}].path"
  requirePacketHash entry.digest s!"campaign.contracts[{index}].digest"

def checkReplacement (index : Nat) (replacement : ContractReplacement) : Except Refusal Unit := do
  requireString replacement.oldPath s!"campaign.replacements[{index}].oldPath"
  requireString replacement.newPath s!"campaign.replacements[{index}].newPath"
  requireTimestamp isTimestamp replacement.at' s!"campaign.replacements[{index}].at"
  replacement.runIds.forM fun runId => requireId runId s!"campaign.replacements[{index}].runIds[]"

def checkAttention (attention : CampaignAttention) : Except Refusal Unit := do
  requireString attention.code "campaign.attention.code"
  requireString attention.message "campaign.attention.message"
  requireTimestamp isTimestamp attention.at' "campaign.attention.at"

def checkPromotion (index : Nat) (promotion : PromotionRecord) : Except Refusal Unit := do
  requireId promotion.runId s!"campaign.promotions[{index}].runId"
  requireString promotion.branch s!"campaign.promotions[{index}].branch"
  requireString promotion.sha s!"campaign.promotions[{index}].sha"
  check (promotion.previousSha.all fun sha => !isBlank sha)
    s!"campaign.promotions[{index}].previousSha must be a non-empty string"
  requireTimestamp isTimestamp promotion.at' s!"campaign.promotions[{index}].at"
  check (promotion.contractPath.all fun path => !isBlank path)
    s!"campaign.promotions[{index}].contractPath must be a non-empty string"

def checkClosure (index : Nat) (closure : RequirementClosure) : Except Refusal Unit := do
  requireId closure.requirementId s!"campaign.requirements[{index}].requirementId"
  closure.nodes.zipIdx.forM fun entry => do
    requireId entry.1.runId s!"campaign.requirements[{index}].nodes[{entry.2}].runId"
    requireId entry.1.node s!"campaign.requirements[{index}].nodes[{entry.2}].node"

/-- `validateCampaign`, by the record's types. -/
def validateCampaign (campaign : Campaign) : Except Refusal Unit := do
  requireId campaign.id "campaign.id"
  requireText campaign.goal "campaign.goal"
  campaign.linkedRunIds.forM fun runId => requireId runId "campaign.linkedRunIds[]"
  campaign.contracts.zipIdx.forM fun entry => checkContract entry.2 entry.1
  campaign.replacements.zipIdx.forM fun entry => checkReplacement isTimestamp entry.2 entry.1
  requireText campaign.landBranch "campaign.landBranch"
  campaign.reserveUsd.toList.forM fun balance => nonNegativeNumber balance "campaign.reserveUsd"
  campaign.attention.toList.forM (checkAttention isTimestamp)
  campaign.promotions.zipIdx.forM fun entry => checkPromotion isTimestamp entry.2 entry.1
  (campaign.requirements.getD []).zipIdx.forM fun entry => checkClosure entry.2 entry.1

def readCampaign (campaign : Campaign) : Except Refusal Campaign := do
  validateCampaign isTimestamp campaign
  return campaign

/-! ## The closure of a close -/

/-- A node of a linked run's contract. -/
structure ContractNode where
  id : String
  requirementIds : List String
  deriving DecidableEq, Repr

/-- What a close reads of a node snapshot. -/
structure NodeRecord where
  status : String
  requirementIds : List String
  passed : Option Bool
  verdict : Option String
  findings : Nat
  maxSeverity : Option String
  deriving DecidableEq, Repr

/-- The files of the linked runs; a file that is not there or no JSON is none. -/
structure RunFiles where
  contract : String → Option (List ContractNode)
  snapshot : String → String → Option NodeRecord

/-- An entry of the journal. -/
structure JournalEntry where
  type : String
  text : Option String
  deriving DecidableEq, Repr

/-- `[...ids].sort()`. -/
def sortTexts (texts : List String) : List String := texts.insertionSort textLe

/-- The nodes of the linked runs, in the order both passes of a close go through them. -/
def linkedNodes (files : RunFiles) (linkedRunIds : List String) : List (String × ContractNode) :=
  (sortTexts linkedRunIds).flatMap fun runId =>
    (((files.contract runId).getD []).filter fun node => node.id ≠ "").map fun node => (runId, node)

/-- `unacknowledgedAdvisories`. -/
def unacknowledgedAdvisories (files : RunFiles) (journal : List JournalEntry) (linkedRunIds : List String) : List String :=
  let noteText := "\n".intercalate (journal.filterMap JournalEntry.text)
  sortTexts <| (linkedNodes files linkedRunIds).filterMap fun entry =>
    (files.snapshot entry.1 entry.2.id).bind fun snapshot =>
      if (snapshot.status = "done" ∨ snapshot.status = "no-op") ∧ snapshot.findings ≠ 0 ∧
          ¬entry.2.id.toList <:+: noteText.toList then
        let noun := if snapshot.findings = 1 then "finding" else "findings"
        let severity := snapshot.maxSeverity.getD "unknown"
        some s!"{entry.1}/{entry.2.id} ({snapshot.findings} {noun}, {severity})"
      else none

/-- The `covered` map and the `declared` set of `buildRequirementClosure`. -/
structure ClosureTally where
  covered : String → List RequirementNodeEvidence
  declared : List String

/-- One requirement id of a contract node; it counts when the node is done and its own snapshot carries the id. -/
def ClosureTally.declare (runId node : String) (snapshot : Option NodeRecord) (t : ClosureTally) (requirementId : String) :
    ClosureTally :=
  let declared := if requirementId ∈ t.declared then t.declared else t.declared ++ [requirementId]
  match snapshot with
  | none => ⟨t.covered, declared⟩
  | some snapshot =>
    if snapshot.status = "done" ∧ requirementId ∈ snapshot.requirementIds then
      let evidence := t.covered requirementId ++ [⟨runId, node, snapshot.passed, snapshot.verdict⟩]
      ⟨Function.update t.covered requirementId evidence, declared⟩
    else ⟨t.covered, declared⟩

def ClosureTally.visit (files : RunFiles) (t : ClosureTally) (entry : String × ContractNode) : ClosureTally :=
  entry.2.requirementIds.foldl (ClosureTally.declare entry.1 entry.2.id (files.snapshot entry.1 entry.2.id)) t

def requirementTally (files : RunFiles) (linkedRunIds : List String) : ClosureTally :=
  (linkedNodes files linkedRunIds).foldl (ClosureTally.visit files) ⟨fun _ => [], []⟩

/-- `buildRequirementClosure`. -/
def buildRequirementClosure (files : RunFiles) (linkedRunIds : List String) : List RequirementClosure :=
  let tally := requirementTally files linkedRunIds
  (sortTexts tally.declared).map fun requirementId =>
    let nodes := tally.covered requirementId
    ⟨requirementId, if nodes.length > 0 then .covered else .opened, nodes⟩

/-! ## The operations -/

def refuse {α : Type} (message : String) : Except Refusal α := .error ⟨none, message⟩

/-- The record of a campaign that is not closed. -/
def readActive (campaign : Campaign) : Except Refusal Campaign := do
  let campaign ← readCampaign isTimestamp campaign
  if campaign.closed then refuse s!"campaign is closed: {campaign.id}" else return campaign

def registerRun (campaign : Campaign) (runId at' : String) : Except Refusal Campaign := do
  requireId runId "runId"
  requireTimestamp isTimestamp at' "at"
  let campaign ← readActive isTimestamp campaign
  if runId ∈ campaign.linkedRunIds then return { campaign with updatedAt := at' }
  else return { campaign with linkedRunIds := campaign.linkedRunIds ++ [runId], updatedAt := at' }

/-- `addContractToCampaign`; `digest` is that of the file, where there is one. -/
def addContract (campaign : Campaign) (contractPath : String) (digest : Option String) (at' : String) :
    Except Refusal Campaign := do
  requireTimestamp isTimestamp at' "at"
  requireString contractPath "contractPath"
  match digest with
  | none => refuse s!"contract not found: {contractPath}"
  | some digest => do
    let campaign ← readActive isTimestamp campaign
    match campaign.contracts.find? fun entry => decide (entry.path = contractPath) with
    | none =>
      return { campaign with contracts := campaign.contracts ++ [⟨contractPath, digest⟩], updatedAt := at' }
    | some existing =>
      if existing.digest = digest then return campaign
      else
        let index := campaign.contracts.findIdx fun entry => decide (entry.path = contractPath)
        return { campaign with contracts := campaign.contracts.set index ⟨contractPath, digest⟩, updatedAt := at' }

/-- What a replacement reads: the digest of the new file, and the ids of the contracts. -/
structure ReplacementFiles where
  digest : Option String
  oldId : Option String
  newId : Option String
  runContractId : String → Option String

/-- `replacedRunIds`: the ids are collected in a `Set` and sorted. -/
def replacedRunIds (campaign : Campaign) (files : ReplacementFiles) : List String :=
  let attended :=
    ((campaign.attention.bind CampaignAttention.runId).filter fun runId => campaign.linkedRunIds.contains runId).toList
  let named := (files.oldId.filter fun oldId => campaign.linkedRunIds.contains oldId).toList
  let carried := campaign.linkedRunIds.filter fun runId =>
    files.oldId.isSome && decide (files.runContractId runId = files.oldId)
  sortTexts ((attended ++ named ++ carried).dedup.filter fun runId => files.newId ≠ some runId)

/-- `replaceContractInCampaign`. -/
def replaceContract (campaign : Campaign) (oldPath newPath : String) (files : ReplacementFiles) (at' : String) :
    Except Refusal Campaign := do
  requireTimestamp isTimestamp at' "at"
  requireString oldPath "oldPath"
  requireString newPath "newPath"
  match files.digest with
  | none => refuse s!"contract not found: {newPath}"
  | some digest => do
    let campaign ← readActive isTimestamp campaign
    let index := campaign.contracts.findIdx fun entry => decide (entry.path = oldPath)
    if index = campaign.contracts.length then refuse s!"no contract at {oldPath} in campaign {campaign.id}"
    else
      let replacement : ContractReplacement := ⟨oldPath, newPath, replacedRunIds campaign files, at'⟩
      let cleared := campaign.attention.any fun attention => decide (attention.contractPath = some oldPath)
      return { campaign with
        contracts := campaign.contracts.set index ⟨newPath, digest⟩
        replacements := campaign.replacements ++ [replacement]
        updatedAt := at'
        attention := if cleared then none else campaign.attention }

/-- `recordPromotion`. -/
def recordPromotion (campaign : Campaign) (entry : PromotionRecord) : Except Refusal Campaign := do
  requireId entry.runId "promotion.runId"
  requireString entry.branch "promotion.branch"
  requireString entry.sha "promotion.sha"
  requireTimestamp isTimestamp entry.at' "promotion.at"
  let campaign ← readCampaign isTimestamp campaign
  if campaign.promotions.any fun record => decide (record.runId = entry.runId ∧ record.sha = entry.sha) then return campaign
  else return { campaign with promotions := campaign.promotions ++ [entry], updatedAt := entry.at' }

def parkCampaign (campaign : Campaign) (attention : CampaignAttention) : Except Refusal Campaign := do
  checkAttention isTimestamp attention
  let campaign ← readCampaign isTimestamp campaign
  return { campaign with attention := some attention, updatedAt := attention.at' }

/-- `PAUSE_ATTENTION_CODE`. -/
def pauseAttentionCode : String := "operator_paused"

/-- `pauseCampaign`: a pause that is there stays, another attention refuses it. -/
def pauseCampaign (campaign : Campaign) (runIds : List String) (reason : Option String) (at' : String) :
    Except Refusal Campaign := do
  requireTimestamp isTimestamp at' "at"
  let campaign ← readActive isTimestamp campaign
  match campaign.attention with
  | some existing =>
    if existing.code = pauseAttentionCode then return campaign
    else refuse s!"campaign is parked on {existing.code}: {existing.message}"
  | none =>
    let reason := reason.getD "paused from the dashboard"
    let named := if runIds.isEmpty then "" else ": " ++ ", ".intercalate runIds
    parkCampaign isTimestamp campaign ⟨pauseAttentionCode, reason ++ named, at', none, none⟩

/-- `unparkCampaign`; `state` is that of the attention's run, where its directory is there. -/
def unparkCampaign (campaign : Campaign) (force : Bool) (state : Option String) (at' : String) : Except Refusal Campaign := do
  requireTimestamp isTimestamp at' "at"
  let campaign ← readActive isTimestamp campaign
  match campaign.attention with
  | none => refuse s!"campaign is not parked: {campaign.id}"
  | some attention =>
    let held := (nonempty? attention.runId).bind fun runId =>
      (state.filter fun state => !force && (state == "parked" || state == "canceled")).map fun state => (runId, state)
    match held with
    | some (runId, state) => refuse s!"run {runId} is still {state}; resume it first or pass --force"
    | none => return { campaign with attention := none, updatedAt := at' }

/-- The record `closeCampaign` writes. -/
def closeCampaign (campaign : Campaign) (journal : List JournalEntry) (files : RunFiles) (at' : String) :
    Except Refusal Campaign := do
  requireTimestamp isTimestamp at' "at"
  let campaign ← readCampaign isTimestamp campaign
  if campaign.closed then refuse s!"campaign already closed: {campaign.id}"
  else if !journal.any fun entry => decide (entry.type = "retrospective") then
    refuse s!"campaign {campaign.id} has no recorded retrospective; record one with note --kind retrospective before close"
  else
    let unacknowledged := unacknowledgedAdvisories files journal campaign.linkedRunIds
    let pending := "; ".intercalate unacknowledged
    if unacknowledged.isEmpty then
      return { campaign with
        closed := true
        closedAt := some at'
        updatedAt := at'
        requirements := some (buildRequirementClosure files campaign.linkedRunIds) }
    else
      refuse (s!"campaign {campaign.id} has judge findings no note has answered: {pending}. Read them with " ++
        "`faberun findings <run-dir>`, then name the node in a note (`campaign note " ++ campaign.id ++
        " --kind outcome --run-id <run-id> --text \"...<node>...\"`) before close")

def markCampaignLedgerPreserved (campaign : Campaign) : Except Refusal Campaign := do
  let campaign ← readCampaign isTimestamp campaign
  return { campaign with ledgerPreserved := true }

def configureCampaignReserve (campaign : Campaign) (reserveUsd : Rat) (at' : String) : Except Refusal Campaign := do
  nonNegativeNumber reserveUsd "reserveUsd"
  let campaign ← readActive isTimestamp campaign
  return { campaign with reserveUsd := some reserveUsd, updatedAt := at' }

/-- An operation with what it reads beside the record. -/
inductive Change where
  | register (runId at' : String)
  | addContract (contractPath : String) (digest : Option String) (at' : String)
  | replace (oldPath newPath : String) (files : ReplacementFiles) (at' : String)
  | promote (entry : PromotionRecord)
  | park (attention : CampaignAttention)
  | pause (runIds : List String) (reason : Option String) (at' : String)
  | unpark (force : Bool) (state : Option String) (at' : String)
  | close (journal : List JournalEntry) (files : RunFiles) (at' : String)
  | markLedger
  | reserve (reserveUsd : Rat) (at' : String)

def attempt (campaign : Campaign) : Change → Except Refusal Campaign
  | .register runId at' => registerRun isTimestamp campaign runId at'
  | .addContract contractPath digest at' => addContract isTimestamp campaign contractPath digest at'
  | .replace oldPath newPath files at' => replaceContract isTimestamp campaign oldPath newPath files at'
  | .promote entry => recordPromotion isTimestamp campaign entry
  | .park attention => parkCampaign isTimestamp campaign attention
  | .pause runIds reason at' => pauseCampaign isTimestamp campaign runIds reason at'
  | .unpark force state at' => unparkCampaign isTimestamp campaign force state at'
  | .close journal files at' => closeCampaign isTimestamp campaign journal files at'
  | .markLedger => markCampaignLedgerPreserved isTimestamp campaign
  | .reserve reserveUsd at' => configureCampaignReserve isTimestamp campaign reserveUsd at'

/-- A refused operation leaves the record as it was. -/
def apply (campaign : Campaign) (change : Change) : Campaign :=
  match attempt isTimestamp campaign change with
  | .ok changed => changed
  | .error _ => campaign

/-- `GOAL_TEXT_BYTES`. -/
def goalTextBytes : Nat := 4 * 1024

/-- `initializeCampaign`. -/
def initializeCampaign (campaignId goal at' : String) (contracts : List CampaignContract) (landBranch : Option String) :
    Except Refusal Campaign := do
  requireId campaignId "campaignId"
  requireTimestamp isTimestamp at' "at"
  contracts.zipIdx.forM fun entry => do
    requireString entry.1.path s!"contracts[{entry.2}].path"
    requirePacketHash entry.1.digest s!"contracts[{entry.2}].digest"
  let branch := landBranch.getD s!"campaign/{campaignId}"
  requireString branch "landBranch"
  let goal ← Journal.normalizeText goal "goal" goalTextBytes
  return ⟨campaignId, goal, false, [], contracts, [], branch, [], none, false, none, none, at', at', none⟩

/-- The processes that work on the record of a campaign. -/
def machine (created : Campaign) : Machine (UnlockedFile Campaign Change) (UnlockedFile.Label Change) :=
  UnlockedFile.machine (apply isTimestamp) created

end

end Faberun.CampaignRecord
