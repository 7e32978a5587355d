import Faberun.Model.Contract.TaskPacket

/-! # Widening a refused packet

`resume --reauthor`: `reauthorRefusedNode` of `engine/resume.mjs`, with `widenTaskPacket` and `replacePacketInContract` of
`repo/scope-closure.mjs`, the write conflicts and the approval of `contract/scope-findings.mjs` and `runBoundedRounds` of
`plan/rounds.mjs`. A discovery pass answers every round; what `validateContract` says of a candidate is a parameter.
-/

namespace Faberun.Reauthor

/-- A node of a contract, with the fields of its gate the approval reads. -/
structure ContractNode where
  id : String
  taskPacket : TaskPacket
  gateEnabled : Bool
  review : String
  deriving DecidableEq

structure ReauthorAdditions where
  readFiles : Option (List String)
  writeFiles : Option (List String)
  scopeAcknowledged : Option (List String)
  symbols : Option (List String)
  deriving DecidableEq, Repr

/-! ## The widened packet -/

/-- `[...new Set([...(base ?? []), ...(extra ?? [])])]`. -/
def union (base extra : Option (List String)) : List String := (base.getD [] ++ extra.getD []).eraseDups

def widenTaskPacket (packet : TaskPacket) (additions : ReauthorAdditions) : TaskPacket :=
  let acknowledged := union packet.scopeAcknowledged additions.scopeAcknowledged
  { packet with
    readFiles := some (union packet.readFiles additions.readFiles)
    writeFiles := some (union packet.writeFiles additions.writeFiles)
    symbols := union (some packet.symbols) additions.symbols
    scopeAcknowledged := if acknowledged = [] then packet.scopeAcknowledged else some acknowledged }

/-- `replacePacketInContract`, where the node is there; the ids of a contract are unique. -/
def replacePacket (nodes : List ContractNode) (nodeId : String) (packet : TaskPacket) : List ContractNode :=
  nodes.map fun node => if node.id = nodeId then { node with taskPacket := packet } else node

structure WriteConflict where
  path : String
  nodeId : String
  reason : String
  deriving DecidableEq, Repr

def reauthorWriteConflicts (nodes : List ContractNode) (nodeId : String) (addedWriteFiles : Option (List String)) :
    List WriteConflict :=
  let added := addedWriteFiles.getD []
  (nodes.filter fun node => decide (node.id ≠ nodeId)).flatMap fun node =>
    ((node.taskPacket.writeFiles.getD []).filter fun path => decide (path ∈ added)).map fun path =>
      ⟨path, node.id, s!"{path} is already declared in writeFiles by node {node.id}; a widened packet may not take " ++
        "over another node's write"⟩

/-! ## The rounds -/

/-- What `runBoundedRounds` returns. -/
structure Budget (α : Type) where
  accepted : Bool
  roundsUsed : Nat
  last : Option α
  history : List α

/-- The loop of `runBoundedRounds`, with the rounds left and the one that is next. -/
def roundsFrom {α : Type} (accepted : α → Bool) (step : Nat → List α → α) : Nat → Nat → List α → Budget α
  | 0, next, history => ⟨false, next - 1, history.getLast?, history⟩
  | left + 1, next, history =>
    let result := step next history
    if accepted result then ⟨true, next, some result, history ++ [result]⟩
    else roundsFrom accepted step left (next + 1) (history ++ [result])

def runBoundedRounds {α : Type} (accepted : α → Bool) (step : Nat → List α → α) (rounds : Nat) :
    Except Refusal (Budget α) := do
  check (decide (1 ≤ rounds)) s!"rounds must be a positive integer: {rounds}"
  return roundsFrom accepted step rounds 1 []

structure ReauthorRound where
  accepted : Bool
  round : Nat
  additions : ReauthorAdditions
  packet : TaskPacket
  candidate : List ContractNode
  findings : List String

section

variable (validate : List ContractNode → Except String Unit) (discover : Nat → List String → ReauthorAdditions)

def reauthorRound (nodes : List ContractNode) (node : ContractNode) (round : Nat) (history : List ReauthorRound) :
    ReauthorRound :=
  let additions := discover round (history.flatMap ReauthorRound.findings)
  let packet := widenTaskPacket node.taskPacket additions
  let candidate := replacePacket nodes node.id packet
  let conflicts := (reauthorWriteConflicts nodes node.id additions.writeFiles).map WriteConflict.reason
  match validate candidate with
  | .ok _ => ⟨decide (conflicts = []), round, additions, packet, candidate, conflicts⟩
  | .error message => ⟨false, round, additions, packet, candidate, conflicts ++ [message]⟩

/-! ## The decision -/

inductive RiskTier where
  | low
  | standard
  | high
  deriving DecidableEq, Repr

def reauthorRiskTier (node : ContractNode) : RiskTier :=
  if !node.gateEnabled then .low else if node.review = "blocking" then .high else .standard

def reauthorApproved (node : ContractNode) (approve : Bool) (approveBelow : Option String) : Except Refusal Bool := do
  let approveBelow := approveBelow.getD "standard"
  if approve then return true
  else if approveBelow = "high" then return true
  else if approveBelow = "none" then return false
  else if approveBelow ≠ "standard" then
    .error ⟨none, s!"approveBelow must be one of standard, high, none: {approveBelow}"⟩
  else return decide (reauthorRiskTier node ≠ .high)

inductive Outcome where
  | applied
  | approvalRequired
  | roundsExhausted
  deriving DecidableEq, Repr

/-- What `reauthorRefusedNode` returns: its budget, the outcome, and the contract of an accepted round. -/
structure Reauthoring where
  budget : Budget ReauthorRound
  outcome : Outcome
  contract : Option (List ContractNode)

/-- `reauthorRefusedNode`; `refused` says that the node is blocked on missing context. -/
def reauthorRefusedNode (nodes : List ContractNode) (node : ContractNode) (refused : Bool) (rounds : Nat) (approve : Bool)
    (approveBelow : Option String) : Except Refusal Reauthoring := do
  check refused s!"node {node.id} is not blocked on missing context, so it cannot be reauthored"
  let budget ← runBoundedRounds ReauthorRound.accepted (reauthorRound validate discover nodes node) rounds
  if budget.accepted then
    let approved ← reauthorApproved node approve approveBelow
    return ⟨budget, if approved then .applied else .approvalRequired, budget.last.map ReauthorRound.candidate⟩
  else return ⟨budget, .roundsExhausted, none⟩

/-- The nodes `resumeRun` writes to `contract.json`. -/
def Reauthoring.written (result : Reauthoring) (nodes : List ContractNode) : List ContractNode :=
  match result.outcome with
  | .applied => result.contract.getD nodes
  | .approvalRequired | .roundsExhausted => nodes

end

end Faberun.Reauthor
