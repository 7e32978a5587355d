import Mathlib.Algebra.Order.Ring.Rat
import Mathlib.Data.List.Sort
import Faberun.Machine.Core

/-! # Provider sessions of a plan phase

The embedding of `engine/phase-session.mjs` with what `engine/dispatch.mjs` and `engine/lifecycle.mjs` do to the
ledgers it reads: a dispatch of a worker or a judge in a chosen session, the turn that only materializes a result, the
observation, close and settlement of an invocation, and a rejection. Prompts are left out; a dispatch that gives up
before its invocation is persisted is a step. The ledgers of all nodes are one list, where a node's own is what carries
its id. A provider gives a session it opens an id of its own.
-/

namespace Faberun.PhaseSession

inductive Role where
  | worker
  | judge
  deriving DecidableEq

inductive ContinuationMode where
  | fresh
  | reuse
  | rotate
  deriving DecidableEq

inductive InvocationStatus where
  | active
  | closed
  | terminated
  deriving DecidableEq

/-- A runtime, with its `fingerprintRuntime`. -/
structure RuntimeSnapshot where
  id : String
  harness : String
  fingerprint : String
  model : String
  reasoning : Option String
  sandbox : Option String
  /-- `capabilities.continuation`. -/
  continuation : Bool
  deriving DecidableEq

structure Invocation where
  id : String
  nodeId : String
  attempt : Nat
  workspace : String
  runId : String
  campaignId : String
  planPhase : String
  role : Role
  runtime : RuntimeSnapshot
  continuationId : Option String
  continuationMode : ContinuationMode
  status : InvocationStatus
  startedAt : Rat
  updatedAt : Rat
  deriving DecidableEq

/-- The session a live turn runs in. -/
def Invocation.live (invocation : Invocation) : Option String :=
  if invocation.status = .active then invocation.continuationId else none

/-- What a node's snapshot holds beside its ledger. -/
structure NodeSnapshot where
  attempt : Nat
  /-- `worktree.path`. -/
  worktree : Option String
  /-- `sessionPolicy.forceFresh`, where a policy is persisted. -/
  sessionPolicy : Option Bool
  deriving DecidableEq

structure ContractNode where
  id : String
  phase : String
  deriving DecidableEq

structure Contract where
  nodes : List ContractNode
  campaignId : String
  runId : String
  cwd : String
  phaseSessionReuse : Bool
  /-- `localeCompare` is not positive. -/
  notAfter : String → String → Bool

structure State where
  snapshots : String → NodeSnapshot
  ledger : List Invocation
  /-- History: every session a turn of a role was continued in, or opened. -/
  used : List (Role × String)

namespace State

def ledgerOf (s : State) (node : String) : List Invocation := s.ledger.filter fun invocation => decide (invocation.nodeId = node)

/-- The nodes whose snapshot can be read; the node's own is at hand. -/
def readable (contract : Contract) (node : ContractNode) (unread : List String) : List ContractNode :=
  contract.nodes.filter fun candidate => decide (candidate.id = node.id ∨ candidate.id ∉ unread)

end State

open State

/-! ## The choice of a session -/

def claimedContinuations (contract : Contract) (s : State) (node : ContractNode) (unread : List String) : List String :=
  (readable contract node unread).flatMap fun candidate => (s.ledgerOf candidate.id).filterMap Invocation.live

/-- The comparison of the sort. -/
def startedBefore (contract : Contract) (left right : Invocation) : Bool :=
  if left.startedAt ≠ right.startedAt then decide (left.startedAt < right.startedAt)
  else if left.updatedAt ≠ right.updatedAt then decide (left.updatedAt < right.updatedAt)
  else contract.notAfter left.id right.id

/-- An invocation of a candidate's own attempt with a session of the role that no live turn is driving. -/
def isCandidate (s : State) (node candidate : ContractNode) (role : Role) (claimed : List String) (invocation : Invocation) :
    Bool :=
  decide (invocation.role = role ∧ invocation.planPhase = node.phase ∧ invocation.continuationId ≠ none ∧
    invocation.nodeId = candidate.id ∧ invocation.attempt = (s.snapshots candidate.id).attempt ∧
    some invocation.workspace = (s.snapshots candidate.id).worktree) &&
  invocation.continuationId.all fun continuationId => !claimed.contains continuationId

def phaseSessionCandidates (contract : Contract) (s : State) (node : ContractNode) (role : Role) (unread : List String) :
    List Invocation :=
  let claimed := claimedContinuations contract s node unread
  (((readable contract node unread).filter fun candidate => decide (candidate.phase = node.phase)).flatMap fun candidate =>
    (s.ledgerOf candidate.id).filter (isCandidate s node candidate role claimed)).insertionSort
    fun left right => startedBefore contract left right = true

/-- The session was opened by the same runtime, for the same role of the same phase. -/
def identityMatches (contract : Contract) (node : ContractNode) (role : Role) (runtime : RuntimeSnapshot)
    (invocation : Invocation) : Bool :=
  decide (invocation.runId = contract.runId ∧ invocation.campaignId = contract.campaignId ∧
    invocation.planPhase = node.phase ∧ invocation.role = role ∧ invocation.runtime.harness = runtime.harness ∧
    invocation.runtime.id = runtime.id ∧ invocation.runtime.fingerprint = runtime.fingerprint ∧
    invocation.runtime.model = runtime.model ∧ invocation.runtime.reasoning = runtime.reasoning ∧
    invocation.runtime.sandbox = runtime.sandbox)

structure PhasePlan where
  continuationId : Option String
  mode : ContinuationMode
  deriving DecidableEq

def phaseInvocationPlan (contract : Contract) (s : State) (node : ContractNode) (role : Role) (runtime : RuntimeSnapshot)
    (policy : Option Bool) (unread : List String) : PhasePlan :=
  if policy = some true then ⟨none, .fresh⟩
  else
    match (phaseSessionCandidates contract s node role unread).getLast? with
    | none => ⟨none, .fresh⟩
    | some session =>
      if identityMatches contract node role runtime session && runtime.continuation &&
          (decide (session.nodeId = node.id) || contract.phaseSessionReuse) then
        ⟨session.continuationId, .reuse⟩
      else ⟨none, .rotate⟩

/-- The policy a dispatch runs under. -/
def forceFreshSession (snapshot : NodeSnapshot) (explicit : Option Bool) : Option Bool := explicit.or snapshot.sessionPolicy

/-! ## What happens to the ledgers -/

inductive Label where
  /-- `startWorker` or `startJudge`, with the snapshots it cannot read. -/
  | dispatch (role : Role) (node : ContractNode) (runtime : RuntimeSnapshot) (explicit : Option Bool) (unread : List String)
      (id : String) (now : Rat)
  /-- A `startWorker` that persists no invocation. -/
  | refuse (node : ContractNode)
  /-- `startResultMaterialization` of a closed invocation. -/
  | materialize (node : ContractNode) (source : Invocation) (runtime : RuntimeSnapshot) (id : String) (now : Rat)
  /-- The session of a live turn is observed. -/
  | observe (id session : String) (now : Rat)
  /-- The process ends, or a recovery closes its record, with the session its envelope names. -/
  | close (id : String) (envelope : Option String) (now : Rat)
  | terminate (id : String) (now : Rat)
  /-- The envelope is read again where a closed invocation is settled. -/
  | settle (id : String) (envelope : Option String)
  /-- `applyRejection` leaves a session policy. -/
  | reject (node : ContractNode) (forceFresh : Bool)
  /-- A node goes on to an attempt in a workspace. -/
  | attempt (node : ContractNode) (attempt : Nat) (worktree : Option String)
  deriving DecidableEq

namespace State

def setSnapshot (s : State) (node : ContractNode) (snapshot : NodeSnapshot) : State :=
  { s with snapshots := fun other => if other = node.id then snapshot else s.snapshots other }

/-- `stampInvocation` on a record of `startProcess`. -/
def stampInvocation (contract : Contract) (s : State) (node : ContractNode) (role : Role) (runtime : RuntimeSnapshot)
    (plan : PhasePlan) (id : String) (now : Rat) : Invocation :=
  ⟨id, node.id, (s.snapshots node.id).attempt, ((s.snapshots node.id).worktree).getD contract.cwd, contract.runId,
    contract.campaignId, node.phase, role, runtime, plan.continuationId, plan.mode, .active, now, now⟩

def persist (s : State) (invocation : Invocation) : State := { s with ledger := s.ledger ++ [invocation] }

/-- Every record with an id, changed. -/
def update (s : State) (id : String) (change : Invocation → Invocation) : State :=
  { s with ledger := s.ledger.map fun invocation => if invocation.id = id then change invocation else invocation }

/-- A session that is nobody's yet. -/
def isNew (s : State) (session : String) : Bool := s.used.all fun entry => decide (entry.2 ≠ session)

/-- The session an envelope names: the one the turn was continued in, or one it opened. -/
def names (s : State) (invocation : Invocation) (envelope : Option String) : Bool :=
  envelope.all fun session => decide (invocation.continuationId = some session) || s.isNew session

/-- The record carries the session its envelope names. -/
def carry (s : State) (invocation : Invocation) (envelope : Option String) (change : Invocation → Invocation) : State :=
  { (s.update invocation.id fun item =>
      change { item with continuationId := envelope.or item.continuationId }) with
    used := (envelope.toList.map (invocation.role, ·)) ++ s.used }

def find? (s : State) (id : String) : Option Invocation := s.ledger.find? fun invocation => decide (invocation.id = id)

def step (contract : Contract) (s : State) : Label → Option State
  | .dispatch role node runtime explicit unread id now =>
    if node ∈ contract.nodes ∧ s.find? id = none then
      let policy := if role = .worker then forceFreshSession (s.snapshots node.id) explicit else none
      let plan := phaseInvocationPlan contract s node role runtime policy unread
      let consumed :=
        if role = .worker then s.setSnapshot node { s.snapshots node.id with sessionPolicy := none } else s
      some (consumed.persist (s.stampInvocation contract node role runtime plan id now))
    else none
  | .refuse node => some (s.setSnapshot node { s.snapshots node.id with sessionPolicy := none })
  | .materialize node source runtime id now =>
    if node ∈ contract.nodes ∧ source ∈ s.ledger ∧ source.nodeId = node.id ∧ source.role = .worker ∧
        source.status ≠ .active ∧ runtime.continuation = true ∧ source.continuationId ≠ none ∧ s.find? id = none then
      some (s.persist (s.stampInvocation contract node .worker runtime ⟨source.continuationId, .reuse⟩ id now))
    else none
  | .observe id session now =>
    (s.find? id).bind fun invocation =>
      if invocation.status = .active ∧ invocation.continuationId = none ∧ s.isNew session = true then
        some (s.carry invocation (some session) fun item => { item with updatedAt := now })
      else none
  | .close id envelope now =>
    (s.find? id).bind fun invocation =>
      if s.names invocation envelope = true then
        some (s.carry invocation envelope fun item => { item with status := .closed, updatedAt := now })
      else none
  | .terminate id now => some (s.update id fun item => { item with status := .terminated, updatedAt := now })
  | .settle id envelope =>
    (s.find? id).bind fun invocation =>
      if invocation.status ≠ .active ∧ s.names invocation envelope = true then some (s.carry invocation envelope fun item => item)
      else none
  | .reject node forceFresh =>
    some (s.setSnapshot node
      { s.snapshots node.id with sessionPolicy := if forceFresh then some true else none })
  | .attempt node attempt worktree =>
    some (s.setSnapshot node { s.snapshots node.id with attempt := attempt, worktree := worktree })

end State

def machine (contract : Contract) : Machine State Label := ⟨State.step contract⟩

def Initial (s : State) : Prop := s.ledger = [] ∧ s.used = []

/-! ## One session, one live turn -/

/-- Two turns are not live in one session. -/
def Apart (left right : Invocation) : Prop := ∀ session, left.live = some session → right.live ≠ some session

/-- What holds of the ledgers of a run. -/
structure Exclusive (s : State) : Prop where
  live : s.ledger.Pairwise Apart
  roles : ∀ invocation ∈ s.ledger, ∀ session, invocation.role = .judge → invocation.continuationId = some session →
    (.worker, session) ∉ s.used

/-- A turn that materializes a result does not continue a session that a live turn is driving, and the nodes whose
snapshots cannot be read where a session is chosen drive none. -/
def Claims (s : State) (label : Label) : Prop :=
  match label with
  | .materialize _ source _ _ _ => ∀ invocation ∈ s.ledger, invocation.live ≠ none → invocation.live ≠ source.continuationId
  | .dispatch _ node _ _ unread _ _ =>
    ∀ invocation ∈ s.ledger, invocation.nodeId ∈ unread → invocation.nodeId ≠ node.id → invocation.live = none
  | _ => True

instance : DecidableRel Claims := fun s label =>
  match label with
  | .materialize _ source _ _ _ => inferInstanceAs
    (Decidable (∀ invocation ∈ s.ledger, invocation.live ≠ none → invocation.live ≠ source.continuationId))
  | .dispatch _ node _ _ unread _ _ => inferInstanceAs
    (Decidable
      (∀ invocation ∈ s.ledger, invocation.nodeId ∈ unread → invocation.nodeId ≠ node.id → invocation.live = none))
  | .refuse _ | .observe _ _ _ | .close _ _ _ | .terminate _ _ | .settle _ _ | .reject _ _ | .attempt _ _ _ => instDecidableTrue

end Faberun.PhaseSession
