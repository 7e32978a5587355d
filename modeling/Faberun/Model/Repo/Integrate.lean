import Faberun.Machine.CommitGraph
import Faberun.Machine.Core
import Faberun.Model.Contract.Status

/-! # Integration transactions

The embedding of `repo/integrate.mjs` with the callbacks of its two callers: `settleDone` of
`engine/settle.mjs` and `recoverIntegrationTransactions` of `engine/resume.mjs`. The run ref, the commit
graph, `integration.jsonl`, the node snapshots and the `done` events are explicit; `git merge-tree` is a
parameter and an object once written stays. The candidate ref and worktree are scratch space nobody
reads back and are left out.

`Stage` is where a controller can die. A dead controller is `halted`, and only a recovery goes on from
there. `history` is what happened in the order it happened: nothing the code computes reads it.
-/

namespace Faberun.Integration

/-- `IntegrationStatus`. -/
inductive IntegrationStatus where
  | prepared
  | verified
  | accepted
  | failed
  | conflict
  deriving DecidableEq, Repr

/-- `TERMINAL`. -/
def IntegrationStatus.terminal : IntegrationStatus → Bool
  | .accepted | .failed | .conflict => true
  | .prepared | .verified => false

/-- `IntegrationRecord`. -/
structure IntegrationRecord (ν : Type) where
  node : ν
  attempt : Nat
  attemptSha : Nat
  empty : Bool
  previousRunRefTip : Nat
  candidateSha : Option Nat
  conflictingPaths : List String
  status : IntegrationStatus
  /-- `verificationEvidence.candidate.passed`, once there is one. -/
  candidateEvidence : Option Bool
  deriving DecidableEq, Repr

/-- `integrationKey`. -/
def IntegrationRecord.key {ν : Type} (record : IntegrationRecord ν) : ν × Nat := (record.node, record.attempt)

def IntegrationRecord.withStatus {ν : Type} (transaction : IntegrationRecord ν) (status : IntegrationStatus) :
    IntegrationRecord ν :=
  { transaction with status }

/-- The record of a transaction whose candidate passed. -/
def IntegrationRecord.verified {ν : Type} (transaction : IntegrationRecord ν) : IntegrationRecord ν :=
  { transaction with status := .verified, candidateEvidence := some true }

/-- The record of a transaction whose candidate did not pass. -/
def IntegrationRecord.failed {ν : Type} (transaction : IntegrationRecord ν) : IntegrationRecord ν :=
  { transaction with status := .failed, candidateEvidence := some false }

/-- What integration reads and writes of a node snapshot. -/
structure NodeSnapshot where
  status : NodeStatus
  attempt : Nat
  revisions : Nat
  integratedHead : Option Nat
  error : Option NodeError
  deriving DecidableEq, Repr

/-- The points where a controller can die. -/
inductive Stage where
  | prepared
  | beforeRef
  | afterRef
  /-- `after-state` as the environment variable reads it: the snapshot is written, its event is not. -/
  | afterWrite
  | afterState
  deriving DecidableEq, Repr

/-- What happened: a candidate verified, a record journaled, the run ref moved by a transaction. -/
inductive Deed (ν : Type) where
  /-- `seen` is what the verification read of the node snapshots when it started. -/
  | verdict (node : ν) (attempt candidate : Nat) (passed : Bool) (seen : ν → NodeStatus)
  | journaled (record : IntegrationRecord ν)
  | moved (node : ν) (attempt source target : Nat)

/-- What `git merge-tree --write-tree` answers. -/
inductive Merge (τ : Type) where
  | tree (tree : τ)
  | conflicts (paths : List String)

structure Config (ν τ : Type) where
  mergeTree : CommitGraph τ → Nat → Nat → Merge τ
  maxRevisions : ν → Nat
  gateEnabled : ν → Bool

structure World (ν τ : Type) where
  graph : CommitGraph τ
  runRef : Nat
  journal : List (IntegrationRecord ν)
  nodes : ν → NodeSnapshot
  /-- The node and attempt of the `done` transitions in `events.jsonl`. -/
  doneEvents : List (ν × Nat)
  halted : Bool
  /-- History. -/
  history : List (Deed ν)

section Transactions

variable {ν τ : Type} [DecidableEq ν] [DecidableEq τ]

/-- `latestIntegrationTransactions`. -/
def latestIntegrationTransactions (journal : List (IntegrationRecord ν)) : List (IntegrationRecord ν) :=
  KeyedLog.latest IntegrationRecord.key journal

namespace World

/-- `appendRecord`. -/
def appendRecord (w : World ν τ) (record : IntegrationRecord ν) : World ν τ :=
  { w with journal := w.journal ++ [record], history := w.history ++ [.journaled record] }

/-- The node statuses on disk. -/
def statuses (w : World ν τ) (node : ν) : NodeStatus := (w.nodes node).status

/-- Note what `verifyCandidate` answered. -/
def judge (w : World ν τ) (transaction : IntegrationRecord ν) (candidateSha : Nat) (passed : Bool)
    (seen : ν → NodeStatus) : World ν τ :=
  { w with history := w.history ++ [.verdict transaction.node transaction.attempt candidateSha passed seen] }

/-- `interruptStage`. -/
def interruptStage (w : World ν τ) (crash : Option Stage) (stage : Stage) : World ν τ :=
  if crash = some stage then { w with halted := true } else w

def patch (w : World ν τ) (node : ν) (change : NodeSnapshot → NodeSnapshot) : World ν τ :=
  { w with nodes := Function.update w.nodes node (change (w.nodes node)) }

/-- `transition` to `done`: the snapshot first, then its event. -/
def transitionDone (w : World ν τ) (crash : Option Stage) (node : ν) (integratedHead : Option Nat) : World ν τ :=
  let written := w.patch node fun state => { state with status := .done, integratedHead }
  if crash = some .afterWrite then { written with halted := true }
  else { written with doneEvents := written.doneEvents ++ [(node, (written.nodes node).attempt)] }

/-- `ensureTerminalEvent`. -/
def ensureTerminalEvent (w : World ν τ) (node : ν) : World ν τ :=
  if (node, (w.nodes node).attempt) ∈ w.doneEvents then w
  else { w with doneEvents := w.doneEvents ++ [(node, (w.nodes node).attempt)] }

/-- `appendAccepted`. -/
def appendAccepted (w : World ν τ) (transaction : IntegrationRecord ν) : World ν τ × IntegrationRecord ν :=
  let accepted := transaction.withStatus .accepted
  match (latestIntegrationTransactions w.journal).find?
      (fun record => decide (record.key = transaction.key ∧ record.status = .accepted)) with
  | some existing => (w, existing)
  | none => (w.appendRecord accepted, accepted)

/-- `appendConflict`. -/
def appendConflict (w : World ν τ) (transaction : IntegrationRecord ν) : World ν τ × IntegrationRecord ν :=
  let conflict := transaction.withStatus .conflict
  match (latestIntegrationTransactions w.journal).find?
      (fun record => decide (record.key = transaction.key ∧ record.status = .conflict)) with
  | some existing => (w, existing)
  | none => (w.appendRecord conflict, conflict)

/-- `updateRefConditional` on the run ref, for one transaction. -/
def updateRefConditional (w : World ν τ) (transaction : IntegrationRecord ν) (next previous : Nat) :
    Option (World ν τ) :=
  if w.runRef = previous then
    some { w with
      runRef := next
      history := w.history ++ [.moved transaction.node transaction.attempt previous next] }
  else none

end World

/-- `gitDiffEmpty`. -/
def gitDiffEmpty (g : CommitGraph τ) (base head : Nat) : Bool :=
  match g.tree? base, g.tree? head with
  | some first, some second => decide (first = second)
  | _, _ => false

/-- `gitCommitTree`: fails when a parent is missing. -/
def gitCommitTree (g : CommitGraph τ) (tree : τ) (firstParent secondParent : Nat) :
    Option (CommitGraph τ × Nat) :=
  if known : ∀ parent ∈ [firstParent, secondParent], parent < g.size then
    some (g.extend ⟨tree, [firstParent, secondParent]⟩ known, g.size)
  else none

/-- `isAncestor`, for an ancestor that may be missing. -/
def isAncestor (g : CommitGraph τ) (ancestor : Option Nat) (descendant : Nat) : Bool :=
  match ancestor with
  | some sha => g.isAncestor sha descendant
  | none => false

/-- `prepareTransaction`. -/
def prepareTransaction (cfg : Config ν τ) (g : CommitGraph τ) (node : ν)
    (attempt attemptSha previousRunRefTip : Nat) : Option (CommitGraph τ × IntegrationRecord ν) :=
  let transaction : IntegrationRecord ν := {
    node, attempt, attemptSha, previousRunRefTip
    empty := gitDiffEmpty g previousRunRefTip attemptSha
    candidateSha := none
    conflictingPaths := []
    status := .prepared
    candidateEvidence := none }
  if transaction.empty then some (g, { transaction with candidateSha := some previousRunRefTip })
  else if attemptSha = previousRunRefTip ∨ isAncestor g (some previousRunRefTip) attemptSha then
    some (g, { transaction with candidateSha := some attemptSha })
  else
    match cfg.mergeTree g previousRunRefTip attemptSha with
    | .conflicts paths => some (g, { transaction with conflictingPaths := paths })
    | .tree tree =>
        (gitCommitTree g tree previousRunRefTip attemptSha).map fun (grown, sha) =>
          (grown, { transaction with candidateSha := some sha })

/-- What the caller of an integration does with each end. -/
structure Callbacks (ν τ : Type) where
  onAccepted : Option Stage → World ν τ → IntegrationRecord ν → World ν τ
  onVerificationFailure : World ν τ → IntegrationRecord ν → World ν τ
  onConflict : World ν τ → IntegrationRecord ν → World ν τ
  onConcurrentMove : World ν τ → IntegrationRecord ν → Nat → World ν τ

/-- `appendAccepted` and `finishAccepted`. -/
def accept (cb : Callbacks ν τ) (crash : Option Stage) (w : World ν τ) (transaction : IntegrationRecord ν) :
    World ν τ :=
  let (journaled, accepted) := w.appendAccepted transaction
  cb.onAccepted crash journaled accepted

/-- `advanceVerified`. -/
def advanceVerified (cb : Callbacks ν τ) (crash : Option Stage) (w : World ν τ)
    (transaction : IntegrationRecord ν) : World ν τ :=
  let current := w.runRef
  if some current = transaction.candidateSha ∧ current ≠ transaction.previousRunRefTip then
    accept cb crash w transaction
  else if current ≠ transaction.previousRunRefTip ∧ isAncestor w.graph transaction.candidateSha current = false then
    cb.onConcurrentMove w transaction current
  else if current ≠ transaction.previousRunRefTip ∧ isAncestor w.graph transaction.candidateSha current then
    accept cb crash w transaction
  else
    match transaction.candidateSha with
    | none => w
    | some candidateSha =>
        match w.updateRefConditional transaction candidateSha transaction.previousRunRefTip with
        | none => cb.onConcurrentMove w transaction w.runRef
        | some moved =>
            let moved := moved.interruptStage crash .afterRef
            if moved.halted then moved
            else (accept cb crash moved transaction).interruptStage crash .afterState

/-- `verifyAndAdvance`; `passed` is what `verifyCandidate` answers, having read the statuses `seen`. Setting the
candidate ref without a candidate throws. -/
def verifyAndAdvance (cb : Callbacks ν τ) (crash : Option Stage) (passed : Bool) (seen : ν → NodeStatus)
    (w : World ν τ) (transaction : IntegrationRecord ν) : World ν τ :=
  match transaction.candidateSha with
  | none => w
  | some candidateSha =>
      let judged := w.judge transaction candidateSha passed seen
      if passed then
        let journaled := (judged.appendRecord transaction.verified).interruptStage crash .beforeRef
        if journaled.halted then journaled else advanceVerified cb crash journaled transaction.verified
      else cb.onVerificationFailure (judged.appendRecord transaction.failed) transaction

/-- One record of the loop of `recoverIntegrations`. The flag says whether the loop goes on. -/
def recoverRecord (cfg : Config ν τ) (cb : Callbacks ν τ) (crash : Option Stage) (passed : Bool)
    (w : World ν τ) (record : IntegrationRecord ν) : World ν τ × Bool :=
  match record.status with
  | .accepted => (cb.onAccepted crash w record, true)
  | .failed | .conflict => (w, true)
  | .prepared | .verified =>
      match record.candidateSha with
      | none =>
          if record.conflictingPaths = [] then (w, true)
          else
            let (journaled, conflict) := w.appendConflict record
            (cb.onConflict journaled conflict, true)
      | some candidateSha =>
          if record.status = .prepared then
            -- A prepared record is no evidence: nothing but its own verification advances it.
            if w.runRef ≠ record.previousRunRefTip then (cb.onConcurrentMove w record w.runRef, true)
            else
              let rebuilt :=
                if candidateSha < w.graph.size then some (w.graph, { record with conflictingPaths := [] })
                else prepareTransaction cfg w.graph record.node record.attempt record.attemptSha
                  record.previousRunRefTip
              match rebuilt with
              | none => (w, false)
              | some (graph, rebuilt) =>
                  let w := { w with graph }
                  if rebuilt.candidateSha ≠ record.candidateSha ∨ rebuilt.conflictingPaths ≠ [] then
                    let (journaled, conflict) := w.appendConflict { record with
                      conflictingPaths :=
                        if rebuilt.conflictingPaths = [] then ["candidate object unavailable"]
                        else rebuilt.conflictingPaths }
                    (cb.onConflict journaled conflict, true)
                  else (verifyAndAdvance cb crash passed w.statuses w rebuilt, false)
          else if w.runRef = candidateSha ∧ w.runRef ≠ record.previousRunRefTip then
            (accept cb crash w record, true)
          else if w.runRef ≠ record.previousRunRefTip ∧ w.graph.isAncestor candidateSha w.runRef then
            (accept cb crash w record, true)
          else if w.runRef ≠ record.previousRunRefTip then (cb.onConcurrentMove w record w.runRef, true)
          else (advanceVerified cb crash w record, false)

/-- The loop of `recoverIntegrations` over the records read when it started. -/
def recoverLoop (cfg : Config ν τ) (cb : Callbacks ν τ) (crash : Option Stage) (passed : Bool) :
    World ν τ → List (IntegrationRecord ν) → World ν τ
  | w, [] => w
  | w, record :: rest =>
      let (next, goesOn) := recoverRecord cfg cb crash passed w record
      if next.halted ∨ goesOn = false then next else recoverLoop cfg cb crash passed next rest

/-- `recoverIntegrations`. -/
def recoverIntegrations (cfg : Config ν τ) (cb : Callbacks ν τ) (crash : Option Stage) (passed : Bool)
    (w : World ν τ) : World ν τ :=
  recoverLoop cfg cb crash passed w (latestIntegrationTransactions w.journal)

/-- `integrateAttempt` past the lookup of an earlier transaction, up to `verifyAndAdvance`. -/
def openTransaction (cfg : Config ν τ) (cb : Callbacks ν τ) (crash : Option Stage) (w : World ν τ) (node : ν)
    (attempt attemptSha : Nat) : World ν τ × Option (IntegrationRecord ν) :=
  match prepareTransaction cfg w.graph node attempt attemptSha w.runRef with
  | none => (w, none)
  | some (graph, transaction) =>
      let prepared := ({ w with graph }.appendRecord transaction).interruptStage crash .prepared
      if prepared.halted then (prepared, none)
      else if transaction.conflictingPaths ≠ [] then
        (cb.onConflict (prepared.appendRecord (transaction.withStatus .conflict)) transaction, none)
      else (prepared, some transaction)

/-- `integrateAttempt` up to `verifyAndAdvance`. An attempt whose transaction is open is left to a recovery. -/
def enterIntegration (cfg : Config ν τ) (cb : Callbacks ν τ) (crash : Option Stage) (passed : Bool) (w : World ν τ)
    (node : ν) (attempt attemptSha : Nat) : World ν τ × Option (IntegrationRecord ν) :=
  match (latestIntegrationTransactions w.journal).find? (fun record => decide (record.key = (node, attempt))) with
  | none => openTransaction cfg cb crash w node attempt attemptSha
  | some existing =>
      if existing.status = .accepted then (cb.onAccepted crash w existing, none)
      else if existing.status.terminal then openTransaction cfg cb crash w node attempt attemptSha
      else (recoverIntegrations cfg cb crash passed w, none)

/-- `integrateAttempt`. -/
def integrateAttempt (cfg : Config ν τ) (cb : Callbacks ν τ) (crash : Option Stage) (passed : Bool)
    (w : World ν τ) (node : ν) (attempt attemptSha : Nat) : World ν τ :=
  match enterIntegration cfg cb crash passed w node attempt attemptSha with
  | (entered, none) => entered
  | (entered, some transaction) => verifyAndAdvance cb crash passed entered.statuses entered transaction

/-! ## The callers -/

/-- `applyRejection` where there is no scheduler to start the revision. -/
def applyRejection (cfg : Config ν τ) (w : World ν τ) (node : ν) (summary : String) : World ν τ :=
  w.patch node fun state =>
    if state.revisions < cfg.maxRevisions node then
      { state with status := .pending, revisions := state.revisions + 1, error := none }
    else
      { state with
        status := if cfg.gateEnabled node then .exhausted else .failed
        error := some ⟨"verification_failed", summary⟩ }

def blockedByConflict (w : World ν τ) (node : ν) (transaction : IntegrationRecord ν) : World ν τ :=
  let paths := if transaction.conflictingPaths = [] then "unknown paths"
    else ", ".intercalate transaction.conflictingPaths
  w.patch node fun state =>
    { state with status := .blocked, error := some ⟨"integration_conflict", "integration conflict in: " ++ paths⟩ }

def blockedByMove (w : World ν τ) (node : ν) (transaction : IntegrationRecord ν) (current : Nat) : World ν τ :=
  w.patch node fun state =>
    { state with
      status := .blocked
      error := some ⟨"integration_concurrent_move",
        "run ref moved from " ++ toString transaction.previousRunRefTip ++ " to " ++ toString current⟩ }

/-- The callbacks of `settleDone`, closed over the node that settles. -/
def settleCallbacks (cfg : Config ν τ) (node : ν) : Callbacks ν τ where
  onAccepted crash w transaction :=
    if (w.nodes node).attempt = transaction.attempt then
      let done := if (w.nodes node).status = .done then w else w.transitionDone crash node transaction.candidateSha
      if done.halted then done else done.ensureTerminalEvent node
    else w
  onVerificationFailure w _ := applyRejection cfg w node "integrated candidate verification failed"
  onConflict w transaction := blockedByConflict w node transaction
  onConcurrentMove w transaction current := blockedByMove w node transaction current

/-- The callbacks of `recoverIntegrationTransactions`, for the node of the record. -/
def recoveryCallbacks (cfg : Config ν τ) : Callbacks ν τ where
  onAccepted crash w transaction :=
    let state := w.nodes transaction.node
    if state.attempt = transaction.attempt ∧ (transaction.node, state.attempt) ∈ w.doneEvents then w
    else
      let done :=
        if state.attempt = transaction.attempt ∧ state.status ≠ .done then
          w.transitionDone crash transaction.node transaction.candidateSha
        else w
      if done.halted then done
      else if (done.nodes transaction.node).attempt = transaction.attempt ∧
          (done.nodes transaction.node).status = .done then
        done.ensureTerminalEvent transaction.node
      else done
  onVerificationFailure w transaction :=
    if (w.nodes transaction.node).status.settled then w
    else applyRejection cfg w transaction.node "integrated candidate verification failed during recovery"
  onConflict w transaction :=
    if (w.nodes transaction.node).status.settled then w else blockedByConflict w transaction.node transaction
  onConcurrentMove w transaction current :=
    if (w.nodes transaction.node).status.settled then w else blockedByMove w transaction.node transaction current

/-! ## Runs -/

inductive Label (ν τ : Type) where
  /-- A worker, or the seal of its attempt, adds a commit. -/
  | commit (tree : τ) (parents : List Nat)
  | startAttempt (node : ν)
  /-- Any other status the engine gives a node that is not done. -/
  | transition (node : ν) (status : NodeStatus)
  /-- `settleDone` integrates the sealed commit of the node's current attempt. -/
  | integrate (node : ν) (attemptSha : Nat) (passed : Bool) (crash : Option Stage)
  /-- `recoverIntegrationTransactions`, which may die too. -/
  | recover (passed : Bool) (crash : Option Stage)
  deriving DecidableEq

def step (cfg : Config ν τ) (w : World ν τ) : Label ν τ → Option (World ν τ)
  | .commit tree parents =>
      if known : ∀ parent ∈ parents, parent < w.graph.size then
        some { w with graph := w.graph.extend ⟨tree, parents⟩ known }
      else none
  | .startAttempt node =>
      if w.halted = false ∧ (w.nodes node).status ≠ .done then
        some (w.patch node fun state => { state with status := .running, attempt := state.attempt + 1 })
      else none
  | .transition node status =>
      if w.halted = false ∧ (w.nodes node).status ≠ .done ∧ status ≠ .done then
        some (w.patch node fun state => { state with status })
      else none
  | .integrate node attemptSha passed crash =>
      if w.halted = false ∧ attemptSha < w.graph.size then
        some (integrateAttempt cfg (settleCallbacks cfg node) crash passed w node (w.nodes node).attempt attemptSha)
      else none
  | .recover passed crash =>
      some (recoverIntegrations cfg (recoveryCallbacks cfg) crash passed { w with halted := false })

/-- The integrations of one run, one after the other, with the crashes between them. -/
def machine (cfg : Config ν τ) : Machine (World ν τ) (Label ν τ) := ⟨step cfg⟩

/-- A run that starts: nothing is journaled and the run ref names a commit. -/
structure Initial (initial : Nat) (w : World ν τ) : Prop where
  known : w.runRef < w.graph.size
  runRef : w.runRef = initial
  journal : w.journal = []
  doneEvents : w.doneEvents = []
  history : w.history = []
  running : w.halted = false

end Transactions

end Faberun.Integration
