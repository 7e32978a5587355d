import Faberun.Machine.CommitGraph
import Faberun.Machine.Core
import Faberun.Machine.KeyedStore
import Faberun.Model.Contract.Status
import Faberun.Model.Engine.Retry

/-! # Canceling a run

The embedding of `engine/cancel.mjs` with the git names of `repo/worktree.mjs`. A call waits until no controller lives,
takes the lock, terminates what the node snapshots record, cancels the nodes that have not settled, and only then keeps
the integrated commits under refs of their own and releases the attempts and the run ref. Each write is a step, so a
call can end between any two of them. What controllers do before that is any sequence of the effects they have on what
a cancel reads: refs, worktrees, node snapshots and processes. Commits are named in a graph of all that are ever made.
-/

namespace Faberun.Cancel

/-! ## Names -/

def runRefName (runId : String) : String := s!"refs/faberun/{runId}/run"

def candidateRefName (runId : String) : String := s!"refs/faberun/{runId}/candidate"

def preservedRefName (runId nodeId : String) : String := s!"refs/faberun/{runId}/preserved/{nodeId}"

def branchRefName (branch : String) : String := s!"refs/heads/{branch}"

/-! ## Processes -/

/-- A process is named by its pid and its start token. -/
abbrev Process := Nat × String

/-- `InvocationProbe`. -/
structure Probe where
  pid : Option Nat
  processStartToken : Option String
  deriving DecidableEq

/-- `processes` are those that answer a signal and are neither the caller nor its parent. -/
def invocationOwned (processes : List Process) (probe : Probe) : Bool :=
  match probe.pid, probe.processStartToken with
  | some pid, some token => decide ((pid, token) ∈ processes)
  | _, _ => false

/-! ## Snapshots -/

inductive InvocationStatus where
  | active
  | closed
  | terminated
  deriving DecidableEq

structure Invocation where
  id : String
  probe : Probe
  status : InvocationStatus
  deriving DecidableEq

/-- `VerificationAttemptStatus`. -/
inductive AttemptStatus where
  | active
  | closed
  | failed
  | crashed
  | canceled
  deriving DecidableEq

structure VerificationAttempt where
  invocationId : String
  probe : Probe
  status : AttemptStatus
  deriving DecidableEq

/-- `VerificationState`. -/
structure Verification where
  passed : Bool
  completed : Bool
  error : Option String
  attempts : List VerificationAttempt
  deriving DecidableEq

structure Worktree where
  path : Option String
  branch : Option String
  deriving DecidableEq

/-- What a cancel reads and writes of a node snapshot. -/
structure NodeSnapshot where
  status : NodeStatus
  phase : NodePhase
  invocations : List Invocation
  verification : Option Verification
  worktree : Worktree
  integratedHead : Option Nat
  deriving DecidableEq

namespace NodeSnapshot

def attempts (state : NodeSnapshot) : List VerificationAttempt :=
  (state.verification.map Verification.attempts).getD []

/-- The attempts a cancel stops: those not over, or over with their process still there. -/
def stopped (processes : List Process) (state : NodeSnapshot) : List String :=
  (state.attempts.filter fun attempt =>
    decide (attempt.status = .active) || invocationOwned processes attempt.probe).map VerificationAttempt.invocationId

/-- The snapshot once its attempts are stopped. -/
def stopAttempts (processes : List Process) (state : NodeSnapshot) : NodeSnapshot :=
  let stopped := state.stopped processes
  if stopped = [] then state
  else { state with verification := state.verification.map fun verification =>
    ⟨false, true, some "verification canceled", verification.attempts.map fun attempt =>
      if attempt.invocationId ∈ stopped then { attempt with status := .canceled } else attempt⟩ }

/-- `transition` to `canceled`, of a node that has not settled. -/
def cancel (state : NodeSnapshot) : NodeSnapshot :=
  if state.status.settled then state
  else { state with
    status := .canceled
    phase := .canceled
    invocations := state.invocations.map fun invocation =>
      if invocation.status = .active then { invocation with status := .terminated } else invocation }

/-- No recorded invocation is still there. -/
def invocationsGone (processes : List Process) (state : NodeSnapshot) : Bool :=
  state.invocations.all fun invocation => !invocationOwned processes invocation.probe

/-- No recorded verification attempt is still there. -/
def attemptsGone (processes : List Process) (state : NodeSnapshot) : Bool :=
  state.attempts.all fun attempt => !invocationOwned processes attempt.probe

end NodeSnapshot

/-! ## States -/

/-- `CancelResult`. -/
structure CancelResult where
  preservedRefs : List String
  released : List String
  deriving DecidableEq

/-- Where the current call is; `todo` are the nodes a loop still has before it. -/
inductive Stage where
  | idle
  | waiting
  | terminating (todo : List String)
  | stopping (todo : List String)
  | marking (todo : List String)
  | preserving (todo : List String)
  | releasing (todo : List String)
  | unbranching (todo : List String)
  | closing
  | returned (result : CancelResult)
  | threw (message : String)
  deriving DecidableEq

structure Run where
  nodes : KeyedStore String NodeSnapshot
  refs : KeyedStore String Nat
  worktrees : List String
  processes : List Process
  /-- A controller holds the lock. -/
  controller : Bool
  stage : Stage
  failures : Nat
  /-- History: the run ref's commit when the first call started. -/
  found : Option (Option Nat)
  /-- History: the statuses when the first call took the lock. -/
  first : Option (KeyedStore String NodeStatus)
  /-- History: the statuses when the last call took the lock. -/
  before : KeyedStore String NodeStatus

/-- What a controller does to what a cancel reads. -/
inductive Effect where
  | createRunRef (head : Nat)
  | advance (sha : Nat)
  | persist (id : String) (state : NodeSnapshot)
  | checkOut (path : String)
  | removeWorktree (path : String)
  | spawn (process : Process)
  deriving DecidableEq

/-- The steps of a call; `gone` are the processes that ended in it. -/
inductive Event where
  | start
  | lock
  /-- `errors` counts the terminations that failed, and what was there at its check and ended after it. -/
  | terminate (gone : List Process) (errors : Nat)
  | stopAttempts (gone : List Process) (errors : Nat)
  | mark
  | refuse
  | confirm
  | preserve
  | removeWorktree
  /-- `deleted` is whether git took the deletion. -/
  | deleteBranch (deleted : Bool)
  | deleteRunRef (deleted : Bool)
  | throws (message : String)
  | dies
  deriving DecidableEq

inductive Label where
  | launches
  | controller (effect : Effect)
  | dies
  /-- Anyone moves or deletes a ref other than the run ref. -/
  | moves (name : String) (sha : Option Nat)
  | exits (process : Process)
  | cancel (event : Event)
  deriving DecidableEq

/-- Whether a call holds the lock, or returned from under it. -/
def Stage.locked : Stage → Bool
  | .idle | .waiting | .threw _ => false
  | _ => true

/-- Whether a call is going. -/
def Stage.going : Stage → Bool
  | .idle | .returned _ | .threw _ => false
  | _ => true

namespace Run

def statuses (s : Run) : KeyedStore String NodeStatus := s.nodes.map NodeSnapshot.status

def preservedRefs (runId : String) (s : Run) : List String :=
  s.nodes.entries.filterMap fun entry => entry.2.integratedHead.map fun _ => preservedRefName runId entry.1

/-- What a call that returns has released. -/
def released (runId : String) (s : Run) : List String :=
  (s.nodes.entries.flatMap fun entry =>
    match entry.2.worktree.branch with
    | none => []
    | some branch => branchRefName branch :: entry.2.worktree.path.toList) ++ [runRefName runId]

def unconfirmedMessage (count : Nat) : String :=
  let plural := if count = 1 then "" else "s"
  s!"cancel could not confirm termination of {count} invocation{plural}"

/-- `waitForTerminal` sees what it waits for. -/
def terminal (s : Run) : Bool :=
  s.nodes.entries.all fun entry => entry.2.status.settled && entry.2.invocationsGone s.processes

def without (gone : List Process) (s : Run) : List Process := s.processes.filter fun process => decide (process ∉ gone)

/-- The effect of a controller. -/
def effect {τ : Type} (graph : CommitGraph τ) (runId : String) (s : Run) : Effect → Option Run
  | .createRunRef head =>
    if s.refs.get? (runRefName runId) = none then some { s with refs := s.refs.set (runRefName runId) head } else none
  | .advance sha =>
    match s.refs.get? (runRefName runId) with
    | none => none
    | some tip => if graph.isAncestor tip sha then some { s with refs := s.refs.set (runRefName runId) sha } else none
  | .persist id state => some { s with nodes := s.nodes.set id state }
  | .checkOut path => some { s with worktrees := s.worktrees ++ [path] }
  | .removeWorktree path => some { s with worktrees := s.worktrees.filter fun other => decide (other ≠ path) }
  | .spawn process => some { s with processes := s.processes ++ [process] }

/-- A call starts; the first one finds the run ref where it is. -/
def start (runId : String) (s : Run) : Run :=
  { s with stage := .waiting, found := s.found.or (some (s.refs.get? (runRefName runId))) }

/-- The lock is taken and the snapshots are read. -/
def lock (s : Run) : Run :=
  { s with stage := .terminating s.nodes.keys, failures := 0, before := s.statuses, first := s.first.or (some s.statuses) }

def terminate (s : Run) (state : NodeSnapshot) (todo : List String) (gone : List Process) (errors : Nat) : Run :=
  { s with
    processes := s.without gone
    failures := s.failures + errors +
      (state.invocations.filter fun invocation => invocationOwned (s.without gone) invocation.probe).length
    stage := .stopping todo }

def stopAttempts (s : Run) (id : String) (state : NodeSnapshot) (todo : List String) (gone : List Process)
    (errors : Nat) : Run :=
  { s with
    nodes := s.nodes.set id (state.stopAttempts s.processes)
    processes := s.without gone
    failures := s.failures + errors +
      (state.attempts.filter fun attempt => invocationOwned (s.without gone) attempt.probe).length
    stage := .marking todo }

/-- A node is canceled unless some termination failed so far. -/
def mark (s : Run) (id : String) (state : NodeSnapshot) (todo : List String) : Run :=
  { s with
    nodes := if s.failures = 0 then s.nodes.set id state.cancel else s.nodes
    stage := .terminating todo }

/-- `createPreservedRef`, for a node that was integrated. -/
def preserve (runId : String) (s : Run) (id : String) (state : NodeSnapshot) (todo : List String) : Run :=
  match state.integratedHead with
  | none => { s with stage := .preserving todo }
  | some head => { s with refs := s.refs.set (preservedRefName runId id) head, stage := .preserving todo }

/-- The worktree of a node that has a branch. -/
def removeWorktree (s : Run) (id : String) (state : NodeSnapshot) (todo : List String) : Run :=
  match state.worktree.branch with
  | none => { s with stage := .releasing todo }
  | some _ =>
    { s with
      worktrees := s.worktrees.filter fun path => decide (some path ≠ state.worktree.path)
      stage := .unbranching (id :: todo) }

/-- `deleteRef`, which git may refuse. -/
def deleteRef (s : Run) (name : String) (deleted : Bool) (stage : Stage) : Run :=
  { s with refs := if deleted then s.refs.erase name else s.refs, stage }

/-- One step of a call. -/
def cancel (runId : String) (s : Run) : Event → Option Run
  | .start => if s.stage.going then none else some (s.start runId)
  | .lock => if s.stage = .waiting ∧ s.controller = false then some s.lock else none
  | .terminate gone errors =>
    match s.stage with
    | .terminating (id :: todo) => (s.nodes.get? id).map fun state => s.terminate state (id :: todo) gone errors
    | _ => none
  | .stopAttempts gone errors =>
    match s.stage with
    | .stopping (id :: todo) => (s.nodes.get? id).map fun state => s.stopAttempts id state (id :: todo) gone errors
    | _ => none
  | .mark =>
    match s.stage with
    | .marking (id :: todo) => (s.nodes.get? id).map fun state => s.mark id state todo
    | _ => none
  | .refuse =>
    if s.stage = .terminating [] ∧ s.failures ≠ 0 then
      some { s with stage := .threw (unconfirmedMessage s.failures) }
    else none
  | .confirm =>
    if s.stage = .terminating [] ∧ s.failures = 0 ∧ s.terminal then some { s with stage := .preserving s.nodes.keys }
    else none
  | .preserve =>
    match s.stage with
    | .preserving [] => some { s with stage := .releasing s.nodes.keys }
    | .preserving (id :: todo) => (s.nodes.get? id).map fun state => s.preserve runId id state todo
    | _ => none
  | .removeWorktree =>
    match s.stage with
    | .releasing [] => some { s with stage := .closing }
    | .releasing (id :: todo) => (s.nodes.get? id).map fun state => s.removeWorktree id state todo
    | _ => none
  | .deleteBranch deleted =>
    match s.stage with
    | .unbranching (id :: todo) =>
      (s.nodes.get? id).bind fun state => state.worktree.branch.map fun branch =>
        s.deleteRef (branchRefName branch) deleted (.releasing todo)
    | _ => none
  | .deleteRunRef deleted =>
    match s.stage with
    | .closing => some (s.deleteRef (runRefName runId) deleted (.returned ⟨s.preservedRefs runId, s.released runId⟩))
    | _ => none
  | .throws message => if s.stage.going then some { s with stage := .threw message } else none
  | .dies => if s.stage.going then some { s with stage := .idle } else none

def step {τ : Type} (graph : CommitGraph τ) (runId : String) (s : Run) : Label → Option Run
  | .launches => if s.found = none then some { s with controller := true } else none
  | .controller effect => if s.controller then s.effect graph runId effect else none
  | .dies => some { s with controller := false }
  | .moves name sha =>
    if name ≠ runRefName runId ∧ (s.controller ∨ s.found = none) then
      some { s with refs := sha.elim (s.refs.erase name) (s.refs.set name) }
    else none
  | .exits process => some { s with processes := s.without [process] }
  | .cancel event => s.cancel runId event

end Run

def machine {τ : Type} (graph : CommitGraph τ) (runId : String) : Machine Run Label := ⟨Run.step graph runId⟩

/-- Before the launch: a repository with its refs. -/
def Initial (runId : String) (s : Run) : Prop :=
  s.nodes = .empty ∧ s.refs.get? (runRefName runId) = none ∧ s.controller = false ∧ s.stage = .idle ∧ s.found = none ∧
    s.first = none

/-! ## What a cancel owes -/

/-- Every commit of the run ref the first call found is still reachable from a ref. -/
def Reachable {τ : Type} (graph : CommitGraph τ) (s : Run) : Prop :=
  ∀ tip, s.found = some (some tip) → ∀ sha, graph.Ancestor sha tip →
    ∃ name kept, s.refs.get? name = some kept ∧ graph.Ancestor sha kept

/-- A node that had settled has its status. -/
def Unchanged (old : KeyedStore String NodeStatus) (s : Run) : Prop :=
  ∀ id status, old.get? id = some status → status.settled = true → s.statuses.get? id = some status

/-- Every node that had not settled is canceled. -/
def Canceled (old : KeyedStore String NodeStatus) (s : Run) : Prop :=
  ∀ id status, s.statuses.get? id = some status → (∃ was, old.get? id = some was ∧ was.settled = true) ∨ status = .canceled

/-- A worktree, a branch or another ref goes. -/
def Removes (s t : Run) : Prop :=
  (∃ name sha, s.refs.get? name = some sha ∧ t.refs.get? name = none) ∨ ∃ path ∈ s.worktrees, path ∉ t.worktrees

/-- Every recorded process is confirmed to have ended. -/
def Confirmed (s : Run) : Prop :=
  s.failures = 0 ∧ ∀ id state, s.nodes.get? id = some state →
    state.invocationsGone s.processes = true ∧ state.attemptsGone s.processes = true

/-- A ref a cancel leaves where it is. -/
def Run.keeps (runId : String) (s : Run) (ref : String × Nat) : Bool :=
  decide (ref.1 ≠ runRefName runId) && s.nodes.entries.all fun entry =>
    entry.2.worktree.branch.all (fun branch => decide (ref.1 ≠ branchRefName branch)) &&
      entry.2.integratedHead.all fun head => decide (ref.1 ≠ preservedRefName runId entry.1) || decide (ref.2 = head)

/-- The commit the run ref is at is in the history of a recorded `integratedHead` or of a ref a cancel leaves. -/
def Covered {τ : Type} (graph : CommitGraph τ) (runId : String) (s : Run) : Prop :=
  ∀ tip ∈ s.refs.get? (runRefName runId),
    (∃ entry ∈ s.nodes.entries, ∃ head ∈ entry.2.integratedHead, graph.Ancestor tip head) ∨
      ∃ ref ∈ s.refs.entries, s.keeps runId ref = true ∧ graph.Ancestor tip ref.2

instance {τ : Type} (graph : CommitGraph τ) (runId : String) (s : Run) : Decidable (Covered graph runId s) :=
  inferInstanceAs (Decidable (∀ tip ∈ s.refs.get? (runRefName runId), _ ∨ _))

/-- Every call that takes the lock finds the run ref covered. -/
def TipCovered {τ : Type} (graph : CommitGraph τ) (runId : String) (s : Run) (label : Label) : Prop :=
  label = .cancel .lock → Covered graph runId s

instance {τ : Type} (graph : CommitGraph τ) (runId : String) : DecidableRel (TipCovered graph runId) := fun s label =>
  inferInstanceAs (Decidable (label = .cancel .lock → Covered graph runId s))

end Faberun.Cancel
