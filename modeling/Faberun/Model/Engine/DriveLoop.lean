import Mathlib.Algebra.GroupWithZero.Nat
import Mathlib.Data.Finset.SDiff
import Mathlib.Data.Finset.Union
import Faberun.Machine.Core
import Faberun.Model.Engine.Admission
import Faberun.Model.Engine.Retry

/-! # The control loop

The loop of `driveRun` of `engine/scheduler.mjs` over the node snapshots, and the resumes between two
controllers. A label is what runs between two awaits: the passes of a tick, and whatever a background
settlement does in the meantime. What a settlement decides, which of the ready nodes find a free slot and
when a backoff window ends are left to the label; capacity is the subject of the scheduler's slots.

`idle` counts the ticks in a row that ended without anything to wait for: nothing the code computes reads
it.
-/

namespace Faberun

/-- How far the controller is. -/
inductive LoopPoint (ν : Type) where
  /-- No controller is alive. -/
  | off
  | top
  /-- In `detectStalls`. -/
  | stalls
  /-- The passes ran and the ready nodes are collected. -/
  | ready (nodes : List ν)
  | notify
  /-- In the delay between two ticks. -/
  | ended
  deriving DecidableEq, Repr

/-- Between the passes of a tick and its end. -/
def LoopPoint.swept {ν : Type} : LoopPoint ν → Bool
  | .ready _ | .notify => true
  | _ => false

structure DriveLoop (ν : Type) where
  states : ν → RunNode ν
  /-- `autoRetries` of `run.json`. -/
  autoRetried : ν → Bool
  running : Finset ν
  /-- `pendingSettlements`. -/
  settling : Finset ν
  parkedBefore : ν → Bool
  point : LoopPoint ν
  /-- History. -/
  idle : Nat

namespace DriveLoop

variable {ν κ : Type} [DecidableEq ν]

inductive Label (ν : Type) where
  /-- A run that starts, or a resume. `recovered` is what recovery makes of a node before the plan
  (`recoverIntegrationTransactions`) and after it, `tier` what the clock says. -/
  | resume (options : ResumeOptions ν) (settled recovered : ν → Option (RunNode ν)) (tier : ν → TierWait)
  | die
  /-- A background settlement decides its own node, which is not settled yet. -/
  | settle (node : ν) (state : RunNode ν)
  /-- It starts a job for it. -/
  | spawn (node : ν)
  | finish (node : ν)
  /-- A backoff window ends. -/
  | wake (node : ν)
  | cancel
  /-- The closed jobs are handed to the overlap. -/
  | close (nodes : Finset ν)
  /-- The handler of a stalled job decides its node, and may start another job. -/
  | stall (node : ν) (state : RunNode ν) (respawn : Bool)
  | sweep
  | dispatch (actions : List (ν × DispatchAction))
  | notify
  | tick

def unsettled (contract : Contract ν κ) (s : DriveLoop ν) : Prop :=
  ∃ node ∈ contract.nodes, (s.states node.id).status.settled = false

def dependenciesDone (s : DriveLoop ν) (node : ContractNode ν κ) : Prop :=
  ∀ id ∈ node.dependsOn, (s.states id).status = .done

instance (contract : Contract ν κ) (s : DriveLoop ν) : Decidable (s.unsettled contract) :=
  inferInstanceAs (Decidable (∃ node ∈ contract.nodes, (s.states node.id).status.settled = false))

instance (s : DriveLoop ν) (node : ContractNode ν κ) : Decidable (s.dependenciesDone node) :=
  inferInstanceAs (Decidable (∀ id ∈ node.dependsOn, (s.states id).status = .done))

/-! ## What a tick leaves -/

/-- A node is running, settling, in a backoff window, or ready. -/
def Attended (contract : Contract ν κ) (s : DriveLoop ν) : Prop :=
  s.running.Nonempty ∨ s.settling.Nonempty ∨ ∃ node ∈ contract.nodes, (s.states node.id).status = .pending ∧
    ((s.states node.id).backoff = true ∨ s.dependenciesDone node)

/-- A node waits behind a dependency that was canceled, or that had nothing to do. -/
def Held (contract : Contract ν κ) (s : DriveLoop ν) : Prop :=
  ∃ node ∈ contract.nodes, (s.states node.id).status = .pending ∧
    ∃ id ∈ node.dependsOn, (s.states id).status = .canceled ∨ (s.states id).status = .noOp

/-- Nothing is attended, and nothing is held. -/
def Idle (contract : Contract ν κ) (s : DriveLoop ν) : Prop :=
  s.unsettled contract ∧ ¬ s.Attended contract ∧ ¬ s.Held contract

instance (contract : Contract ν κ) (s : DriveLoop ν) : Decidable (s.Attended contract) :=
  inferInstanceAs (Decidable (s.running.Nonempty ∨ s.settling.Nonempty ∨ ∃ node ∈ contract.nodes,
    (s.states node.id).status = .pending ∧ ((s.states node.id).backoff = true ∨ s.dependenciesDone node)))

instance (contract : Contract ν κ) (s : DriveLoop ν) : Decidable (s.Held contract) :=
  inferInstanceAs (Decidable (∃ node ∈ contract.nodes, (s.states node.id).status = .pending ∧
    ∃ id ∈ node.dependsOn, (s.states id).status = .canceled ∨ (s.states id).status = .noOp))

instance (contract : Contract ν κ) (s : DriveLoop ν) : Decidable (s.Idle contract) :=
  inferInstanceAs (Decidable (s.unsettled contract ∧ ¬ s.Attended contract ∧ ¬ s.Held contract))

/-! ## Steps -/

/-- The controller is gone; the snapshots stay. -/
def leave (s : DriveLoop ν) : DriveLoop ν :=
  { s with running := ∅, settling := ∅, point := .off, idle := 0 }

def put (s : DriveLoop ν) (id : ν) (state : RunNode ν) : DriveLoop ν :=
  { s with states := Function.update s.states id state }

/-- `resumeRun` up to the loop. -/
def resume (contract : Contract ν κ) (s : DriveLoop ν) (options : ResumeOptions ν)
    (settled recovered : ν → Option (RunNode ν)) (tier : ν → TierWait) : Option (DriveLoop ν) :=
  let onDisk : ν → RunNode ν := fun id => (settled id).getD (s.states id)
  let answered : Option (ν → RunNode ν) :=
    match options.answer with
    | none => some onDisk
    | some id =>
        (contract.nodes.find? fun node => decide (node.id = id)).bind fun node =>
          (answerNode node (onDisk id)).map (Function.update onDisk id)
  answered.map fun states =>
    let plan := planResumeRetry contract states options tier
    let next : DriveLoop ν := { s with
      states := fun id => resumeNode options (plan id) (recovered id) id (states id)
      running := ∅
      settling := ∅
      idle := 0 }
    { next with
      parkedBefore := fun id => (next.states id).status.parked
      point := if next.unsettled contract then .top else .off }

/-- `autoRetryParkedNodes`. -/
def autoRetryParkedNodes (s : DriveLoop ν) : DriveLoop ν :=
  { s with
    states := fun id => (autoRetryParked (s.parkedBefore id) (s.autoRetried id) (s.states id)).1
    autoRetried := fun id => (autoRetryParked (s.parkedBefore id) (s.autoRetried id) (s.states id)).2 }

/-- `enforceRunningInvariant`. -/
def enforceRunningInvariant (s : DriveLoop ν) : DriveLoop ν :=
  { s with states := fun id => enforceRunning (decide (id ∈ s.running ∨ id ∈ s.settling)) (s.states id) }

/-- The ready nodes. -/
def readyNodes (contract : Contract ν κ) (s : DriveLoop ν) : List (ContractNode ν κ) :=
  contract.nodes.filter fun node =>
    decide ((s.states node.id).status = .pending ∧ node.id ∉ s.settling ∧ s.dependenciesDone node)

/-- A ready human step stops. -/
def stopHumanStep (s : DriveLoop ν) (node : ContractNode ν κ) : DriveLoop ν :=
  match node.humanStep with
  | none => s
  | some humanStep => s.put node.id { s.states node.id with
      status := .blocked
      phase := .complete
      error := some ⟨humanStepErrorCode, humanStepAttentionMessage humanStep⟩ }

/-- The passes before the dispatch. -/
def swept [ToString ν] (contract : Contract ν κ) (s : DriveLoop ν) : DriveLoop ν :=
  let retried := s.enforceRunningInvariant.autoRetryParkedNodes
  { retried with states := blockDependents contract retried.states }

def sweep [ToString ν] (contract : Contract ν κ) (s : DriveLoop ν) : DriveLoop ν :=
  let ready := (s.swept contract).readyNodes contract
  let stopped := ready.foldl stopHumanStep (s.swept contract)
  { stopped with point := .ready ((ready.filter fun node => node.humanStep.isNone).map ContractNode.id) }

/-- The dispatch pass takes one node. -/
def dispatchNode (s : DriveLoop ν) (id : ν) : DispatchAction → DriveLoop ν
  | .worker => { s.put id { s.states id with status := .running, phase := .worker, result := false } with
      running := insert id s.running }
  | .workerFails => s.put id { s.states id with status := .failed, phase := .worker }
  | .judge => { s with settling := insert id s.settling }

/-- A ready node outside its backoff window, taken as its phase says. -/
def dispatchable (s : DriveLoop ν) (nodes : List ν) (id : ν) (action : DispatchAction) : Prop :=
  id ∈ nodes ∧ (s.states id).backoff = false ∧
    (action = .judge ↔ (s.states id).phase = .judge ∧ (s.states id).result = true)

instance (s : DriveLoop ν) (nodes : List ν) (id : ν) (action : DispatchAction) :
    Decidable (s.dispatchable nodes id action) :=
  inferInstanceAs (Decidable (_ ∧ _ ∧ (_ ↔ _ ∧ _)))

def step [ToString ν] (contract : Contract ν κ) (s : DriveLoop ν) : Label ν → Option (DriveLoop ν)
  | .resume options settled recovered tier =>
      if s.point = .off then s.resume contract options settled recovered tier else none
  | .die => some s.leave
  | .settle id state =>
      if id ∈ s.settling ∧ (s.states id).status.settled = false then some (s.put id state) else none
  | .spawn id =>
      if id ∈ s.settling ∧ (s.states id).status.settled = false then
        some { s.put id { s.states id with status := .running } with running := insert id s.running }
      else none
  | .finish id => if id ∈ s.settling then some { s with settling := s.settling.erase id } else none
  | .wake id => some (s.put id { s.states id with backoff := false })
  | .cancel =>
      if s.point = .top ∧ s.settling = ∅ then
        some { s with states := fun id =>
          if (s.states id).status.settled then s.states id
          else { s.states id with status := .canceled, phase := .canceled } }.leave
      else none
  | .close nodes =>
      if s.point = .top ∧ nodes ⊆ s.running \ s.settling then
        some { s with running := s.running \ nodes, settling := s.settling ∪ nodes, point := .stalls }
      else none
  | .stall id state respawn =>
      if s.point = .stalls ∧ id ∈ s.running ∧ (s.states id).status.settled = false then
        if respawn then some (s.put id { s.states id with status := .running })
        else some { s.put id state with running := s.running.erase id }
      else none
  | .sweep => if s.point = .stalls then some (s.sweep contract) else none
  | .dispatch actions =>
      match s.point with
      | .ready nodes =>
          if (actions.map Prod.fst).Nodup ∧ ∀ action ∈ actions, s.dispatchable nodes action.1 action.2 then
            some { actions.foldl (fun s action => s.dispatchNode action.1 action.2) s with point := .notify }
          else none
      | _ => none
  | .notify =>
      if s.point = .notify then
        let last := s.autoRetryParkedNodes
        if last.unsettled contract then
          some { last with point := .ended, idle := if last.Idle contract then s.idle + 1 else 0 }
        else some last.leave
      else none
  | .tick => if s.point = .ended then some { s with point := .top } else none

def machine [ToString ν] (contract : Contract ν κ) : Machine (DriveLoop ν) (Label ν) := ⟨step contract⟩

/-- Nothing is running. The snapshots are any a run may leave on disk. -/
structure Initial (s : DriveLoop ν) : Prop where
  point : s.point = .off
  running : s.running = ∅
  settling : s.settling = ∅
  idle : s.idle = 0

end DriveLoop

end Faberun
