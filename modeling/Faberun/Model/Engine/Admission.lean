import Faberun.Model.Contract.Status
import Faberun.Model.Engine.Capacity
import Faberun.Model.Engine.SettlementOverlap

/-! # The scheduler's slots

The embedding of what moves jobs in and out of `running` and `settling`: the loop of
`engine/scheduler.mjs` (closed jobs handed to the overlap, the stall handlers, the dispatch pass) and
the spawns a settlement or a stall handler makes itself (`engine/aux-admission.mjs`,
`engine/review.mjs`, `engine/settle-judge.mjs`, `engine/settle.mjs`, `engine/lifecycle.mjs`).

A tick is sequential, but everything between two of its awaits interleaves with the background
settlements. Each label is one synchronous stretch. What a settlement decides, which runtime a node
routes to, and which runtimes are on a quota hold are left to the label.
-/

namespace Faberun

/-- How far the tick is. -/
inductive Tick (ν : Type) where
  /-- Before `detectStalls`: closed jobs are handed to the overlap. -/
  | closing
  /-- In `detectStalls`. The pair is the node whose handler runs and whether it started a job. -/
  | stalls (current : Option (ν × Bool))
  /-- The ready nodes are collected and the dispatch pass has not run yet. -/
  | ready (nodes : List ν)
  deriving DecidableEq, Repr

/-- The jobs a settlement or a stall handler starts through `startJudge` or
`startResultMaterialization`. None is admitted in the synchronous stretch that starts it. -/
inductive AuxSpawn where
  /-- `auxJudgeRound`: admitted before the proofs of `startJudge` are awaited. -/
  | firstJudge
  /-- The bounded re-ask of `review.mjs`: admitted before `startJudge` is awaited. -/
  | reask
  /-- The judge-provider-failure retry of `settleJudgeRound`: not admitted. -/
  | judgeRetry
  /-- `startResultMaterialization`: not admitted. -/
  | materialization
  /-- The pending judge the dispatch pass handed to the overlap: reserved when it was enqueued. -/
  | pendingJudge
  deriving DecidableEq, Repr

/-- Whether the code asks `auxSpawnAdmission` on the way to the spawn. -/
def AuxSpawn.admitted : AuxSpawn → Bool
  | .firstJudge | .reask => true
  | .judgeRetry | .materialization | .pendingJudge => false

/-- What the dispatch pass does with a node it takes. -/
inductive DispatchAction where
  | worker
  /-- `startWorker` settles the node without starting a process. -/
  | workerFails
  /-- The node waits for its judge: the round is handed to the overlap. -/
  | judge
  deriving DecidableEq, Repr

structure Dispatch (ν ρ : Type) where
  node : ν
  runtime : ρ
  action : DispatchAction
  deriving DecidableEq, Repr

/-- One controller: `running`, the overlap with `settling`, and the status of every node. -/
structure Scheduler (ν ρ ε : Type) where
  running : JobMap ν ρ
  overlap : Overlap ν ρ ε
  status : ν → NodeStatus
  tick : Tick ν
  /-- The settlements in flight that started their one job already. -/
  spawned : Finset ν
  /-- The nodes whose `auxSpawnAdmission` succeeded and whose spawn has not happened yet. -/
  cleared : Finset ν
  /-- History: the nodes of the processes alive, one entry a process. -/
  live : List ν

namespace Scheduler

variable {ν ρ ε : Type} [DecidableEq ν] [DecidableEq ρ]

/-- A controller that starts its loop on the given statuses. -/
def create (status : ν → NodeStatus) : Scheduler ν ρ ε where
  running := ∅
  overlap := .create
  status := status
  tick := .closing
  spawned := ∅
  cleared := ∅
  live := []

/-- `startProcess`, the transition to `running`, and `running.set`. -/
def spawn (s : Scheduler ν ρ ε) (node : ν) (runtime : ρ) : Scheduler ν ρ ε :=
  { s with
    running := s.running.insert node runtime
    status := Function.update s.status node .running
    live := s.live ++ [node] }

/-- The node's settlement runs a section, or its stall handler runs, and neither started a job yet. -/
def acting (s : Scheduler ν ρ ε) (node : ν) : Bool :=
  (match s.overlap.points node with
    | .inside _ => decide (node ∉ s.spawned)
    | _ => false) || match s.tick with
    | .stalls (some (current, false)) => decide (current = node)
    | _ => false

/-- Note that the node's settlement or stall handler started its job. -/
def spend (s : Scheduler ν ρ ε) (node : ν) : Scheduler ν ρ ε :=
  if s.tick = .stalls (some (node, false)) then { s with tick := .stalls (some (node, true)) }
  else { s with spawned := insert node s.spawned }

/-- What the dispatch pass does with one node it took. -/
def dispatchOne (s : Scheduler ν ρ ε) (dispatch : Dispatch ν ρ) : Scheduler ν ρ ε :=
  match dispatch.action with
  | .worker => s.spawn dispatch.node dispatch.runtime
  | .workerFails => { s with status := Function.update s.status dispatch.node .failed }
  | .judge => { s with overlap := s.overlap.enqueue dispatch.node dispatch.runtime }

/-- The loop of the dispatch pass over the nodes outside a backoff window, with `dispatched` so far. -/
def dispatchLoop (limits : Limits ρ) (held : List ρ) (s : Scheduler ν ρ ε) (pass : AdmissionPass ρ)
    (dispatched : Nat) : List (Dispatch ν ρ) → Scheduler ν ρ ε
  | [] => s
  | dispatch :: rest =>
      if pass.slots ≤ dispatched then s
      else
        match pass.take limits held dispatch.runtime with
        | none => dispatchLoop limits held s pass dispatched rest
        | some reserved => dispatchLoop limits held (s.dispatchOne dispatch) reserved (dispatched + 1) rest

inductive Label (ν ρ ε : Type) where
  /-- The process of the node's job exits. -/
  | exit (node : ν)
  /-- The job is closed and its process gone: its slot moves to `settling`. -/
  | close (node : ν)
  | beginStalls
  /-- A job is killed on its clock and leaves `running`; its handler starts. -/
  | stall (node : ν)
  | endStall
  /-- The nodes the tick finds ready. -/
  | collect (nodes : List ν)
  | dispatch (held : List ρ) (plan : List (Dispatch ν ρ))
  /-- A settlement goes on; `enqueue` is the scheduler's own. -/
  | settlement (label : Overlap.Label ν ρ ε)
  /-- A status decided by the node's settlement, its stall handler or a pass of the tick. -/
  | transition (node : ν) (status : NodeStatus)
  | auxAdmission (node : ν) (runtime : ρ) (held : List ρ)
  | auxSpawn (node : ν) (kind : AuxSpawn) (runtime : ρ)
  /-- `applyRejection`: admitted and started in one synchronous stretch. -/
  | revision (node : ν) (runtime : ρ) (held : List ρ)
  /-- The cancel branch, once every pending settlement is awaited. -/
  | cancel
  deriving DecidableEq

def step (limits : Limits ρ) (s : Scheduler ν ρ ε) : Label ν ρ ε → Option (Scheduler ν ρ ε)
  | .exit node => if node ∈ s.live then some { s with live := s.live.erase node } else none
  | .close node =>
      match s.running.lookup node with
      | some runtime =>
          if s.tick = .closing ∧ node ∉ s.overlap.pending ∧ node ∉ s.live then
            some { s with running := s.running.erase node, overlap := s.overlap.enqueue node runtime }
          else none
      | none => none
  | .beginStalls => if s.tick = .closing then some { s with tick := .stalls none } else none
  | .stall node =>
      if s.tick = .stalls none ∧ node ∈ s.running then
        some { s with
          running := s.running.erase node
          live := s.live.erase node
          tick := .stalls (some (node, false)) }
      else none
  | .endStall =>
      match s.tick with
      | .stalls (some _) => some { s with tick := .stalls none }
      | _ => none
  | .collect nodes =>
      if s.tick = .stalls none ∧ nodes.Nodup ∧
          ∀ node ∈ nodes, s.status node = .pending ∧ node ∉ s.overlap.pending then
        some { s with tick := .ready nodes }
      else none
  | .dispatch held plan =>
      match s.tick with
      | .ready nodes =>
          if (plan.map Dispatch.node).Nodup ∧ ∀ dispatch ∈ plan, dispatch.node ∈ nodes then
            some { s.dispatchLoop limits held (admissionPass limits s.running s.overlap.settling) 0 plan with
              tick := .closing }
          else none
      | _ => none
  | .settlement (.enqueue _ _) => none
  | .settlement .microtask =>
      match s.overlap.microtasks with
      | .retire node _ :: _ =>
          s.overlap.microtask.map fun overlap => { s with overlap, spawned := s.spawned.erase node }
      | _ => s.overlap.microtask.map fun overlap => { s with overlap }
  | .settlement label => (s.overlap.step label).map fun overlap => { s with overlap }
  | .transition node status =>
      if node ∈ s.running then none else some { s with status := Function.update s.status node status }
  | .auxAdmission node runtime held =>
      if s.acting node then
        if auxSpawnAdmission limits s.running held runtime then some { s with cleared := insert node s.cleared }
        else some { s with status := Function.update s.status node .pending }
      else none
  | .auxSpawn node kind runtime =>
      if s.acting node ∧ (kind.admitted = true → node ∈ s.cleared) then
        some { (s.spend node).spawn node runtime with cleared := s.cleared.erase node }
      else none
  | .revision node runtime held =>
      if s.acting node then
        if auxSpawnAdmission limits s.running held runtime then some ((s.spend node).spawn node runtime)
        else some { s with status := Function.update s.status node .pending }
      else none
  | .cancel =>
      if s.tick = .closing ∧ s.overlap.pending = ∅ then some { s with running := ∅, live := [] } else none

/-- Every interleaving of the ticks of one controller with its background settlements. -/
def machine (limits : Limits ρ) : Machine (Scheduler ν ρ ε) (Label ν ρ ε) := ⟨step limits⟩

/-! ## The room a settlement saw -/

/-- The runtimes of the jobs that join `running` in a step. -/
def joined (s t : Scheduler ν ρ ε) : List ρ :=
  (t.running.entries.filter fun job => decide (job.1 ∉ s.running)).map Sigma.snd

/-- The room a step shows a node: `auxSpawnAdmission` answers yes, or a job of the runtime makes way for the node's own
settlement or stall handler, or the dispatch pass reserves the judge it hands to the overlap. -/
def roomsSeen (limits : Limits ρ) (s : Scheduler ν ρ ε) (label : Label ν ρ ε) (t : Scheduler ν ρ ε) : List (ν × ρ) :=
  match label with
  | .auxAdmission node runtime held =>
      if auxSpawnAdmission limits s.running held runtime then [(node, runtime)] else []
  | .close node | .stall node => (s.running.lookup node).toList.map fun runtime => (node, runtime)
  | .dispatch _ _ =>
      (t.overlap.settling.entries.filter fun job => decide (job.1 ∉ s.overlap.settling)).map fun job => (job.1, job.2)
  | _ => []

/-- The rooms seen so far whose runtime no job has joined since. -/
def noteRooms (limits : Limits ρ) (s : Scheduler ν ρ ε) (label : Label ν ρ ε) (t : Scheduler ν ρ ε)
    (rooms : List (ν × ρ)) : List (ν × ρ) :=
  (rooms.filter fun room => decide (room.2 ∉ s.joined t)) ++ s.roomsSeen limits label t

/-- The interleavings of the controller, with the rooms seen and not disturbed. -/
def watchedMachine (limits : Limits ρ) : Machine (Scheduler ν ρ ε × List (ν × ρ)) (Label ν ρ ε) :=
  (machine limits).withHistory (noteRooms limits)

/-- A settlement or stall handler starts a job of a runtime with a ceiling only when it saw room for it and no job of the
runtime joined `running` since. -/
def RoomUndisturbed (limits : Limits ρ) (s : Scheduler ν ρ ε × List (ν × ρ)) : Label ν ρ ε → Prop
  | .auxSpawn node _ runtime => limits.maxConcurrent runtime = none ∨ (node, runtime) ∈ s.2
  | _ => True

instance (limits : Limits ρ) : DecidableRel (RoomUndisturbed (ν := ν) (ε := ε) limits) := fun s label => by
  cases label <;> simp only [RoomUndisturbed] <;> infer_instance

end Scheduler

end Faberun
