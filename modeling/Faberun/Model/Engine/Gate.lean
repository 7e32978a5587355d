import Mathlib.Logic.Function.Basic
import Faberun.Machine.Countdown
import Faberun.Model.Run.Operations

/-! # The provider gate

`engine/gate.mjs` stands in the provider's place until the controller writes the release file. Here it runs beside the
controllers of one node: `startProcess` and `signalGate` of `engine/process.mjs`, the callbacks of `engine/dispatch.mjs`
that persist an invocation and its intent, and the resume of a node by the controller after. Every file system access of
a gate and every write of a controller is a step of its own; a controller can die between any two. A gate dies with its
process group, and a node has one controller at a time.
-/

namespace Faberun.Gate

/-! ## A gate process -/

inductive Stage where
  /-- The timer runs. -/
  | polling
  /-- In a tick, after `parentAlive`. -/
  | sawParent
  /-- In a tick, after `releaseDirectoryGone`. -/
  | sawDirectory
  /-- In a tick that found the release file: the timer is cleared. -/
  | opening
  /-- The provider runs. -/
  | holding
  /-- The provider closed. -/
  | finished
  /-- The timer is cleared and no provider was started. -/
  | drained
  | exited
  deriving DecidableEq, Repr

structure Process where
  stage : Stage
  /-- How many providers it spawned. -/
  started : Nat
  /-- `stopProvider` ran: the `SIGKILL` of the group is due. -/
  killing : Bool
  /-- The watchdog is set. -/
  watched : Bool
  deriving DecidableEq, Repr

/-- What a gate does and what happens to it. -/
inductive Act where
  | askParent
  | askDirectory
  | askRelease
  /-- The log files are opened, or one of them stands already and the gate throws. -/
  | start (opened : Bool)
  /-- The watchdog fires. -/
  | watch
  /-- The timer of `stopProvider` fires. -/
  | killGroup
  | providerCloses
  | leave
  /-- `SIGTERM` or `SIGINT` arrives. -/
  | terminated
  /-- Somebody kills the process group. -/
  | groupKilled
  deriving DecidableEq, Repr

namespace Process

/-- The provider runs. -/
def live (p : Process) : Bool := decide (p.stage = .holding)

/-- `stopProvider`. -/
def stopProvider (p : Process) : Process := { p with killing := true }

/-- The timer cleared and the provider stopped. -/
def drain (p : Process) : Process := { p.stopProvider with stage := .drained }

/-- A step of the gate, by what it reads. -/
def step (parentAlive directory release : Bool) (p : Process) : Act → Option Process
  | .askParent =>
      if p.stage = .polling then some (if parentAlive then { p with stage := .sawParent } else p.drain) else none
  | .askDirectory =>
      if p.stage = .sawParent then some (if directory then { p with stage := .sawDirectory } else p.drain) else none
  | .askRelease =>
      if p.stage = .sawDirectory then some { p with stage := if release then .opening else .polling } else none
  | .start opened =>
      if p.stage = .opening then
        some (if opened then { p with stage := .holding, started := p.started + 1, watched := true }
          else { p with stage := .exited })
      else none
  | .watch =>
      if p.stage = .holding ∧ p.watched = true then
        some (if parentAlive && directory then p else { p.stopProvider with watched := false })
      else none
  | .killGroup => if p.killing = true ∧ p.stage ≠ .exited then some { p with stage := .exited } else none
  | .providerCloses => if p.stage = .holding then some { p with stage := .finished, watched := false } else none
  | .leave => if p.stage = .finished ∨ p.stage = .drained then some { p with stage := .exited } else none
  | .terminated => if p.stage = .exited then none else some p.stopProvider
  | .groupKilled => if p.stage = .exited then none else some { p with stage := .exited }

end Process

/-! ## A launch -/

/-- What one `startProcess` leaves: a gate, its release file and the records of its invocation. -/
structure Launch where
  /-- The controller that spawned it. -/
  parent : Nat
  /-- `processStartToken` could be read of the gate. -/
  token : Bool
  gate : Process
  /-- The release file exists. -/
  release : Bool
  /-- `hasOperationIntent`. -/
  intent : Bool
  /-- The invocation's record is closed. -/
  closed : Bool
  /-- The status of the operation's settlement. -/
  settlement : Option String
  deriving DecidableEq, Repr

namespace Launch

def spawned (parent : Nat) (token : Bool) : Launch :=
  ⟨parent, token, ⟨.polling, 0, false, false⟩, false, false, false, none⟩

/-- No process. -/
def absent : Launch := ⟨0, false, ⟨.exited, 0, false, false⟩, false, false, false, none⟩

/-- `invocationOwned` of the controller that recovers it: only a recorded token is a proof. -/
def owned (l : Launch) : Bool := decide (l.gate.stage ≠ .exited) && l.token

def operationNeedsRecovery (l : Launch) : Bool :=
  l.settlement.all fun status => Operations.unresolvedOperationStatuses.contains status

/-- The status `settleInvocation` leaves. -/
def settle (l : Launch) (status : String) : Launch :=
  { l with settlement := some (Operations.settledStatus (some status) l.settlement) }

/-- A settlement only where an intent has none. -/
def settleUnresolved (l : Launch) (status : String) : Launch :=
  if l.intent && l.operationNeedsRecovery then l.settle status else l

end Launch

/-! ## A node and its controllers -/

/-- `settled` stands for every status that neither waits nor runs. -/
inductive NodeStatus where
  | pending
  | running
  | settled
  deriving DecidableEq, Repr

/-- What the controller does for the node. -/
inductive Phase where
  /-- `resumeRun` has not come to the node. -/
  | resuming
  | idle
  | spawned (id : Nat)
  | persisted (id : Nat)
  | intended (id : Nat)
  | released (id : Nat)
  /-- `running` holds its job. -/
  | watching (id : Nat)
  /-- `signalGate` created the file and threw. -/
  | torn (id : Nat)
  /-- `startProcess` or what follows it threw. -/
  | thrown (id : Nat)
  deriving DecidableEq, Repr

structure Node where
  /-- The controllers so far. -/
  generation : Nat
  /-- What the living controller does. -/
  phase : Option Phase
  status : NodeStatus
  launches : Nat → Launch
  count : Nat
  /-- `state.invocations`. -/
  invocations : List Nat
  /-- The directory of the release files exists. -/
  directory : Bool

inductive Label where
  /-- `startProcess` spawns a gate. -/
  | spawn (token : Bool)
  /-- `persistInvocation`. -/
  | persist
  /-- `persistInvocationIntent`. -/
  | intend
  /-- `signalGate`. -/
  | release
  /-- The node's transition to running. -/
  | run
  /-- `signalGate` throws after it created the file. -/
  | tear
  /-- `startProcess` throws: `cleanupGate`. -/
  | clean
  /-- The transition to running throws. -/
  | lose
  /-- The catch of the dispatch, which settles the operation unless the turn only materialized a result. -/
  | fail (settles : Bool)
  /-- The job is closed and its invocation not alive: it is settled, and the node goes on. -/
  | close (status : String) (next : NodeStatus)
  | die
  /-- A controller resumes the run. -/
  | resume
  /-- `recoverOrphan` classifies the operation. -/
  | classify
  /-- The resume is done with the node. -/
  | recover (status : String) (next : NodeStatus)
  | act (id : Nat) (act : Act)
  /-- The directory is removed. -/
  | remove
  deriving DecidableEq, Repr

namespace Node

/-- A node before its first dispatch. -/
def created : Node := ⟨1, some .idle, .pending, fun _ => .absent, 0, [], true⟩

/-- `parentAlive` of a gate. -/
def parentAlive (n : Node) (id : Nat) : Bool := n.phase.isSome && decide ((n.launches id).parent = n.generation)

def set (n : Node) (id : Nat) (l : Launch) : Node := { n with launches := Function.update n.launches id l }

def go (n : Node) (phase : Phase) : Node := { n with phase := some phase }

/-- The invocation a resume has to recover: the last of a node that runs, or the last of one that waits while its record
is active. -/
def orphan (n : Node) : Option Nat :=
  match n.status with
  | .settled => none
  | .running => n.invocations.getLast?
  | .pending => n.invocations.getLast?.filter fun id => !(n.launches id).closed

def spawn (n : Node) (token : Bool) : Node :=
  { (n.set n.count (.spawned n.generation token)).go (.spawned n.count) with count := n.count + 1 }

/-- `closePersistedInvocation` and `settleInvocation`. -/
def closeInvocation (n : Node) (id : Nat) (status : String) : Node :=
  n.set id { (n.launches id).settle status with closed := true }

def recover (n : Node) (status : String) (next : NodeStatus) : Option Node :=
  match n.orphan with
  | none => some { n.go .idle with status := next }
  | some id =>
    if (n.launches id).owned then none
    else some { (n.closeInvocation id status).go .idle with status := next }

end Node

def step (n : Node) : Label → Option Node
  | .spawn token => if n.phase = some .idle ∧ n.status ≠ .settled then some (n.spawn token) else none
  | .persist =>
      match n.phase with
      | some (.spawned id) => some { n.go (.persisted id) with invocations := n.invocations ++ [id] }
      | _ => none
  | .intend =>
      match n.phase with
      | some (.persisted id) => some ((n.set id { n.launches id with intent := true }).go (.intended id))
      | _ => none
  | .release =>
      match n.phase with
      | some (.intended id) => some ((n.set id { n.launches id with release := true }).go (.released id))
      | _ => none
  | .run =>
      match n.phase with
      | some (.released id) => some { n.go (.watching id) with status := .running }
      | _ => none
  | .tear =>
      match n.phase with
      | some (.intended id) => some ((n.set id { n.launches id with release := true }).go (.torn id))
      | _ => none
  | .clean =>
      match n.phase with
      | some (.spawned id) | some (.persisted id) | some (.intended id) | some (.torn id) =>
          some ((n.set id { n.launches id with release := false }).go (.thrown id))
      | _ => none
  | .lose =>
      match n.phase with
      | some (.released id) => some (n.go (.thrown id))
      | _ => none
  | .fail settles =>
      match n.phase with
      | some (.thrown id) =>
          let launch := n.launches id
          some { (n.set id (if settles then launch.settleUnresolved "failed" else launch)).go .idle with
            status := .settled }
      | _ => none
  | .close status next =>
      match n.phase with
      | some (.watching id) =>
          if (n.launches id).gate.stage = .exited then
            some { (n.closeInvocation id status).go .idle with status := next }
          else none
      | _ => none
  | .die => if n.phase.isSome then some { n with phase := none } else none
  | .resume =>
      if n.phase.isSome then none else some { n.go .resuming with generation := n.generation + 1 }
  | .classify =>
      if n.phase = some .resuming then
        n.orphan.map fun id => n.set id ((n.launches id).settleUnresolved "unknown_effect")
      else none
  | .recover status next => if n.phase = some .resuming then n.recover status next else none
  | .act id act =>
      ((n.launches id).gate.step (n.parentAlive id) n.directory (n.launches id).release act).map fun gate =>
        n.set id { n.launches id with gate := gate }
  | .remove => some { n with directory := false }

def machine : Machine Node Label := ⟨step⟩

/-- The start token of a spawned gate could be read, and no write fails between the release file and the job. -/
def Label.steady : Label → Bool
  | .spawn token => token
  | .tear | .lose => false
  | .persist | .intend | .release | .run | .clean | .fail _ | .close _ _ | .die | .resume | .classify | .recover _ _
  | .act _ _ | .remove => true

/-- What a gate does by itself: its timers fire and their callbacks go on. -/
def Act.own : Act → Bool
  | .askParent | .askDirectory | .askRelease | .start _ | .watch | .killGroup => true
  | .providerCloses | .leave | .terminated | .groupKilled => false

def Label.own (id : Nat) : Label → Bool
  | .act other does => decide (other = id) && does.own
  | _ => false

end Faberun.Gate
