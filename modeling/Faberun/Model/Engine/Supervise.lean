import Faberun.Machine.Core
import Faberun.Machine.KeyedStore
import Faberun.Model.Campaign.Chain
import Faberun.Model.Campaign.Coordinator

/-! # The supervisor of a run

The embedding of `superviseRun` in `engine/supervise.mjs`, with the heartbeat the controller writes for it. The
supervisor owns nothing: it reads the lock, the heartbeat and the progress of the run, and launches a controller when
none is alive. What it counts across restarts is in `run.json`. A label is one write of the controller, one pass of the
supervisor's loop, or what an operator does to either; instants are milliseconds, and strings that are no instant do not
occur. The history records the launches and what they were decided on. A pass is one step, although it awaits what it
reads; whether the lock is alive is what the pass observed of it, and no other label answers for it.
-/

namespace Faberun.Supervise

open Chain (RunProgress)
open Coordinator (HeartbeatRecord HeartbeatBreach heartbeatInterval)

/-! ## The heartbeat -/

/-- A node of `activeNodes` without its id. -/
structure HeartbeatNode where
  lastProgressAt : Int
  budgetBasis : Int
  deriving DecidableEq, Repr

/-- `heartbeat.json`. -/
structure HeartbeatFile where
  /-- `at`. -/
  writtenAt : Int
  lastProgressAt : Int
  iteration : Nat
  activeNodes : KeyedStore String HeartbeatNode
  /-- `until`, when the phase is `recovering`. -/
  recovering : Option Int
  deriving DecidableEq

/-- The record as `heartbeatBreach` judges it. -/
def HeartbeatFile.judged (file : HeartbeatFile) : HeartbeatRecord where
  writtenAt := some file.writtenAt
  recovering := file.recovering.map some
  activeNodes := file.activeNodes.entries.map fun entry => (some entry.2.lastProgressAt, some entry.2.budgetBasis)

/-- `heartbeatBreach` of what `readHeartbeat` returns. -/
def heartbeatBreach (file : Option HeartbeatFile) (now interval : Int) : Option HeartbeatBreach :=
  Coordinator.heartbeatBreach (file.map HeartbeatFile.judged) now interval

/-- The writer `createHeartbeat` returns, until it is stopped. -/
structure Heartbeat where
  lastProgressAt : Int
  iteration : Nat
  activeNodes : KeyedStore String HeartbeatNode
  deriving DecidableEq

namespace Heartbeat

/-- `createHeartbeat`: the last progress on disk is kept. -/
def create (previous : Option HeartbeatFile) (now : Int) : Heartbeat where
  lastProgressAt := (previous.map HeartbeatFile.lastProgressAt).getD now
  iteration := 0
  activeNodes := .empty

def snapshot (beat : Heartbeat) (now : Int) : HeartbeatFile where
  writtenAt := now
  lastProgressAt := beat.lastProgressAt
  iteration := beat.iteration
  activeNodes := beat.activeNodes
  recovering := none

def progress (beat : Heartbeat) (nodeId : Option String) (budgetBasis : Option Int) (now : Int) : Heartbeat where
  lastProgressAt := now
  iteration := beat.iteration + 1
  activeNodes :=
    match nodeId with
    | some id =>
      let basis := budgetBasis.getD (((beat.activeNodes.get? id).map HeartbeatNode.budgetBasis).getD 0)
      beat.activeNodes.set id ⟨now, basis⟩
    | none => beat.activeNodes

/-- A node of `setActive` that is new, or whose budget changed. -/
def activate (now : Int) (active : KeyedStore String HeartbeatNode) (node : String × Int) :
    KeyedStore String HeartbeatNode :=
  match active.get? node.1 with
  | some existing => if existing.budgetBasis = node.2 then active else active.set node.1 ⟨existing.lastProgressAt, node.2⟩
  | none => active.set node.1 ⟨now, node.2⟩

def setActive (beat : Heartbeat) (nodes : List (String × Int)) (now : Int) : Heartbeat where
  lastProgressAt := beat.lastProgressAt
  iteration := beat.iteration
  activeNodes := nodes.foldl (activate now) (beat.activeNodes.filter fun id => decide (id ∈ nodes.map (·.1)))

end Heartbeat

def markRecovering (previous : Option HeartbeatFile) (until' now : Int) : HeartbeatFile where
  writtenAt := now
  lastProgressAt := (previous.map HeartbeatFile.lastProgressAt).getD now
  iteration := (previous.map HeartbeatFile.iteration).getD 0
  activeNodes := (previous.map HeartbeatFile.activeNodes).getD .empty
  recovering := some until'

/-! ### What a run directory's controllers do to it -/

/-- One write of a controller, or its end. -/
inductive Beat where
  /-- A controller starts. -/
  | starts (now : Int)
  /-- The timer of its heartbeat. -/
  | write (now : Int)
  | progress (nodeId : Option String) (budgetBasis : Option Int) (now : Int)
  | setActive (nodes : List (String × Int)) (now : Int)
  /-- A resume waits for an orphan, before its controller starts. -/
  | recovering (until' now : Int)
  /-- The controller stops its heartbeat, or dies. -/
  | stops
  deriving DecidableEq

/-- `heartbeat.json` and the writer of the controller that lives. -/
structure Heartbeats where
  file : Option HeartbeatFile
  controller : Option Heartbeat
  deriving DecidableEq

namespace Heartbeats

def unwritten : Heartbeats := ⟨none, none⟩

def beats (beat : Heartbeat) (now : Int) : Heartbeats := ⟨some (beat.snapshot now), some beat⟩

def step (h : Heartbeats) : Beat → Option Heartbeats
  | .starts now => if h.controller.isNone then some (beats (.create h.file now) now) else none
  | .write now => h.controller.map fun beat => beats beat now
  | .progress nodeId budgetBasis now => h.controller.map fun beat => beats (beat.progress nodeId budgetBasis now) now
  | .setActive nodes now => h.controller.map fun beat => beats (beat.setActive nodes now) now
  | .recovering until' now =>
      if h.controller.isNone then some ⟨some (markRecovering h.file until' now), none⟩ else none
  | .stops => some { h with controller := none }

def lastProgressAt (h : Heartbeats) : Option Int := h.file.map HeartbeatFile.lastProgressAt

/-- The beat writes `lastProgressAt` for the first time, or anew. -/
def advances (h : Heartbeats) : Beat → Bool
  | .starts _ | .recovering _ _ => h.file.isNone
  | .progress _ _ _ => true
  | .write _ | .setActive _ _ | .stops => false

end Heartbeats

/-! ## The relaunch guard -/

/-- `MAX_CONSECUTIVE_LAUNCH_FAILURES`. -/
def maxConsecutiveLaunchFailures : Nat := 3

/-- `MAX_CONSECUTIVE_RELAUNCHES`. -/
def maxConsecutiveRelaunches : Nat := 2

structure Attention where
  code : String
  message : String
  writtenAt : Int
  deriving DecidableEq, Repr

/-- What the supervisor reads and writes of `run.json`. -/
structure RunMetadata where
  relaunchCount : Option Nat
  lastRelaunchProgressAt : Option Int
  attention : Option Attention
  deriving DecidableEq, Repr

/-- `advanced` of `nextRelaunch`. -/
def advancedPast : Option Int → Option Int → Bool
  | some recorded, some progressAt => decide (recorded < progressAt)
  | _, _ => false

/-- `nextRelaunch`: the count of a relaunch, or of the relaunches behind the park that replaces it. -/
def nextRelaunch (metadata : RunMetadata) (progressAt : Option Int) : Except Nat Nat :=
  let count := if advancedPast metadata.lastRelaunchProgressAt progressAt then 0 else metadata.relaunchCount.getD 0
  if maxConsecutiveRelaunches ≤ count then .error count else .ok (count + 1)

/-- `persistRelaunch`: the metadata is what was read before the launch. -/
def persistRelaunch (metadata : RunMetadata) (count : Nat) (progressAt : Option Int) : RunMetadata :=
  { metadata with relaunchCount := some count, lastRelaunchProgressAt := progressAt }

def unresponsive (count : Nat) (now : Int) : Attention where
  code := "controller_unresponsive"
  message := s!"controller relaunched {count} times without lastProgressAt advancing"
  writtenAt := now

/-! ## The loop -/

/-- What one pass of the loop reads beside the heartbeat. -/
structure Observation where
  now : Int
  progress : RunProgress
  /-- The attention `reportParkedAttention` would write: its code and its message. -/
  parkedAs : String × String
  /-- The lock is held and not stale. -/
  lockAlive : Bool
  deriving DecidableEq, Repr

inductive LaunchOutcome where
  | launched
  /-- The launch succeeds and the supervisor dies before it is recorded. -/
  | unrecorded
  | threw (message : String)
  deriving DecidableEq, Repr

/-- What `superviseRun` returns. -/
inductive Return where
  | done
  | stopped (reason : String)
  deriving DecidableEq, Repr

inductive Deed where
  /-- `lastProgressAt` was written for the first time or anew. -/
  | advanced
  | launched (recorded : Bool) (observed : Observation) (breach : Option HeartbeatBreach)
  deriving DecidableEq, Repr

/-- One run directory and its supervisor. -/
structure Watch where
  heartbeats : Heartbeats
  metadata : RunMetadata
  /-- `consecutiveFailures` of the supervisor, while it runs. -/
  supervisor : Option Nat
  returned : Option Return
  history : List Deed
  deriving DecidableEq

namespace Watch

def breach (w : Watch) (seen : Observation) : Option HeartbeatBreach :=
  if seen.lockAlive then heartbeatBreach w.heartbeats.file seen.now heartbeatInterval else none

/-- A controller is missing or frozen, and the run is not settled. -/
def relaunches (w : Watch) (seen : Observation) : Bool :=
  (decide (seen.progress.state = .unfinished) || (w.breach seen).isSome) && !(seen.lockAlive && (w.breach seen).isNone)

/-- `launch` and what follows it. -/
def launch (w : Watch) (seen : Observation) (failures count : Nat) : LaunchOutcome → Watch
  | .launched => { w with
      metadata := persistRelaunch w.metadata count w.heartbeats.lastProgressAt
      supervisor := some 0
      history := .launched true seen (w.breach seen) :: w.history }
  | .unrecorded => { w with
      supervisor := none
      history := .launched false seen (w.breach seen) :: w.history }
  | .threw message =>
      if maxConsecutiveLaunchFailures ≤ failures + 1 then { w with
        supervisor := none
        returned := some (.stopped s!"resume failed {failures + 1} times: {message}") }
      else { w with supervisor := some (failures + 1) }

/-- One pass of `superviseRun`. -/
def tick (w : Watch) (seen : Observation) (failures : Nat) (outcome : LaunchOutcome) : Watch :=
  if seen.progress.runOutcome = some .succeeded ∨ seen.progress.runOutcome = some .canceled then
    { w with supervisor := none, returned := some .done }
  else if seen.progress.state = .done ∧ seen.progress.runOutcome = some .parked then
    let anchored := w.metadata.attention.getD ⟨seen.parkedAs.1, seen.parkedAs.2, seen.now⟩
    { w with metadata := { w.metadata with attention := some anchored } }
  else if w.relaunches seen then
    match nextRelaunch w.metadata w.heartbeats.lastProgressAt with
    | .error count => { w with
        metadata := { w.metadata with attention := some (unresponsive count seen.now) }
        supervisor := none
        returned := some (.stopped "controller_unresponsive") }
    | .ok count => w.launch seen failures count outcome
  else w

end Watch

inductive Label where
  | beat (beat : Beat)
  /-- A resume that changed a node clears the attention. -/
  | clears
  /-- `superviseRun` is called. -/
  | supervise
  | tick (seen : Observation) (outcome : LaunchOutcome)
  /-- The supervisor is killed, or its budget of passes ends. -/
  | killed
  deriving DecidableEq

def step (w : Watch) : Label → Option Watch
  | .beat beat => (w.heartbeats.step beat).map fun heartbeats => { w with
      heartbeats
      history := if w.heartbeats.advances beat then .advanced :: w.history else w.history }
  | .clears => some { w with metadata := { w.metadata with attention := none } }
  | .supervise => if w.supervisor.isNone then some { w with supervisor := some 0, returned := none } else none
  | .tick seen outcome => w.supervisor.map fun failures => w.tick seen failures outcome
  | .killed => some { w with supervisor := none }

def machine : Machine Watch Label := ⟨step⟩

/-- A run directory before its first controller and its first supervisor. -/
def created : Watch := ⟨.unwritten, ⟨none, none, none⟩, none, none, []⟩

end Faberun.Supervise
