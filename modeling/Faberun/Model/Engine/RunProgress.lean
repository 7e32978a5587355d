import Faberun.Machine.KeyedStore
import Faberun.Model.Campaign.Chain
import Faberun.Model.Engine.RetryPlan

/-! # How far a run has got

The embedding of `runProgress` and `reduceRunOutcome` in `engine/supervise.mjs`. The supervisor and the campaign chain read
a run directory through them: its node snapshots, its contract when it can be loaded, and its cancel marker.
-/

namespace Faberun.Supervise

open RetryPlan (RetryClock RetryState earliestTierReset)

/-- A snapshot file: its name without the ending, and what reading it gives, which may name another id. -/
structure SnapshotFile where
  name : String
  read : Except String (Option String × RetryState)

def SnapshotFile.key (file : SnapshotFile) : String :=
  match file.read with
  | .ok (id, _) => id.getD file.name
  | .error _ => file.name

abbrev Snapshots := KeyedStore String (Except String RetryState)

def snapshotsOf (files : List SnapshotFile) : Snapshots :=
  files.foldl (fun snapshots file => snapshots.set file.key (file.read.map Prod.snd)) .empty

/-- `SUCCESS`. -/
def success : NodeStatus → Bool
  | .done | .noOp => true
  | _ => false

/-- The reset a tier-exhausted node waits for. -/
def tierReset (clock : RetryClock) (state : RetryState) : Option Int :=
  if blockedWith "runtime_tier_exhausted" state.status state.error then earliestTierReset clock state else none

/-! ## The outcome -/

inductive OutcomeStatus where
  | missing
  | unreadable
  | status (status : NodeStatus)
  deriving DecidableEq, Repr

structure OutcomeNode where
  id : String
  status : OutcomeStatus
  errorCode : Option String
  message : Option String
  waitingUntil : Option String
  deriving DecidableEq, Repr

/-- `Math.min` of an instant that may be unset and one that is set. -/
def earlier : Option Int → Int → Option Int
  | some first, second => some (min first second)
  | none, second => some second

/-- The accumulators of `reduceRunOutcome`. -/
structure Reduction where
  nonSuccess : List OutcomeNode
  allWaiting : Bool
  earliestWaiting : Option Int

def reduceNode (clock : RetryClock) (snapshots : Snapshots) (so : Reduction) (id : String) : Reduction :=
  let parked (node : OutcomeNode) : Reduction := ⟨so.nonSuccess ++ [node], false, so.earliestWaiting⟩
  match snapshots.get? id with
  | none => parked ⟨id, .missing, none, none, none⟩
  | some (.error message) => parked ⟨id, .unreadable, none, some message, none⟩
  | some (.ok state) =>
    if success state.status then so
    else match tierReset clock state with
      | some earliest =>
        let waiting := decide (clock.now < earliest)
        ⟨so.nonSuccess ++ [⟨id, .status state.status, state.error.map NodeError.code, none,
            if waiting then some (clock.toIso earliest) else none⟩],
          so.allWaiting, if waiting then earlier so.earliestWaiting earliest else so.earliestWaiting⟩
      | none => parked ⟨id, .status state.status, state.error.map NodeError.code, none, none⟩

structure RunOutcome where
  outcome : Chain.RunOutcome
  nodes : List OutcomeNode
  waitingUntil : Option String

def reduceRunOutcome (clock : RetryClock) (declaredIds : List String) (snapshots : Snapshots) (canceled : Bool) : RunOutcome :=
  if canceled then ⟨.canceled, [], none⟩
  else
    let reduced := declaredIds.foldl (reduceNode clock snapshots) ⟨[], true, none⟩
    if reduced.nonSuccess.isEmpty then ⟨if declaredIds.isEmpty then .parked else .succeeded, [], none⟩
    else if reduced.allWaiting then ⟨.waiting, reduced.nonSuccess, reduced.earliestWaiting.map clock.toIso⟩
    else ⟨.parked, reduced.nonSuccess, none⟩

/-! ## The progress -/

/-- The accumulators of `runProgress`. -/
structure Tally where
  terminal : Nat
  unfinished : Bool
  earliestWaiting : Option Int

def tallyNode (clock : RetryClock) (snapshots : Snapshots) (so : Tally) (id : String) : Tally :=
  match snapshots.get? id with
  | none | some (.error _) => { so with unfinished := true }
  | some (.ok state) =>
    if blockedWith "runtime_tier_exhausted" state.status state.error then
      match earliestTierReset clock state with
      | none => { so with terminal := so.terminal + 1 }
      | some earliest =>
        if clock.now < earliest then { so with earliestWaiting := earlier so.earliestWaiting earliest }
        else { so with unfinished := true }
    else if state.status.settled then { so with terminal := so.terminal + 1 }
    else { so with unfinished := true }

/-- `RunProgress` of `engine/supervise.mjs`. -/
structure FullProgress extends Chain.RunProgress where
  total : Nat
  terminal : Nat
  reason : Option String
  waitingUntil : Option String
  outcomeNodes : List OutcomeNode

def unreadable (files : List SnapshotFile) : Bool := files.any fun file => !file.read.isOk

/-- The nodes of the contract, or of the snapshots without one. -/
def declaredOf (contract : Option (List String)) (files : List SnapshotFile) : List String :=
  contract.getD (snapshotsOf files).keys

def runProgress (clock : RetryClock) (files : List SnapshotFile) (contract : Option (List String)) (canceled : Bool) :
    FullProgress :=
  if files.isEmpty then ⟨⟨.unknown, none⟩, 0, 0, some "no node snapshots yet", none, []⟩
  else
    let snapshots := snapshotsOf files
    let declared := declaredOf contract files
    let tally := declared.foldl (tallyNode clock snapshots) ⟨0, false, none⟩
    let reduction := reduceRunOutcome clock declared snapshots canceled
    let state : Chain.RunState :=
      if unreadable files then .unknown
      else if tally.terminal = declared.length then .done
      else if tally.unfinished then .unfinished
      else .waiting
    { state
      runOutcome := some reduction.outcome
      total := declared.length
      terminal := tally.terminal
      reason := if state = .unknown then some "a node snapshot could not be read" else none
      waitingUntil := if state = .waiting then tally.earliestWaiting.map clock.toIso else none
      outcomeNodes := reduction.nodes }

end Faberun.Supervise
