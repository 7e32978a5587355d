import Faberun.Model.Engine.JudgeGate
import Faberun.Model.Engine.Retry
import Faberun.Machine.Core

/-! # Judge rounds of one gated node

One gated node over a run: the attempts `startWorker` starts, the rounds `startJudge` of `engine/dispatch.mjs`
rules on, their settlement by `engine/review.mjs`, `engine/settle-judge.mjs` and `engine/settle.mjs`, and what
a kill, a cancel, the loss of the controller and `resumeRun` make of it. The snapshot is kept twice, in memory
and on disk, because a re-ask is marked in memory and written with the transition it belongs to. Providers,
commands and admissions answer in the labels; routing leaves a trace only in the status it ends in.
-/

namespace Faberun

/-- `state.verification` once completed; `workspace` is the attempt whose worktree the commands ran in. -/
structure Verification where
  passed : Bool
  commands : List RecordedCommand
  workspace : Option Nat
  deriving DecidableEq, Repr

/-- What `parseJudge` makes of a final message. -/
inductive JudgeAnswer where
  | unparsable (message : String)
  | verdict (verdict : JudgeVerdict)
  deriving DecidableEq, Repr

/-- What the transcript of a judge is known to hold. -/
inductive JudgeTranscript where
  | unread
  | failed
  | answered (answer : JudgeAnswer)
  deriving DecidableEq, Repr

/-- A recovery may find this answer in the transcript. -/
def JudgeTranscript.holds (transcript : JudgeTranscript) (found : JudgeAnswer) : Bool :=
  match transcript with
  | .unread => true
  | .failed => false
  | .answered answer => decide (answer = found)

/-- The last of `state.invocations`. -/
inductive Invocation where
  | worker
  | judge (transcript : JudgeTranscript)
  deriving DecidableEq, Repr

def Invocation.phase : Invocation → NodePhase
  | worker => .worker
  | judge _ => .judge

/-- What the judge rounds read and write of a node snapshot. -/
structure NodeSnapshot where
  status : NodeStatus
  phase : NodePhase
  attempt : Nat
  revisions : Nat
  judgeFailures : Nat
  /-- `state.result` is there. -/
  result : Bool
  /-- The attempt whose worktree `state.worktree` names. -/
  worktree : Option Nat
  verification : Option Verification
  changedPathCount : Option Nat
  gate : Option JudgeVerdict
  executionOverrides : List ExecutionOverride
  invocation : Option Invocation
  error : Option NodeError

/-- The snapshot `resumeRun` classifies. -/
def NodeSnapshot.runNode (n : NodeSnapshot) : RunNode Unit :=
  { status := n.status, phase := n.phase, error := n.error, blockedBy := [], result := n.result
    backoff := false, quotaReset := false, sealed := false }

def NodeSnapshot.outstanding (n : NodeSnapshot) : Bool := judgeReaskOutstanding n.executionOverrides

/-- One evaluation of the mechanical proofs: the worktree it ran in, and that of the verification it reused. -/
structure Round where
  workspace : Option Nat
  recorded : Option Nat
  results : List ProofResult

inductive Ruling where
  | settle
  | dispatched
  deriving DecidableEq, Repr

/-- `startJudge` let an attempt through. -/
structure Decision where
  attempt : Nat
  ruling : Ruling
  deriving DecidableEq, Repr

/-- What the controller holds for the node: a live invocation, or a settlement in front of `startJudge`. -/
inductive Job where
  | worker
  | judge
  | gate
  deriving DecidableEq, Repr

structure GateRun where
  mem : NodeSnapshot
  disk : NodeSnapshot
  job : Option Job
  alive : Bool
  /-- The attempts whose worktree exists. -/
  worktrees : List Nat
  /-- The attempt of the integration a lost controller left unfinished. -/
  prepared : Option Nat
  rounds : List Round
  decisions : List Decision

namespace GateRun

/-- The snapshot `prepareRun` writes. -/
def fresh : GateRun :=
  let snapshot : NodeSnapshot :=
    { status := .pending, phase := .waiting, attempt := 0, revisions := 0, judgeFailures := 0, result := false
      worktree := none, verification := none, changedPathCount := some 0, gate := none, executionOverrides := []
      invocation := none, error := none }
  { mem := snapshot, disk := snapshot, job := none, alive := true, worktrees := [], prepared := none
    rounds := [], decisions := [] }

def update (s : GateRun) (f : NodeSnapshot → NodeSnapshot) : GateRun := { s with mem := f s.mem }

/-- `writeNode`. -/
def write (s : GateRun) : GateRun := { s with disk := s.mem }

/-- `transition` to a status the controller holds nothing for. -/
def transition (s : GateRun) (status : NodeStatus) (patch : NodeSnapshot → NodeSnapshot) : GateRun :=
  { s with mem := { patch s.mem with status }, job := none }.write

/-- `startProcess` and the transition to `running`. -/
def spawn (s : GateRun) (phase : NodePhase) (invocation : Invocation) (job : Job) : GateRun :=
  { s with mem := { s.mem with status := .running, phase, invocation := some invocation }, job := some job }.write

/-- The controller is gone: the disk is what is left. -/
def lose (s : GateRun) : GateRun := { s with mem := s.disk, job := none, alive := false }

/-- `attemptWorkspace`. -/
def attemptWorkspace (s : GateRun) : Option Nat := s.mem.worktree.filter fun attempt => decide (attempt ∈ s.worktrees)

/-! ## Worker attempts -/

inductive WorkerStart where
  | worktreeFailed (error : NodeError)
  /-- The prompt is too large, or the scope snapshot invalid. -/
  | unprepared (error : NodeError)
  | refused (error : NodeError)
  | spawnFailed (message : String)
  | spawned
  /-- The controller is lost before the invocation is persisted. -/
  | lost

/-- `ensureAttemptWorkspace`. -/
def ensureAttemptWorkspace (s : GateRun) : GateRun :=
  { s.update (fun n => { n with worktree := some n.attempt }) with worktrees := s.mem.attempt :: s.worktrees }.write

/-- The snapshot a new worker attempt writes before it is admitted. -/
def beginAttempt (s : GateRun) : GateRun :=
  (s.update fun n => { n with
    phase := .worker
    result := false
    verification := none
    changedPathCount := some 0
    error := none }).write

def startWorker (s : GateRun) : WorkerStart → GateRun
  | .worktreeFailed error => s.transition .failed fun n => { n with phase := .worker, error := some error }
  | .unprepared error =>
      s.ensureAttemptWorkspace.transition .failed fun n => { n with phase := .worker, error := some error }
  | .refused error =>
      s.ensureAttemptWorkspace.beginAttempt.transition .blocked fun n =>
        { n with phase := .worker, error := some error }
  | .spawnFailed message =>
      s.ensureAttemptWorkspace.beginAttempt.transition .failed fun n =>
        { n with phase := .worker, error := some ⟨"spawn_error", message⟩ }
  | .spawned => s.ensureAttemptWorkspace.beginAttempt.spawn .worker .worker .worker
  | .lost => s.ensureAttemptWorkspace.beginAttempt.lose

/-- The caller of `startWorker` owns the increment. -/
def nextAttempt (s : GateRun) (start : WorkerStart) : GateRun :=
  (s.update fun n => { n with attempt := n.attempt + 1 }).startWorker start

/-! ## Settlement -/

/-- `applyRejection`; `start` is there when a revision may be dispatched on the spot. -/
def applyRejection (node : GatedNode) (s : GateRun) (verdict : JudgeVerdict) (code message : String)
    (phase : NodePhase) (start : Option WorkerStart) : GateRun :=
  let s := s.update fun n => { n with gate := some verdict }
  if s.mem.revisions < node.gate.maxRevisions.getD 1 then
    let s := s.update fun n => { n with revisions := n.revisions + 1 }
    match start with
    | some start => s.nextAttempt start
    | none => s.transition .pending fun n => { n with phase := .worker, error := none }
  else s.transition .exhausted fun n => { n with phase, error := some ⟨code, message⟩ }

/-- The verdict of a verification that failed. -/
def verificationFailureVerdict (summary : String) : JudgeVerdict :=
  { verdict := .fail
    maxSeverity := .critical
    summary
    findings := [⟨.critical, "deterministic verification failed", summary⟩] }

/-- How `settleDone` ends, once the attempt has a worktree to seal. -/
inductive Integration where
  | sealFailed (error : NodeError)
  | accepted
  | rejected
  | conflict (paths : String)
  | moved (message : String)
  | lost
  deriving DecidableEq, Repr

/-- What the callbacks of `integrateAttempt` make of the node. -/
def integrated (node : GatedNode) (s : GateRun) (gate : Option JudgeVerdict) (summary : String) : Integration → GateRun
  | .accepted =>
      { s.transition .done fun n => { n with phase := .complete, gate := gate.or n.gate, worktree := none } with
        worktrees := s.worktrees.filter fun attempt => decide (attempt ≠ s.mem.attempt) }
  | .rejected =>
      applyRejection node s (verificationFailureVerdict summary) "verification_failed" summary .worker none
  | .conflict paths =>
      s.transition .blocked fun n =>
        { n with phase := .complete, error := some ⟨"integration_conflict", s!"integration conflict in: {paths}"⟩ }
  | .moved message =>
      s.transition .blocked fun n =>
        { n with phase := .complete, error := some ⟨"integration_concurrent_move", message⟩ }
  | .sealFailed error => s.transition .failed fun n => { n with phase := .complete, error := some error }
  | .lost => { s.write.lose with prepared := some s.mem.attempt }

def settleDone (node : GatedNode) (s : GateRun) (gate : Option JudgeVerdict) (integration : Integration) : GateRun :=
  match s.attemptWorkspace with
  | none =>
      s.transition .failed fun n => { n with
        phase := .complete
        error := some ⟨"attempt_worktree_missing", "completed attempt has no isolated worktree"⟩ }
  | some _ => integrated node s gate "integrated candidate verification failed" integration

/-! ## `startJudge` -/

inductive JudgeStart where
  | refused (error : NodeError)
  | spawnFailed (error : NodeError)
  | spawned

inductive JudgeRound where
  | rejected (verdict : JudgeVerdict)
  | settle (gate : JudgeVerdict)
  | refused
  | dispatched

def recordedCommands (n : NodeSnapshot) : List RecordedCommand := (n.verification.map (·.commands)).getD []

/-- The spent re-ask is read off the snapshot: the round's proofs are then not run again. -/
def reask (s : GateRun) : Bool := (judgeReaskReason s.mem.executionOverrides).isSome

/-- The mechanical half of `startJudge`. -/
def evaluate (node : GatedNode) (s : GateRun) (measure : Measurement) : GateRun :=
  if s.reask then s
  else
    { s with rounds :=
        { workspace := s.attemptWorkspace
          recorded := s.mem.verification.bind (·.workspace)
          results := (deterministicGate node false measure (recordedCommands s.mem)).2 } :: s.rounds }

def decided (s : GateRun) (ruling : Ruling) : GateRun :=
  { s with decisions := ⟨s.mem.attempt, ruling⟩ :: s.decisions }

def dispatchJudge (s : GateRun) : JudgeStart → GateRun × JudgeRound
  | .refused error => (s.transition .blocked fun n => { n with phase := .judge, error := some error }, .refused)
  | .spawnFailed error =>
      ((s.decided .dispatched).transition .failed fun n => { n with phase := .judge, error := some error },
        .dispatched)
  | .spawned => ((s.decided .dispatched).spawn .judge (.judge .unread) .judge, .dispatched)

def startJudge (node : GatedNode) (s : GateRun) (measure : Measurement) (start : JudgeStart) : GateRun × JudgeRound :=
  let verdict := (deterministicGate node s.reask measure (recordedCommands s.mem)).1
  let verified := (s.mem.verification.map (·.passed)).getD false
  let s := evaluate node s measure
  if verdict.verdict = .fail then (s, .rejected verdict)
  else if judgeSkippedByScope node verified s.mem.changedPathCount || !judgeRequired node then
    (s.decided .settle, .settle verdict)
  else s.dispatchJudge start

def applyJudgeRound (node : GatedNode) (s : GateRun) (revision : Option WorkerStart) (integration : Integration) :
    JudgeRound → GateRun
  | .rejected verdict => applyRejection node s verdict "mechanical_gate_failed" verdict.summary .worker revision
  | .settle gate => settleDone node s (some gate) integration
  | .refused | .dispatched => s

/-! ## Judge verdicts -/

def settleAdvisoryReview (node : GatedNode) (s : GateRun) (verdict : JudgeVerdict) (integration : Integration) :
    GateRun :=
  settleDone node
    (s.update fun n => { n with
      executionOverrides := clearJudgeReask n.executionOverrides
      gate := some verdict })
    (some verdict) integration

def blockJudge (s : GateRun) (code message : String) : GateRun :=
  s.transition .blocked fun n => { n with phase := .judge, error := some ⟨code, message⟩ }

def settleUnavailableJudge (node : GatedNode) (s : GateRun) (message : String) (integration : Integration) : GateRun :=
  if node.gate.review = .advisory then settleAdvisoryReview node s (invalidJudgeVerdict message) integration
  else s.blockJudge "judge_unavailable" message

/-- Spend the one bounded re-ask: on the spot when it is admitted, else from the pending node. -/
def spendReask (s : GateRun) (reason : String) (admitted : Bool) : GateRun :=
  let s := s.update fun n => { n with executionOverrides := markJudgeReask n.executionOverrides reason }
  if admitted then { s with job := some .gate }
  else s.transition .pending fun n => { n with phase := .judge, gate := none, error := none }

def applyJudgeProtocolFailure (node : GatedNode) (s : GateRun) (reason : String) (admitted : Bool)
    (integration : Integration) : GateRun :=
  if s.mem.outstanding then
    if node.gate.review = .advisory then settleAdvisoryReview node s (invalidJudgeVerdict reason) integration
    else s.blockJudge "judge_unavailable" reason
  else s.spendReask reason admitted

/-- A verdict fails the node when the gate says so. -/
def shouldFail (node : GatedNode) (verdict : JudgeVerdict) : Bool :=
  decide (verdict.verdict = .fail) && decide (verdict.maxSeverity ≠ .none) &&
    decide (verdict.maxSeverity ∈ node.gate.failOn.getD [.critical])

def applyVerdict (node : GatedNode) (s : GateRun) (verdict : JudgeVerdict) (admitted : Bool)
    (revision : Option WorkerStart) (integration : Integration) : GateRun :=
  let s := s.update fun n => { n with gate := some verdict, judgeFailures := 0 }
  if uncitedRejection verdict node then
    if s.mem.outstanding then
      if node.gate.review = .advisory then settleAdvisoryReview node s verdict integration
      else
        s.blockJudge "judge_protocol"
          "judge rejection cited no Definition of Done item id after the bounded re-ask"
    else s.spendReask uncitedRejectionReason admitted
  else
    let s := s.update fun n => { n with executionOverrides := clearJudgeReask n.executionOverrides }
    if node.gate.review = .advisory then settleAdvisoryReview node s verdict integration
    else if shouldFail node verdict then
      applyRejection node s verdict "revision_cap" verdict.summary .judge revision
    else settleDone node s (some verdict) integration

def applyJudgeResult (node : GatedNode) (s : GateRun) (answer : JudgeAnswer) (admitted : Bool)
    (revision : Option WorkerStart) (integration : Integration) : GateRun :=
  match answer with
  | .unparsable message => applyJudgeProtocolFailure node s message admitted integration
  | .verdict verdict => applyVerdict node s verdict admitted revision integration

/-- Where `handleProviderExhaustion` leaves the node. -/
inductive Route where
  | waits
  | exhausted (error : NodeError)
  | blocked (error : NodeError)

def handleProviderExhaustion (s : GateRun) (role : NodePhase) : Route → GateRun
  | .waits => s.transition .pending fun n => { n with phase := role, error := none }
  | .exhausted error => s.transition .exhausted fun n => { n with phase := role, error := some error }
  | .blocked error => s.transition .blocked fun n => { n with phase := role, error := some error }

/-- How a judge invocation closed. -/
inductive JudgeClose where
  /-- The judge wrote into its own workspace. -/
  | wrote (message : String)
  | exhausted (route : Route)
  | failed (message : String) (network : Option Route)
  | unusable (reason : String) (network : Option Route)
  | answered (answer : JudgeAnswer)

def JudgeClose.transcript : JudgeClose → JudgeTranscript
  | .failed .. | .exhausted _ => .failed
  | .answered answer => .answered answer
  | .wrote _ | .unusable .. => .unread

/-- `JUDGE_MAX_FAILURES`. -/
def judgeMaxFailures : Nat := 2

def settleJudgeRound (node : GatedNode) (s : GateRun) (admitted : Bool) (revision : Option WorkerStart)
    (integration : Integration) : JudgeClose → GateRun
  | .wrote message => s.blockJudge "judge_protocol" message
  | .exhausted route => s.handleProviderExhaustion .judge route
  | .failed _ (some route) | .unusable _ (some route) => s.handleProviderExhaustion .judge route
  | .failed message none =>
      if s.mem.outstanding then applyJudgeProtocolFailure node s message admitted integration
      else
        let s := s.update fun n => { n with judgeFailures := n.judgeFailures + 1 }
        if s.mem.judgeFailures < judgeMaxFailures then { s.write with job := some .gate }
        else settleUnavailableJudge node s message integration
  | .unusable reason none => applyJudgeProtocolFailure node s reason admitted integration
  | .answered answer => applyJudgeResult node s answer admitted revision integration

/-- The judge closed: its transcript is on disk before it is settled. -/
def judgeClosed (node : GatedNode) (s : GateRun) (close : JudgeClose) (admitted : Bool)
    (revision : Option WorkerStart) (integration : Integration) : GateRun :=
  settleJudgeRound node
    { (s.update fun n => { n with invocation := some (.judge close.transcript) }).write with job := none }
    admitted revision integration close

/-! ## Worker results -/

/-- How a worker invocation closed. -/
inductive WorkerClose where
  /-- It failed, stopped, or broke its scope. -/
  | failed (status : NodeStatus) (error : NodeError)
  | routed (route : Route)
  | retried
  /-- The one turn that materializes a missing result. -/
  | materialize
  | invalid (message : String) (network : Option Route)
  | blockedContext (missing : String)
  | finished (changedPaths : Nat) (passed : Bool) (commands : List RecordedCommand)

/-- A worker that did not finish ends in a status of its own. -/
def WorkerClose.fits : WorkerClose → Bool
  | .failed status _ => status.settled && decide (status ≠ .done)
  | _ => true

/-- `applyInvalidWorkerResult`. -/
def applyInvalidWorkerResult (node : GatedNode) (s : GateRun) (message : String) (failover : Option Route)
    (revision : Option WorkerStart) : GateRun :=
  let verdict : JudgeVerdict :=
    { verdict := .fail
      maxSeverity := .critical
      summary := "worker result did not match the structured result protocol"
      findings := [⟨.critical, message, message⟩] }
  if s.mem.revisions < node.gate.maxRevisions.getD 1 then
    applyRejection node s verdict "invalid_worker_result" message .worker revision
  else
    match failover with
    | some route => s.handleProviderExhaustion .worker route
    | none =>
        s.transition .blocked fun n =>
          { n with phase := .worker, gate := some verdict, error := some ⟨"protocol_failure", message⟩ }

/-- `executeControllerVerification`: it runs once an attempt, in the worktree of the attempt if that stands. -/
def executeControllerVerification (s : GateRun) (passed : Bool) (commands : List RecordedCommand) : GateRun :=
  if s.mem.verification.isSome then s
  else (s.update fun n => { n with verification := some ⟨passed, commands, s.attemptWorkspace⟩ }).write

def verificationPassed (s : GateRun) : Bool := s.mem.verification.any (·.passed)

/-- `applyVerificationFailure`. -/
def applyVerificationFailure (node : GatedNode) (s : GateRun) (revision : Option WorkerStart) : GateRun :=
  applyRejection node s (verificationFailureVerdict "deterministic verification failed") "verification_failed"
    "deterministic verification failed" .worker revision

/-- A node waits for its judge. -/
def awaitJudge (s : GateRun) : GateRun := s.transition .pending fun n => { n with phase := .judge, error := none }

/-- The worker branch of `finalizeClosedJobs`, and the worker branch of a recovery when `live` is false. -/
def finishWorker (node : GatedNode) (s : GateRun) (live admitted : Bool) (revision : Option WorkerStart) :
    WorkerClose → GateRun
  | .failed status error => s.transition status fun n => { n with phase := .worker, error := some error }
  | .routed route => s.handleProviderExhaustion .worker route
  | .retried => s.transition .pending fun n => { n with phase := .worker, error := none }
  | .materialize => s.spawn .worker .worker .worker
  | .invalid message failover => applyInvalidWorkerResult node s message failover revision
  | .blockedContext missing =>
      s.transition .blocked fun n =>
        { n with phase := .complete, result := true, error := some ⟨"context_missing", missing⟩ }
  | .finished changedPaths passed commands =>
      let s := executeControllerVerification
        (s.update fun n => { n with result := true, changedPathCount := some changedPaths }) passed commands
      if s.verificationPassed = false then applyVerificationFailure node s revision
      else if live && admitted then { s with job := some .gate }
      else s.awaitJudge

/-! ## Recovery -/

/-- What `recoverOrphan` and the operation ledger say of the invocation of a node that is `running`. -/
inductive Recovery where
  | reconciled (reason : String)
  | exhausted (route : Route)
  | stalled (error : NodeError)
  /-- The worker finished; under `rejudge` its judge did not. -/
  | worker (close : WorkerClose)
  | adoptedJudge (answer : JudgeAnswer) (result : Bool) (integration : Integration)
  | replayJudge
  | restart

/-- A recovery adopts what the last invocation left. -/
def Recovery.fits (recovery : Recovery) (n : NodeSnapshot) : Bool :=
  match recovery, n.invocation with
  | .worker (.finished ..), some _ | .worker (.invalid ..), some _ | .worker (.blockedContext _), some _ => true
  | .worker (.failed status _), some _ => status.settled && decide (status ≠ .done)
  | .worker _, _ => false
  | .adoptedJudge answer .., some (.judge transcript) => transcript.holds answer
  | .adoptedJudge .., _ => false
  | .replayJudge, some (.judge _) => true
  | .replayJudge, _ => false
  | _, _ => true

/-- The phase of the invocation a recovery is about. -/
def recoveredPhase (s : GateRun) : NodePhase := (s.mem.invocation.map (·.phase)).getD .worker

def recover (node : GatedNode) (s : GateRun) : Recovery → GateRun
  | .reconciled reason =>
      s.transition .blocked fun n =>
        { n with phase := s.recoveredPhase, error := some ⟨"unknown_effect_reconciled", reason⟩ }
  | .exhausted route => s.handleProviderExhaustion s.recoveredPhase route
  | .stalled error => s.transition .stalled fun n => { n with phase := s.recoveredPhase, error := some error }
  | .worker close => finishWorker node s false false none close
  | .adoptedJudge answer result integration =>
      applyJudgeResult node (s.update fun n => { n with result := result || n.result }) answer false none integration
  | .replayJudge => s.awaitJudge
  | .restart => s.transition .pending fun n => { n with phase := .waiting, error := none }

/-- `recoverIntegrationTransactions`, of the transaction a lost controller left for this attempt. -/
def recoverIntegration (node : GatedNode) (s : GateRun) (integration : Integration) : GateRun :=
  if s.prepared = some s.mem.attempt ∧ s.mem.status ≠ .done ∧ (s.mem.status.settled = false ∨ integration = .accepted) then
    { integrated node s none "integrated candidate verification failed during recovery" integration with
      prepared := none }
  else { s with prepared := none }

/-- What an operator asks of a resume, seen from this node. -/
structure ResumeRequest where
  /-- Narrowed to nodes this one is not behind. -/
  narrowed : Bool
  reconcile : Bool
  answer : Bool
  /-- Held back for a dependency. -/
  held : Bool
  tier : TierWait

def ResumeRequest.action (request : ResumeRequest) (n : NodeSnapshot) : ResumeAction :=
  if request.held then .hold
  else
    classify (if request.narrowed then some [] else none)
      ⟨none, if request.reconcile then some () else none, if request.answer then some () else none⟩
      request.tier () n.runNode

/-- The per-node branch of `resumeRun`. -/
def resumed (node : GatedNode) (s : GateRun) (request : ResumeRequest) (recovery : Recovery) : GateRun :=
  if s.mem.status = .done then s
  else if isBlockedContextTerminal s.mem.runNode ∧ request.answer = false then s
  else
    match request.action s.mem with
    | .rejudge => s.awaitJudge
    | .hold => s
    | .retry => s.transition .pending fun n => { n with phase := .worker, error := none }
    | .recover =>
        if s.mem.status = .pending ∧ (s.mem.phase = .worker ∨ s.mem.phase = .judge) then s
        else if s.mem.status = .running then recover node s recovery
        else s.transition .pending fun n => { n with phase := .waiting, error := none }

/-! ## The machine -/

inductive Label where
  /-- The dispatch pass takes the pending node. -/
  | dispatch (start : WorkerStart)
  | workerClosed (close : WorkerClose) (admitted : Bool) (revision : Option WorkerStart)
  /-- `startJudge` and `applyJudgeRound`. -/
  | gate (measure : Measurement) (start : JudgeStart) (revision : Option WorkerStart) (integration : Integration)
  /-- The controller is lost after the proofs ran. -/
  | gateLost (measure : Measurement)
  | judgeClosed (close : JudgeClose) (admitted : Bool) (revision : Option WorkerStart) (integration : Integration)
  /-- `detectStalls` kills the job. -/
  | killed (status : NodeStatus) (error : NodeError) (retried admitted : Bool) (integration : Integration)
  | autoRetry
  | cancel (interrupted : Bool)
  | crash
  /-- The operator releases the worktrees of a settled run. -/
  | release
  | resume (request : ResumeRequest) (recovery : Recovery) (integration : Integration)

/-- A judge killed on its wall clock or its turn limit is a protocol failure. -/
def judgeTimeout (code : String) : Bool := code == "wall_clock_timeout" || code == "turn_limit"

/-- The `onTimeout` of `detectStalls`. -/
def killed (node : GatedNode) (s : GateRun) (job : Job) (status : NodeStatus) (error : NodeError)
    (retried admitted : Bool) (integration : Integration) : GateRun :=
  let phase : NodePhase := if job = .judge then .judge else .worker
  if job = .judge ∧ judgeTimeout error.code then
    applyJudgeProtocolFailure node { s with job := none } error.message admitted integration
  else if retried then s.transition .pending fun n => { n with phase, error := none }
  else s.transition status fun n => { n with phase, error := some error }

/-- `autoRetryNode` of a parked node. -/
def autoRetried (s : GateRun) : GateRun :=
  s.transition .pending fun n => { n with
    phase := if n.phase = .judge then .judge else .worker
    error := none }

/-- An interrupted verification is recorded as failed. -/
def interrupt (interrupted : Bool) (n : NodeSnapshot) : NodeSnapshot :=
  if interrupted then { n with verification := n.verification.map fun v => { v with passed := false } } else n

def canceled (s : GateRun) (interrupted : Bool) : GateRun :=
  let s := s.update (interrupt interrupted)
  if s.mem.status.settled then s.write
  else s.transition .canceled fun n => { n with phase := .canceled }

def step (node : GatedNode) (s : GateRun) : Label → Option GateRun
  | .dispatch start =>
      if s.alive = true ∧ s.job = none ∧ s.mem.status = .pending then
        some (if s.mem.phase = .judge ∧ s.mem.result = true then { s with job := some .gate } else s.nextAttempt start)
      else none
  | .workerClosed close admitted revision =>
      if s.alive = true ∧ s.job = some .worker ∧ close.fits = true then
        some (finishWorker node { s with job := none } true admitted revision close)
      else none
  | .gate measure start revision integration =>
      if s.alive = true ∧ s.job = some .gate then
        let (next, round) := startJudge node { s with job := none } measure start
        some (applyJudgeRound node next revision integration round)
      else none
  | .gateLost measure =>
      if s.alive = true ∧ s.job = some .gate then some (evaluate node s measure).lose else none
  | .judgeClosed close admitted revision integration =>
      if s.alive = true ∧ s.job = some .judge then
        some (judgeClosed node s close admitted revision integration)
      else none
  | .killed status error retried admitted integration =>
      match s.job with
      | some .gate | none => none
      | some job =>
          if s.alive = true ∧ status.parked = true then
            some (killed node s job status error retried admitted integration)
          else none
  | .autoRetry =>
      if s.alive = true ∧ s.job = none ∧ s.mem.status.parked = true ∧
          s.mem.error.any (fun error => decide (error.code ∈ autoRetryCodes)) = true then some s.autoRetried
      else none
  | .cancel interrupted =>
      if s.job ≠ some .gate then some { s.canceled interrupted with alive := false, job := none } else none
  | .crash => if s.alive = true then some s.lose else none
  | .release =>
      if s.alive = false ∧ s.mem.status.settled = true then some { s with worktrees := [] } else none
  | .resume request recovery integration =>
      if s.alive = false ∧ s.job = none ∧ integration ≠ .lost ∧ recovery.fits s.mem = true then
        some (resumed node (recoverIntegration node { s with alive := true } integration) request recovery)
      else none

def machine (node : GatedNode) : Machine GateRun Label := ⟨step node⟩

end GateRun

end Faberun
