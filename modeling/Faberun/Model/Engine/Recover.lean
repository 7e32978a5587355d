import Mathlib.Algebra.Order.Ring.Rat
import Faberun.Machine.Core

/-! # Adopting what a previous controller left running

The embedding of `recoverOrphan` of `engine/recover.mjs` for a running node with an invocation. Every ownership check,
clock reading and reading of the transcript is a step of its own, and between two of them the process may append to its
transcript, write its result file, or end, and time passes. What a harness makes of a transcript, and which texts are
verdicts or worker results, are parameters; the classification of an unsettled operation keeps its recorded result, so
a settlement is that result.
-/

namespace Faberun.Recover

/-! ## Evidence -/

inductive Phase where
  | worker
  | judge
  deriving DecidableEq

def Phase.name : Phase → String
  | .worker => "worker"
  | .judge => "judge"

/-- `closedAt` of an invocation record, parsed. -/
inductive ClosedAt where
  | null
  | unparsable
  | time (at' : Rat)
  deriving DecidableEq

/-- Usage and cost of a turn. -/
structure Spend where
  usage : Option String
  costUsd : Option Rat
  costProvenance : Option String
  deriving DecidableEq

def Spend.none : Spend := ⟨.none, .none, .none⟩

/-- `??` of each member. -/
def Spend.or (first second : Spend) : Spend :=
  ⟨first.usage.or second.usage, first.costUsd.or second.costUsd, first.costProvenance.or second.costProvenance⟩

structure Invocation where
  id : String
  phase : Phase
  active : Bool
  /-- `Date.parse` of `startedAt`, where it is a time. -/
  startedAt : Option Rat
  closedAt : ClosedAt
  exitCode : Option Int
  signal : Option String
  spend : Spend
  deriving DecidableEq

/-- The statuses of `ProviderEnvelope`. -/
inductive EnvelopeStatus where
  | done
  | noOp
  | blocked
  | failed
  | exhausted
  | stalled
  | canceled
  deriving DecidableEq

/-- `PricedEnvelope`. -/
structure Envelope where
  status : EnvelopeStatus
  result : Option String
  spend : Spend
  errorMessage : Option String
  exhaustedUntil : Option String
  deriving DecidableEq

/-- What `invocationResult` passes to the harness. -/
structure ReadOptions where
  preferStructured : Bool
  exitCode : Int
  signal : Option String
  deriving DecidableEq

inductive Kind where
  | adopted
  | rejudge
  | restart
  | exhausted
  deriving DecidableEq

/-- `RecoveryOutcome`. -/
structure RecoveryOutcome where
  kind : Kind
  phase : Phase
  invocationId : String
  result : Option String
  spend : Spend
  exhaustedUntil : Option String
  errorMessage : Option String
  reason : Option String
  deriving DecidableEq

/-- What a recovery is given. -/
structure Orphan where
  invocation : Invocation
  /-- `latestTimeoutSec`, where it is finite. -/
  timeoutSec : Option Rat
  /-- `invocationResult`: what the runtime's harness makes of a transcript. -/
  read : String → ReadOptions → Option Envelope
  /-- The transcript of the last worker invocation, read. -/
  worker : Option Envelope
  settlement : Option String
  result : Option String
  gate : Option String
  isWorkerResult : String → Bool
  isVerdict : String → Bool

namespace Orphan

def phase (o : Orphan) : Phase := o.invocation.phase

def deadline (o : Orphan) : Option Rat :=
  o.invocation.startedAt.bind fun startedAt => o.timeoutSec.map fun timeoutSec => startedAt + timeoutSec * 1000

/-- A recorded close time after the deadline. -/
def closedLate (o : Orphan) : Bool :=
  match o.invocation.closedAt, o.deadline with
  | .time closedAt, some deadline => decide (deadline < closedAt)
  | _, _ => false

/-- The transcript as the polls read it. -/
def readLive (o : Orphan) (transcript : String) : Option Envelope :=
  o.read transcript ⟨decide (o.phase = .judge), 0, none⟩

/-- The transcript with the recorded exit. -/
def readClosed (o : Orphan) (transcript : String) : Option Envelope :=
  o.read transcript ⟨decide (o.phase = .judge), o.invocation.exitCode.getD 0, o.invocation.signal⟩

def isDone (envelope : Option Envelope) : Bool := envelope.any fun envelope => decide (envelope.status = .done)

def isExhausted (envelope : Option Envelope) : Bool := envelope.any fun envelope => decide (envelope.status = .exhausted)

/-- `persistedWorkerResult`; an empty result file is no result to its callers. -/
def persistedWorkerResult (o : Orphan) (canonical : Option String) : Option String :=
  match canonical with
  | some text => some text
  | none => (o.settlement.filter o.isWorkerResult).or (if o.invocation.active then none else o.result.filter o.isWorkerResult)

/-- `persistedJudgeResult`. -/
def persistedJudgeResult (o : Orphan) : Option String :=
  (o.settlement.filter o.isVerdict).or (if o.invocation.active then none else o.gate.filter o.isVerdict)

def persisted (o : Orphan) (canonical : Option String) : Option String :=
  match o.phase with
  | .worker => (o.persistedWorkerResult canonical).filter (· ≠ "")
  | .judge => o.persistedJudgeResult

/-! ## Outcomes -/

def adopted (o : Orphan) (envelope : Envelope) : RecoveryOutcome :=
  ⟨.adopted, o.phase, o.invocation.id, envelope.result, envelope.spend, envelope.exhaustedUntil, envelope.errorMessage, none⟩

def adoptedPersisted (o : Orphan) (result : String) : RecoveryOutcome :=
  ⟨.adopted, o.phase, o.invocation.id, some result, .none, none, none, none⟩

def restartRecovery (o : Orphan) (envelope : Option Envelope) (reason : String) : RecoveryOutcome :=
  ⟨.restart, o.phase, o.invocation.id, none, ((envelope.map Envelope.spend).getD .none).or o.invocation.spend, none, none,
    some reason⟩

def rejudgeOrRestart (o : Orphan) (envelope : Option Envelope) : RecoveryOutcome :=
  let spend := (envelope.map Envelope.spend).getD .none
  if isDone o.worker then
    ⟨.rejudge, .worker, o.invocation.id, o.worker.bind Envelope.result, spend, none, none, none⟩
  else
    ⟨.restart, .judge, o.invocation.id, none, spend, none, none,
      some s!"judge invocation {o.invocation.id} completed but its worker stream is unavailable"⟩

def adoptOrRejudgeJudge (o : Orphan) (envelope : Envelope) : RecoveryOutcome :=
  if o.isVerdict (envelope.result.getD "") then
    ⟨.adopted, .judge, o.invocation.id, envelope.result, envelope.spend, none, none, none⟩
  else o.rejudgeOrRestart (some envelope)

/-- A done turn. -/
def adopt (o : Orphan) (envelope : Envelope) : RecoveryOutcome :=
  match o.phase with
  | .worker => o.adopted envelope
  | .judge => o.adoptOrRejudgeJudge envelope

/-- An exhausted turn; a judge's keeps no result. -/
def exhausted (o : Orphan) (envelope : Envelope) : RecoveryOutcome :=
  ⟨.exhausted, o.phase, o.invocation.id, if o.phase = .judge then none else envelope.result, envelope.spend,
    envelope.exhaustedUntil, envelope.errorMessage, envelope.errorMessage⟩

def overBudget (o : Orphan) : String := s!"{o.phase.name} invocation {o.invocation.id} exceeded its wall-clock budget"

def completedLate (o : Orphan) : String :=
  s!"{o.phase.name} invocation {o.invocation.id} completed after its wall-clock budget"

/-- A start, a timeout or a close that is no time. -/
def blindReason (o : Orphan) : String :=
  if o.deadline = none then s!"invocation {o.invocation.id} has no reliable start time or timeout deadline"
  else s!"invocation {o.invocation.id} has no reliable close time"

/-- What the evidence gives where no times can be compared. -/
def blind (o : Orphan) (transcript : String) (canonical : Option String) : RecoveryOutcome :=
  let terminal := o.readLive transcript
  match terminal.filter fun envelope => decide (envelope.status = .done) with
  | some envelope => o.adopt envelope
  | none =>
    match o.persisted canonical with
    | some result => o.adoptedPersisted result
    | none => o.restartRecovery terminal o.blindReason

/-- What the end of the poll gives before the deadline; `none` goes on to `closed`. -/
def left (o : Orphan) (transcript : String) (canonical : Option String) : Option RecoveryOutcome :=
  match o.invocation.closedAt with
  | .null =>
    match o.persisted canonical with
    | some result => some (o.adoptedPersisted result)
    | none => some (o.restartRecovery none s!"{o.phase.name} invocation {o.invocation.id} has no reliable close time")
  | _ =>
    match o.phase with
    | .worker => none
    | .judge =>
      match o.readClosed transcript with
      | none => some ((o.persistedJudgeResult.map o.adoptedPersisted).getD (o.rejudgeOrRestart none))
      | some envelope =>
        if envelope.status = .done then some (o.adoptOrRejudgeJudge envelope)
        else if envelope.status = .exhausted then some (o.exhausted envelope)
        else some ((o.persistedJudgeResult.map o.adoptedPersisted).getD (o.rejudgeOrRestart (some envelope)))

/-- What a process that is gone leaves, by its recorded close. -/
def closed (o : Orphan) (transcript : String) (canonical : Option String) : RecoveryOutcome :=
  match o.invocation.closedAt with
  | .null | .unparsable => o.restartRecovery none o.completedLate
  | .time _ =>
    if o.closedLate then o.restartRecovery none o.completedLate
    else
      let result := o.readClosed transcript
      match o.phase with
      | .judge =>
        match result with
        | none => o.rejudgeOrRestart none
        | some envelope =>
          if envelope.status = .done then o.adoptOrRejudgeJudge envelope
          else if envelope.status = .exhausted then o.exhausted envelope
          else o.rejudgeOrRestart (some envelope)
      | .worker =>
        match result.filter fun envelope => decide (envelope.status = .done ∨ envelope.status = .exhausted) with
        | some envelope => if envelope.status = .done then o.adopted envelope else o.exhausted envelope
        | none =>
          match o.persisted canonical with
          | some text => o.adoptedPersisted text
          | none =>
            o.restartRecovery result s!"{o.phase.name} invocation {o.invocation.id} died without a completed stream"

end Orphan

/-! ## A call -/

/-- What follows a termination. -/
inductive After where
  | blind
  | overdue
  | late (envelope : Envelope)
  | adopt (envelope : Envelope)
  | left (expired : Bool)
  deriving DecidableEq

inductive Stage where
  | blindCheck
  | blindRead
  | firstCheck
  | firstClock
  | overdueRead
  | pollCheck
  | pollClock
  | pollRead
  | pollDone (envelope : Envelope)
  | leftClock
  | leftCheck (expired : Bool)
  | leftDecide (expired : Bool)
  | closedDecide
  | stopping (after : After)
  | returned (outcome : RecoveryOutcome)
  | threw
  deriving DecidableEq

structure State where
  /-- The process the record names answers. -/
  owned : Bool
  transcript : String
  /-- The canonical result file. -/
  canonical : Option String
  clock : Rat
  stage : Stage
  /-- History: the process was found gone in time, with a done turn that is owed an adoption. -/
  observed : Bool
  deriving DecidableEq

inductive Label where
  /-- The next step of the call. -/
  | go
  /-- A termination cannot signal the process. -/
  | unsignaled
  /-- A termination gives up on the process. -/
  | gives
  | appends (text : String)
  | writes (result : String)
  | exits
  | passes (duration : Rat)
  deriving DecidableEq

namespace State

/-- A done turn in the transcript, of a worker or of a judge whose worker's stream is complete. -/
def owes (o : Orphan) (s : State) : Bool :=
  Orphan.isDone (o.readLive s.transcript) && (decide (o.phase = .worker) || Orphan.isDone o.worker)

def inTime (o : Orphan) (s : State) : Bool := o.deadline.any fun deadline => decide (s.clock < deadline)

/-- Going on to a stage with an answer to whether the process is owned. -/
def checked (o : Orphan) (s : State) (next : Stage) : State :=
  { s with stage := next, observed := s.observed || (!s.owned && s.inTime o && s.owes o) }

/-- An ownership check. -/
def check (o : Orphan) (s : State) (alive gone : Stage) : State := s.checked o (if s.owned then alive else gone)

/-- Where a termination that is over goes on. -/
def resume (o : Orphan) : After → Stage
  | .blind => .blindRead
  | .overdue => .overdueRead
  | .late envelope => .returned (o.restartRecovery (some envelope) o.completedLate)
  | .adopt envelope => .returned (o.adopt envelope)
  | .left expired => .leftDecide expired

/-- The next step of a call whose deadline is a time. -/
def go (o : Orphan) (s : State) : Option State :=
  match s.stage with
  | .blindCheck => some (s.check o (.stopping .blind) .blindRead)
  | .blindRead => some { s with stage := .returned (o.blind s.transcript s.canonical) }
  | .firstCheck => some (s.check o .firstClock .closedDecide)
  | .firstClock =>
    o.deadline.map fun deadline =>
      { s with stage := if deadline < s.clock then .stopping .overdue else .pollCheck }
  | .overdueRead =>
    some { s with stage := .returned (o.restartRecovery (o.read s.transcript ⟨false, 0, none⟩) o.overBudget) }
  | .pollCheck => some (s.check o .pollClock .leftClock)
  | .pollClock =>
    o.deadline.map fun deadline => { s with stage := if s.clock < deadline then .pollRead else .leftClock }
  | .pollRead =>
    match (o.readLive s.transcript).filter fun envelope => decide (envelope.status = .done) with
    | some envelope => some { s with stage := .pollDone envelope }
    | none => some { s with stage := .pollCheck }
  | .pollDone envelope =>
    o.deadline.map fun deadline =>
      { s with stage := .stopping (if deadline < s.clock ∨ o.closedLate then .late envelope else .adopt envelope) }
  | .leftClock => o.deadline.map fun deadline => { s with stage := .leftCheck (decide (deadline ≤ s.clock)) }
  | .leftCheck expired => some (s.check o (.stopping (.left expired)) (.leftDecide expired))
  | .leftDecide true => some { s with stage := .returned (o.restartRecovery none o.overBudget) }
  | .leftDecide false =>
    match o.left s.transcript s.canonical with
    | some outcome => some { s with stage := .returned outcome }
    | none => some { s with stage := .closedDecide }
  | .closedDecide => some { s with stage := .returned (o.closed s.transcript s.canonical) }
  | .stopping after => if s.owned then none else some (s.checked o (resume o after))
  | .returned _ | .threw => none

def step (o : Orphan) (s : State) : Label → Option State
  | .go => s.go o
  | .unsignaled =>
    match s.stage with
    | .stopping after => some (s.checked o (resume o after))
    | _ => none
  | .gives =>
    match s.stage with
    | .stopping _ => some { s with stage := .threw }
    | _ => none
  | .appends text => if s.owned then some { s with transcript := s.transcript ++ text } else none
  | .writes result => if s.owned then some { s with canonical := some result } else none
  | .exits => some { s with owned := false }
  | .passes duration => if 0 ≤ duration then some { s with clock := s.clock + duration } else none

end State

def machine (o : Orphan) : Machine State Label := ⟨State.step o⟩

/-- Where a call starts: by the times it can compare. -/
def Orphan.opening (o : Orphan) : Stage :=
  if o.deadline = none ∨ o.invocation.closedAt = .unparsable then .blindCheck else .firstCheck

def Initial (o : Orphan) (s : State) : Prop := s.stage = o.opening ∧ s.observed = false

/-! ## What a recovery owes -/

/-- What a done turn is owed. -/
def Orphan.Keeps (o : Orphan) (outcome : RecoveryOutcome) : Prop :=
  match o.phase with
  | .worker => outcome.kind = .adopted
  | .judge => outcome.kind = .adopted ∨ outcome.kind = .rejudge

/-- What holds when a call has returned. -/
def Adopts (o : Orphan) (s : State) : Prop :=
  ∀ outcome, s.stage = .returned outcome →
    s.owned = false ∧ (s.observed = true → o.Keeps outcome) ∧ (o.closedLate = true → outcome.kind ≠ .adopted)

/-- The transcript read with the recorded exit, or a persisted result, still shows the turn. -/
def Orphan.showsTurn (o : Orphan) (s : State) : Bool :=
  let closed := o.readClosed s.transcript
  match o.phase with
  | .worker => Orphan.isDone closed || (!Orphan.isExhausted closed && (o.persisted s.canonical).isSome)
  | .judge => !Orphan.isExhausted closed

/-- The transcript, or where it is neither done nor exhausted a persisted result, holds a verdict. -/
def Orphan.hasVerdict (o : Orphan) (s : State) : Bool :=
  match o.readClosed s.transcript with
  | none => o.persistedJudgeResult.isSome
  | some envelope =>
    if envelope.status = .done then o.isVerdict (envelope.result.getD "")
    else decide (envelope.status ≠ .exhausted) && o.persistedJudgeResult.isSome

/-- What is left of the turn where the poll has found the process gone. -/
def Orphan.Polled (o : Orphan) (s : State) : Prop :=
  (o.invocation.closedAt = .null → (o.persisted s.canonical).isSome = true) ∧
    (o.invocation.closedAt ≠ .null → o.phase = .judge → o.showsTurn s = true)

instance (o : Orphan) (s : State) : Decidable (o.Polled s) := inferInstanceAs (Decidable (_ ∧ _))

/-- What is left of it where a record of its close is read. -/
def Orphan.Closed (o : Orphan) (s : State) : Prop :=
  o.invocation.closedAt ≠ .null ∧ o.closedLate = false ∧ o.showsTurn s = true

instance (o : Orphan) (s : State) : Decidable (o.Closed s) := inferInstanceAs (Decidable (_ ∧ _))

def Stage.isLate : Stage → Bool
  | .stopping (.late _) => true
  | _ => false

/-- When a call finds the process gone in time its turn is still shown by a record that says it closed in time, or, of
an unclosed record, by a persisted result the poll reaches; the clock is read in time too; a process whose record says
it closed late is not found gone in time, and no verdict is left of such a judge; and a termination signals what is
there. -/
structure Recorded (o : Orphan) (s : State) (label : Label) : Prop where
  signals : label = .unsignaled → s.owned = false
  ends : label = .go ∨ label = .unsignaled → s.stage.isLate = true → s.inTime o = true → s.owes o = false
  reads : label = .go → s.stage = .leftClock → s.observed = true → s.inTime o = true
  polled : label = .go → s.stage = .leftDecide false → s.observed = true → o.Polled s
  unjudged : label = .go → s.stage = .leftDecide false → o.phase = .judge → o.closedLate = true → o.hasVerdict s = false
  closed : label = .go → s.stage = .closedDecide → s.observed = true → o.Closed s

theorem recorded_iff {o : Orphan} {s : State} {label : Label} :
    Recorded o s label ↔
      (label = .unsignaled → s.owned = false) ∧
      (label = .go ∨ label = .unsignaled → s.stage.isLate = true → s.inTime o = true → s.owes o = false) ∧
      (label = .go → s.stage = .leftClock → s.observed = true → s.inTime o = true) ∧
      (label = .go → s.stage = .leftDecide false → s.observed = true → o.Polled s) ∧
      (label = .go → s.stage = .leftDecide false → o.phase = .judge → o.closedLate = true → o.hasVerdict s = false) ∧
      (label = .go → s.stage = .closedDecide → s.observed = true → o.Closed s) :=
  ⟨fun ⟨signals, ends, reads, polled, unjudged, closed⟩ => ⟨signals, ends, reads, polled, unjudged, closed⟩,
    fun ⟨signals, ends, reads, polled, unjudged, closed⟩ => ⟨signals, ends, reads, polled, unjudged, closed⟩⟩

set_option synthInstance.maxSize 400 in
instance (o : Orphan) : DecidableRel (Recorded o) := fun _ _ => decidable_of_iff' _ recorded_iff

end Faberun.Recover
