import Mathlib.Algebra.Order.Ring.Unbundled.Rat
import Faberun.Machine.Window
import Faberun.Model.Contract.Status
import Faberun.Model.Engine.JudgeList

/-! # How a transient failure becomes a route

The decisions of `engine/backoff.mjs` and `engine/failover.mjs` on a node snapshot: the wait or the edge an unusable
invocation earns, the route it becomes and the records the node keeps of it. Instants are milliseconds; the expressions that
recognize a transport failure in a message, and what a harness makes of an envelope, are parameters.
-/

namespace Faberun.Backoff

open Routing (Clock Availability isRuntimeAvailable runtimeOrder)
open JudgeList (JudgeListState)

inductive RouteRole where
  | worker
  | judge
  deriving DecidableEq, Repr

def RouteRole.name : RouteRole → String
  | .worker => "worker"
  | .judge => "judge"

structure RouteError where
  code : String
  message : String
  deriving DecidableEq

inductive TransitionReason where
  | quotaReset
  | networkBackoff
  | protocolFailure
  | provider
  deriving DecidableEq

/-- What an unusable invocation earns. -/
inductive Transition where
  | reset (wakeAt : Int) (reason : TransitionReason)
  | failover (reason : TransitionReason)
  deriving DecidableEq

/-! ## What a node keeps -/

/-- An entry of the routing history. -/
structure RoutingHistoryEntry where
  recordedAt : Int
  role : RouteRole
  runtime : String
  nextRuntime : Option String
  revision : Option Nat
  hop : Option Nat
  backoffSec : Rat
  backoffUntil : Int
  status : String
  errorCode : Option String
  deriving DecidableEq

structure RoutingOverride where
  recordedAt : Int
  role : RouteRole
  runtime : String
  nextRuntime : Option String
  revision : Option Nat
  hop : Option Nat
  backoffSec : Rat
  backoffUntil : Int
  reason : String
  deriving DecidableEq

structure RuntimeAssignments where
  worker : String
  judge : String
  composedWorker : Bool
  composedJudge : Bool
  deriving DecidableEq

structure TierExhaustionCandidate where
  runtimeId : String
  exhaustedUntil : Option String
  deriving DecidableEq

structure TierExhaustion where
  role : RouteRole
  candidates : List TierExhaustionCandidate
  deriving DecidableEq

structure RoutingState where
  history : List RoutingHistoryEntry
  currentOverride : Option RoutingOverride
  assignments : Option RuntimeAssignments
  availability : String → Option Availability
  tierExhaustion : Option TierExhaustion
  tierExhaustionCycle : Option Nat
  judgeList : Option JudgeListState

/-- What the decisions read of an invocation. -/
structure RoutedInvocation where
  phase : RouteRole
  revision : Option Nat
  cycle : Option Nat
  runtimeId : String
  deriving DecidableEq

/-- What they read of a node snapshot. -/
structure RouteState where
  revisions : Nat
  startedAt : Option String
  /-- The `timeoutSec` of the execution overrides that set one; no command records one any more. -/
  timeouts : List Rat
  /-- `state.runtime?.id`. -/
  runtimeId : Option String
  status : NodeStatus
  phase : RouteRole
  error : Option RouteError
  routing : RoutingState
  invocations : List RoutedInvocation

/-- What they read of the contract. -/
structure RouteContract where
  runtimes : Catalogue
  runtimeDefaults : RoleMap
  timeoutSec : Rat

/-- What they read of the node. -/
structure RouteNode where
  runtime : Option String
  gateRuntime : Option String
  timeoutSec : Option Rat

/-- An instant as a provider writes it. -/
inductive Instant where
  | number (value : Rat)
  | text (value : String)

/-- The provider envelope of an unusable invocation. -/
structure RouteEnvelope where
  status : String
  error : Option RouteError
  /-- `resetAt` of the envelope, or of its error. -/
  resetAt : Option Instant
  /-- `exhaustedUntilOf`. -/
  exhaustedUntil : Option String

/-- What is fixed outside a node: the harness adapters, how an instant is written and which messages name the network. -/
structure RouteHost where
  executable : Runtime → Except Refusal String
  toIso : Int → String
  networkMessage : String → Bool

/-! ## Waits -/

/-- `NON_FAILOVER_CODES`. -/
def nonFailoverCodes : List String :=
  ["revision_cap", "verification_failed", "budget_exceeded", "cancellation", "unexpected_write", "scope_violation",
    "permission_denied", "permission_required", "authority_denied", "authority_required", "authorization_required",
    "authentication_failed", "budget_attention", "cost_budget_exceeded", "token_budget_exceeded",
    "rollout_budget_exhausted"]

/-- `NETWORK_MAX_ATTEMPTS`. -/
def networkMaxAttempts : Nat := 3

/-- `NETWORK_BACKOFF_BASE_MS`. -/
def networkBackoffBaseMs : Nat := 1000

/-- `NETWORK_BACKOFF_CAP_MS`. -/
def networkBackoffCapMs : Nat := 120000

/-- `NODE_DEADLINE_CODES`. -/
def nodeDeadlineCodes : List String :=
  ["wall_clock_timeout", "progress_stalled", "stall_timeout", "progress_snapshot_invalid", "token_budget_exceeded",
    "budget_exceeded", "cancellation"]

/-- `NETWORK_CODES`. -/
def networkCodes : List String :=
  ["ECONNRESET", "ECONNREFUSED", "ECONNABORTED", "EPIPE", "ETIMEDOUT", "ENOTFOUND", "EAI_AGAIN", "ENETDOWN",
    "ENETUNREACH", "EHOSTUNREACH", "EPROTO", "UND_ERR_SOCKET", "network_error", "provider_unreachable",
    "service_unavailable", "gateway_timeout", "STREAM_CLOSED"]

/-- `TRANSIENT_EXIT_CODES`. -/
def transientExitCodes : List Int := [7, 28, 35, 52, 56, 75, 124]

def errorText (error : Option RouteError) : String := (error.map (·.code)).getD ""

def isTimeoutOrStall (error : Option RouteError) : Bool := nodeDeadlineCodes.contains (errorText error)

def isNetworkFailure (host : RouteHost) (error : Option RouteError) (exitCode : Option Int) : Bool :=
  if isTimeoutOrStall error then false
  else if nonFailoverCodes.contains (errorText error) then false
  else if networkCodes.contains (errorText error) then true
  else
    let message := (error.map (·.message)).getD ""
    if message ≠ "" && host.networkMessage message then true
    else exitCode.any transientExitCodes.contains

/-- `backoffDelayMs`. -/
def backoffDelayMs (attempt : Nat) (random : Rat) : Int :=
  let window : Rat := min networkBackoffCapMs (networkBackoffBaseMs * 2 ^ attempt)
  (window / 2 + random * (window / 2) + 1 / 2).floor

/-- `NETWORK_BACKOFF_CODE`, with the mark that ends it. -/
def networkBackoffMark : String := "network_backoff:"

/-- `networkBackoffErrorCode`. -/
def networkBackoffErrorCode (code : String) : String := networkBackoffMark ++ code

/-- An entry that `networkBackoffAttempts` counts. -/
def isNetworkWait (role : RouteRole) (revision : Nat) (entry : RoutingHistoryEntry) : Bool :=
  decide (entry.role = role) && decide (entry.revision.getD 0 = revision) &&
    networkBackoffMark.toList.isPrefixOf (entry.errorCode.getD "").toList

/-- `networkBackoffAttempts`. -/
def networkBackoffAttempts (state : RouteState) (role : RouteRole) (revision : Nat) : Nat :=
  (state.routing.history.filter (isNetworkWait role revision)).length

/-- `epochMs`. -/
def epochMs (clock : Clock) : Instant → Option Rat
  | .number value => some value
  | .text value => (clock.parse value).map fun time => (time : Rat)

/-- The last millisecond of a `Date`, counted from the epoch. -/
def maxDateMs : Rat := 8640000000000000

/-- `new Date(time).toISOString()`, kept as whole milliseconds; a time no `Date` holds is a `RangeError`. -/
def dateMs (time : Rat) : Except Refusal Int :=
  if time < -maxDateMs ∨ maxDateMs < time then .error ⟨none, "Invalid time value"⟩
  else .ok (Int.tdiv time.num time.den)

/-- `quotaResetSchedule`: the instant of a reset between now and the deadline. -/
def quotaResetSchedule (clock : Clock) (envelope : RouteEnvelope) (deadline : Option Int) : Except Refusal (Option Int) :=
  match envelope.resetAt.bind (epochMs clock) with
  | none => .ok none
  | some resetAt =>
    if resetAt ≤ clock.now then .ok none
    else if deadline.any fun deadlineMs => (deadlineMs : Rat) ≤ resetAt then .ok none
    else (dateMs resetAt).map some

/-- `classifyTransition`. -/
def classifyTransition (host : RouteHost) (clock : Clock) (envelope : RouteEnvelope) (deadline : Option Int)
    (exitCode : Option Int) (attempt : Nat) (random : Rat) : Except Refusal Transition :=
  (quotaResetSchedule clock envelope deadline).bind fun
  | some resetAt => .ok (.reset resetAt .quotaReset)
  | none =>
    if isNetworkFailure host envelope.error exitCode = false then .ok (.failover .provider)
    else if networkMaxAttempts ≤ attempt then .ok (.failover .networkBackoff)
    else
      let wakeAt := clock.now + backoffDelayMs attempt random
      if deadline.any fun deadlineMs => deadlineMs ≤ wakeAt then .ok (.failover .networkBackoff)
      else (dateMs wakeAt).map fun wakeAt => .reset wakeAt .networkBackoff

/-- `nodeDeadlineAt`. -/
def nodeDeadlineAt (clock : Clock) (contract : RouteContract) (node : RouteNode) (state : RouteState) : Except Refusal (Option Int) :=
  match (nonempty? state.startedAt).bind clock.parse with
  | none => .ok none
  | some startedAt =>
    (dateMs ((startedAt : Rat) + state.timeouts.getLast?.getD (node.timeoutSec.getD contract.timeoutSec) * 1000)).map some

/-- `classifyTransition`, asked with the deadline of the node and the network waits of the role. -/
def nodeTransition (host : RouteHost) (clock : Clock) (contract : RouteContract) (node : RouteNode) (state : RouteState)
    (role : RouteRole) (envelope : RouteEnvelope) (exitCode : Option Int) (random : Rat) : Except Refusal Transition :=
  (nodeDeadlineAt clock contract node state).bind fun deadline =>
    classifyTransition host clock envelope deadline exitCode (networkBackoffAttempts state role state.revisions) random

def Transition.reason : Transition → TransitionReason
  | .reset _ reason => reason
  | .failover reason => reason

/-- `networkTransition`. -/
def networkTransition (host : RouteHost) (clock : Clock) (contract : RouteContract) (node : RouteNode) (state : RouteState)
    (role : RouteRole) (envelope : RouteEnvelope) (exitCode : Option Int) (random : Rat) : Except Refusal (Option Transition) :=
  (nodeTransition host clock contract node state role envelope exitCode random).map fun transition =>
    if transition.reason = .networkBackoff then some transition else none

/-! ## Edges -/

/-- `upsertTierExhaustionCandidate`. -/
def upsertTierExhaustionCandidate (existing : Option TierExhaustion) (role : RouteRole) (runtimeId : String)
    (exhaustedUntil : Option String) : TierExhaustion :=
  let candidates := (existing.filter fun exhaustion => exhaustion.role = role).elim [] TierExhaustion.candidates
  let entry : TierExhaustionCandidate := ⟨runtimeId, exhaustedUntil⟩
  match candidates.findIdx? fun candidate => candidate.runtimeId = runtimeId with
  | none => ⟨role, candidates ++ [entry]⟩
  | some index => ⟨role, candidates.set index entry⟩

/-- `synthesizedChain`. -/
def synthesizedChain (runtimes : Catalogue) (current : String) : List String :=
  (nonempty? ((runtimes.get? current).bind Runtime.fallback)).toList

/-- `nextSynthesizedRuntime`. -/
def nextSynthesizedRuntime (runtimes : Catalogue) (current : String) (attempted : List String) : Option String :=
  (synthesizedChain runtimes current).find? fun id => !attempted.contains id

/-- `sameTier`. -/
def sameTier (left right : Runtime) : Bool :=
  if left.tier.isSome || right.tier.isSome then decide (left.tier = right.tier)
  else decide (runtimeOrder left = runtimeOrder right)

/-- A candidate of `nextSameTierRuntime`. -/
def sameTierCandidate (runtimes : Catalogue) (clock : Clock) (availability : String → Option Availability)
    (workerId : Option String) (role : RouteRole) (current : String) (currentRuntime : Runtime) (attempted : List String)
    (entry : String × Runtime) : Bool :=
  decide (entry.1 ≠ current) && !attempted.contains entry.1 && sameTier entry.2 currentRuntime &&
    isRuntimeAvailable clock (availability entry.1) &&
    (decide (role ≠ .judge) || ((nonempty? workerId).bind runtimes.get?).all fun worker =>
      decide (effectiveProvider entry.2 ≠ effectiveProvider worker))

/-- `nextSameTierRuntime`. -/
def nextSameTierRuntime (runtimes : Catalogue) (clock : Clock) (availability : String → Option Availability)
    (workerId : Option String) (role : RouteRole) (current : String) (attempted : List String) : Option String :=
  (runtimes.get? current).bind fun currentRuntime =>
    (((runtimes.entries.filter
      (sameTierCandidate runtimes clock availability workerId role current currentRuntime attempted)).insertionSort
        fun left right => runtimeOrder left.2 ≤ runtimeOrder right.2).map (·.1)).head?

/-- The hops the history records of a role in a revision. -/
def recordedHops (history : List RoutingHistoryEntry) (role : RouteRole) (revision : Nat) : List Nat :=
  (history.filter fun entry => decide (entry.role = role) && decide (entry.revision.getD revision = revision)).map
    fun entry => entry.hop.getD 0

/-- The hop number of the role before this exhaustion. -/
def previousHop (routing : RoutingState) (role : RouteRole) (revision : Nat) : Nat :=
  match routing.currentOverride.filter fun override => decide (override.role = role) &&
      decide (override.revision.getD revision = revision) with
  | some override => override.hop.getD 0
  | none => (recordedHops routing.history role revision).foldl max 0

/-- `nextHop`. -/
def nextHop (routing : RoutingState) (role : RouteRole) (revision : Nat) : Transition → Nat
  | .reset _ _ => previousHop routing role revision
  | .failover _ => previousHop routing role revision + 1

/-! ## Routes -/

/-- What `planRoute` answers. -/
structure RoutePlan where
  blocked : Option RouteError
  nextRuntime : String
  revision : Nat
  hop : Nat
  backoffSec : Rat
  backoffUntil : Int
  composed : Bool
  tierExhaustion : Option TierExhaustion
  judgeList : Option JudgeListState

/-- The runtimes the role ran in this revision and generation. -/
def attemptedRuntimes (state : RouteState) (role : RouteRole) : List String :=
  (state.invocations.filter fun invocation => decide (invocation.phase = role) &&
    invocation.revision.all (fun revision => decide (revision = state.revisions)) &&
    decide (invocation.cycle.getD 0 = state.routing.tierExhaustionCycle.getD 0)).map (·.runtimeId)

/-- `previousAttemptRuntimeId`. -/
def previousAttemptRuntimeId (state : RouteState) (role : RouteRole) : Option String :=
  (state.invocations.reverse.find? fun invocation => invocation.phase = role).map (·.runtimeId)

/-- The role's assignment was composed. -/
def composedAssignment (state : RouteState) : RouteRole → Bool
  | .worker => state.routing.assignments.any (·.composedWorker)
  | .judge => state.routing.assignments.any (·.composedJudge)

/-- An entry of the history took the fallback its runtime declares. -/
def explicitFallback (runtimes : Catalogue) (role : RouteRole) (entry : RoutingHistoryEntry) : Bool :=
  decide (entry.role = role) && (nonempty? entry.nextRuntime).any fun next =>
    decide ((runtimes.get? entry.runtime).bind Runtime.fallback = some next)

/-- The role is routed within its tier. -/
def dynamicComposed (runtimes : Catalogue) (state : RouteState) (role : RouteRole) (current : String) : Bool :=
  composedAssignment state role && ((runtimes.get? current).bind Runtime.fallback).isNone &&
    !state.routing.history.any (explicitFallback runtimes role)

/-- The worker a judge's candidates are compared with. -/
def comparedWorker (state : RouteState) : Option String :=
  state.routing.assignments.map fun assignments =>
    (nonempty? (previousAttemptRuntimeId state .worker)).getD assignments.worker

/-- The edge that is left, when one is. -/
def nextEdge (runtimes : Catalogue) (clock : Clock) (state : RouteState) (role : RouteRole) (current : String)
    (judgeListState : Option JudgeListState) : Option String :=
  match judgeListState with
  | some judgeList => judgeList.chosen
  | none =>
    (nextSynthesizedRuntime runtimes current (attemptedRuntimes state role)).or
      (if dynamicComposed runtimes state role current then
        nextSameTierRuntime runtimes clock state.routing.availability (comparedWorker state) role current
          (attemptedRuntimes state role)
      else none)

def tierText (clock : Clock) : Option RuntimeTier → String
  | none => "unknown"
  | some (.number value) => clock.showNumber value
  | some (.name label) => label

/-- Why no edge is taken. -/
def blockedRoute (runtimes : Catalogue) (clock : Clock) (state : RouteState) (role : RouteRole) (error : RouteError)
    (current : String) (fallback : Option String) (hop : Nat) (listGoverned : Bool) : Option RouteError :=
  let attempted := attemptedRuntimes state role
  let dynamic := dynamicComposed runtimes state role current
  if fallback = none then
    if listGoverned then
      some ⟨"judge_list_exhausted", s!"no eligible entry remains in the judge list for {role.name}"⟩
    else match (synthesizedChain runtimes current).head?.filter attempted.contains with
      | some candidate =>
        some ⟨"provider_failover_cycle",
          s!"runtime {candidate} was already attempted in {role.name} revision {state.revisions}"⟩
      | none =>
        if dynamic then
          some ⟨"runtime_tier_exhausted",
            s!"no available runtime remains in tier {tierText clock ((runtimes.get? current).bind Runtime.tier)} for {role.name}"⟩
        else some error
  else if 1 < hop && !(dynamic || listGoverned) then
    some ⟨"provider_failover_hop_cap", "provider failover exceeded the one-hop cap"⟩
  else none

/-- `planRoute`. -/
def planRoute (runtimes : Catalogue) (clock : Clock) (state : RouteState) (role : RouteRole) (error : RouteError)
    (current : String) (schedule : Transition) (exhaustedUntil : Option String) (judgeListState : Option JudgeListState) :
    RoutePlan :=
  let fallback := nextEdge runtimes clock state role current judgeListState
  let hop := nextHop state.routing role state.revisions schedule
  let route (blocked : Option RouteError) (nextRuntime : String) (backoffSec : Rat) (backoffUntil : Int) : RoutePlan :=
    { blocked, nextRuntime, hop, backoffSec, backoffUntil
      revision := state.revisions
      composed := composedAssignment state role
      tierExhaustion :=
        if dynamicComposed runtimes state role current then
          some (upsertTierExhaustionCandidate state.routing.tierExhaustion role current exhaustedUntil)
        else none
      judgeList := judgeListState }
  match schedule with
  | .reset wakeAt _ => route none current (max 0 (((wakeAt - clock.now : Int) : Rat) / 1000)) wakeAt
  | .failover _ =>
    route (blockedRoute runtimes clock state role error current fallback hop judgeListState.isSome) (fallback.getD current) 0
      clock.now

/-- `routeReason`. -/
def routeReason (host : RouteHost) (schedule : Transition) (role : RouteRole) (current : String) (error : RouteError) : String :=
  let held := s!"attempt-affinity held: {current} keeps the node's context for the retry"
  let yielded := s!"attempt-affinity yielded: {current} reported {error.code}"
  match schedule with
  | .reset wakeAt .quotaReset =>
    s!"{role.name} provider {current} quota resets at {host.toIso wakeAt}: {error.message}; {held}"
  | .reset wakeAt _ =>
    s!"{role.name} provider {current} hit a transient network failure, retrying at {host.toIso wakeAt}: {error.message}; {held}"
  | .failover .networkBackoff =>
    s!"{role.name} provider {current} kept failing on the network: {error.message}; {yielded}"
  | .failover .protocolFailure =>
    s!"{role.name} provider {current} could not hold the result protocol: {error.message}; {yielded}"
  | .failover _ => s!"{role.name} provider {current} exhausted: {error.message}; {yielded}"

/-- `MAX_ROUTING_HISTORY`. -/
def maxRoutingHistory : Nat := 64

/-- The code a route's history entry records. -/
def recordedErrorCode (schedule : Transition) (error : RouteError) : String :=
  match schedule with
  | .reset _ .networkBackoff => networkBackoffErrorCode error.code
  | _ => error.code

/-- The history entry of a route. -/
def historyEntry (role : RouteRole) (error : RouteError) (current : String) (plan : RoutePlan) (schedule : Transition)
    (status : String) (now : Int) : RoutingHistoryEntry where
  recordedAt := now
  role := role
  runtime := current
  nextRuntime := some plan.nextRuntime
  revision := some plan.revision
  hop := some plan.hop
  backoffSec := plan.backoffSec
  backoffUntil := plan.backoffUntil
  status := status
  errorCode := some (recordedErrorCode schedule error)

/-- `buildRouting`. -/
def buildRouting (host : RouteHost) (routing : RoutingState) (role : RouteRole) (error : RouteError) (current : String)
    (plan : RoutePlan) (schedule : Transition) (status : String) (now : Int) : RoutingState :=
  { routing with
    history := Window.lastOf maxRoutingHistory
      (routing.history ++ [historyEntry role error current plan schedule status now])
    currentOverride := some
      { recordedAt := now
        role
        runtime := plan.nextRuntime
        nextRuntime := some plan.nextRuntime
        revision := some plan.revision
        hop := some plan.hop
        backoffSec := plan.backoffSec
        backoffUntil := plan.backoffUntil
        reason := routeReason host schedule role current error }
    tierExhaustion := plan.tierExhaustion
    judgeList := plan.judgeList.or routing.judgeList }

end Faberun.Backoff
