import Faberun.Machine.Core
import Faberun.Model.Engine.Backoff

/-! # The routes of a node

What the engine does with the decisions about one node: it dispatches a role on the runtime its routing names, settles an
unusable invocation onto the route it earned, and opens the next revision or generation. The machine is a node's life, with
the routes it was given written down beside it.
-/

namespace Faberun.Backoff

open Routing (Clock isRuntimeAvailable)
open JudgeList (JudgeListState Surroundings nextListJudge)

/-! ## Dispatch -/

/-- `admitsAffinity`. -/
def admitsAffinity (contract : RouteContract) (clock : Clock) (state : RouteState) (role : RouteRole) (candidate : String) : Bool :=
  match contract.runtimes.get? candidate with
  | none => false
  | some runtime =>
    ((state.routing.availability candidate).all fun availability => isRuntimeAvailable clock (some availability)) &&
      (decide (role ≠ .judge) ||
        ((nonempty? ((previousAttemptRuntimeId state .worker).or (state.routing.assignments.map (·.worker)))).bind
          contract.runtimes.get?).all fun worker => decide (effectiveProvider runtime ≠ effectiveProvider worker))

/-- `state.routing?.assignments?.[role]`. -/
def assignedRuntime (state : RouteState) : RouteRole → Option String
  | .worker => state.routing.assignments.map (·.worker)
  | .judge => state.routing.assignments.map (·.judge)

/-- `routeRuntime`, of a node without routing. -/
def routeRuntime (contract : RouteContract) (node : RouteNode) : RouteRole → Option String
  | .worker => node.runtime.or contract.runtimeDefaults.worker
  | .judge => node.gateRuntime.or contract.runtimeDefaults.judge

/-- A text that names a runtime of the contract. -/
def declared? (contract : RouteContract) (id : Option String) : Option String :=
  id.filter fun id => (contract.runtimes.get? id).isSome

/-- The runtime the override names for the role. -/
def overriddenRuntime (contract : RouteContract) (state : RouteState) (role : RouteRole) : Option String :=
  declared? contract ((state.routing.currentOverride.filter fun override => override.role = role).map (·.runtime))

/-- `routeRuntimeForState`; a node nothing routes to a runtime of the contract is refused. -/
def routeRuntimeForState (contract : RouteContract) (node : RouteNode) (clock : Clock) (state : RouteState) (role : RouteRole) :
    Option String :=
  (overriddenRuntime contract state role).or
    (((previousAttemptRuntimeId state role).filter (admitsAffinity contract clock state role)).or
      ((declared? contract (nonempty? (assignedRuntime state role))).or
        (declared? contract (nonempty? (routeRuntime contract node role)))))

/-- A dispatch: the invocation of a role on a runtime, in the node's revision and generation. The first worker starts the clock of
the node. -/
def dispatch (host : RouteHost) (clock : Clock) (state : RouteState) (role : RouteRole) (runtimeId : String) : RouteState :=
  { state with
    startedAt := if role = .worker then state.startedAt.or (some (host.toIso clock.now)) else state.startedAt
    status := .running
    phase := role
    runtimeId := some runtimeId
    invocations := state.invocations ++
      [⟨role, some state.revisions, some (state.routing.tierExhaustionCycle.getD 0), runtimeId⟩] }

/-! ## Settlement -/

/-- `clearTierExhaustion`. -/
def clearTierExhaustion (state : RouteState) : RouteState :=
  { state with routing := { state.routing with tierExhaustion := none } }

/-- `sourceWorkerRuntime`. -/
def sourceWorkerRuntime (state : RouteState) : Option String :=
  (previousAttemptRuntimeId state .worker).or state.runtimeId

/-- `contract.runtimes[id]?.vendor`, when it is a text. -/
def vendorOf (runtimes : Catalogue) (id : String) : Option String := nonempty? ((runtimes.get? id).bind Runtime.vendor)

/-- `judgeFallbackVendorConflict`. -/
def judgeFallbackVendorConflict (runtimes : Catalogue) (workerRuntimeId : Option String) (nextRuntimeId : String) :
    Option RouteError :=
  (nonempty? workerRuntimeId).bind fun workerId =>
    (vendorOf runtimes workerId).bind fun workerVendor =>
      if vendorOf runtimes nextRuntimeId = some workerVendor then
        some ⟨"judge_fallback_vendor_conflict",
          s!"judge fallback runtime {nextRuntimeId} shares vendor {workerVendor} with worker runtime {workerId}"⟩
      else none

/-- A route a node was given. -/
structure AppliedRoute where
  role : RouteRole
  revision : Nat
  schedule : Transition
  current : String
  nextRuntime : String
  hop : Nat
  deriving DecidableEq

/-- What settling an unusable invocation came to. -/
inductive Settled where
  /-- The run's own failure, which never fails over. -/
  | ownFailure (after : RouteState)
  /-- Nowhere to route it, and the caller settles it. -/
  | unrouted
  | blocked (after : RouteState)
  | routed (after : RouteState) (route : AppliedRoute)

/-- A node stopped with an error. -/
def stopWith (state : RouteState) (status : NodeStatus) (role : RouteRole) (error : RouteError) (routing : RoutingState) : RouteState :=
  { state with status, phase := role, error := some error, routing }

/-- `applyRoute`. -/
def applyRoute (host : RouteHost) (state : RouteState) (role : RouteRole) (error : RouteError) (current : String) (plan : RoutePlan)
    (schedule : Transition) (status : String) (now : Int) : RouteState :=
  { state with
    status := .pending
    phase := role
    runtimeId := some plan.nextRuntime
    error := none
    routing := buildRouting host state.routing role error current plan schedule status now }

/-- The failure an unusable invocation reports. -/
def reportedError (envelope : RouteEnvelope) : RouteError :=
  envelope.error.getD ⟨"provider_exhausted", "provider exhausted"⟩

/-- A judge's hop would land on the vendor of the worker it reviews. -/
def vendorConflict (contract : RouteContract) (state : RouteState) (role : RouteRole) (current nextRuntime : String) :
    Option RouteError :=
  if role = .judge ∧ nextRuntime ≠ current then
    judgeFallbackVendorConflict contract.runtimes (sourceWorkerRuntime state) nextRuntime
  else none

/-- What a blocked plan leaves. -/
def blockedState (state : RouteState) (role : RouteRole) (current : String) (exhaustedUntil : Option String)
    (judgeListState : Option JudgeListState) (refusal : RouteError) : RouteState :=
  if refusal.code = "runtime_tier_exhausted" then
    stopWith state .blocked role refusal
      { state.routing with
        tierExhaustion := some (upsertTierExhaustionCandidate state.routing.tierExhaustion role current exhaustedUntil)
        judgeList := judgeListState.or state.routing.judgeList }
  else
    stopWith state .exhausted role refusal
      { state.routing with tierExhaustion := none, judgeList := judgeListState.or state.routing.judgeList }

/-- What `handleProviderExhaustion` makes of a schedule and a judge list resolved for it. -/
def settleRoute (host : RouteHost) (contract : RouteContract) (clock : Clock) (state : RouteState) (role : RouteRole)
    (envelope : RouteEnvelope) (current : String) (schedule : Transition) (precomputed : Bool)
    (judgeListState : Option JudgeListState) : Settled :=
  let error := reportedError envelope
  let plan := planRoute contract.runtimes clock state role error current schedule envelope.exhaustedUntil judgeListState
  match plan.blocked with
  | some refusal =>
    if precomputed then .unrouted
    else .blocked (blockedState state role current envelope.exhaustedUntil judgeListState refusal)
  | none =>
    match vendorConflict contract state role current plan.nextRuntime with
    | some conflict =>
      if precomputed then .unrouted
      else .blocked (stopWith state .blocked role conflict { state.routing with tierExhaustion := none })
    | none =>
      let status := if envelope.status = "failed" then "failed" else "exhausted"
      .routed (applyRoute host state role error current plan schedule status clock.now)
        ⟨role, state.revisions, schedule, current, plan.nextRuntime, plan.hop⟩

/-- The judge list after a hop out of its choice, where a list governs the role. -/
def hoppedJudgeList (host : RouteHost) (contract : RouteContract) (machine : Surroundings) (state : RouteState) (role : RouteRole)
    (current : String) (schedule : Transition) : Except Refusal (Option JudgeListState) :=
  match role, schedule, state.routing.judgeList with
  | .judge, .failover _, some judgeList =>
    (nextListJudge host.executable contract.runtimes machine judgeList
      (((sourceWorkerRuntime state).or (state.routing.assignments.map (·.worker))).getD current)).map some
  | _, _, _ => .ok none

/-- `handleProviderExhaustion`. -/
def handleProviderExhaustion (host : RouteHost) (contract : RouteContract) (node : RouteNode) (machine : Surroundings)
    (state : RouteState) (role : RouteRole) (envelope : RouteEnvelope) (current : String) (random : Rat)
    (precomputed : Option Transition) : Except Refusal Settled :=
  let error := reportedError envelope
  if nonFailoverCodes.contains error.code then
    .ok (.ownFailure (stopWith state .exhausted role error { state.routing with tierExhaustion := none }))
  else
    (precomputed.elim (nodeTransition host machine.clock contract node state role envelope none random) .ok).bind fun schedule =>
      (hoppedJudgeList host contract machine state role current schedule).map fun judgeListState =>
        settleRoute host contract machine.clock state role envelope current schedule precomputed.isSome judgeListState

/-! ## A node's life -/

/-- What brought an unusable invocation to its settlement. -/
inductive Cause where
  /-- The provider is exhausted. -/
  | exhausted
  /-- The invocation failed, with an exit code. -/
  | failed (exitCode : Option Int)
  /-- The worker could not hold the result protocol. -/
  | protocol

/-- An unusable invocation, and what its settlement finds. -/
structure Unusable where
  cause : Cause
  envelope : RouteEnvelope
  machine : Surroundings
  random : Rat

inductive RouteEvent where
  | dispatch (role : RouteRole) (clock : Clock)
  | unusable (event : Unusable)
  /-- Any other end of the invocation, or none; some of them forget the tier evidence. -/
  | closed (status : NodeStatus) (error : Option RouteError) (clears : Bool)
  /-- A rejection that opens the next revision. -/
  | revise
  /-- A resume, which opens the next generation of a node whose tier was exhausted. -/
  | resume

/-- A node, the runtime its invocation runs on, and every route it was given. -/
structure NodeLife where
  state : RouteState
  running : Option (RouteRole × String)
  routes : List AppliedRoute

/-- `tierExhaustionRestart`. -/
def tierExhaustionRestart (state : RouteState) : RouteState :=
  if state.status = .blocked ∧ state.error.map (·.code) = some "runtime_tier_exhausted" then
    { state with
      routing := { state.routing with
        tierExhaustionCycle := some (state.routing.tierExhaustionCycle.getD 0 + 1)
        tierExhaustion := some ⟨state.phase, []⟩ } }
  else state

/-- The state a settlement routes: `applyInvalidWorkerResult` forgets the tier evidence before it asks for a route. -/
def settledState (state : RouteState) : Cause → RouteState
  | .exhausted | .failed _ => state
  | .protocol => clearTierExhaustion state

/-- The transition a caller of `handleProviderExhaustion` passes; a failure the network did not cause is not passed on, and only
a worker owes the result protocol. -/
def precomputedTransition (host : RouteHost) (contract : RouteContract) (node : RouteNode) (state : RouteState) (role : RouteRole)
    (event : Unusable) : Except Refusal (Option (Option Transition)) :=
  match event.cause with
  | .exhausted => .ok (some none)
  | .failed exitCode =>
    (networkTransition host event.machine.clock contract node state role event.envelope exitCode event.random).map (·.map some)
  | .protocol => .ok (if role = .worker then some (some (.failover .protocolFailure)) else none)

/-- The settlement of an unusable invocation; one that throws, or asks for no route, is none. -/
def settleUnusable (host : RouteHost) (contract : RouteContract) (node : RouteNode) (state : RouteState) (role : RouteRole)
    (current : String) (event : Unusable) : Option Settled :=
  let state := settledState state event.cause
  ((precomputedTransition host contract node state role event).toOption.bind id).bind fun precomputed =>
    (handleProviderExhaustion host contract node event.machine state role event.envelope current event.random
      precomputed).toOption

/-- The life after a settlement. -/
def NodeLife.settle (life : NodeLife) : Settled → NodeLife
  | .ownFailure after => ⟨after, none, life.routes⟩
  | .unrouted => ⟨clearTierExhaustion life.state, none, life.routes⟩
  | .blocked after => ⟨after, none, life.routes⟩
  | .routed after route => ⟨after, none, life.routes ++ [route]⟩

section

variable (host : RouteHost) (contract : RouteContract) (node : RouteNode)

/-- One event of a node's life. -/
def routeStep (life : NodeLife) : RouteEvent → Option NodeLife
  | .dispatch role clock =>
    if life.running = none then
      (routeRuntimeForState contract node clock life.state role).map fun runtimeId =>
        ⟨dispatch host clock life.state role runtimeId, some (role, runtimeId), life.routes⟩
    else none
  | .unusable event =>
    life.running.bind fun job => (settleUnusable host contract node life.state job.1 job.2 event).map life.settle
  | .closed status error clears =>
    let state := { life.state with status, error }
    some ⟨if clears then clearTierExhaustion state else state, none, life.routes⟩
  | .revise =>
    some ⟨{ life.state with
      revisions := life.state.revisions + 1
      routing := { life.state.routing with currentOverride := none } }, none, life.routes⟩
  | .resume => some ⟨tierExhaustionRestart life.state, none, life.routes⟩

def routeMachine : Machine NodeLife RouteEvent where
  step := routeStep host contract node

end

/-- A node before its first dispatch. -/
def FreshNode (life : NodeLife) : Prop :=
  life.running = none ∧ life.routes = [] ∧ life.state.revisions = 0 ∧ life.state.invocations = [] ∧
    life.state.routing.history = [] ∧ life.state.routing.currentOverride = none

end Faberun.Backoff
