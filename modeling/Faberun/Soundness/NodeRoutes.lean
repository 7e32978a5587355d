import Faberun.Model.Engine.NodeRoutes

/-! # What a node records of its routes

One inversion lemma for the events of a node's life, and the invariant every result about its routes rests on: the history is
the end of the list of all routes, and the override is the last route while its revision lasts.
-/

namespace Faberun.Backoff

open Routing (Clock)
open JudgeList (JudgeListState)

variable {host : RouteHost} {contract : RouteContract} {node : RouteNode} {life after : NodeLife}

/-! ## Steps -/

/-- A wait the network was granted. -/
def Transition.isNetworkWait : Transition → Bool
  | .reset _ .networkBackoff => true
  | _ => false

/-- What a node keeps of its routing when an invocation ends without a route. -/
structure Kept (before after : RouteState) : Prop where
  revisions : after.revisions = before.revisions
  history : after.routing.history = before.routing.history
  currentOverride : after.routing.currentOverride = before.routing.currentOverride
  assignments : after.routing.assignments = before.routing.assignments
  invocations : after.invocations = before.invocations

/-- The exit code the classification of an unusable invocation sees. -/
def Cause.exitCode : Cause → Option Int
  | .failed exitCode => exitCode
  | _ => none

/-- A route an unusable invocation earned, and what it becomes. -/
structure Earned (host : RouteHost) (contract : RouteContract) (state : RouteState) (role : RouteRole) (current : String)
    (event : Unusable) (schedule : Transition) (judgeListState : Option JudgeListState) (plan : RoutePlan) : Prop where
  hopped : hoppedJudgeList host contract event.machine state role current schedule = .ok judgeListState
  /-- A network wait is granted to a network failure while attempts are left. -/
  attempts : schedule.isNetworkWait = true → isNetworkFailure host event.envelope.error event.cause.exitCode = true ∧
    networkBackoffAttempts state role state.revisions < networkMaxAttempts
  planned : plan = planRoute contract.runtimes event.machine.clock state role (reportedError event.envelope) current schedule
    event.envelope.exhaustedUntil judgeListState
  free : plan.blocked = none

/-- The status a history entry records. -/
def routedStatus (event : Unusable) : String := if event.envelope.status = "failed" then "failed" else "exhausted"

/-- A node with other tier evidence. -/
def RouteState.withEvidence (state : RouteState) (evidence : Option TierExhaustion) : RouteState :=
  { state with routing := { state.routing with tierExhaustion := evidence } }

/-- The life after a route that was given on some tier evidence. -/
def routedLife (host : RouteHost) (life : NodeLife) (evidence : Option TierExhaustion) (role : RouteRole) (current : String)
    (event : Unusable) (schedule : Transition) (plan : RoutePlan) : NodeLife where
  state := applyRoute host (life.state.withEvidence evidence) role (reportedError event.envelope) current plan schedule
    (routedStatus event) event.machine.clock.now
  running := none
  routes := life.routes ++ [⟨role, life.state.revisions, schedule, current, plan.nextRuntime, plan.hop⟩]

/-- What an event can do. -/
inductive LifeStep (host : RouteHost) (contract : RouteContract) (node : RouteNode) (life : NodeLife) : RouteEvent → NodeLife → Prop
  | dispatched (role : RouteRole) (clock : Clock) (runtimeId : String) (idle : life.running = none)
      (routed : routeRuntimeForState contract node clock life.state role = some runtimeId) :
      LifeStep host contract node life (.dispatch role clock)
        ⟨dispatch host clock life.state role runtimeId, some (role, runtimeId), life.routes⟩
  | routed (event : Unusable) (role : RouteRole) (current : String) (schedule : Transition) (judgeListState : Option JudgeListState)
      (plan : RoutePlan) (evidence : Option TierExhaustion) (running : life.running = some (role, current))
      (found : life.state.withEvidence evidence = settledState life.state event.cause)
      (earned : Earned host contract (life.state.withEvidence evidence) role current event schedule judgeListState plan) :
      LifeStep host contract node life (.unusable event)
        (routedLife host life evidence role current event schedule plan)
  | stopped (event : RouteEvent) (state : RouteState) (kept : Kept life.state state) :
      LifeStep host contract node life event ⟨state, none, life.routes⟩
  | revised (state : RouteState) (opened : state.revisions = life.state.revisions + 1)
      (history : state.routing.history = life.state.routing.history) (fresh : state.routing.currentOverride = none)
      (assignments : state.routing.assignments = life.state.routing.assignments)
      (invocations : state.invocations = life.state.invocations) :
      LifeStep host contract node life .revise ⟨state, none, life.routes⟩

/-- A settlement finds the node, but for the tier evidence, as it was. -/
theorem exists_withEvidence (state : RouteState) (cause : Cause) : ∃ evidence, state.withEvidence evidence = settledState state cause := by
  cases cause with
  | exhausted | failed => exact ⟨state.routing.tierExhaustion, rfl⟩
  | protocol => exact ⟨none, rfl⟩

theorem classifyTransition_wait {clock : Clock} {envelope : RouteEnvelope} {deadline : Option Int} {exitCode : Option Int}
    {attempt : Nat} {random : Rat} {schedule : Transition}
    (classified : classifyTransition host clock envelope deadline exitCode attempt random = .ok schedule)
    (wait : schedule.isNetworkWait = true) :
    isNetworkFailure host envelope.error exitCode = true ∧ attempt < networkMaxAttempts := by
  rw [classifyTransition] at classified
  cases reset : quotaResetSchedule clock envelope deadline with
  | error refusal =>
    rw [reset] at classified
    cases classified
  | ok resetAt =>
    rw [reset] at classified
    cases resetAt with
    | some resetAt =>
      obtain rfl := Except.ok.inj classified
      cases wait
    | none =>
      simp only [Except.bind] at classified
      split_ifs at classified with provider spent late
      · obtain rfl := Except.ok.inj classified
        cases wait
      · obtain rfl := Except.ok.inj classified
        cases wait
      · obtain rfl := Except.ok.inj classified
        cases wait
      · exact ⟨by simpa using provider, by omega⟩

theorem Kept.refl (state : RouteState) : Kept state state := ⟨rfl, rfl, rfl, rfl, rfl⟩

private theorem nodeTransition_wait {clock : Clock} {state : RouteState} {role : RouteRole} {envelope : RouteEnvelope}
    {exitCode : Option Int} {random : Rat} {schedule : Transition}
    (classified : nodeTransition host clock contract node state role envelope exitCode random = .ok schedule)
    (wait : schedule.isNetworkWait = true) :
    isNetworkFailure host envelope.error exitCode = true ∧ networkBackoffAttempts state role state.revisions < networkMaxAttempts := by
  rw [nodeTransition] at classified
  cases deadline : nodeDeadlineAt clock contract node state with
  | error refusal =>
    rw [deadline] at classified
    cases classified
  | ok deadline' =>
    rw [deadline] at classified
    exact classifyTransition_wait classified wait

/-- The schedule of a settlement: its caller's, or the one it classifies. -/
def settledSchedule (host : RouteHost) (contract : RouteContract) (node : RouteNode) (state : RouteState) (role : RouteRole)
    (event : Unusable) (precomputed : Option Transition) : Except Refusal Transition :=
  precomputed.elim (nodeTransition host event.machine.clock contract node state role event.envelope none event.random) .ok

private theorem settledSchedule_wait {state : RouteState} {role : RouteRole} {event : Unusable} {precomputed : Option Transition}
    {schedule : Transition} (passed : precomputedTransition host contract node state role event = .ok (some precomputed))
    (classified : settledSchedule host contract node state role event precomputed = .ok schedule)
    (wait : schedule.isNetworkWait = true) : isNetworkFailure host event.envelope.error event.cause.exitCode = true ∧
      networkBackoffAttempts state role state.revisions < networkMaxAttempts := by
  rw [precomputedTransition] at passed
  split at passed
  · rename_i exhausted
    obtain rfl := Option.some.inj (Except.ok.inj passed)
    rw [exhausted]
    exact nodeTransition_wait classified wait
  · rename_i exitCode failed
    rw [failed]
    cases network : networkTransition host event.machine.clock contract node state role event.envelope exitCode event.random with
    | error refusal =>
      rw [network] at passed
      cases passed
    | ok earned =>
      rw [network] at passed
      obtain ⟨transition, rfl, rfl⟩ := Option.map_eq_some_iff.mp (Except.ok.inj passed)
      obtain rfl := Except.ok.inj classified
      rw [networkTransition] at network
      cases asked : nodeTransition host event.machine.clock contract node state role event.envelope exitCode event.random with
      | error refusal =>
        rw [asked] at network
        cases network
      | ok answered =>
        rw [asked] at network
        simp only [Except.map, Except.ok.injEq, ite_eq_iff, Option.some.injEq, reduceCtorEq, and_false, or_false] at network
        obtain ⟨-, rfl⟩ := network
        exact nodeTransition_wait asked wait
  · have owed := Except.ok.inj passed
    split_ifs at owed
    obtain rfl := Option.some.inj owed
    obtain rfl := Except.ok.inj classified
    cases wait

private theorem blockedState_kept (state : RouteState) (evidence : Option TierExhaustion) (role : RouteRole) (current : String)
    (exhaustedUntil : Option String) (judgeListState : Option JudgeListState) (refusal : RouteError) :
    Kept state (blockedState (state.withEvidence evidence) role current exhaustedUntil judgeListState refusal) := by
  rw [blockedState]
  split <;> exact ⟨rfl, rfl, rfl, rfl, rfl⟩

private theorem ok_of_toOption {ε α : Type} {result : Except ε α} {value : α} (some : result.toOption = .some value) :
    result = .ok value := by
  cases result with
  | error => cases some
  | ok => exact congrArg Except.ok (Option.some.inj some)

/-- Settling an unusable invocation routes it or keeps the node's routing. -/
theorem settleUnusable_cases {role : RouteRole} {current : String} {event : Unusable} {settled : Settled}
    (running : life.running = some (role, current))
    (success : settleUnusable host contract node life.state role current event = some settled) :
    LifeStep host contract node life (.unusable event) (life.settle settled) := by
  obtain ⟨evidence, found⟩ := exists_withEvidence life.state event.cause
  rw [settleUnusable, ← found] at success
  obtain ⟨precomputed, passed, handled⟩ := Option.bind_eq_some_iff.mp success
  obtain ⟨asked, passed, rfl⟩ := Option.bind_eq_some_iff.mp passed
  replace passed := ok_of_toOption passed
  replace handled := ok_of_toOption handled
  rw [handleProviderExhaustion] at handled
  dsimp only at handled
  split_ifs at handled with own
  · obtain rfl := Except.ok.inj handled
    exact .stopped _ _ ⟨rfl, rfl, rfl, rfl, rfl⟩
  · rw [← settledSchedule] at handled
    cases classified : settledSchedule host contract node (life.state.withEvidence evidence) role event precomputed with
    | error refusal =>
      rw [classified] at handled
      cases handled
    | ok schedule =>
      rw [classified, Except.bind] at handled
      cases hopped : hoppedJudgeList host contract event.machine (life.state.withEvidence evidence) role current schedule with
      | error refusal =>
        rw [hopped] at handled
        cases handled
      | ok judgeListState =>
        rw [hopped] at handled
        have attempts := settledSchedule_wait passed classified
        obtain rfl := Except.ok.inj handled
        unfold settleRoute
        dsimp only
        split
        · split_ifs
          · exact .stopped _ _ ⟨rfl, rfl, rfl, rfl, rfl⟩
          · exact .stopped _ _ (blockedState_kept ..)
        · rename_i free
          split
          · split_ifs
            · exact .stopped _ _ ⟨rfl, rfl, rfl, rfl, rfl⟩
            · exact .stopped _ _ ⟨rfl, rfl, rfl, rfl, rfl⟩
          · exact .routed event role current schedule judgeListState _ evidence running found ⟨hopped, attempts, rfl, free⟩

theorem routeStep_cases {event : RouteEvent} (step : routeStep host contract node life event = some after) :
    LifeStep host contract node life event after := by
  cases event with
  | dispatch role clock =>
    rw [routeStep] at step
    split_ifs at step with idle
    obtain ⟨runtimeId, routed, rfl⟩ := Option.map_eq_some_iff.mp step
    exact .dispatched role clock runtimeId idle routed
  | unusable event =>
    obtain ⟨⟨role, current⟩, running, settling⟩ := Option.bind_eq_some_iff.mp step
    obtain ⟨settled, success, rfl⟩ := Option.map_eq_some_iff.mp settling
    exact settleUnusable_cases running success
  | closed status error clears =>
    obtain rfl := Option.some.inj step
    cases clears <;> exact .stopped _ _ ⟨rfl, rfl, rfl, rfl, rfl⟩
  | revise =>
    obtain rfl := Option.some.inj step
    exact .revised _ rfl rfl rfl rfl rfl
  | resume =>
    obtain rfl := Option.some.inj step
    refine .stopped _ _ ?_
    rw [tierExhaustionRestart]
    split
    · exact ⟨rfl, rfl, rfl, rfl, rfl⟩
    · exact .refl _

/-! ## Records -/

/-- A history entry is the record of a route. -/
structure Mirrors (entry : RoutingHistoryEntry) (route : AppliedRoute) : Prop where
  role : entry.role = route.role
  revision : entry.revision = some route.revision
  hop : entry.hop = some route.hop
  marked : route.schedule.isNetworkWait = true → networkBackoffMark.toList <+: (entry.errorCode.getD "").toList

/-- What a node keeps of the routes it was given. -/
structure Recorded (life : NodeLife) : Prop where
  mirrors : List.Forall₂ Mirrors life.state.routing.history (Window.lastOf maxRoutingHistory life.routes)
  past : ∀ route ∈ life.routes, route.revision ≤ life.state.revisions
  /-- The override is the last route, given in this revision. -/
  override : ∀ override, life.state.routing.currentOverride = some override → ∃ earlier route, life.routes = earlier ++ [route] ∧
    route.revision = life.state.revisions ∧ override.role = route.role ∧ override.runtime = route.nextRuntime ∧
      override.revision = some route.revision ∧ override.hop = some route.hop

theorem Earned.revision {state : RouteState} {role : RouteRole} {current : String} {event : Unusable} {schedule : Transition}
    {judgeListState : Option JudgeListState} {plan : RoutePlan}
    (earned : Earned host contract state role current event schedule judgeListState plan) : plan.revision = state.revisions := by
  rw [earned.planned]
  cases schedule <;> rfl

private theorem mirrors_historyEntry (role : RouteRole) (error : RouteError) (current : String) {plan : RoutePlan}
    (schedule : Transition) (status : String) (now : Int) {revision : Nat} (same : plan.revision = revision) :
    Mirrors (historyEntry role error current plan schedule status now)
      ⟨role, revision, schedule, current, plan.nextRuntime, plan.hop⟩ := by
  subst same
  refine ⟨rfl, rfl, rfl, fun wait => ?_⟩
  change networkBackoffMark.toList <+: (recordedErrorCode schedule error).toList
  match schedule, wait with
  | .reset _ .networkBackoff, _ =>
    rw [recordedErrorCode, networkBackoffErrorCode, String.toList_append]
    exact List.prefix_append _ _

theorem recorded_of_fresh (fresh : FreshNode life) : Recorded life := by
  obtain ⟨-, routes, -, -, history, override⟩ := fresh
  refine ⟨?_, ?_, ?_⟩
  · rw [routes, history]
    exact .nil
  · rw [routes]
    exact nofun
  · rw [override]
    exact nofun

theorem Recorded.step {event : RouteEvent} (sofar : Recorded life) (step : LifeStep host contract node life event after) :
    Recorded after := by
  cases step with
  | dispatched => exact ⟨sofar.mirrors, sofar.past, sofar.override⟩
  | routed event role current schedule judgeListState plan evidence running found earned =>
    refine ⟨?_, ?_, ?_⟩
    · exact Window.forall₂_record sofar.mirrors (mirrors_historyEntry _ _ _ _ _ _ earned.revision)
    · intro route member
      rcases List.mem_append.mp member with earlier | last
      · exact sofar.past route earlier
      · obtain rfl := List.mem_singleton.mp last
        exact Nat.le_refl _
    · intro override here
      obtain rfl := Option.some.inj here
      exact ⟨life.routes, _, rfl, rfl, rfl, rfl, congrArg some earned.revision, rfl⟩
  | stopped event state kept =>
    refine ⟨kept.history.symm ▸ sofar.mirrors, kept.revisions.symm ▸ sofar.past, ?_⟩
    intro override here
    obtain ⟨earlier, route, routes, revision, rest⟩ := sofar.override override (kept.currentOverride ▸ here)
    exact ⟨earlier, route, routes, revision.trans kept.revisions.symm, rest⟩
  | revised state opened history fresh =>
    refine ⟨history.symm ▸ sofar.mirrors, fun route member => ?_, fun override here => ?_⟩
    · have before := sofar.past route member
      dsimp only
      omega
    · dsimp only at here
      rw [fresh] at here
      cases here

/-! ## A node to run -/

/-- When the node of a run starts. -/
def runStart : String := "2026-01-01T00:00:00.000Z"

def runStartMs : Int := 1767225600000

/-- A host that recognizes no message. -/
def quietHost : RouteHost := ⟨fun runtime => .ok runtime.harness, fun _ => runStart, fun _ => false⟩

def quietClock : Clock := ⟨fun text => if text = runStart then some runStartMs else none, runStartMs, fun _ => ""⟩

/-- A machine that recorded no refusal and no window. -/
def quietMachine : JudgeList.Surroundings := ⟨quietClock, fun _ => none, fun _ => [], ""⟩

/-- A node that names no runtime and no timeout of its own. -/
def plainNode : RouteNode := ⟨none, none, none⟩

/-- A life that starts under some assignments, with the runtimes available. -/
def freshLife (assignments : RuntimeAssignments) : NodeLife where
  state :=
    { revisions := 0, startedAt := none, timeouts := [], runtimeId := none, status := .pending, phase := .worker, error := none
      routing := ⟨[], none, some assignments, fun _ => some ⟨true, none, none, none, none⟩, none, none, none⟩
      invocations := [] }
  running := none
  routes := []

theorem freshNode_freshLife (assignments : RuntimeAssignments) : FreshNode (freshLife assignments) :=
  ⟨rfl, rfl, rfl, rfl, rfl, rfl⟩

/-- A dispatch of a role whose invocation is unusable. -/
def unusableRound (role : RouteRole) (cause : Cause) (envelope : RouteEnvelope) : List RouteEvent :=
  [.dispatch role quietClock, .unusable ⟨cause, envelope, quietMachine, 0⟩]

/-- An invocation whose connection was reset. -/
def droppedConnection : RouteEnvelope := ⟨"failed", some ⟨"ECONNRESET", ""⟩, none, none⟩

/-- An exhaustion that announces its reset a second later. -/
def announcedReset : RouteEnvelope := ⟨"exhausted", none, some (.number (runStartMs + 1000)), none⟩

/-- An exhaustion that announces nothing. -/
def plainExhaustion : RouteEnvelope := ⟨"exhausted", none, none, none⟩

end Faberun.Backoff
