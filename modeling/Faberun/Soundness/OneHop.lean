import Faberun.Soundness.NodeRoutes

/-! # One declared failover hop

A role without a list or a composed tier takes at most one edge in a revision. The hop is read from the override while that is
the role's own, and from the history otherwise, so it is right as long as the history still holds a route of the role; and the
role stays on the runtimes its first edge connects as long as attempt affinity is not refused in the middle of a revision.
-/

namespace Faberun.Backoff

open Window
open Routing (Clock)
open JudgeList (JudgeListState)

variable {host : RouteHost} {contract : RouteContract} {node : RouteNode} {role : RouteRole} {life after : NodeLife}

/-- A route of a role in a revision. -/
def isRouteOf (role : RouteRole) (revision : Nat) (route : AppliedRoute) : Bool :=
  decide (route.role = role) && decide (route.revision = revision)

/-- A route that left its runtime by an edge. -/
def Transition.isEdge : Transition → Bool
  | .reset _ _ => false
  | .failover _ => true

/-- The edges a role took in a revision. -/
def edges (routes : List AppliedRoute) (role : RouteRole) (revision : Nat) : Nat :=
  routes.countP fun route => isRouteOf role revision route && route.schedule.isEdge

/-- An invocation of a role in a revision. -/
def isRunOf (role : RouteRole) (revision : Nat) (invocation : RoutedInvocation) : Bool :=
  decide (invocation.phase = role) && decide (invocation.revision = some revision)

/-- The runtime a role ran first in a revision. -/
def startingRuntime (state : RouteState) (role : RouteRole) (revision : Nat) : Option String :=
  (state.invocations.find? (isRunOf role revision)).map (·.runtimeId)

/-- The history still holds a route of the role in this revision, if the role took an edge in it. -/
def HopRemembered (role : RouteRole) (life : NodeLife) : Prop :=
  0 < edges life.routes role life.state.revisions →
    (lastOf maxRoutingHistory life.routes).any (isRouteOf role life.state.revisions) = true

/-- The runtime a node that neither an override nor an attempt names is dispatched on. -/
def baseRuntime (contract : RouteContract) (node : RouteNode) (state : RouteState) (role : RouteRole) : Option String :=
  (declared? contract (nonempty? (assignedRuntime state role))).or (declared? contract (nonempty? (routeRuntime contract node role)))

/-- A role that already ran in this revision, and that no override names, may go on with the runtime of its last attempt, or
started on the one it falls back to. -/
def AffinityHolds (contract : RouteContract) (node : RouteNode) (clock : Clock) (state : RouteState) (role : RouteRole) : Prop :=
  overriddenRuntime contract state role = none → (startingRuntime state role state.revisions).isSome = true →
    ((previousAttemptRuntimeId state role).filter (admitsAffinity contract clock state role)).isSome = true ∨
      startingRuntime state role state.revisions = baseRuntime contract node state role

/-- The role is neither governed by a list nor routed within a composed tier. -/
def DeclaredOnly (contract : RouteContract) (role : RouteRole) (life : NodeLife) : RouteEvent → Prop
  | .unusable _ => ∀ job ∈ life.running, job.1 = role →
      (role = .judge → life.state.routing.judgeList.isNone = true) ∧
        dynamicComposed contract.runtimes life.state role job.2 = false
  | _ => True

/-- A step that finds the role's hop in the history, and a dispatch that finds its runtime. -/
def HopKept (contract : RouteContract) (node : RouteNode) (role : RouteRole) (life : NodeLife) : RouteEvent → Prop
  | .unusable _ => (∃ job ∈ life.running, job.1 = role) → HopRemembered role life
  | .dispatch dispatched clock => dispatched = role → AffinityHolds contract node clock life.state role
  | _ => True

instance (role : RouteRole) (life : NodeLife) : Decidable (HopRemembered role life) := inferInstanceAs (Decidable (_ → _))

instance (contract : RouteContract) (node : RouteNode) (clock : Clock) (state : RouteState) (role : RouteRole) :
    Decidable (AffinityHolds contract node clock state role) := inferInstanceAs (Decidable (_ → _ → _ ∨ _))

instance (contract : RouteContract) (role : RouteRole) : DecidableRel (DeclaredOnly contract role) := fun life event =>
  match event with
  | .unusable _ => inferInstanceAs (Decidable (∀ job ∈ life.running, job.1 = role →
      (role = .judge → life.state.routing.judgeList.isNone = true) ∧ dynamicComposed contract.runtimes life.state role job.2 = false))
  | .dispatch _ _ | .closed _ _ _ | .revise | .resume => instDecidableTrue

instance (contract : RouteContract) (node : RouteNode) (role : RouteRole) : DecidableRel (HopKept contract node role) :=
  fun life event =>
    match event with
    | .unusable _ => inferInstanceAs (Decidable ((∃ job ∈ life.running, job.1 = role) → HopRemembered role life))
    | .dispatch dispatched clock =>
      inferInstanceAs (Decidable (dispatched = role → AffinityHolds contract node clock life.state role))
    | .closed _ _ _ | .revise | .resume => instDecidableTrue

/-- The runtime is the one the role started the revision on, or the fallback that one declares. -/
def Routable (contract : RouteContract) (life : NodeLife) (role : RouteRole) (revision : Nat) (id : String) : Prop :=
  ∃ start, startingRuntime life.state role revision = some start ∧
    (id = start ∨ (contract.runtimes.get? start).bind Runtime.fallback = some id)

/-- What holds of a role's routes. -/
structure OneHop (contract : RouteContract) (role : RouteRole) (life : NodeLife) : Prop where
  /-- A revision has one edge at most. -/
  once : ∀ revision, edges life.routes role revision ≤ 1
  /-- After it, every plan to leave the runtime is blocked. -/
  blocked : edges life.routes role life.state.revisions = 1 → HopRemembered role life →
    ∀ clock error current reason exhaustedUntil, dynamicComposed contract.runtimes life.state role current = false →
      (planRoute contract.runtimes clock life.state role error current (.failover reason) exhaustedUntil none).blocked ≠ none
  /-- A route records the number of edges taken so far, so a reset leaves it as it was. -/
  recorded : ∀ earlier route later, life.routes = earlier ++ route :: later → route.role = role →
    route.hop = edges (earlier ++ [route]) role route.revision
  routed : ∀ route ∈ life.routes, route.role = role → Routable contract life role route.revision route.nextRuntime

/-! ## The hop a step finds -/

/-- Every route of the role records the edges taken so far. -/
def HopsRecorded (role : RouteRole) (routes : List AppliedRoute) : Prop :=
  ∀ earlier route later, routes = earlier ++ route :: later → route.role = role →
    route.hop = edges (earlier ++ [route]) role route.revision

theorem edges_append (first second : List AppliedRoute) (role : RouteRole) (revision : Nat) :
    edges (first ++ second) role revision = edges first role revision + edges second role revision := List.countP_append

private theorem foldl_max_eq {values : List Nat} {first greatest : Nat} (start : first ≤ greatest)
    (bounded : ∀ value ∈ values, value ≤ greatest) (present : first = greatest ∨ greatest ∈ values) :
    values.foldl max first = greatest := by
  induction values generalizing first with
  | nil => exact present.resolve_right List.not_mem_nil
  | cons value rest ih =>
    obtain ⟨here, later⟩ := List.forall_mem_cons.mp bounded
    refine ih (Nat.max_le.mpr ⟨start, here⟩) later ?_
    rcases present with rfl | member
    · exact .inl (Nat.max_eq_left here)
    · rcases List.mem_cons.mp member with rfl | after
      · exact .inl (Nat.max_eq_right start)
      · exact .inr after

/-- The hops the history records are those of the routes it keeps. -/
private theorem recordedHops_eq {history : List RoutingHistoryEntry} {routes : List AppliedRoute} (revision : Nat)
    (mirrors : List.Forall₂ Mirrors history routes) :
    recordedHops history role revision = (routes.filter (isRouteOf role revision)).map (·.hop) := by
  induction mirrors with
  | nil => rfl
  | @cons entry route _ _ same _ ih =>
    have here : (decide (entry.role = role) && decide (entry.revision.getD revision = revision)) = isRouteOf role revision route := by
      rw [same.role, same.revision, Option.getD_some, isRouteOf]
    rw [recordedHops] at ih ⊢
    rw [List.filter_cons, List.filter_cons, here]
    split
    · rw [List.map_cons, List.map_cons, ih, same.hop, Option.getD_some]
    · exact ih

private theorem edges_le_of_sublist {first second : List AppliedRoute} (within : first.Sublist second) (revision : Nat) :
    edges first role revision ≤ edges second role revision := within.countP_le

/-- The hop of the role's last route is the number of edges it took. -/
private theorem hop_of_last (hops : HopsRecorded role life.routes) {earlier later : List AppliedRoute} {route : AppliedRoute}
    (routes : life.routes = earlier ++ route :: later) (here : isRouteOf role life.state.revisions route = true)
    (last : ∀ other ∈ later, isRouteOf role life.state.revisions other = false) :
    route.hop = edges life.routes role life.state.revisions := by
  simp only [isRouteOf, Bool.and_eq_true, decide_eq_true_eq] at here
  have none : edges later role life.state.revisions = 0 := by
    refine List.countP_eq_zero.mpr fun other member => ?_
    rw [last other member, Bool.false_and]
    exact Bool.false_ne_true
  rw [hops earlier route later routes here.1, here.2, routes, List.append_cons earlier route later,
    edges_append (earlier ++ [route]) later, none, Nat.add_zero]

/-- Of the routes of a list there is a last one of the role, if there is one. -/
private theorem exists_last_route {routes : List AppliedRoute} {revision : Nat} (some : routes.any (isRouteOf role revision) = true) :
    ∃ earlier route later, routes = earlier ++ route :: later ∧ isRouteOf role revision route = true ∧
      ∀ other ∈ later, isRouteOf role revision other = false := by
  induction routes with
  | nil => cases some
  | cons first rest ih =>
    by_cases later : rest.any (isRouteOf role revision) = true
    · obtain ⟨earlier, route, after, rfl, here, last⟩ := ih later
      exact ⟨first :: earlier, route, after, rfl, here, last⟩
    · rw [List.any_cons, Bool.or_eq_true] at some
      refine ⟨[], first, rest, rfl, some.resolve_right later, fun other member => ?_⟩
      exact Bool.eq_false_of_not_eq_true fun there => later (List.any_eq_true.mpr ⟨other, member, there⟩)

/-- No route of the role in a revision records more than the edges it took in it. -/
private theorem hop_le (hops : HopsRecorded role life.routes) {route : AppliedRoute} (member : route ∈ life.routes)
    (here : isRouteOf role life.state.revisions route = true) : route.hop ≤ edges life.routes role life.state.revisions := by
  obtain ⟨earlier, later, routes⟩ := List.append_of_mem member
  simp only [isRouteOf, Bool.and_eq_true, decide_eq_true_eq] at here
  rw [hops earlier route later routes here.1, here.2, routes, List.append_cons earlier route later]
  exact edges_le_of_sublist (List.sublist_append_left _ _) _

/-- The hop a step finds is the number of edges the role took in the revision. -/
theorem previousHop_eq (recorded : Recorded life) (hops : HopsRecorded role life.routes) (remembered : HopRemembered role life) :
    previousHop life.state.routing role life.state.revisions = edges life.routes role life.state.revisions := by
  rw [previousHop]
  split
  · rename_i override found
    obtain ⟨held, named⟩ := Option.filter_eq_some_iff.mp found
    obtain ⟨earlier, route, routes, revision, sameRole, -, sameRevision, sameHop⟩ := recorded.override override held
    rw [Bool.and_eq_true, decide_eq_true_eq, sameRole] at named
    rw [sameHop, Option.getD_some]
    refine hop_of_last hops routes ?_ (fun other member => absurd member List.not_mem_nil)
    rw [isRouteOf, named.1, revision, decide_eq_true rfl, decide_eq_true rfl, Bool.and_true]
  · rw [recordedHops_eq _ recorded.mirrors]
    refine foldl_max_eq (Nat.zero_le _) ?_ ?_
    · intro hop member
      obtain ⟨route, kept, rfl⟩ := List.mem_map.mp member
      obtain ⟨within, here⟩ := List.mem_filter.mp kept
      exact hop_le hops (List.mem_of_mem_drop within) here
    · rcases Nat.eq_zero_or_pos (edges life.routes role life.state.revisions) with none | some
      · exact .inl none.symm
      · obtain ⟨earlier, route, later, window, here, last⟩ := exists_last_route (remembered some)
        have routes : life.routes = (before maxRoutingHistory life.routes ++ earlier) ++ route :: later := by
          rw [List.append_assoc, ← window, before_append_lastOf]
        refine .inr (List.mem_map.mpr ⟨route, List.mem_filter.mpr ⟨?_, here⟩, hop_of_last hops routes here last⟩)
        rw [window]
        exact List.mem_append_right _ List.mem_cons_self

/-! ## Plans -/

section

variable {runtimes : Catalogue} {clock : Clock} {state : RouteState} {error : RouteError} {current : String} {reason : TransitionReason}
  {exhaustedUntil : Option String}

/-- Without a list and a composed tier, the edge that is left is the fallback the runtime declares. -/
private theorem fallback_of_nextEdge (static : dynamicComposed runtimes state role current = false) {next : String}
    (left : nextEdge runtimes clock state role current none = some next) :
    (runtimes.get? current).bind Runtime.fallback = some next := by
  rw [nextEdge, static, if_neg Bool.false_ne_true, Option.or_none] at left
  have member : next ∈ synthesizedChain runtimes current := List.mem_of_find?_eq_some left
  rw [synthesizedChain, Option.mem_toList, nonempty?] at member
  exact (Option.filter_eq_some_iff.mp member).1

/-- Without a list and a composed tier, a plan takes no edge but the first, and that one is declared. -/
private theorem planRoute_edge (static : dynamicComposed runtimes state role current = false)
    (free : (planRoute runtimes clock state role error current (.failover reason) exhaustedUntil none).blocked = none) :
    previousHop state.routing role state.revisions = 0 ∧ (runtimes.get? current).bind Runtime.fallback =
      some (planRoute runtimes clock state role error current (.failover reason) exhaustedUntil none).nextRuntime := by
  change blockedRoute runtimes clock state role error current (nextEdge runtimes clock state role current none)
    (previousHop state.routing role state.revisions + 1) false = none at free
  change _ ∧ _ = some ((nextEdge runtimes clock state role current none).getD current)
  rw [blockedRoute] at free
  cases left : nextEdge runtimes clock state role current none with
  | none =>
    simp only [left, static, if_true, Bool.false_eq_true, if_false] at free
    split at free <;> cases free
  | some next =>
    refine ⟨?_, fallback_of_nextEdge static left⟩
    simp only [left, static, Bool.or_false, Bool.not_false, Bool.and_true, reduceCtorEq, if_false] at free
    split_ifs at free with spent
    rw [decide_eq_true_eq] at spent
    omega

end

/-! ## Where a role runs -/

/-- The runtime the role started the revision on, or its fallback after an edge. -/
private def Standing (contract : RouteContract) (state : RouteState) (routes : List AppliedRoute) (role : RouteRole) (revision : Nat)
    (id : String) : Prop :=
  ∃ start, startingRuntime state role revision = some start ∧
    (id = start ∨ (contract.runtimes.get? start).bind Runtime.fallback = some id ∧ 0 < edges routes role revision)

/-- Where the invocations and the routes of a role are. -/
private structure Placed (contract : RouteContract) (role : RouteRole) (life : NodeLife) : Prop where
  running : ∀ job, life.running = some job → ∃ invocation ∈ life.state.invocations,
    isRunOf job.1 life.state.revisions invocation = true ∧ invocation.runtimeId = job.2
  ordered : life.state.invocations.Pairwise fun first second => first.revision.getD 0 ≤ second.revision.getD 0
  past : ∀ invocation ∈ life.state.invocations, ∃ revision, invocation.revision = some revision ∧ revision ≤ life.state.revisions
  placed : ∀ invocation ∈ life.state.invocations, isRunOf role life.state.revisions invocation = true →
    Standing contract life.state life.routes role life.state.revisions invocation.runtimeId
  routed : ∀ route ∈ life.routes, route.role = role →
    Standing contract life.state life.routes role route.revision route.nextRuntime

private theorem startingRuntime_append {state : RouteState} {revision : Nat} {start : String}
    (here : startingRuntime state role revision = some start) (more : List RoutedInvocation) :
    ((state.invocations ++ more).find? (isRunOf role revision)).map (·.runtimeId) = some start := by
  obtain ⟨invocation, found, rfl⟩ := Option.map_eq_some_iff.mp here
  rw [List.find?_append, found, Option.some_or, Option.map_some]

private theorem Standing.mono {state other : RouteState} {routes more : List AppliedRoute} {revision : Nat} {id : String}
    (standing : Standing contract state routes role revision id)
    (kept : ∀ start, startingRuntime state role revision = some start → startingRuntime other role revision = some start) :
    Standing contract other (routes ++ more) role revision id := by
  obtain ⟨start, here, place⟩ := standing
  refine ⟨start, kept start here, place.imp_right fun fallback => ⟨fallback.1, ?_⟩⟩
  rw [edges_append]
  exact Nat.lt_add_right _ fallback.2

/-- A role that ran in the current revision ran there last. -/
private theorem previousAttempt_isRunOf {state : RouteState} {id : String}
    (ordered : state.invocations.Pairwise fun first second => first.revision.getD 0 ≤ second.revision.getD 0)
    (past : ∀ invocation ∈ state.invocations, ∃ revision, invocation.revision = some revision ∧ revision ≤ state.revisions)
    (ran : ∃ invocation ∈ state.invocations, isRunOf role state.revisions invocation = true)
    (last : previousAttemptRuntimeId state role = some id) :
    ∃ invocation ∈ state.invocations, isRunOf role state.revisions invocation = true ∧ invocation.runtimeId = id := by
  obtain ⟨invocation, found, rfl⟩ := Option.map_eq_some_iff.mp last
  obtain ⟨same, later, earlier, split, none⟩ := List.find?_eq_some_iff_append.mp found
  have whole : state.invocations = earlier.reverse ++ invocation :: later.reverse := by
    rw [← List.reverse_reverse state.invocations, split]
    simp
  have member : invocation ∈ state.invocations := by
    rw [whole]
    exact List.mem_append_right _ List.mem_cons_self
  refine ⟨invocation, member, ?_, rfl⟩
  obtain ⟨other, there, now⟩ := ran
  simp only [isRunOf, Bool.and_eq_true, decide_eq_true_eq] at now same ⊢
  refine ⟨same, ?_⟩
  obtain ⟨revision, here, bound⟩ := past invocation member
  rw [whole] at there ordered
  rcases List.mem_append.mp there with before | after
  · have least := (List.pairwise_append.mp ordered).2.2 other before invocation List.mem_cons_self
    rw [now.2, here, Option.getD_some, Option.getD_some] at least
    rw [here, Nat.le_antisymm bound least]
  · rcases List.mem_cons.mp after with rfl | after
    · exact now.2
    · have apart := none other (List.mem_reverse.mp after)
      simp [now.1] at apart

/-- A dispatch stays on the runtimes of the revision. -/
private theorem dispatch_standing (recorded : Recorded life) (placed : Placed contract role life) {clock : Clock} {runtimeId : String}
    (affinity : AffinityHolds contract node clock life.state role)
    (routed : routeRuntimeForState contract node clock life.state role = some runtimeId) :
    Standing contract (dispatch host clock life.state role runtimeId) life.routes role life.state.revisions runtimeId := by
  cases started : startingRuntime life.state role life.state.revisions with
  | none =>
    refine ⟨runtimeId, ?_, .inl rfl⟩
    rw [startingRuntime, Option.map_eq_none_iff] at started
    rw [startingRuntime, dispatch, List.find?_append, started, Option.none_or, List.find?_cons_of_pos]
    · rfl
    · simp [isRunOf]
  | some start =>
    have kept (first : String) (here : startingRuntime life.state role life.state.revisions = some first) :
        startingRuntime (dispatch host clock life.state role runtimeId) role life.state.revisions = some first :=
      startingRuntime_append here _
    suffices before : Standing contract life.state life.routes role life.state.revisions runtimeId from
      List.append_nil life.routes ▸ before.mono kept
    have ran : ∃ invocation ∈ life.state.invocations, isRunOf role life.state.revisions invocation = true := by
      obtain ⟨invocation, found, -⟩ := Option.map_eq_some_iff.mp started
      exact ⟨invocation, List.mem_of_find?_eq_some found, List.find?_some found⟩
    rw [routeRuntimeForState, ← baseRuntime] at routed
    cases overridden : overriddenRuntime contract life.state role with
    | some id =>
      obtain rfl : id = runtimeId := by simpa [overridden] using routed
      rw [overriddenRuntime, declared?, Option.filter_eq_some_iff, Option.map_eq_some_iff] at overridden
      obtain ⟨⟨override, named, rfl⟩, -⟩ := overridden
      obtain ⟨held, own⟩ := Option.filter_eq_some_iff.mp named
      obtain ⟨earlier, route, routes, revision, sameRole, sameRuntime, -, -⟩ := recorded.override override held
      have member : route ∈ life.routes := routes ▸ List.mem_append_right _ (List.mem_singleton_self _)
      rw [sameRuntime, ← revision]
      exact placed.routed route member (sameRole.symm.trans (of_decide_eq_true own))
    | none =>
      rw [overridden, Option.none_or] at routed
      cases previous : (previousAttemptRuntimeId life.state role).filter (admitsAffinity contract clock life.state role) with
      | some id =>
        obtain rfl : id = runtimeId := by simpa [previous] using routed
        obtain ⟨invocation, member, now, rfl⟩ :=
          previousAttempt_isRunOf placed.ordered placed.past ran (Option.filter_eq_some_iff.mp previous).1
        exact placed.placed invocation member now
      | none =>
        rw [previous, Option.none_or] at routed
        have back := (affinity overridden (Option.isSome_of_eq_some started)).resolve_left (by rw [previous]; exact nofun)
        refine ⟨start, started, .inl ?_⟩
        rw [started, routed] at back
        exact (Option.some.inj back).symm

theorem hoppedJudgeList_none {machine : JudgeList.Surroundings} {state : RouteState} {current : String} {schedule : Transition}
    {judgeListState : Option JudgeListState} (free : role = .judge → state.routing.judgeList.isNone = true)
    (hopped : hoppedJudgeList host contract machine state role current schedule = .ok judgeListState) : judgeListState = none := by
  unfold hoppedJudgeList at hopped
  split at hopped
  · rename_i judgeList governed
    have none := free rfl
    rw [governed] at none
    cases none
  · exact (Except.ok.inj hopped).symm

private theorem edges_singleton (route : AppliedRoute) (revision : Nat) :
    edges [route] role revision = if isRouteOf role revision route && route.schedule.isEdge then 1 else 0 := List.countP_singleton

/-- An edge is the role's first in the revision, and leaves the runtime it started on. -/
private theorem edge_taken (recorded : Recorded life) (hops : HopsRecorded role life.routes) (remembered : HopRemembered role life)
    {current : String} {event : Unusable} {reason : TransitionReason} {judgeListState : Option JudgeListState} {plan : RoutePlan}
    (governed : role = .judge → life.state.routing.judgeList.isNone = true)
    (static : dynamicComposed contract.runtimes life.state role current = false)
    {evidence : Option TierExhaustion}
    (earned : Earned host contract (life.state.withEvidence evidence) role current event (.failover reason) judgeListState plan) :
    edges life.routes role life.state.revisions = 0 ∧ (contract.runtimes.get? current).bind Runtime.fallback = some plan.nextRuntime := by
  obtain rfl := hoppedJudgeList_none governed earned.hopped
  have free := earned.free
  rw [earned.planned] at free ⊢
  obtain ⟨first, fallback⟩ := @planRoute_edge role contract.runtimes _ (life.state.withEvidence evidence) _ current reason _ static free
  exact ⟨(previousHop_eq recorded hops remembered).symm.trans first, fallback⟩

private theorem Placed.step {event : RouteEvent} (recorded : Recorded life) (hops : HopsRecorded role life.routes)
    (placed : Placed contract role life) (static : DeclaredOnly contract role life event) (kept : HopKept contract node role life event)
    (step : LifeStep host contract node life event after) : Placed contract role after := by
  cases step with
  | dispatched dispatched clock runtimeId idle routed =>
    have grow (revision : Nat) (first : String) (here : startingRuntime life.state role revision = some first) :
        startingRuntime (dispatch host clock life.state dispatched runtimeId) role revision = some first := startingRuntime_append here _
    refine ⟨?_, ?_, ?_, ?_, ?_⟩
    · rintro job ⟨⟩
      refine ⟨_, List.mem_append_right _ (List.mem_singleton_self _), ?_, rfl⟩
      simp [isRunOf, dispatch]
    · refine List.pairwise_append.mpr ⟨placed.ordered, List.pairwise_singleton _ _, fun first before last here => ?_⟩
      obtain rfl := List.mem_singleton.mp here
      obtain ⟨revision, known, bound⟩ := placed.past first before
      rw [known]
      exact bound
    · intro invocation member
      rcases List.mem_append.mp member with before | last
      · exact placed.past invocation before
      · obtain rfl := List.mem_singleton.mp last
        exact ⟨_, rfl, Nat.le_refl _⟩
    · intro invocation member now
      rcases List.mem_append.mp member with before | last
      · exact List.append_nil life.routes ▸ (placed.placed invocation before now).mono (grow _)
      · obtain rfl := List.mem_singleton.mp last
        simp only [isRunOf, Bool.and_eq_true, decide_eq_true_eq] at now
        obtain ⟨rfl, -⟩ := now
        exact dispatch_standing recorded placed (kept rfl) routed
    · intro route member own
      exact List.append_nil life.routes ▸ (placed.routed route member own).mono (grow _)
  | routed event runner current schedule judgeListState plan evidence running found earned =>
    have same (revision : Nat) (first : String) (here : startingRuntime life.state role revision = some first) :
        startingRuntime (routedLife host life evidence runner current event schedule plan).state role revision = some first := here
    refine ⟨nofun, placed.ordered, placed.past, ?_, ?_⟩
    · exact fun invocation member now => (placed.placed invocation member now).mono (same _)
    · intro route member own
      rcases List.mem_append.mp member with before | last
      · exact (placed.routed route before own).mono (same _)
      · obtain rfl := List.mem_singleton.mp last
        obtain rfl : runner = role := own
        obtain ⟨invocation, there, now, rfl⟩ := placed.running _ running
        have standing := placed.placed invocation there now
        obtain ⟨governed, declared⟩ := static _ running rfl
        cases schedule with
        | reset wakeAt reason =>
          have stays : plan.nextRuntime = invocation.runtimeId := by
            rw [earned.planned]
            rfl
          rw [stays]
          exact standing.mono (same _)
        | failover reason =>
          obtain ⟨none, fallback⟩ := edge_taken recorded hops (kept ⟨_, running, rfl⟩) governed declared earned
          obtain ⟨start, started, place⟩ := standing
          refine ⟨start, started, .inr ⟨?_, ?_⟩⟩
          · rcases place with here | after
            · rw [← here, fallback]
            · exact absurd after.2 (none ▸ Nat.lt_irrefl 0)
          · change 0 < edges (life.routes ++ [_]) _ _
            rw [edges_append, edges_singleton]
            simp [isRouteOf, Transition.isEdge]
  | stopped event state kept =>
    have same (revision : Nat) (first : String) (here : startingRuntime life.state role revision = some first) :
        startingRuntime state role revision = some first := by
      rwa [startingRuntime, kept.invocations, ← startingRuntime]
    refine ⟨nofun, kept.invocations.symm ▸ placed.ordered, ?_, ?_, ?_⟩
    · intro invocation member
      rw [kept.revisions]
      exact placed.past invocation (kept.invocations ▸ member)
    · intro invocation member now
      rw [kept.revisions] at now ⊢
      exact List.append_nil life.routes ▸ (placed.placed invocation (kept.invocations ▸ member) now).mono (same _)
    · intro route member own
      exact List.append_nil life.routes ▸ (placed.routed route member own).mono (same _)
  | revised state opened history fresh assignments invocations =>
    have same (revision : Nat) (first : String) (here : startingRuntime life.state role revision = some first) :
        startingRuntime state role revision = some first := by
      rwa [startingRuntime, invocations, ← startingRuntime]
    refine ⟨nofun, invocations.symm ▸ placed.ordered, ?_, ?_, ?_⟩
    · intro invocation member
      obtain ⟨revision, known, bound⟩ := placed.past invocation (invocations ▸ member)
      refine ⟨revision, known, ?_⟩
      dsimp only
      omega
    · intro invocation member now
      obtain ⟨revision, known, bound⟩ := placed.past invocation (invocations ▸ member)
      simp only [isRunOf, Bool.and_eq_true, decide_eq_true_eq, known, Option.some.injEq] at now
      omega
    · intro route member own
      exact List.append_nil life.routes ▸ (placed.routed route member own).mono (same _)

/-! ## Lives -/

private theorem hopsRecorded_append {routes : List AppliedRoute} {route : AppliedRoute} (hops : HopsRecorded role routes)
    (last : route.role = role → route.hop = edges (routes ++ [route]) role route.revision) : HopsRecorded role (routes ++ [route]) := by
  intro earlier other later split own
  rcases List.eq_nil_or_concat later with rfl | ⟨between, final, rfl⟩
  · obtain ⟨rfl, same⟩ := List.append_inj' split rfl
    obtain rfl := List.singleton_inj.mp same
    exact last own
  · rw [List.concat_eq_append, ← List.cons_append, ← List.append_assoc] at split
    obtain ⟨whole, -⟩ := List.append_inj' split rfl
    exact hops earlier other between whole own

/-- What holds of a role between two events. -/
private structure HopInv (contract : RouteContract) (role : RouteRole) (life : NodeLife) : Prop where
  recorded : Recorded life
  hops : HopsRecorded role life.routes
  once : ∀ revision, edges life.routes role revision ≤ 1
  placed : Placed contract role life

private theorem HopInv.step {event : RouteEvent} (inv : HopInv contract role life) (static : DeclaredOnly contract role life event)
    (kept : HopKept contract node role life event) (step : LifeStep host contract node life event after) :
    HopInv contract role after := by
  have placed := inv.placed.step inv.recorded inv.hops static kept step
  have recorded := inv.recorded.step step
  cases step with
  | dispatched => exact ⟨recorded, inv.hops, inv.once, placed⟩
  | stopped => exact ⟨recorded, inv.hops, inv.once, placed⟩
  | revised => exact ⟨recorded, inv.hops, inv.once, placed⟩
  | routed event runner current schedule judgeListState plan evidence running found earned =>
    have hop : plan.hop = nextHop life.state.routing runner life.state.revisions schedule := by
      rw [earned.planned]
      cases schedule <;> rfl
    by_cases own : runner = role
    · subst own
      have remembered : HopRemembered runner life := kept ⟨_, running, rfl⟩
      have found := previousHop_eq inv.recorded inv.hops remembered
      cases schedule with
      | reset wakeAt reason =>
        have none (revision : Nat) : edges (life.routes ++ [⟨runner, life.state.revisions, .reset wakeAt reason, current,
            plan.nextRuntime, plan.hop⟩]) runner revision = edges life.routes runner revision := by
          rw [edges_append, edges_singleton, Transition.isEdge, Bool.and_false, if_neg Bool.false_ne_true, Nat.add_zero]
        refine ⟨recorded, hopsRecorded_append inv.hops fun _ => ?_, fun revision => (none revision).trans_le (inv.once revision), placed⟩
        rw [none]
        exact hop.trans found
      | failover reason =>
        obtain ⟨governed, declared⟩ := static _ running rfl
        obtain ⟨first, -⟩ := edge_taken inv.recorded inv.hops remembered governed declared earned
        have count (revision : Nat) : edges (life.routes ++ [⟨runner, life.state.revisions, .failover reason, current,
            plan.nextRuntime, plan.hop⟩]) runner revision =
              edges life.routes runner revision + if life.state.revisions = revision then 1 else 0 := by
          rw [edges_append, edges_singleton]
          simp [isRouteOf, Transition.isEdge]
        refine ⟨recorded, hopsRecorded_append inv.hops fun _ => ?_, fun revision => ?_, placed⟩
        · rw [count, if_pos rfl, first]
          change plan.hop = _
          rw [hop, nextHop, found, first]
        · refine (count revision).trans_le ?_
          split_ifs with now
          · subst now
            rw [first]
          · exact inv.once revision
    · have none (revision : Nat) : edges (life.routes ++ [⟨runner, life.state.revisions, schedule, current, plan.nextRuntime,
          plan.hop⟩]) role revision = edges life.routes role revision := by
        rw [edges_append, edges_singleton, isRouteOf, decide_eq_false own]
        simp
      exact ⟨recorded, hopsRecorded_append inv.hops fun same => absurd same own,
        fun revision => (none revision).trans_le (inv.once revision), placed⟩

private theorem hopInv_of_fresh (fresh : FreshNode life) : HopInv contract role life := by
  have recorded := recorded_of_fresh fresh
  obtain ⟨idle, routes, -, invocations, -, -⟩ := fresh
  refine ⟨recorded, ?_, ?_, ⟨?_, ?_, ?_, ?_, ?_⟩⟩
  · intro earlier route later split
    rw [routes] at split
    simp at split
  · intro revision
    rw [routes]
    exact Nat.zero_le _
  · rw [idle]
    exact nofun
  · rw [invocations]
    exact .nil
  · rw [invocations]
    exact nofun
  · rw [invocations]
    exact nofun
  · rw [routes]
    exact nofun

/-- In every life of a node whose steps find the role's hop in the history, and whose dispatches find its runtime, a role without
a list and a composed tier takes one declared hop at most in a revision. -/
theorem one_declared_hop (host : RouteHost) (contract : RouteContract) (node : RouteNode) (role : RouteRole) (life : NodeLife)
    (reach : (routeMachine host contract node).Reach
      (fun life event => DeclaredOnly contract role life event ∧ HopKept contract node role life event) FreshNode life) :
    OneHop contract role life := by
  have inv : HopInv contract role life := by
    refine reach.invariant (HopInv contract role) (fun _ => hopInv_of_fresh) ?_
    rintro life event after inv ⟨static, kept⟩ taken
    exact inv.step static kept (routeStep_cases taken)
  refine ⟨inv.once, ?_, inv.hops, ?_⟩
  · intro taken remembered clock error current reason exhaustedUntil static free
    have first := (planRoute_edge static free).1
    rw [previousHop_eq inv.recorded inv.hops remembered, taken] at first
    cases first
  · intro route member own
    obtain ⟨start, started, place⟩ := inv.placed.routed route member own
    exact ⟨start, started, place.imp_right And.left⟩

/-- A chain of three runtimes, and a judge. -/
private def fallbackChain : RouteContract where
  runtimes :=
    ⟨[("a", ⟨"claude", "claude-opus-5", some "anthropic", none, none, none, none, some "b"⟩),
      ("b", ⟨"claude", "claude-sonnet-5", some "anthropic", none, none, none, none, some "c"⟩),
      ("c", ⟨"claude", "claude-haiku-5", some "anthropic", none, none, none, none, none⟩),
      ("j", ⟨"codex", "gpt-6", some "openai", none, none, none, none, none⟩)], by decide⟩
  runtimeDefaults := ⟨none, none⟩
  timeoutSec := 7200

private def workerAndJudge : RuntimeAssignments := ⟨"a", "j", false, false⟩

/-- The worker takes its hop, the judge waits for some resets, and the worker is exhausted again. -/
private def hopAndWaits (count : Nat) : List RouteEvent :=
  unusableRound .worker .exhausted plainExhaustion ++
    (List.replicate count (unusableRound .judge .exhausted announcedReset)).flatten ++
      unusableRound .worker .exhausted plainExhaustion

/-- After a few resets of the judge, the worker's second hop is blocked. -/
theorem one_declared_hop_blocked : ∃ life, (routeMachine quietHost fallbackChain plainNode).replay?
    (fun life event => DeclaredOnly fallbackChain .worker life event ∧ HopKept fallbackChain plainNode .worker life event)
    (freshLife workerAndJudge) (hopAndWaits 3) = some life ∧ edges life.routes .worker 0 = 1 ∧ OneHop fallbackChain .worker life := by
  have ran := @Machine.exists_replay _ _ (routeMachine quietHost fallbackChain plainNode)
    (fun life event => DeclaredOnly fallbackChain .worker life event ∧ HopKept fallbackChain plainNode .worker life event) _
    (freshLife workerAndJudge) (hopAndWaits 3) _ (fun life => edges life.routes .worker 0 = 1) _ (fun _ _ held => held)
    (by decide +kernel)
  obtain ⟨life, ran, one⟩ := ran
  refine ⟨life, ran, one, ?_⟩
  exact one_declared_hop quietHost fallbackChain plainNode .worker life (.of_replay (freshNode_freshLife _) _ ran)

/-- As many resets of the judge as the history holds let the worker take a second hop. -/
theorem second_hop_taken : ¬ ∀ life, (routeMachine quietHost fallbackChain plainNode).Reach (DeclaredOnly fallbackChain .worker)
    FreshNode life → OneHop fallbackChain .worker life := by
  intro hops
  have ran := @Machine.exists_replay _ _ (routeMachine quietHost fallbackChain plainNode) (DeclaredOnly fallbackChain .worker) _
    (freshLife workerAndJudge) (hopAndWaits 64) _ (fun life => edges life.routes .worker 0 = 2) _ (fun _ _ held => held)
    (by decide +kernel)
  obtain ⟨life, ran, two⟩ := ran
  have once := (hops life (.of_replay (freshNode_freshLife _) _ ran)).once 0
  rw [two] at once
  exact absurd once (by decide)

end Faberun.Backoff
