import Mathlib.Data.List.Perm.Subperm
import Faberun.Soundness.OneHop

/-! # Failover within a tier

In one generation a composed role that declares no fallback goes from runtime to runtime of its tier and never back: what it
ran is read from the invocations of the generation, and every runtime it left or waited on is one candidate of the evidence,
which a block then carries.
-/

namespace Faberun.Backoff

open Routing (Clock)
open JudgeList (JudgeListState)

variable {host : RouteHost} {contract : RouteContract} {node : RouteNode} {role : RouteRole} {first : String} {life after : NodeLife}

/-- The runtimes a role was on since its first one, in order: each edge led to the next. -/
def visited (first : String) (routes : List AppliedRoute) : List String :=
  first :: (routes.filter fun route => route.schedule.isEdge).map (·.nextRuntime)

/-- The runtimes of the tier of the first one. -/
def tierOf (runtimes : Catalogue) (first : Runtime) : List String :=
  (runtimes.entries.filter fun entry => sameTier entry.2 first).map (·.1)

/-- The candidates the evidence holds of a role. -/
def candidatesOf (exhaustion : Option TierExhaustion) (role : RouteRole) : List String :=
  ((exhaustion.filter fun exhaustion => exhaustion.role = role).elim [] TierExhaustion.candidates).map (·.runtimeId)

/-- The first dispatch of a role in a revision and generation: its assignment was composed, no list governs it, and neither its
runtimes so far nor those of its tier declare a fallback. -/
structure GenerationStart (contract : RouteContract) (role : RouteRole) (first : String) (runtime : Runtime) (life : NodeLife) : Prop where
  running : life.running = some (role, first)
  routes : life.routes = []
  declared : contract.runtimes.get? first = some runtime
  attempted : attemptedRuntimes life.state role = [first]
  evidence : candidatesOf life.state.routing.tierExhaustion role = []
  composed : composedAssignment life.state role = true
  listless : role = .judge → life.state.routing.judgeList.isNone = true
  noEdge : ∀ entry ∈ life.state.routing.history, entry.role = role → (contract.runtimes.get? entry.runtime).bind Runtime.fallback = none
  noFallback : ∀ id other, contract.runtimes.get? id = some other → sameTier other runtime = true → other.fallback = none

/-- An exhaustion, or a provider's failure, is evidence against the runtime; a broken result protocol forgets the evidence. -/
def Cause.exhausts : Cause → Bool
  | .exhausted | .failed _ => true
  | .protocol => false

def Settled.isRouted : Settled → Bool
  | .routed _ _ => true
  | _ => false

/-- An exhaustion of the role that is routed, or the dispatch after it; a worker that breaks the result protocol is not
exhausted. -/
def ExhaustionOf (host : RouteHost) (contract : RouteContract) (node : RouteNode) (role : RouteRole) (life : NodeLife) : RouteEvent → Prop
  | .dispatch dispatched _ => dispatched = role
  | .unusable event => event.cause.exhausts = true ∧
      ∀ job ∈ life.running, (settleUnusable host contract node life.state job.1 job.2 event).any Settled.isRouted
  | _ => False

/-- A plan leads to a runtime of the tier not yet visited; or it is blocked as the tier is exhausted, and then it carries one
candidate for every runtime that was exhausted, as does the node it blocks. -/
def PlanWithin (contract : RouteContract) (role : RouteRole) (first : String) (runtime : Runtime) (life : NodeLife) (current : String)
    (exhaustedUntil : Option String) (plan : RoutePlan) : Prop :=
  match plan.blocked with
  | none => plan.nextRuntime ∉ visited first life.routes ∧ plan.nextRuntime ∈ tierOf contract.runtimes runtime ∧
      (visited first life.routes).length < (tierOf contract.runtimes runtime).length
  | some refusal => refusal.code = "runtime_tier_exhausted" ∧ ∃ exhaustion, plan.tierExhaustion = some exhaustion ∧
      (blockedState life.state role current exhaustedUntil none refusal).routing.tierExhaustion = some exhaustion ∧
        exhaustion.role = role ∧ (exhaustion.candidates.map (·.runtimeId)).Nodup ∧
          ∀ id, id ∈ exhaustion.candidates.map (·.runtimeId) ↔ id = current ∨ id ∈ life.routes.map (·.current)

/-- What holds of a role in a run of exhaustions. -/
structure TierWalk (contract : RouteContract) (role : RouteRole) (first : String) (runtime : Runtime) (life : NodeLife) : Prop where
  /-- No runtime is routed twice. -/
  distinct : (visited first life.routes).Nodup
  /-- Every one has the tier of the first. -/
  tier : ∀ id ∈ visited first life.routes, id ∈ tierOf contract.runtimes runtime
  /-- There are fewer hops than runtimes of the tier. -/
  bounded : (visited first life.routes).length ≤ (tierOf contract.runtimes runtime).length
  /-- A plan to leave the runtime stays within the tier. -/
  ends : ∀ current, life.running = some (role, current) → ∀ clock error reason exhaustedUntil,
    PlanWithin contract role first runtime life current exhaustedUntil
      (planRoute contract.runtimes clock life.state role error current (.failover reason) exhaustedUntil none)

/-! ## Tiers -/

/-- What two runtimes of one tier have in common. -/
private def tierKey (runtime : Runtime) : Option RuntimeTier × Option Rat :=
  (runtime.tier, if runtime.tier.isSome then none else some (Routing.runtimeOrder runtime))

private theorem sameTier_iff {left right : Runtime} : sameTier left right = true ↔ tierKey left = tierKey right := by
  rw [sameTier, tierKey, tierKey]
  cases left.tier <;> cases right.tier <;> simp

/-- The next runtime of a tier is another one of it that was not attempted. -/
private theorem nextSameTierRuntime_some {runtimes : Catalogue} {clock : Clock} {availability : String → Option Routing.Availability}
    {workerId : Option String} {current : String} {attempted : List String} {id : String}
    (found : nextSameTierRuntime runtimes clock availability workerId role current attempted = some id) :
    ∃ currentRuntime runtime, runtimes.get? current = some currentRuntime ∧ (id, runtime) ∈ runtimes.entries ∧ id ∉ attempted ∧
      sameTier runtime currentRuntime = true := by
  obtain ⟨currentRuntime, here, found⟩ := Option.bind_eq_some_iff.mp found
  obtain ⟨⟨other, runtime⟩, member, rfl⟩ := List.mem_map.mp (List.mem_of_head? found)
  obtain ⟨entry, candidate⟩ := List.mem_filter.mp ((List.mem_insertionSort _).mp member)
  simp only [sameTierCandidate, Bool.and_eq_true, Bool.not_eq_true', List.contains_eq_mem, decide_eq_false_iff_not] at candidate
  exact ⟨currentRuntime, runtime, here, entry, candidate.1.1.1.2, candidate.1.1.2⟩

/-! ## Evidence -/

private theorem upsert_role (existing : Option TierExhaustion) (role : RouteRole) (runtimeId : String) (exhaustedUntil : Option String) :
    (upsertTierExhaustionCandidate existing role runtimeId exhaustedUntil).role = role := by
  rw [upsertTierExhaustionCandidate]
  split <;> rfl

/-- The evidence holds a runtime once after it was put in. -/
private theorem upsert_ids (existing : Option TierExhaustion) (role : RouteRole) (runtimeId : String) (exhaustedUntil : Option String) :
    (upsertTierExhaustionCandidate existing role runtimeId exhaustedUntil).candidates.map (·.runtimeId) =
      if runtimeId ∈ candidatesOf existing role then candidatesOf existing role else candidatesOf existing role ++ [runtimeId] := by
  rw [upsertTierExhaustionCandidate, candidatesOf]
  generalize (existing.filter fun exhaustion => exhaustion.role = role).elim [] TierExhaustion.candidates = candidates
  have named (candidate : TierExhaustionCandidate) (member : candidate ∈ candidates) (same : candidate.runtimeId = runtimeId) :
      runtimeId ∈ candidates.map (·.runtimeId) := List.mem_map.mpr ⟨candidate, member, same⟩
  cases found : candidates.findIdx? fun candidate => candidate.runtimeId = runtimeId with
  | none =>
    rw [if_neg, List.map_append]
    · rfl
    · intro member
      obtain ⟨candidate, there, same⟩ := List.mem_map.mp member
      have apart := List.findIdx?_eq_none_iff.mp found candidate there
      simp [same] at apart
  | some index =>
    obtain ⟨bound, same, -⟩ := List.findIdx?_eq_some_iff_getElem.mp found
    rw [decide_eq_true_eq] at same
    rw [if_pos (named _ (List.getElem_mem bound) same), List.map_set]
    dsimp only
    refine List.ext_getElem (List.length_set ..) fun place _ inside => ?_
    rw [List.getElem_set]
    split_ifs with here
    · subst here
      rw [List.getElem_map, same]
    · rfl

private theorem candidatesOf_upsert (existing : Option TierExhaustion) (role : RouteRole) (runtimeId : String)
    (exhaustedUntil : Option String) : candidatesOf (some (upsertTierExhaustionCandidate existing role runtimeId exhaustedUntil)) role =
      (upsertTierExhaustionCandidate existing role runtimeId exhaustedUntil).candidates.map (·.runtimeId) := by
  rw [candidatesOf, Option.filter_some, decide_eq_true (upsert_role ..)]
  rfl

/-- Evidence of exactly some runtimes. -/
private def Evidence (ids : List String) (runtimes : List String) : Prop := ids.Nodup ∧ ∀ id, id ∈ ids ↔ id ∈ runtimes

private theorem Evidence.upsert {existing : Option TierExhaustion} {runtimes : List String}
    (evidence : Evidence (candidatesOf existing role) runtimes) (runtimeId : String) (exhaustedUntil : Option String) :
    Evidence ((upsertTierExhaustionCandidate existing role runtimeId exhaustedUntil).candidates.map (·.runtimeId))
      (runtimes ++ [runtimeId]) := by
  obtain ⟨distinct, exactly⟩ := evidence
  rw [upsert_ids]
  split_ifs with known
  · refine ⟨distinct, fun id => ?_⟩
    rw [List.mem_append, List.mem_singleton, ← exactly]
    refine ⟨.inl, ?_⟩
    rintro (here | rfl)
    · exact here
    · exact known
  · refine ⟨List.nodup_append.mpr ⟨distinct, List.nodup_singleton _, ?_⟩, fun id => ?_⟩
    · rintro id member _ last rfl
      exact known (List.mem_singleton.mp last ▸ member)
    · rw [List.mem_append, List.mem_append, exactly]

/-! ## Walks -/

section

variable {runtime : Runtime}

/-- A runtime of the contract that has the tier of the first one. -/
private def OfTier (contract : RouteContract) (runtime : Runtime) (id : String) : Prop :=
  ∃ other, contract.runtimes.get? id = some other ∧ sameTier other runtime = true

/-- Where a role is: on the last runtime it visited, or on its way there. -/
private inductive Stands (role : RouteRole) (first : String) (life : NodeLife) : Prop
  | running (current : String) (job : life.running = some (role, current))
      (last : (visited first life.routes).getLast? = some current)
      (attempted : ∀ id ∈ visited first life.routes, id ∈ attemptedRuntimes life.state role)
  | routed (override : RoutingOverride) (idle : life.running = none) (held : life.state.routing.currentOverride = some override)
      (own : override.role = role) (last : (visited first life.routes).getLast? = some override.runtime)
      (attempted : ∀ id ∈ visited first life.routes, id ∈ attemptedRuntimes life.state role ∨ id = override.runtime)

/-- What holds of a role between two exhaustions. -/
private structure WalkInv (contract : RouteContract) (role : RouteRole) (first : String) (runtime : Runtime) (life : NodeLife) :
    Prop where
  distinct : (visited first life.routes).Nodup
  tier : ∀ id ∈ visited first life.routes, OfTier contract runtime id
  stands : Stands role first life
  evidence : Evidence (candidatesOf life.state.routing.tierExhaustion role) (life.routes.map (·.current))
  composed : composedAssignment life.state role = true
  listless : role = .judge → life.state.routing.judgeList.isNone = true
  noEdge : ∀ entry ∈ life.state.routing.history, entry.role = role → (contract.runtimes.get? entry.runtime).bind Runtime.fallback = none
  noFallback : ∀ id other, contract.runtimes.get? id = some other → sameTier other runtime = true → other.fallback = none

private theorem walkInv_of_start (start : GenerationStart contract role first runtime life) :
    WalkInv contract role first runtime life := by
  have alone : visited first life.routes = [first] := by
    rw [start.routes]
    rfl
  have member (id : String) : id ∈ visited first life.routes ↔ id = first := by
    rw [alone, List.mem_singleton]
  refine ⟨?_, ?_, .running first start.running ?_ ?_, ?_, start.composed, start.listless, start.noEdge, start.noFallback⟩
  · rw [alone]
    exact List.nodup_singleton _
  · intro id there
    obtain rfl := (member id).mp there
    exact ⟨runtime, start.declared, sameTier_iff.mpr rfl⟩
  · rw [alone]
    rfl
  · intro id there
    rw [start.attempted]
    exact List.mem_singleton.mpr ((member id).mp there)
  · rw [start.evidence, start.routes]
    exact ⟨List.nodup_nil, fun id => .rfl⟩

/-- Every plan of the role is made within the tier. -/
private theorem WalkInv.dynamic (inv : WalkInv contract role first runtime life) {current : String}
    (tier : OfTier contract runtime current) : dynamicComposed contract.runtimes life.state role current = true := by
  obtain ⟨other, here, same⟩ := tier
  have quiet : life.state.routing.history.any (explicitFallback contract.runtimes role) = false := by
    refine List.any_eq_false.mpr fun entry member => ?_
    rw [explicitFallback, Bool.and_eq_true, decide_eq_true_eq]
    rintro ⟨own, edge⟩
    obtain ⟨next, -, fallback⟩ := (Option.any_eq_true _ _).mp edge
    rw [decide_eq_true_eq, inv.noEdge entry member own] at fallback
    cases fallback
  rw [dynamicComposed, inv.composed, here, Option.bind_some, inv.noFallback current other here same, quiet]
  rfl

private theorem WalkInv.chain (inv : WalkInv contract role first runtime life) {current : String}
    (tier : OfTier contract runtime current) : synthesizedChain contract.runtimes current = [] := by
  obtain ⟨other, here, same⟩ := tier
  rw [synthesizedChain, here, Option.bind_some, inv.noFallback current other here same]
  rfl

private theorem WalkInv.nextEdge_eq (inv : WalkInv contract role first runtime life) {current : String}
    (tier : OfTier contract runtime current) (clock : Clock) :
    nextEdge contract.runtimes clock life.state role current none = nextSameTierRuntime contract.runtimes clock
      life.state.routing.availability (comparedWorker life.state) role current (attemptedRuntimes life.state role) := by
  rw [nextEdge, nextSynthesizedRuntime, inv.chain tier, inv.dynamic tier]
  rfl

/-- An edge within the tier leads to a runtime of it that was not attempted. -/
private theorem WalkInv.next_ofTier (inv : WalkInv contract role first runtime life) {current next : String}
    (tier : OfTier contract runtime current) {clock : Clock}
    (left : nextEdge contract.runtimes clock life.state role current none = some next) :
    next ∉ attemptedRuntimes life.state role ∧ OfTier contract runtime next := by
  rw [inv.nextEdge_eq tier] at left
  obtain ⟨currentRuntime, other, here, entry, fresh, same⟩ := nextSameTierRuntime_some left
  obtain ⟨known, found, tierOf⟩ := tier
  obtain rfl := Option.some.inj (here.symm.trans found)
  exact ⟨fresh, other, Catalogue.get?_of_mem entry, sameTier_iff.mpr ((sameTier_iff.mp same).trans (sameTier_iff.mp tierOf))⟩

private theorem OfTier.mem {id : String} (tier : OfTier contract runtime id) : id ∈ tierOf contract.runtimes runtime := by
  obtain ⟨other, here, same⟩ := tier
  exact List.mem_map.mpr ⟨(id, other), List.mem_filter.mpr ⟨Catalogue.mem_of_get? here, same⟩, rfl⟩

private theorem visited_append (first : String) (routes : List AppliedRoute) (route : AppliedRoute) :
    visited first (routes ++ [route]) =
      visited first routes ++ if route.schedule.isEdge = true then [route.nextRuntime] else [] := by
  rw [visited, visited, List.filter_append, List.map_append, List.cons_append, List.filter_singleton]
  cases route.schedule.isEdge <;> rfl

private theorem attemptedRuntimes_dispatch (host : RouteHost) (clock : Clock) (state : RouteState) (role : RouteRole) (runtimeId : String) :
    attemptedRuntimes (dispatch host clock state role runtimeId) role = attemptedRuntimes state role ++ [runtimeId] := by
  rw [attemptedRuntimes, dispatch, List.filter_append, List.map_append]
  congr 1
  simp

/-- A dispatch goes where the last route led. -/
private theorem WalkInv.dispatched (inv : WalkInv contract role first runtime life) {clock : Clock}
    (step : routeStep host contract node life (.dispatch role clock) = some after) : WalkInv contract role first runtime after := by
  rw [routeStep] at step
  split_ifs at step with idle
  obtain ⟨runtimeId, routed, rfl⟩ := Option.map_eq_some_iff.mp step
  refine ⟨inv.distinct, inv.tier, ?_, inv.evidence, inv.composed, inv.listless, inv.noEdge, inv.noFallback⟩
  cases inv.stands with
  | running current job => cases idle.symm.trans job
  | routed override idle held own last attempted =>
    obtain ⟨other, here, -⟩ := inv.tier _ (List.mem_of_getLast? last)
    have named : overriddenRuntime contract life.state role = some override.runtime := by
      rw [overriddenRuntime, held, Option.filter_some, decide_eq_true own, if_pos rfl, Option.map_some, declared?, Option.filter_some,
        here]
      rfl
    rw [routeRuntimeForState, named, Option.some_or] at routed
    obtain rfl := Option.some.inj routed
    refine .running override.runtime rfl last fun id there => ?_
    change id ∈ attemptedRuntimes (dispatch host clock life.state role override.runtime) role
    rw [attemptedRuntimes_dispatch, List.mem_append, List.mem_singleton]
    exact attempted id there

/-- A route that leaves its runtime takes the edge that is left. -/
private theorem planned_edge {current : String} {event : Unusable} {reason : TransitionReason} {plan : RoutePlan}
    (earned : Earned host contract life.state role current event (.failover reason) none plan) :
    nextEdge contract.runtimes event.machine.clock life.state role current none = some plan.nextRuntime := by
  have free := earned.free
  rw [earned.planned] at free ⊢
  change blockedRoute contract.runtimes _ _ _ _ _ (nextEdge contract.runtimes _ _ _ _ _) _ _ = none at free
  change _ = some ((nextEdge contract.runtimes event.machine.clock life.state role current none).getD current)
  cases left : nextEdge contract.runtimes event.machine.clock life.state role current none with
  | some next => rfl
  | none =>
    rw [left, blockedRoute] at free
    simp only [if_true, Option.isSome_none, Bool.false_eq_true, if_false] at free
    split at free
    · cases free
    · split at free <;> cases free

/-- A route goes on with the walk. -/
private theorem WalkInv.routed (inv : WalkInv contract role first runtime life) {current : String} {event : Unusable}
    {schedule : Transition} {judgeListState : Option JudgeListState} {plan : RoutePlan} (running : life.running = some (role, current))
    (earned : Earned host contract life.state role current event schedule judgeListState plan) :
    WalkInv contract role first runtime (routedLife host life life.state.routing.tierExhaustion role current event schedule plan) := by
  cases inv.stands with
  | routed override idle => cases idle.symm.trans running
  | running here job last attempted =>
    obtain ⟨-, rfl⟩ := Prod.mk.inj (Option.some.inj (job.symm.trans running))
    have tier : OfTier contract runtime here := inv.tier _ (List.mem_of_getLast? last)
    obtain rfl := hoppedJudgeList_none inv.listless earned.hopped
    have carried : plan.tierExhaustion =
        some (upsertTierExhaustionCandidate life.state.routing.tierExhaustion role here event.envelope.exhaustedUntil) := by
      have dynamic := inv.dynamic tier
      rw [earned.planned]
      cases schedule <;> exact if_pos dynamic
    have listless : plan.judgeList = none := by
      rw [earned.planned]
      cases schedule <;> rfl
    have noEdge : ∀ entry ∈ (routedLife host life life.state.routing.tierExhaustion role here event schedule plan).state.routing.history, entry.role = role →
        (contract.runtimes.get? entry.runtime).bind Runtime.fallback = none := by
      intro entry member own
      rcases List.mem_append.mp (List.mem_of_mem_drop member) with before | final
      · exact inv.noEdge entry before own
      · obtain rfl := List.mem_singleton.mp final
        obtain ⟨other, found, same⟩ := tier
        change (contract.runtimes.get? here).bind _ = _
        rw [found, Option.bind_some, inv.noFallback here other found same]
    have evidence : Evidence (candidatesOf plan.tierExhaustion role) ((life.routes ++
        [AppliedRoute.mk role life.state.revisions schedule here plan.nextRuntime plan.hop]).map (·.current)) := by
      rw [carried, candidatesOf_upsert, List.map_append]
      exact inv.evidence.upsert here event.envelope.exhaustedUntil
    have governed (judge : role = .judge) : (plan.judgeList.or life.state.routing.judgeList).isNone = true := by
      rw [listless, Option.none_or]
      exact inv.listless judge
    have override (routed : String) (same : plan.nextRuntime = routed)
        (last : (visited first (routedLife host life life.state.routing.tierExhaustion role here event schedule plan).routes).getLast? = some routed)
        (attempted : ∀ id ∈ visited first (routedLife host life life.state.routing.tierExhaustion role here event schedule plan).routes,
          id ∈ attemptedRuntimes life.state role ∨ id = routed) :
        Stands role first (routedLife host life life.state.routing.tierExhaustion role here event schedule plan) := by
      subst same
      exact .routed _ rfl rfl rfl last attempted
    cases schedule with
    | reset wakeAt reason =>
      have stays : plan.nextRuntime = here := by
        rw [earned.planned]
        rfl
      have same : visited first (routedLife host life life.state.routing.tierExhaustion role here event (.reset wakeAt reason) plan).routes =
          visited first life.routes := (visited_append ..).trans (List.append_nil _)
      refine ⟨same ▸ inv.distinct, same ▸ inv.tier, ?_, evidence, inv.composed, governed, noEdge, inv.noFallback⟩
      exact override here stays (same ▸ last) fun id member => .inl (attempted id (same ▸ member))
    | failover reason =>
      obtain ⟨fresh, next⟩ := inv.next_ofTier tier (planned_edge earned)
      have longer : visited first (routedLife host life life.state.routing.tierExhaustion role here event (.failover reason) plan).routes =
          visited first life.routes ++ [plan.nextRuntime] := visited_append ..
      refine ⟨?_, ?_, ?_, evidence, inv.composed, governed, noEdge, inv.noFallback⟩
      · rw [longer]
        refine List.nodup_append.mpr ⟨inv.distinct, List.nodup_singleton _, ?_⟩
        rintro id member _ final rfl
        exact fresh (List.mem_singleton.mp final ▸ attempted id member)
      · intro id member
        rcases List.mem_append.mp (longer ▸ member) with before | final
        · exact inv.tier id before
        · exact List.mem_singleton.mp final ▸ next
      · refine override _ rfl (longer ▸ List.getLast?_concat) fun id member => ?_
        exact (List.mem_append.mp (longer ▸ member)).imp (attempted id) List.mem_singleton.mp

/-- A settled exhaustion whose routes grew was routed on the evidence so far. -/
private theorem routed_of_longer {event : Unusable} (case : LifeStep host contract node life (.unusable event) after)
    (exhausts : event.cause.exhausts = true) (longer : after.routes ≠ life.routes) :
    ∃ role current schedule judgeListState plan, life.running = some (role, current) ∧
      Earned host contract life.state role current event schedule judgeListState plan ∧
        after = routedLife host life life.state.routing.tierExhaustion role current event schedule plan := by
  cases case with
  | routed _ role current schedule judgeListState plan evidence job found earned =>
    have unchanged : settledState life.state event.cause = life.state := by
      cases cause : event.cause <;> rw [cause] at exhausts <;> first | rfl | cases exhausts
    rw [unchanged] at found
    have same : evidence = life.state.routing.tierExhaustion := congrArg (·.routing.tierExhaustion) found
    rw [found] at earned
    rw [same]
    exact ⟨role, current, schedule, judgeListState, plan, job, earned, rfl⟩
  | stopped => exact absurd rfl longer

private theorem WalkInv.step {event : RouteEvent} (inv : WalkInv contract role first runtime life)
    (exhaustion : ExhaustionOf host contract node role life event) (step : routeStep host contract node life event = some after) :
    WalkInv contract role first runtime after := by
  cases event with
  | dispatch dispatched clock =>
    obtain rfl : dispatched = role := exhaustion
    exact inv.dispatched step
  | unusable event =>
    obtain ⟨⟨runner, current⟩, running, settling⟩ := Option.bind_eq_some_iff.mp step
    obtain ⟨settled, success, rfl⟩ := Option.map_eq_some_iff.mp settling
    have goesOn := exhaustion.2 _ running
    rw [success, Option.any_some] at goesOn
    cases settled with
    | ownFailure => cases goesOn
    | unrouted => cases goesOn
    | blocked => cases goesOn
    | routed state route =>
      have case := settleUnusable_cases running success
      have longer : (life.settle (.routed state route)).routes ≠ life.routes := by simp [NodeLife.settle]
      obtain ⟨role', here, schedule, judgeListState, plan, job, earned, same⟩ := routed_of_longer case exhaustion.1 longer
      rw [same]
      have own : role' = role := by
        cases inv.stands with
        | routed override idle => cases idle.symm.trans job
        | running last other => exact (Prod.mk.inj (Option.some.inj (job.symm.trans other))).1
      subst own
      exact inv.routed job earned
  | closed => cases exhaustion
  | revise => cases exhaustion
  | resume => cases exhaustion

private theorem WalkInv.visited_le (inv : WalkInv contract role first runtime life) :
    (visited first life.routes).length ≤ (tierOf contract.runtimes runtime).length :=
  (List.subperm_of_subset inv.distinct fun id member => (inv.tier id member).mem).length_le

private theorem visited_lt (inv : WalkInv contract role first runtime life) {next : String} (fresh : next ∉ visited first life.routes)
    (within : OfTier contract runtime next) : (visited first life.routes).length < (tierOf contract.runtimes runtime).length := by
  have distinct : (next :: visited first life.routes).Nodup := List.nodup_cons.mpr ⟨fresh, inv.distinct⟩
  refine (List.subperm_of_subset distinct fun id member => ?_).length_le
  rcases List.mem_cons.mp member with rfl | before
  · exact within.mem
  · exact (inv.tier id before).mem

/-- What a plan to leave the runtime comes to. -/
private theorem WalkInv.ends (inv : WalkInv contract role first runtime life) {current : String}
    (running : life.running = some (role, current)) (clock : Clock) (error : RouteError) (reason : TransitionReason)
    (exhaustedUntil : Option String) :
    PlanWithin contract role first runtime life current exhaustedUntil
      (planRoute contract.runtimes clock life.state role error current (.failover reason) exhaustedUntil none) := by
  cases inv.stands with
  | routed override idle => cases idle.symm.trans running
  | running here job last attempted =>
    obtain ⟨-, rfl⟩ := Prod.mk.inj (Option.some.inj (job.symm.trans running))
    have tier : OfTier contract runtime here := inv.tier _ (List.mem_of_getLast? last)
    have dynamic := inv.dynamic tier
    have carried : (planRoute contract.runtimes clock life.state role error here (.failover reason) exhaustedUntil none).tierExhaustion =
        some (upsertTierExhaustionCandidate life.state.routing.tierExhaustion role here exhaustedUntil) := if_pos dynamic
    have blocked : (planRoute contract.runtimes clock life.state role error here (.failover reason) exhaustedUntil none).blocked =
        blockedRoute contract.runtimes clock life.state role error here
          (nextEdge contract.runtimes clock life.state role here none) (previousHop life.state.routing role life.state.revisions + 1)
            false := rfl
    have onward : (planRoute contract.runtimes clock life.state role error here (.failover reason) exhaustedUntil none).nextRuntime =
        (nextEdge contract.runtimes clock life.state role here none).getD here := rfl
    generalize planRoute contract.runtimes clock life.state role error here (.failover reason) exhaustedUntil none = plan
      at carried blocked onward
    rw [PlanWithin, blocked, blockedRoute, inv.chain tier, dynamic]
    cases left : nextEdge contract.runtimes clock life.state role here none with
    | some next =>
      obtain ⟨fresh, within⟩ := inv.next_ofTier tier left
      rw [left, Option.getD_some] at onward
      simp only [reduceCtorEq, if_false, Bool.true_or, Bool.not_true, Bool.and_false, Bool.false_eq_true]
      have unvisited : next ∉ visited first life.routes := fun member => fresh (attempted next member)
      rw [onward]
      exact ⟨unvisited, within.mem, visited_lt inv unvisited within⟩
    | none =>
      obtain ⟨distinct, exactly⟩ := inv.evidence.upsert here exhaustedUntil
      simp only [if_true, Bool.false_eq_true, if_false, List.head?_nil, Option.filter_none]
      refine ⟨trivial, _, carried, rfl, upsert_role .., distinct, fun id => ?_⟩
      rw [exactly, List.mem_append, List.mem_singleton, or_comm]

end

instance : DecidableRel (ExhaustionOf host contract node role) := fun life event =>
  match event with
  | .dispatch dispatched _ => inferInstanceAs (Decidable (dispatched = role))
  | .unusable event => inferInstanceAs (Decidable (event.cause.exhausts = true ∧ ∀ job ∈ life.running,
      (settleUnusable host contract node life.state job.1 job.2 event).any Settled.isRouted = true))
  | .closed _ _ _ | .revise | .resume => instDecidableFalse

/-- In every run of exhaustions inside one generation, a composed role without a declared fallback goes from runtime to runtime of
its tier, never back, until the tier is exhausted and the evidence holds every runtime that was. -/
theorem tier_failover_walks (host : RouteHost) (contract : RouteContract) (node : RouteNode) (role : RouteRole) (first : String)
    (runtime : Runtime) (life : NodeLife)
    (reach : (routeMachine host contract node).Reach (ExhaustionOf host contract node role)
      (GenerationStart contract role first runtime) life) : TierWalk contract role first runtime life := by
  have inv : WalkInv contract role first runtime life := by
    refine reach.invariant (WalkInv contract role first runtime) (fun _ => walkInv_of_start) ?_
    exact fun life event after inv exhaustion taken => inv.step exhaustion taken
  exact ⟨inv.distinct, fun id member => (inv.tier id member).mem, inv.visited_le, fun current running => inv.ends running⟩

private def firstRuntime : Runtime := ⟨"claude", "claude-opus-5", some "anthropic", none, none, some (.number 1), none, none⟩

/-- Three runtimes of one tier, and a fourth of another. -/
private def oneTier : RouteContract where
  runtimes :=
    ⟨[("a", firstRuntime),
      ("b", ⟨"codex", "gpt-6", some "openai", none, none, some (.number 1), none, none⟩),
      ("c", ⟨"claude", "claude-sonnet-5", some "anthropic", none, none, some (.number 1), none, none⟩),
      ("d", ⟨"claude", "claude-haiku-5", some "anthropic", none, none, some (.number 2), none, none⟩)], by decide⟩
  runtimeDefaults := ⟨none, none⟩
  timeoutSec := 7200

private def composedWorker : RuntimeAssignments := ⟨"a", "d", true, false⟩

private def startedLife : NodeLife :=
  { freshLife composedWorker with
    state := dispatch quietHost quietClock (freshLife composedWorker).state .worker "a"
    running := some (.worker, "a") }

/-- The worker leaves two runtimes, and waits for a reset between them. -/
private def threeRuntimes : List RouteEvent :=
  [.unusable ⟨.exhausted, plainExhaustion, quietMachine, 0⟩] ++ unusableRound .worker .exhausted announcedReset ++
    unusableRound .worker .exhausted plainExhaustion ++ [.dispatch .worker quietClock]

theorem tier_failover_walks_three : ∃ life, (routeMachine quietHost oneTier plainNode).replay?
    (ExhaustionOf quietHost oneTier plainNode .worker) startedLife threeRuntimes = some life ∧
      visited "a" life.routes = ["a", "b", "c"] ∧ TierWalk oneTier .worker "a" firstRuntime life := by
  have ran := @Machine.exists_replay _ _ (routeMachine quietHost oneTier plainNode)
    (ExhaustionOf quietHost oneTier plainNode .worker) _ startedLife threeRuntimes _
    (fun life => visited "a" life.routes = ["a", "b", "c"]) _ (fun _ _ held => held) (by decide +kernel)
  obtain ⟨life, ran, three⟩ := ran
  refine ⟨life, ran, three, ?_⟩
  refine tier_failover_walks quietHost oneTier plainNode .worker "a" firstRuntime life (.of_replay ?_ _ ran)
  have plain : ∀ entry ∈ oneTier.runtimes.entries, entry.2.fallback = none := by decide
  refine ⟨rfl, rfl, rfl, by decide, rfl, rfl, by decide, by decide, ?_⟩
  exact fun id other here _ => plain (id, other) (Catalogue.mem_of_get? here)

end Faberun.Backoff
