import Faberun.Soundness.NodeRoutes

/-! # The budget of network waits

The waits a role spent in a revision are counted back from the history, which keeps the end of what was recorded. While a
network failure finds all of them there, the budget holds whatever else was recorded in between; a wait the history has lost
is granted again.
-/

namespace Faberun.Backoff

open Window

variable {host : RouteHost} {contract : RouteContract} {node : RouteNode} {life after : NodeLife}

/-- A network wait of a role in a revision. -/
def isWaitOf (role : RouteRole) (revision : Nat) (route : AppliedRoute) : Bool :=
  decide (route.role = role) && decide (route.revision = revision) && route.schedule.isNetworkWait

/-- The network waits a role was granted in a revision. -/
def networkWaits (routes : List AppliedRoute) (role : RouteRole) (revision : Nat) : Nat :=
  routes.countP (isWaitOf role revision)

/-- No role was granted more network waits in a revision than the budget has. -/
def WithinBudget (life : NodeLife) : Prop := ∀ role revision, networkWaits life.routes role revision ≤ networkMaxAttempts

/-- A network failure of a role finds none of its network waits of this revision among the routes before the last ones that
the history keeps. -/
def WaitsRemembered (host : RouteHost) (life : NodeLife) : RouteEvent → Prop
  | .unusable event => isNetworkFailure host event.envelope.error event.cause.exitCode = true →
      ∀ job ∈ life.running, networkWaits (before maxRoutingHistory life.routes) job.1 life.state.revisions = 0
  | _ => True

instance (host : RouteHost) : DecidableRel (WaitsRemembered host) := fun life event =>
  match event with
  | .unusable event => inferInstanceAs (Decidable (isNetworkFailure host event.envelope.error event.cause.exitCode = true →
      ∀ job ∈ life.running, networkWaits (before maxRoutingHistory life.routes) job.1 life.state.revisions = 0))
  | .dispatch _ _ | .closed _ _ _ | .revise | .resume => instDecidableTrue

private theorem isNetworkWait_of_mirrors {role : RouteRole} {revision : Nat} {entry : RoutingHistoryEntry} {route : AppliedRoute}
    (mirrors : Mirrors entry route) (wait : isWaitOf role revision route = true) : isNetworkWait role revision entry = true := by
  simp only [isWaitOf, Bool.and_eq_true, decide_eq_true_eq] at wait
  obtain ⟨⟨same, here⟩, network⟩ := wait
  simp only [isNetworkWait, Bool.and_eq_true, decide_eq_true_eq, List.isPrefixOf_iff_prefix]
  refine ⟨⟨mirrors.role.trans same, ?_⟩, mirrors.marked network⟩
  rw [mirrors.revision, Option.getD_some, here]

/-- The history counts every wait among the routes it keeps. -/
private theorem length_filter_le {role : RouteRole} {revision : Nat} {history : List RoutingHistoryEntry} {routes : List AppliedRoute}
    (mirrors : List.Forall₂ Mirrors history routes) :
    networkWaits routes role revision ≤ (history.filter (isNetworkWait role revision)).length := by
  induction mirrors with
  | nil => exact Nat.le_refl _
  | @cons entry route _ _ same _ ih =>
    rw [networkWaits, List.countP_cons, ← networkWaits]
    by_cases wait : isWaitOf role revision route = true
    · rw [List.filter_cons_of_pos (isNetworkWait_of_mirrors same wait), List.length_cons, if_pos wait]
      exact Nat.succ_le_succ ih
    · rw [if_neg wait, Nat.add_zero]
      exact ih.trans ((List.sublist_cons_self _ _).filter _).length_le

/-- While no wait is forgotten, the attempts counted are all that were granted. -/
theorem Recorded.networkWaits_le (recorded : Recorded life) {role : RouteRole}
    (remembered : networkWaits (before maxRoutingHistory life.routes) role life.state.revisions = 0) :
    networkWaits life.routes role life.state.revisions ≤ networkBackoffAttempts life.state role life.state.revisions := by
  have kept := @length_filter_le role life.state.revisions _ _ recorded.mirrors
  rw [← @before_append_lastOf _ maxRoutingHistory life.routes, networkWaits, List.countP_append, ← networkWaits, remembered,
    Nat.zero_add]
  exact kept

/-- An event keeps the budget when its invocation finds every wait it must count. -/
theorem withinBudget_step {event : RouteEvent} (recorded : Recorded life) (within : WithinBudget life)
    (guard : WaitsRemembered host life event) (step : LifeStep host contract node life event after) : WithinBudget after := by
  cases step with
  | dispatched => exact within
  | stopped => exact within
  | revised => exact within
  | routed event role current schedule judgeListState plan evidence running found earned =>
    intro other revision
    change networkWaits (life.routes ++ [_]) other revision ≤ networkMaxAttempts
    have before := within other revision
    rw [networkWaits] at before ⊢
    rw [List.countP_append, List.countP_singleton]
    split
    · rename_i wait
      simp only [isWaitOf, Bool.and_eq_true, decide_eq_true_eq] at wait
      obtain ⟨⟨rfl, rfl⟩, network⟩ := wait
      obtain ⟨failure, attempts⟩ := earned.attempts network
      have counted := @Recorded.networkWaits_le life recorded role (guard failure (role, current) running)
      rw [networkWaits] at counted
      change networkBackoffAttempts life.state role life.state.revisions < _ at attempts
      omega
    · exact before

/-- In every life of a node whose network failures find the waits of their role and revision in the history, no role is granted
more network waits in a revision than the budget has. -/
theorem network_waits_within_budget (host : RouteHost) (contract : RouteContract) (node : RouteNode) (life : NodeLife)
    (reach : (routeMachine host contract node).Reach (WaitsRemembered host) FreshNode life) : WithinBudget life := by
  suffices both : Recorded life ∧ WithinBudget life from both.2
  refine reach.invariant (fun life => Recorded life ∧ WithinBudget life) ?_ ?_
  · intro life fresh
    refine ⟨recorded_of_fresh fresh, fun role revision => ?_⟩
    rw [fresh.2.1]
    exact Nat.zero_le _
  · rintro life event after ⟨recorded, within⟩ guard taken
    have step := routeStep_cases taken
    exact ⟨recorded.step step, withinBudget_step recorded within guard step⟩

/-- A contract of one runtime. -/
private def oneRuntime : RouteContract where
  runtimes := ⟨[("a", ⟨"claude", "claude-opus-5", some "anthropic", none, none, none, none, none⟩)], by decide⟩
  runtimeDefaults := ⟨none, none⟩
  timeoutSec := 7200

private def oneAssignment : RuntimeAssignments := ⟨"a", "a", false, false⟩

/-- Dropped connections in a row. -/
private def drops (count : Nat) : List RouteEvent :=
  (List.replicate count (unusableRound .worker (.failed none) droppedConnection)).flatten

/-- The fourth failure in a row takes no wait. -/
theorem network_waits_within_budget_four : ∃ life, (routeMachine quietHost oneRuntime plainNode).replay? (WaitsRemembered quietHost)
    (freshLife oneAssignment) (drops 4) = some life ∧ networkWaits life.routes .worker 0 = 3 ∧ WithinBudget life := by
  have ran := @Machine.exists_replay _ _ (routeMachine quietHost oneRuntime plainNode) (WaitsRemembered quietHost) _
    (freshLife oneAssignment) (drops 4) _ (fun life => networkWaits life.routes .worker 0 = 3) _ (fun _ _ held => held)
    (by decide +kernel)
  obtain ⟨life, ran, spent⟩ := ran
  refine ⟨life, ran, spent, ?_⟩
  exact network_waits_within_budget quietHost oneRuntime plainNode life (.of_replay (freshNode_freshLife _) _ ran)

/-- Three waits, as many announced resets as the history holds, and one more wait. -/
private def forgottenWaits : List RouteEvent :=
  drops 3 ++ (List.replicate 64 (unusableRound .worker .exhausted announcedReset)).flatten ++ drops 1

/-- The history forgets the waits, and the budget starts over. -/
theorem network_waits_forgotten : ¬ ∀ life, (routeMachine quietHost oneRuntime plainNode).Reach Machine.free FreshNode life →
    WithinBudget life := by
  intro bounded
  have ran := @Machine.exists_replay _ _ (routeMachine quietHost oneRuntime plainNode) Machine.free _
    (freshLife oneAssignment) forgottenWaits _ (fun life => networkWaits life.routes .worker 0 = 4) _ (fun _ _ held => held)
    (by decide +kernel)
  obtain ⟨life, ran, four⟩ := ran
  have within := bounded life (.of_replay (freshNode_freshLife _) _ ran) .worker 0
  rw [four] at within
  exact absurd within (by decide)

end Faberun.Backoff
