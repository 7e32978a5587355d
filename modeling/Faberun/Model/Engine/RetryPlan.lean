import Faberun.Model.Contract.Runtime
import Faberun.Model.Engine.Retry

/-! # The plan of a resume

`planResumeRetry` with what the loop's model leaves to its caller: the instants a tier-exhausted node recorded, nodes
without a state, and the attention it raises. Its classification of a node is the one of the loop.
-/

namespace Faberun.RetryPlan

/-- What the plan reads of a node snapshot. -/
structure RetryState extends RunNode String where
  updatedAt : Option String
  startedAt : Option String
  /-- `routing.tierExhaustion.candidates`, their `exhaustedUntil`. -/
  exhaustedUntil : List (Option String)

/-- `Date.parse` as far as it is finite, `Date.now()` and `toISOString`. -/
structure RetryClock where
  parse : String → Option Int
  now : Int
  toIso : Int → String

/-- `earliestTierReset`. -/
def earliestTierReset (clock : RetryClock) (state : RetryState) : Option Int :=
  (state.exhaustedUntil.filterMap fun moment => clock.parse (moment.getD "")).min?

/-- `TIER_EXHAUSTION_HOLD_CAP_MS`. -/
def tierExhaustionHoldCapMs : Int := 24 * 60 * 60 * 1000

/-- `TIER_EXHAUSTION_CAP_REASON`. -/
def tierExhaustionCapReason : String :=
  "tier-exhaustion hold cap exceeded; post-cap transition re-dispatches on the current runtime"

/-- `tierExhaustionHeldMs`. -/
def tierExhaustionHeldMs (clock : RetryClock) (state : RetryState) : Int :=
  match clock.parse ((state.updatedAt.or state.startedAt).getD "") with
  | none => 0
  | some since => max 0 (clock.now - since)

/-- What the clock says of a tier-exhausted node. -/
def tierWait (clock : RetryClock) (state : RetryState) : TierWait :=
  if tierExhaustionHoldCapMs ≤ tierExhaustionHeldMs clock state then .overCap
  else match earliestTierReset clock state with
    | none => .unknown
    | some earliest => if clock.now < earliest then .ahead else .due

/-- The nodes a `--node` or `--answer` narrows to. -/
def targetsOf {κ : Type} (contract : Contract String κ) (options : ResumeOptions String) : Option (List String) :=
  (nonempty? (options.node.or options.answer)).map (retryTargets contract)

section

variable (clock : RetryClock) (targets : Option (List String)) (options : ResumeOptions String)

/-- The attention the classification of a node raises. -/
def attentionReason (id : String) (state : RetryState) : Option String :=
  if isJudgeUnavailable state.toRunNode then
    if outside targets id then some "its unresolved review is outside this retry" else none
  else if isUnknownEffectStop state.toRunNode then
    if options.reconcile = some id then none else some "an unknown workspace effect needs an explicit `resume --reconcile`"
  else if isBlockedContextTerminal state.toRunNode then none
  else if blockedWith "runtime_tier_exhausted" state.status state.error then
    if outside targets id then some "it is outside the `--node` retry"
    else if tierExhaustionHoldCapMs ≤ tierExhaustionHeldMs clock state then some tierExhaustionCapReason
    else match earliestTierReset clock state with
      | none => some "no recorded reset time for any exhausted candidate"
      | some earliest =>
        if clock.now < earliest then some s!"earliest recorded reset is {clock.toIso earliest}" else none
  else if isRetryableFailure state.toRunNode = false then none
  else if outside targets id then some "it is outside the `--node` retry"
  else none

/-- What the plan makes of one node by itself. -/
def classifyNode (id : String) (state : RetryState) : ResumeAction :=
  classify targets options (tierWait clock state) id state.toRunNode

end

structure ResumePlan where
  actions : String → Option ResumeAction
  attention : List (String × String)
  targets : Option (List String)

section

variable {κ : Type} (states : String → Option RetryState)

/-- The first loop, at a node. -/
def classifyInto (clock : RetryClock) (options : ResumeOptions String) (plan : ResumePlan) (node : ContractNode String κ) :
    ResumePlan :=
  match states node.id with
  | none => plan
  | some state =>
    { plan with
      actions := Function.update plan.actions node.id (some (classifyNode clock plan.targets options node.id state))
      attention := plan.attention ++ ((attentionReason clock plan.targets options node.id state).map (node.id, ·)).toList }

/-- What a node waited on lets it be retried. -/
def retriedToo (actions : String → Option ResumeAction) (id : String) : Bool :=
  decide (actions id = some .retry ∨ actions id = some .rejudge) || (states id).any fun state => decide (state.status = .done)

/-- The second loop, at a node. -/
def holdBack (plan : ResumePlan) (node : ContractNode String κ) : ResumePlan :=
  match states node.id with
  | none => plan
  | some state =>
    if isDependencyFailed state.toRunNode = false ∨ plan.actions node.id ≠ some .retry then plan
    else if state.blockedBy.all (retriedToo states plan.actions) then plan
    else
      { plan with
        actions := Function.update plan.actions node.id (some .hold)
        attention := plan.attention ++ [(node.id, "the dependency it waited on is not part of this retry")] }

/-- The plan after the first loop. -/
def classifiedPlan (contract : Contract String κ) (options : ResumeOptions String) (clock : RetryClock) : ResumePlan :=
  contract.nodes.foldl (classifyInto states clock options) ⟨fun _ => none, [], targetsOf contract options⟩

def planResumeRetry (contract : Contract String κ) (options : ResumeOptions String) (clock : RetryClock) : ResumePlan :=
  contract.nodes.foldl (holdBack states) (classifiedPlan states contract options clock)

end

end Faberun.RetryPlan
