import Faberun.Model.Contract.Graph

/-! # Retries

The embedding of `planResumeRetry` of `engine/retry.mjs` and of what `resumeRun` of `engine/resume.mjs` makes
of its plan, and of the passes of the loop over the node snapshots: `enforceRunningInvariant` of
`engine/scheduler.mjs`, `autoRetryParkedNodes` of `engine/lifecycle.mjs` and `blockDependents` of
`engine/assignment.mjs`. The clock is a parameter, and so is what a recovery makes of an invocation.
-/

namespace Faberun

inductive NodePhase where
  | waiting
  | worker
  | judge
  | dependency
  | complete
  | recovering
  | canceled
  deriving DecidableEq, Repr

/-- What the loop and a resume read of a node snapshot. -/
structure RunNode (ν : Type) where
  status : NodeStatus
  phase : NodePhase
  error : Option NodeError
  blockedBy : List ν
  /-- `state.result` is there. -/
  result : Bool
  /-- `routingBackoffActive` for the phase of the node. -/
  backoff : Bool
  /-- `carriesQuotaReset`. -/
  quotaReset : Bool
  /-- `attemptSealIsNonEmpty`. -/
  sealed : Bool
  deriving DecidableEq, Repr

/-- Back to `pending` under a phase. -/
def RunNode.reopen {ν : Type} (state : RunNode ν) (phase : NodePhase) : RunNode ν :=
  { state with status := .pending, phase, error := none, blockedBy := [] }

variable {ν κ : Type} [DecidableEq ν]

/-! ## The plan of a resume -/

/-- `isJudgeUnavailable`. -/
def isJudgeUnavailable (state : RunNode ν) : Bool := blockedWith "judge_unavailable" state.status state.error

/-- `isDependencyFailed`. -/
def isDependencyFailed (state : RunNode ν) : Bool := blockedWith "dependency_failed" state.status state.error

/-- `isUnknownEffectStop`. -/
def isUnknownEffectStop (state : RunNode ν) : Bool :=
  blockedWith "unknown_effect_reconciled" state.status state.error

/-- `isBlockedContextTerminal`. -/
def isBlockedContextTerminal (state : RunNode ν) : Bool := blockedWith "context_missing" state.status state.error

/-- `RETRYABLE_STATUSES`. -/
def NodeStatus.retryable : NodeStatus → Bool
  | .failed | .stalled | .exhausted | .canceled => true
  | _ => false

/-- `isRetryableFailure`. -/
def isRetryableFailure (state : RunNode ν) : Bool := state.status.retryable || isDependencyFailed state

/-- One pass of the loop of `retryTargets`. -/
def growTargets (contract : Contract ν κ) (targets : List ν) : List ν :=
  contract.nodes.foldl (fun targets node =>
    if node.id ∈ targets then targets
    else if node.dependsOn.any fun dependency => decide (dependency ∈ targets) then node.id :: targets
    else targets) targets

/-- `retryTargets`: every pass that grows adds a node, so one pass a node is enough. -/
def retryTargets (contract : Contract ν κ) (id : ν) : List ν :=
  Nat.iterate (growTargets contract) contract.nodes.length [id]

inductive ResumeAction where
  | recover
  | retry
  | rejudge
  | hold
  deriving DecidableEq, Repr

/-- What the clock says of a node whose tier is exhausted. -/
inductive TierWait where
  /-- `tierExhaustionHeldMs` reached `TIER_EXHAUSTION_HOLD_CAP_MS`. -/
  | overCap
  /-- `earliestTierReset` is null. -/
  | unknown
  | ahead
  | due
  deriving DecidableEq, Repr

structure ResumeOptions (ν : Type) where
  node : Option ν
  reconcile : Option ν
  answer : Option ν
  deriving DecidableEq

/-- The node a resume is narrowed to and everything behind it. -/
def ResumeOptions.targets (contract : Contract ν κ) (options : ResumeOptions ν) : Option (List ν) :=
  (options.node.or options.answer).map (retryTargets contract)

/-- A retry is narrowed to other nodes. -/
def outside (targets : Option (List ν)) (id : ν) : Bool := targets.any fun targets => decide (id ∉ targets)

/-- `classify`. -/
def classify (targets : Option (List ν)) (options : ResumeOptions ν) (tier : TierWait) (id : ν) (state : RunNode ν) :
    ResumeAction :=
  let again : ResumeAction := if state.phase = .judge then .rejudge else .retry
  if isJudgeUnavailable state then if outside targets id then .hold else .rejudge
  else if isUnknownEffectStop state then if options.reconcile = some id then .retry else .hold
  else if isBlockedContextTerminal state then if options.answer = some id then .retry else .recover
  else if blockedWith "runtime_tier_exhausted" state.status state.error then
    if outside targets id then .hold
    else
      match tier with
      | .overCap | .due => again
      | .unknown | .ahead => .hold
  else if isRetryableFailure state = false then .recover
  else if outside targets id then .hold
  else .retry

/-- `planResumeRetry`. The second pass holds a node back whose dependency is not retried with it. -/
def planResumeRetry (contract : Contract ν κ) (states : ν → RunNode ν) (options : ResumeOptions ν)
    (tier : ν → TierWait) : ν → ResumeAction :=
  contract.nodes.foldl (fun actions node =>
    if isDependencyFailed (states node.id) ∧ actions node.id = .retry then
      if (states node.id).blockedBy.all fun id =>
          decide (actions id = .retry ∨ actions id = .rejudge ∨ (states id).status = .done) then actions
      else Function.update actions node.id .hold
    else actions) fun id => classify (options.targets contract) options (tier id) id (states id)

/-- What `resumeRun` makes of one node. `recovered` is what a recovery makes of it, where there is one to make. -/
def resumeNode (options : ResumeOptions ν) (action : ResumeAction) (recovered : Option (RunNode ν)) (id : ν)
    (state : RunNode ν) : RunNode ν :=
  if state.status = .done then state
  else if isBlockedContextTerminal state ∧ options.answer ≠ some id then state
  else if isHumanStepPending state.status state.error ∧ options.answer ≠ some id then state
  else
    match action with
    | .rejudge => state.reopen .judge
    | .hold => state
    | .retry => state.reopen .worker
    | .recover =>
        if state.status = .pending ∧ (state.phase = .worker ∨ state.phase = .judge) then recovered.getD state
        else recovered.getD (state.reopen .waiting)

/-- The operator's answer: a human step is done by it, any other node takes it unless it is terminal. -/
def answerNode (node : ContractNode ν κ) (state : RunNode ν) : Option (RunNode ν) :=
  if node.humanStep.isSome then
    if isHumanStepPending state.status state.error then
      some { state with status := .done, phase := .complete, error := none, result := true }
    else none
  else if state.status.terminal then none
  else some state

/-! ## The passes of the loop -/

/-- `AUTO_RETRY_CODES`. -/
def autoRetryCodes : List String :=
  ["judge_unavailable", "provider_error", "incomplete_stream", "stall_timeout", "wall_clock_timeout", "turn_limit"]

/-- `AUTO_RETRY_TIMEOUT_CODES`. -/
def autoRetryTimeoutCodes : List String := ["stall_timeout", "wall_clock_timeout"]

/-- `autoRetryNode` for a parked node, on whether it re-opens it. -/
def autoRetries (consumed : Bool) (state : RunNode ν) : Bool :=
  state.error.any (fun error => decide (error.code ∈ autoRetryCodes ∧
    (error.code ∈ autoRetryTimeoutCodes → state.sealed = true))) && !consumed && !state.quotaReset

/-- `autoRetryParkedNodes`, of one node: the snapshot, and whether its one retry is spent. -/
def autoRetryParked (previouslyParked consumed : Bool) (state : RunNode ν) : RunNode ν × Bool :=
  if state.status.parked && !previouslyParked && autoRetries consumed state then
    (state.reopen (if state.phase = .judge then .judge else .worker), true)
  else (state, consumed)

/-- `enforceRunningInvariant`, of one node. -/
def enforceRunning (held : Bool) (state : RunNode ν) : RunNode ν :=
  if state.status = .running ∧ held = false then
    { state with
      status := .blocked
      error := some ⟨"integration_unresolved", "node is running but the controller holds no invocation for it"⟩ }
  else state

variable [ToString ν]

/-- The body of the loop of `blockDependents`. -/
def blockDependent (states : ν → RunNode ν) (node : ContractNode ν κ) : ν → RunNode ν :=
  if (states node.id).status = .pending then
    let blockedBy := node.dependsOn.filter fun id => (states id).status.parked
    let waiting := blockedBy.all fun id => isHumanStepPending (states id).status (states id).error
    let names := ", ".intercalate (blockedBy.map toString)
    if blockedBy = [] then states
    else Function.update states node.id { states node.id with
      status := .blocked
      phase := .dependency
      blockedBy
      error := some ⟨"dependency_failed", (if waiting then "waiting for human step " else "blocked by ") ++ names⟩ }
  else states

/-- `blockDependents`, in declaration order. -/
def blockDependents (contract : Contract ν κ) (states : ν → RunNode ν) : ν → RunNode ν :=
  contract.nodes.foldl blockDependent states

end Faberun
