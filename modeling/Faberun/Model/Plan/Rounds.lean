import Faberun.Machine.Core
import Faberun.Machine.KeyedLog

/-! # The planner's review rounds

A round grades the plan: the pre-flight repairs and checks it, a review raises findings, and they are merged by id over
the ones still open. Without a critical finding the rounds end; otherwise a revise answers the findings, and those
whose node it left as it was stay open. What a review or a revise returns is the environment's choice.
-/

namespace Faberun.Rounds

/-! ## Plans and findings -/

/-- A node of a plan; `body` is the stable JSON of its other fields. -/
structure PlanNode where
  id : String
  writeFiles : List String
  body : String
  deriving DecidableEq

/-- A plan; `declarations` is the stable JSON of its other fields. -/
structure Plan where
  nodes : List PlanNode
  declarations : String
  deriving DecidableEq

/-- The node a map from ids to nodes holds. -/
def Plan.node? (plan : Plan) (id : String) : Option PlanNode := KeyedLog.lastOf PlanNode.id plan.nodes id

inductive Severity where
  | critical
  | major
  | minor
  deriving DecidableEq

structure Finding where
  id : String
  severity : Severity
  nodeId : String
  text : String
  deriving DecidableEq

def Finding.isCritical (finding : Finding) : Bool := decide (finding.severity = .critical)

/-- `incoming` over `carried`, by finding id. -/
def mergeFindings (carried incoming : List Finding) : List Finding := KeyedLog.latest Finding.id (carried ++ incoming)

/-- The findings whose node a revise left as it was. -/
def unresolvedFindings (findings : List Finding) (previousPlan revisedPlan : Option Plan) : List Finding :=
  match revisedPlan with
  | none => findings
  | some revised =>
    findings.filter fun finding =>
      (revised.node? finding.nodeId).isSome &&
        decide ((previousPlan.bind fun plan => plan.node? finding.nodeId) = revised.node? finding.nodeId)

def droppedWriteText (nodeId path : String) : String :=
  s!"Node {nodeId} no longer declares {path} in writeFiles, which the plan this revise revised did declare, and no other node in the revised plan declares it either. Declare it again on whichever node owns the work: the resolution to a scope-closure finding is to declare or acknowledge the dragged-along file, never to drop a write the node needs — a smaller write set clears the same finding while leaving the worker unable to do the work. Moving the file to another node is a resolution; removing it from the plan is not."

/-- The writes of one node that no node declares any more. -/
def droppedWritesOf (previous revised : Plan) (onDisk : String → Bool) (node : PlanNode) : List Finding :=
  match previous.node? node.id with
  | none => []
  | some before =>
    let dropped := before.writeFiles.eraseDups.filter fun path =>
      !(revised.nodes.flatMap PlanNode.writeFiles).contains path && onDisk path
    dropped.zipIdx.map fun entry =>
      ⟨s!"dropped-write-{node.id}-{entry.2 + 1}", .critical, node.id, droppedWriteText node.id entry.1⟩

def droppedWriteFindings (previousPlan revisedPlan : Option Plan) (onDisk : String → Bool) : List Finding :=
  match previousPlan, revisedPlan with
  | some previous, some revised => revised.nodes.flatMap (droppedWritesOf previous revised onDisk)
  | _, _ => []

/-- `SCOPE_CLOSURE_MESSAGE_PREFIX`. -/
def scopeClosureMessage : String := "task packet scope does not close"

/-- `SCOPE_CLOSURE_RESOLUTION`. -/
def scopeClosureResolution : String :=
  "Resolve it by declaring each named file in writeFiles — or acknowledging it in scopeAcknowledged when the node must not change it — never by dropping a write the node needs: removing a file from writeFiles clears this failure too, and leaves the worker without a file the work requires."

def invalidPlanFinding (label error : String) : Finding :=
  let guided := if scopeClosureMessage.toList.isPrefixOf error.toList then s!"{error} {scopeClosureResolution}" else error
  ⟨s!"plan-shape-{label}", .critical, "plan", guided⟩

/-- `history` holds the critical counts, this round's last. -/
def revisionNotConvergingFinding (round : Nat) (history : List Nat) : Finding :=
  let current := history.getLast?.getD 0
  let previous := history.dropLast.getLast?.getD 0
  let counts := String.intercalate ", " (history.map toString)
  ⟨s!"revision-not-converging-r{round}", .critical, "plan",
    s!"Round {round} review still finds {current} critical finding(s), no fewer than round {round - 1}'s {previous}. Critical count by round: {counts}. The revise is not resolving what review keeps objecting to, so the pipeline stops here instead of spending the round(s) still in budget."⟩

/-! ## One revise -/

/-- What one revise run gives: its plan, when it applies and validates, and what the pre-flight says of it. -/
structure Attempt where
  valid : Except String Plan
  failure : Option String

/-- What a revise meets: the contexts that did not fit and its two attempts. -/
structure Revise where
  context : Option String
  first : Attempt
  retryContext : Option String
  second : Except String Plan
  /-- What exists in the repository. -/
  onDisk : String → Bool

/-- A revised plan, or the finding the round is contested with. -/
inductive Revised where
  | plan (plan : Plan)
  | refused (finding : Finding)

/-- The first attempt's plan when it validated. -/
def fallBack (first : Attempt) (finding : Finding) : Revised :=
  match first.valid with
  | .ok plan => .plan plan
  | .error _ => .refused finding

/-- `reviseOnce`; `patchMode` is that there is a plan to patch. -/
def reviseOnce (round : Nat) (patchMode : Bool) (revise : Revise) : Revised :=
  match revise.context.filter fun _ => patchMode with
  | some error => .refused (invalidPlanFinding s!"revise-r{round}-context" error)
  | none =>
    match revise.first.valid, revise.first.failure with
    | .ok plan, none => .plan plan
    | _, _ =>
      match revise.retryContext.filter fun _ => patchMode with
      | some error => fallBack revise.first (invalidPlanFinding s!"revise-r{round}-context-retry" error)
      | none =>
        match revise.second with
        | .ok plan => .plan plan
        | .error error => fallBack revise.first (invalidPlanFinding s!"revise-r{round}-attempt2" error)

/-! ## The rounds -/

/-- The repairs of a pre-flight: each node is rewritten on its own and keeps its id. -/
structure Repairs where
  node : PlanNode → PlanNode
  keepsId : ∀ before, (node before).id = before.id
  declarations : String → String

def Repairs.apply (repairs : Repairs) (plan : Plan) : Plan :=
  ⟨plan.nodes.map repairs.node, repairs.declarations plan.declarations⟩

/-- What a round meets: the pre-flight's repairs and verdict, and the review's findings or what is wrong with them. -/
structure Review where
  repairs : Repairs
  failure : Option String
  findings : Except String (List Finding)

/-- What happened so far, in order. -/
inductive Event where
  | reviewed (plan : Plan) (raised : List Finding) (failure : Option String)
  | revised (before after : Option Plan)
  deriving DecidableEq

inductive Stage where
  | reviewing
  | revising
  | resolved
  | contested
  deriving DecidableEq

structure State where
  reviewRounds : Nat
  round : Nat
  plan : Option Plan
  findings : List Finding
  droppedWrites : List Finding
  criticalHistory : List Nat
  carriedCritical : Nat
  stage : Stage
  history : List Event

inductive Label where
  /-- The plan is graded. -/
  | review (review : Review)
  /-- There is no plan to grade. -/
  | skip
  | revise (revise : Revise)

def criticals (findings : List Finding) : List Finding := findings.filter Finding.isCritical

namespace State

/-- The finding of a review that says nothing usable. -/
def invalidReview (s : State) (review : Review) : List Finding :=
  match review.findings with
  | .ok _ => []
  | .error error => [invalidPlanFinding s!"review-r{s.round}" error]

/-- The finding of a plan that would not freeze. -/
def freezeFailure (s : State) (review : Review) : List Finding :=
  match review.failure with
  | none => []
  | some error => [invalidPlanFinding s!"freeze-r{s.round}" error]

def raised (review : Review) : List Finding :=
  match review.findings with
  | .ok findings => findings
  | .error _ => []

/-- The findings once the review is in. -/
def withReview (s : State) (review : Review) : List Finding :=
  match review.findings with
  | .ok findings => mergeFindings s.findings findings ++ s.freezeFailure review
  | .error _ => s.findings ++ s.invalidReview review ++ s.freezeFailure review

/-- Where a round goes with its merged findings; `previous` is the count to improve on and `counts` the history. -/
def settleMerged (s : State) (merged : List Finding) (previous : Option Nat) (counts : List Nat) : State :=
  if criticals merged = [] then { s with findings := merged, stage := .resolved }
  else if (previous.any fun before => before ≤ (criticals merged).length) && decide (0 < s.carriedCritical) then
    { s with findings := merged ++ [revisionNotConvergingFinding s.round counts], criticalHistory := counts,
             stage := .contested }
  else if s.round = s.reviewRounds then { s with findings := merged, criticalHistory := counts, stage := .contested }
  else { s with findings := merged, criticalHistory := counts, stage := .revising }

/-- The end of a round's grading, its findings merged with the write-drops of the revise before. -/
def settle (s : State) (reviewed : Bool) (findings : List Finding) : State :=
  let merged := mergeFindings findings s.droppedWrites
  if reviewed then s.settleMerged merged s.criticalHistory.getLast? (s.criticalHistory ++ [(criticals merged).length])
  else s.settleMerged merged none s.criticalHistory

/-- A round with a plan: the plan under review is the repaired one. -/
def review (s : State) (plan : Plan) (review : Review) : State :=
  let graded := review.repairs.apply plan
  let reviewed := { s with
    plan := some graded, history := s.history ++ [Event.reviewed graded (raised review) review.failure] }
  reviewed.settle true (s.withReview review)

/-- The plan a revise gave, or the end of the rounds. -/
def revise (s : State) (revise : Revise) : State :=
  match reviseOnce s.round s.plan.isSome revise with
  | .refused finding => { s with findings := s.findings ++ [finding], stage := .contested }
  | .plan plan =>
    let findings := unresolvedFindings s.findings s.plan (some plan)
    { s with
      round := s.round + 1
      plan := some plan
      droppedWrites := droppedWriteFindings s.plan (some plan) revise.onDisk
      findings
      carriedCritical := (criticals findings).length
      stage := .reviewing
      history := s.history ++ [Event.revised s.plan (some plan)] }

def step (s : State) : Label → Option State
  | .review review =>
    match s.stage, s.plan with
    | .reviewing, some plan => some (s.review plan review)
    | _, _ => none
  | .skip =>
    match s.stage, s.plan with
    | .reviewing, none => some (s.settle false s.findings)
    | _, _ => none
  | .revise revise => if s.stage = .revising then some (s.revise revise) else none

end State

def machine : Machine State Label := ⟨State.step⟩

/-- A draft and its findings before the first of at least one round. -/
def Initial (s : State) : Prop :=
  1 ≤ s.reviewRounds ∧ s.round = 1 ∧ s.droppedWrites = [] ∧ s.criticalHistory = [] ∧ s.carriedCritical = 0 ∧
    s.stage = .reviewing ∧ s.history = []

/-! ## What the rounds owe -/

/-- A later revise changed or removed the node, or a later review lowered the finding. -/
def Event.answers (finding : Finding) : Event → Prop
  | .reviewed _ raised _ =>
    ∃ other ∈ raised, other.id = finding.id ∧ other.nodeId = finding.nodeId ∧ other.severity ≠ .critical
  | .revised before after =>
    (before.bind fun plan => plan.node? finding.nodeId) ≠ after.bind fun plan => plan.node? finding.nodeId

/-- A review raised a critical finding on a node of the plan it graded. -/
def Event.objects (finding : Finding) : Event → Prop
  | .reviewed graded raised _ =>
    finding ∈ raised ∧ finding.severity = .critical ∧ (graded.node? finding.nodeId).isSome
  | .revised .. => False

/-- Every such finding was answered. -/
def Answered (history : List Event) : Prop :=
  ∀ earlier event later finding, history = earlier ++ event :: later → event.objects finding →
    ∃ answer ∈ later, answer.answers finding

/-- The plan is the one the last review graded, and would freeze. -/
def Graded (history : List Event) (plan : Plan) : Prop :=
  ∃ earlier raised, history = earlier ++ [.reviewed plan raised none]

/-- What a round merges keeps the objections of the round and of those before: whenever a finding takes the place of a
critical one it is about the same node, and within one review it is critical too. -/
def KeepsObjections (s : State) : Label → Prop
  | .review review =>
    let later := s.invalidReview review ++ s.freezeFailure review ++ s.droppedWrites
    ∀ finding ∈ s.findings ++ State.raised review, finding.severity = .critical →
      ∀ other, KeyedLog.lastOf Finding.id (s.findings ++ State.raised review ++ later) finding.id = some other →
        other.nodeId = finding.nodeId ∧ (finding ∈ State.raised review → other.severity = .critical)
  | _ => True

instance : DecidableRel KeepsObjections
  | s, .review review => decidable_of_iff (∀ finding ∈ s.findings ++ State.raised review, finding.severity = .critical →
      ∀ other ∈ KeyedLog.lastOf Finding.id (s.findings ++ State.raised review ++
        (s.invalidReview review ++ s.freezeFailure review ++ s.droppedWrites)) finding.id,
        other.nodeId = finding.nodeId ∧ (finding ∈ State.raised review → other.severity = .critical)) Iff.rfl
  | _, .skip => instDecidableTrue
  | _, .revise _ => instDecidableTrue

end Faberun.Rounds
