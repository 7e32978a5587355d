import Faberun.Model.Contract.DefinitionOfDone

/-! # Plans

The plan a draft returns and `validatePlanOutput` of `plan/template.mjs` accepts: its nodes, its phase declarations and
its suites. The checks are those on values that already have their types.
-/

namespace Faberun.Plan

inductive RiskTier where
  | low
  | standard
  | high
  deriving DecidableEq, Repr

/-- `TASK_KINDS`. -/
def taskKinds : List String := ["docs", "implement", "test", "refactor", "infra", "judge"]

/-- `PlanOutputNode`. -/
structure PlanNode where
  id : String
  objective : String
  taskKind : String
  riskTier : RiskTier
  dependsOn : List String
  readFiles : List String
  writeFiles : List String
  scopeAcknowledged : List String
  definitionOfDone : List DoneItem
  verification : List VerificationCommand
  expectedTurns : Option Nat
  deriving DecidableEq

/-- A phase declaration; the legacy shape has no `nodeIds`. -/
structure PlanPhase where
  id : String
  requirementIds : List String
  nodeIds : Option (List String)
  deliverable : String
  deriving DecidableEq

structure PlanOutput where
  nodes : List PlanNode
  phases : Option (List PlanPhase)
  sharedVerification : Option (List VerificationCommand)
  finalVerification : Option (List VerificationCommand)
  justification : Option String
  deriving DecidableEq

/-! ## Phase declarations -/

/-- The checks on one declaration behind its id. -/
def checkDeclaration (phase : PlanPhase) (label : String) : Except Refusal Unit := do
  check (!isBlank phase.deliverable) s!"{label}.deliverable must be a non-empty string"
  requireStringArray phase.requirementIds s!"{label}.requirementIds" false
  match phase.nodeIds with
  | none => .ok ()
  | some nodeIds => do
    requireStringArray nodeIds s!"{label}.nodeIds" false
    check (!nodeIds.isEmpty) s!"{label}.nodeIds must name at least one planned node"
    check (!phase.requirementIds.isEmpty)
      s!"{label}.requirementIds must name at least one requirement when the declaration assigns nodes"

/-- The declarations from an index on, under the ids of the earlier ones. -/
def checkDeclarations : Nat → List String → List PlanPhase → Except Refusal Unit
  | _, _, [] => .ok ()
  | index, seen, phase :: rest => do
    requireId phase.id s!"plan.phases[{index}].id"
    check (!seen.contains phase.id) s!"plan.phases has duplicate phase id {phase.id}"
    checkDeclaration phase s!"plan.phases[{index}]"
    checkDeclarations (index + 1) (phase.id :: seen) rest

/-- A declared node with the declaration that names it. -/
def assignmentsOf (declarations : List PlanPhase) : List (String × String) :=
  declarations.flatMap fun declaration => (declaration.nodeIds.getD []).map fun nodeId => (declaration.id, nodeId)

/-- The loop of `validateNodeAssignments` over the assignments, under the earlier ones. -/
def checkAssignments (planned : List String) : List (String × String) → List (String × String) → Except Refusal Unit
  | _, [] => .ok ()
  | owner, (phase, nodeId) :: rest => do
    check (planned.contains nodeId)
      s!"plan.phases: phase {phase} assigns unknown node {nodeId}, which is not one of the plan's nodes"
    let previous := (owner.find? fun assignment => assignment.2 = nodeId).map (·.1)
    check previous.isNone
      s!"plan.phases assigns node {nodeId} to both {previous.getD phase} and {phase}; every planned node belongs to exactly one phase"
    checkAssignments planned ((phase, nodeId) :: owner) rest

/-- `validateNodeAssignments`. -/
def validateNodeAssignments (declarations : List PlanPhase) (planned : List String) : Except Refusal Unit := do
  checkAssignments planned [] (assignmentsOf declarations)
  let missing := planned.eraseDups.filter fun nodeId => !((assignmentsOf declarations).map (·.2)).contains nodeId
  check missing.isEmpty s!"plan.phases leaves planned node(s) assigned to no phase: {commaList missing}"

/-- The declarations that assign nodes. -/
def assigned (declarations : List PlanPhase) : List PlanPhase := declarations.filter fun phase => phase.nodeIds.isSome

/-- Both shapes are not mixed, and assigned nodes cover the plan. -/
def checkShape (declarations : List PlanPhase) (planned : List String) : Except Refusal Unit :=
  if (assigned declarations).isEmpty then .ok ()
  else do
    check (decide ((assigned declarations).length = declarations.length))
      "plan.phases must assign nodeIds on every declaration or on none: mixing the two leaves the nodes named by the other declarations unattributed"
    validateNodeAssignments (assigned declarations) planned

/-- `validatePlanPhases`: the declarations, when there are any. -/
def validatePlanPhases (phases : Option (List PlanPhase)) (planned : List String) :
    Except Refusal (Option (List PlanPhase)) :=
  match phases with
  | none | some [] => .ok none
  | some declarations => do
    checkDeclarations 0 [] declarations
    checkShape declarations planned
    return some declarations

/-! ## The whole plan -/

/-- Commands a validator built. -/
def normalized (commands : List VerificationCommand) : Bool := decide (runnableCommands commands = .ok commands)

/-- The checks on one node of `validatePlanNodes`. -/
def checkNode (node : PlanNode) (label : String) : Except Refusal Unit := do
  requireId node.id s!"{label}.id"
  check (!isBlank node.objective) s!"{label}.objective must be a non-empty string"
  check (taskKinds.contains node.taskKind) s!"{label}.taskKind must be one of {commaList taskKinds}"
  requireStringArray node.dependsOn s!"{label}.dependsOn" false
  requireStringArray node.readFiles s!"{label}.readFiles" false
  requireStringArray node.writeFiles s!"{label}.writeFiles" false
  requireStringArray node.scopeAcknowledged s!"{label}.scopeAcknowledged" false
  check (normalized node.verification) s!"{label}.verification must be an array of argv command objects"
  validateDefinitionOfDone node.definitionOfDone s!"{label}.definitionOfDone" ⟨none, none⟩
  check (node.expectedTurns.all fun turns => decide (0 < turns)) s!"{label}.expectedTurns must be a positive integer"

def checkNodes (label : String) : Nat → List PlanNode → Except Refusal Unit
  | _, [] => .ok ()
  | index, node :: rest => do
    checkNode node s!"{label}[{index}]"
    checkNodes label (index + 1) rest

/-- `validatePlanOutput`. -/
def validatePlanOutput (plan : PlanOutput) : Except Refusal Unit := do
  check (!plan.nodes.isEmpty) "plan.nodes must be a non-empty array"
  checkNodes "plan.nodes" 0 plan.nodes
  check (plan.justification.all fun text => !isBlank text) "plan.justification must be a non-empty string"
  check (plan.sharedVerification.all normalized) "plan.sharedVerification must be an array of argv command objects"
  check (plan.finalVerification.all normalized) "plan.finalVerification must be an array of argv command objects"
  discard (validatePlanPhases plan.phases (plan.nodes.map (·.id)))

end Faberun.Plan
