import Faberun.Machine.Absorption
import Faberun.Model.Plan.Sizing

/-! # Phase declarations after sizing

`carryPhaseDeclarations` of `plan/pipeline.mjs` names the nodes sizing produced in the declarations of the plan, and
`stampPhaseRequirementIds` of `plan/freeze.mjs` gives a node the requirement ids of the declaration that names it.
-/

namespace Faberun.Plan

open Sizing

/-- The merges among the transformations: those that record two nodes. -/
def mergesOf (transformations : List Transformation) : List (String × String) :=
  transformations.filterMap fun transformation =>
    match transformation.nodes with
    | [child, parent] => some (child, parent)
    | _ => none

/-- The node that absorbed a node in the end. -/
def resolveMerged (merges : List (String × String)) (id : String) : String :=
  Absorption.follow (Absorption.absorber merges) (merges.length + 1) [] id

/-- A declaration in the legacy shape stays as it is. -/
def carryPhase (merges : List (String × String)) (phase : PlanPhase) : PlanPhase :=
  { phase with nodeIds := phase.nodeIds.map fun nodeIds => (nodeIds.map (resolveMerged merges)).eraseDups }

def carryPhaseDeclarations (phases : Option (List PlanPhase)) (transformations : List Transformation) :
    Option (List PlanPhase) :=
  phases.map fun declarations =>
    if (mergesOf transformations).isEmpty then declarations else declarations.map (carryPhase (mergesOf transformations))

/-! ## Inherited requirements -/

/-- The requirement ids by node, as far as declarations name nodes and requirements. -/
def requirementsByNode (declarations : List PlanPhase) : List (String × List String) :=
  declarations.flatMap fun phase =>
    if phase.requirementIds.isEmpty then [] else (phase.nodeIds.getD []).map fun nodeId => (nodeId, phase.requirementIds)

/-- The requirement ids by execution phase, of the declarations in the legacy shape. -/
def requirementsByPhase (declarations : List PlanPhase) : List (String × List String) :=
  declarations.filterMap fun phase =>
    if phase.requirementIds.isEmpty || phase.nodeIds.isSome then none else some (phase.id, phase.requirementIds)

/-- The requirement ids a node inherits. -/
def inheritedIds (declarations : List PlanPhase) (nodeId : String) (executionPhase : Option String) : Option (List String) :=
  let found (entries : List (String × List String)) (key : String) : Option (List String) :=
    (KeyedLog.lastOf (·.1) entries key).map (·.2)
  (found (requirementsByNode declarations) nodeId).or
    (executionPhase.bind (found (requirementsByPhase declarations)))

end Faberun.Plan
