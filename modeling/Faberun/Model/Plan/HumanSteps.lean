import Faberun.Model.Json

/-! # Human steps

`addHumanStepNodes` of `plan/freeze.mjs`: one node for each declared step, which the scheduler stops on. It waits for the
nodes that carry the requirement, and the nodes that depended on one of those wait for it.
-/

namespace Faberun.Plan

/-- `PlanHumanStep`. -/
structure PlanHumanStep where
  requirementId : String
  step : String
  command : String
  deriving DecidableEq

/-- A discovery packet without files. -/
structure DiscoveryPacket where
  objective : String
  instructions : List String
  deriving DecidableEq

/-- What else a node holds: the fields of a planned node, or those of a node of type `human`. -/
inductive NodeBody (ρ : Type) where
  | planned (fields : ρ)
  | human (gate : Bool) (step command : String) (taskPacket : DiscoveryPacket)
  deriving DecidableEq

/-- A node of the contract that is frozen. -/
structure FrozenNode (ρ : Type) where
  id : String
  phase : Option String
  requirementIds : Option (List String)
  dependsOn : List String
  body : NodeBody ρ
  deriving DecidableEq

variable {ρ : Type}

/-- Whether a node carries a requirement. -/
def carries (requirementId : String) (record : FrozenNode ρ) : Bool :=
  record.requirementIds.any fun ids => ids.contains requirementId

/-- The ids of the nodes that carry a requirement. -/
def carrierIds (requirementId : String) (records : List (FrozenNode ρ)) : List String :=
  ((records.filter (carries requirementId)).map FrozenNode.id).eraseDups

/-- A node that depended on a carrier, without being one, waits for the human node too. -/
def waitFor (carriers : List String) (id : String) (record : FrozenNode ρ) : FrozenNode ρ :=
  if carriers.contains record.id || !record.dependsOn.any carriers.contains then record
  else { record with dependsOn := record.dependsOn ++ [id] }

section Steps

variable (toLowerCase : String → String)

/-- The id of the node of a step. -/
def humanStepId (step : PlanHumanStep) : String := s!"human-step-{toLowerCase step.requirementId}"

/-- The node of a step. -/
def humanNode (records : List (FrozenNode ρ)) (step : PlanHumanStep) : FrozenNode ρ where
  id := humanStepId toLowerCase step
  phase := (records.find? (carries step.requirementId)).bind FrozenNode.phase
  requirementIds := some [step.requirementId]
  dependsOn := carrierIds step.requirementId records
  body := .human false step.step step.command
    ⟨step.step, [s!"The operator runs `{step.command}` and records it done with faberun resume --answer."]⟩

/-- One turn of the loop of `addHumanStepNodes`. -/
def addHumanStep (records : List (FrozenNode ρ)) (step : PlanHumanStep) : Except Refusal (List (FrozenNode ρ)) := do
  let id := humanStepId toLowerCase step
  check (!(records.map FrozenNode.id).contains id) s!"human step node id {id} is already a planned node id"
  return records.map (waitFor (carrierIds step.requirementId records) id) ++ [humanNode toLowerCase records step]

def addHumanStepNodes (records : List (FrozenNode ρ)) (steps : List PlanHumanStep) : Except Refusal (List (FrozenNode ρ)) :=
  steps.foldlM (addHumanStep toLowerCase) records

end Steps

end Faberun.Plan
