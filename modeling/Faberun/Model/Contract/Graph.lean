import Mathlib.Data.List.MinMax
import Mathlib.Data.List.Nodup
import Mathlib.Order.WellFounded
import Faberun.Model.Contract.Status

/-! # Contracts as dependency graphs

What the engine reads of a validated contract of `contract/index.mjs` to order its nodes and to close its
phase. The fields of `Contract` below the data are what `validateContract` checks; the commands of a
verification are opaque.
-/

namespace Faberun

/-- A node's `humanStep`. -/
structure HumanStep where
  step : String
  command : String
  deriving DecidableEq, Repr

/-- `HUMAN_STEP_ERROR_CODE`. -/
def humanStepErrorCode : String := "human_step_pending"

/-- `humanStepAttentionMessage`. -/
def humanStepAttentionMessage (humanStep : HumanStep) : String :=
  humanStep.step ++ " — run `" ++ humanStep.command ++ "`"

/-- `isHumanStepPending`. -/
def isHumanStepPending (status : NodeStatus) (error : Option NodeError) : Bool :=
  blockedWith humanStepErrorCode status error

structure ContractNode (ν κ : Type) where
  id : ν
  dependsOn : List ν
  humanStep : Option HumanStep
  /-- `taskPacket.verification`. -/
  verification : List κ

structure Contract (ν κ : Type) where
  nodes : List (ContractNode ν κ)
  sharedVerification : Option (List κ)
  finalVerification : Option (List κ)
  nonempty : nodes ≠ []
  nodup : (nodes.map ContractNode.id).Nodup
  known : ∀ node ∈ nodes, ∀ dependency ∈ node.dependsOn, ∃ other ∈ nodes, other.id = dependency
  /-- `assertAcyclic`: every node comes after what it depends on. -/
  acyclic : ∃ rank : ν → Nat, ∀ node ∈ nodes, ∀ dependency ∈ node.dependsOn, rank dependency < rank node.id

namespace Contract

variable {ν κ : Type} {contract : Contract ν κ}

/-- The node of an id is unique. -/
theorem eq_of_id {node other : ContractNode ν κ} (member : node ∈ contract.nodes) (otherMember : other ∈ contract.nodes)
    (same : node.id = other.id) : node = other :=
  List.inj_on_of_nodup_map contract.nodup member otherMember same

/-- A nonempty set of nodes has one that comes first. -/
theorem exists_first (contract : Contract ν κ) {P : ContractNode ν κ → Prop} (holds : ∃ node ∈ contract.nodes, P node) :
    ∃ node ∈ contract.nodes, P node ∧ ∀ other ∈ contract.nodes, P other → other.id ∉ node.dependsOn := by
  obtain ⟨rank, ordered⟩ := contract.acyclic
  obtain ⟨first, ⟨member, here⟩, least⟩ :=
    (measure fun node : ContractNode ν κ => rank node.id).wf.has_min {node | node ∈ contract.nodes ∧ P node} holds
  refine ⟨first, member, here, fun other inside there depends => ?_⟩
  exact least other ⟨inside, there⟩ (ordered first member other.id depends)

/-- Some node comes last. -/
theorem exists_last (contract : Contract ν κ) :
    ∃ node ∈ contract.nodes, ∀ other ∈ contract.nodes, node.id ∉ other.dependsOn := by
  obtain ⟨rank, ordered⟩ := contract.acyclic
  cases greatest : contract.nodes.argmax fun node => rank node.id with
  | none => exact absurd (List.argmax_eq_none.mp greatest) contract.nonempty
  | some last =>
    have isLast : last ∈ contract.nodes.argmax fun node => rank node.id := greatest
    have member := List.argmax_mem isLast
    refine ⟨last, member, fun other inside depends => ?_⟩
    have above := ordered other inside last.id depends
    have below := List.le_of_mem_argmax inside isLast
    omega

end Contract

/-! ## Closing a phase -/

section FinalVerification

variable {ν κ : Type} [DecidableEq ν]

/-- `phaseTerminalNode`. -/
def phaseTerminalNode (contract : Contract ν κ) (node : ContractNode ν κ) : Bool :=
  !contract.nodes.any fun candidate => decide (node.id ∈ candidate.dependsOn)

/-- `sharedVerificationCommands`. -/
def sharedVerificationCommands (contract : Contract ν κ) : List κ := contract.sharedVerification.getD []

/-- `finalVerificationCommands`; without `settledIds` every phase-terminal node may carry the suite. -/
def finalVerificationCommands (contract : Contract ν κ) (node : ContractNode ν κ) (settledIds : Option (List ν)) :
    List κ :=
  let commands := contract.finalVerification.getD []
  if commands = [] then []
  else if phaseTerminalNode contract node = false then []
  else
    match settledIds with
    | none => commands
    | some settledIds =>
        let siblings := contract.nodes.filter fun candidate =>
          decide (candidate.id ≠ node.id) && phaseTerminalNode contract candidate
        if siblings.all fun sibling => decide (sibling.id ∈ settledIds) then commands else []

variable {contract : Contract ν κ} {node : ContractNode ν κ}

theorem phaseTerminalNode_iff :
    phaseTerminalNode contract node = true ↔ ∀ candidate ∈ contract.nodes, node.id ∉ candidate.dependsOn := by
  simp [phaseTerminalNode]

/-- Every contract has a phase-terminal node. -/
theorem exists_phaseTerminalNode (contract : Contract ν κ) :
    ∃ node ∈ contract.nodes, phaseTerminalNode contract node = true := by
  obtain ⟨node, member, last⟩ := contract.exists_last
  exact ⟨node, member, phaseTerminalNode_iff.mpr last⟩

end FinalVerification

end Faberun
