import Faberun.Model.Contract.Graph
import Faberun.Model.Repo.Integrate

/-! # Closing a phase

What can make a node `done` and what a candidate's verification reads of the others: `settleDone` of
`engine/settle.mjs` through `integrateAttempt`, `verifyCandidateWorkspace` and `settledSiblingIds` of
`engine/verify.mjs`, the recovery and the human-step answer of `resumeRun`, and the ready nodes of
`driveRun`. An integration is split where the code awaits: it is prepared, it waits for the candidate
lock, its verification reads the node snapshots, and with the verdict it goes on to its end. Everything
else may happen in between. What a verification answers is left to the label.
-/

namespace Faberun

open Integration

/-- An integration between its `prepared` record and its verdict. -/
structure Flight (ν : Type) where
  transaction : IntegrationRecord ν
  /-- The statuses `settledSiblingIds` read, once the verification started. -/
  seen : Option (ν → NodeStatus)

/-- One run: its world, and the integrations in flight in the order they take the candidate lock. -/
structure Phase (ν τ : Type) where
  world : World ν τ
  flights : List (Flight ν)

namespace Phase

variable {ν τ κ : Type}

inductive Label (ν τ : Type) where
  | commit (tree : τ) (parents : List Nat)
  /-- A worker attempt of a node whose dependencies are done. -/
  | startAttempt (node : ν)
  /-- Any other status the engine gives a node that is not done. -/
  | transition (node : ν) (status : NodeStatus)
  /-- A ready human step stops. -/
  | stop (node : ν)
  /-- `integrateAttempt` up to its verification. A recovery it falls into answers `passed`. -/
  | integrate (node : ν) (attemptSha : Nat) (passed : Bool) (crash : Option Integration.Stage)
  /-- The integration that holds the candidate lock starts its verification. -/
  | verify
  /-- Its verification answers, and the integration runs to its end. -/
  | conclude (passed : Bool) (crash : Option Integration.Stage)
  | die
  /-- `resumeRun`, on a run no controller is alive in. -/
  | recover (passed : Bool) (crash : Option Integration.Stage)
  /-- `resumeRun` with the operator's answer for a human step. -/
  | answer (node : ν)
  deriving DecidableEq

variable [DecidableEq ν] [DecidableEq τ]

/-- The node of the contract with an id. -/
def nodeOf (contract : Contract ν κ) (id : ν) : Option (ContractNode ν κ) :=
  contract.nodes.find? fun node => decide (node.id = id)

def status (p : Phase ν τ) (id : ν) : NodeStatus := (p.world.nodes id).status

def dependenciesDone (p : Phase ν τ) (node : ContractNode ν κ) : Bool :=
  node.dependsOn.all fun id => decide (p.status id = .done)

def inFlight (p : Phase ν τ) (id : ν) : Bool := p.flights.any fun flight => decide (flight.transaction.node = id)

/-- The world after a stretch of an integration; a controller that died leaves nothing in flight. -/
def continueWith (world : World ν τ) (flights : List (Flight ν)) : Phase ν τ :=
  ⟨world, if world.halted then [] else flights⟩

/-- The head of the queue takes note of the node snapshots. -/
def startVerification (p : Phase ν τ) : Option (Phase ν τ) :=
  match p.flights with
  | ⟨transaction, none⟩ :: rest => some { p with flights := ⟨transaction, some p.status⟩ :: rest }
  | _ => none

def step (cfg : Config ν τ) (contract : Contract ν κ) (p : Phase ν τ) : Label ν τ → Option (Phase ν τ)
  | .commit tree parents =>
      if known : ∀ parent ∈ parents, parent < p.world.graph.size then
        some { p with world := { p.world with graph := p.world.graph.extend ⟨tree, parents⟩ known } }
      else none
  | .startAttempt id =>
      (nodeOf contract id).bind fun node =>
        if p.world.halted = false ∧ node.humanStep = none ∧ p.dependenciesDone node ∧ p.inFlight id = false ∧
            p.status id ≠ .done then
          some { p with world := p.world.patch id fun state =>
            { state with status := .running, attempt := state.attempt + 1 } }
        else none
  | .transition id status =>
      if p.world.halted = false ∧ p.status id ≠ .done ∧ status ≠ .done then
        some { p with world := p.world.patch id fun state => { state with status } }
      else none
  | .stop id =>
      (nodeOf contract id).bind fun node =>
        node.humanStep.bind fun humanStep =>
          if p.world.halted = false ∧ p.status id = .pending ∧ p.dependenciesDone node then
            some { p with world := p.world.patch id fun state =>
              { state with
                status := .blocked
                error := some ⟨humanStepErrorCode, humanStepAttentionMessage humanStep⟩ } }
          else none
  | .integrate id attemptSha passed crash =>
      (nodeOf contract id).bind fun node =>
        if p.world.halted = false ∧ node.humanStep = none ∧ p.inFlight id = false ∧ p.status id ≠ .done ∧
            attemptSha < p.world.graph.size then
          match enterIntegration cfg (settleCallbacks cfg id) crash passed p.world id (p.world.nodes id).attempt
              attemptSha with
          | (entered, none) => some (continueWith entered p.flights)
          | (entered, some transaction) => some (continueWith entered (p.flights ++ [⟨transaction, none⟩]))
        else none
  | .verify => p.startVerification
  | .conclude passed crash =>
      match p.flights with
      | ⟨transaction, some seen⟩ :: rest =>
          some (continueWith
            (verifyAndAdvance (settleCallbacks cfg transaction.node) crash passed seen p.world transaction) rest)
      | _ => none
  | .die => some ⟨{ p.world with halted := true }, []⟩
  | .recover passed crash =>
      if p.flights.isEmpty then
        some (continueWith
          (recoverIntegrations cfg (recoveryCallbacks cfg) crash passed { p.world with halted := false }) [])
      else none
  | .answer id =>
      (nodeOf contract id).bind fun node =>
        if p.world.halted = false ∧ p.flights.isEmpty ∧ node.humanStep.isSome ∧
            isHumanStepPending (p.status id) (p.world.nodes id).error then
          some { p with world := p.world.patch id fun state => { state with status := .done, error := none } }
        else none

def machine (cfg : Config ν τ) (contract : Contract ν κ) : Machine (Phase ν τ) (Label ν τ) := ⟨step cfg contract⟩

/-- A run that starts: nothing is integrated, nothing is in flight, and every node is pending. -/
structure Initial (initial : Nat) (contract : Contract ν κ) (p : Phase ν τ) : Prop where
  world : Integration.Initial initial p.world
  flights : p.flights = []
  pending : ∀ node ∈ contract.nodes, p.status node.id = .pending

/-- Every node is done. -/
def Closed (contract : Contract ν κ) (p : Phase ν τ) : Prop := ∀ node ∈ contract.nodes, p.status node.id = .done

instance (contract : Contract ν κ) (p : Phase ν τ) : Decidable (p.Closed contract) :=
  inferInstanceAs (Decidable (∀ node ∈ contract.nodes, p.status node.id = .done))

/-- The node is not done, and its current attempt has a verified transaction that a recovery accepts without verifying
again: the run ref still stands where the transaction found it, or contains its candidate. -/
def Acceptable (w : World ν τ) (id : ν) : Prop :=
  (w.nodes id).status ≠ .done ∧ ∃ record ∈ latestIntegrationTransactions w.journal,
    record.key = (id, (w.nodes id).attempt) ∧ record.status = .verified ∧
      (w.runRef = record.previousRunRefTip ∨ isAncestor w.graph record.candidateSha w.runRef = true)

instance (w : World ν τ) (id : ν) : Decidable (Acceptable w id) := by
  unfold Acceptable
  infer_instance

/-- A verification of the node's attempt passed, and had seen every other phase-terminal node done. -/
def sawOthersDone (contract : Contract ν κ) (w : World ν τ) (id : ν) : Bool :=
  w.history.any fun deed =>
    match deed with
    | .verdict node attempt _ passed seen =>
        decide (node = id ∧ attempt = (w.nodes id).attempt ∧ passed = true) &&
          contract.nodes.all fun sibling =>
            decide (sibling.id ≠ id → phaseTerminalNode contract sibling = true → seen sibling.id = .done)
    | _ => false

/-- A phase-terminal human step is answered only while another phase-terminal node is not done; an integration begins
only when its attempt left no open transaction; and where a recovery could complete every phase-terminal node that is not
done by a transaction verified before, each of those verifications had seen the other phase-terminal nodes done. -/
def careful (contract : Contract ν κ) (p : Phase ν τ) : Label ν τ → Prop
  | .answer id => ∀ node ∈ contract.nodes, node.id = id → phaseTerminalNode contract node = true →
      ∃ other ∈ contract.nodes, other.id ≠ id ∧ phaseTerminalNode contract other = true ∧ p.status other.id ≠ .done
  | .integrate id _ _ _ => ∀ record ∈ latestIntegrationTransactions p.world.journal,
      record.key = (id, (p.world.nodes id).attempt) → record.status.terminal = true
  | .recover _ _ =>
      (∀ node ∈ contract.nodes, phaseTerminalNode contract node = true →
        p.status node.id = .done ∨ Acceptable p.world node.id) →
      ∀ node ∈ contract.nodes, phaseTerminalNode contract node = true → Acceptable p.world node.id →
        sawOthersDone contract p.world node.id = true
  | _ => True

instance (contract : Contract ν κ) : DecidableRel (@careful ν τ κ _ contract)
  | _, .answer _ | _, .integrate _ _ _ _ | _, .recover _ _ => by
      unfold careful
      infer_instance
  | _, .commit _ _ | _, .startAttempt _ | _, .transition _ _ | _, .stop _ | _, .verify | _, .conclude _ _ | _, .die =>
      .isTrue trivial

end Phase

end Faberun
