import Faberun.Machine.Core
import Faberun.Model.Json

/-! # The campaign chain

The embedding of `driveCampaignChain` in `campaign/chain.mjs`, with `promoteRun` of `repo/integrate.mjs`. What lasts is
on disk: the run directories, the run refs, the landing branch and the campaign record; the coordinator keeps only its
position in the manifest and its recovery budget, and loses both when it dies. Each label is one read, write or call,
so that a crash, a run or the operator may come between any two. The history records what the chain did.
-/

namespace Faberun.Chain

/-! ## Runs -/

inductive RunState where
  | done
  | unfinished
  | waiting
  | unknown
  deriving DecidableEq, Repr

inductive RunOutcome where
  | succeeded
  | parked
  | waiting
  | canceled
  deriving DecidableEq, Repr

/-- What `runProgress` answers of a run directory. -/
structure RunProgress where
  state : RunState
  runOutcome : Option RunOutcome
  deriving DecidableEq, Repr

inductive Classification where
  | succeeded
  | waiting
  | parked
  | canceled
  | unfinished
  deriving DecidableEq, Repr

def classifyRunProgress (progress : RunProgress) : Classification :=
  if progress.runOutcome = some .canceled then .canceled
  else if progress.runOutcome = some .succeeded then .succeeded
  else if progress.state = .waiting then .waiting
  else if progress.state = .done then .parked
  else .unfinished

/-- `run.json` and the stored contract beside it. -/
structure RunRecord (γ : Type) where
  contractDigest : Option String
  storedDigest : String
  storedId : Option String
  /-- `sourceIdentity.gitHead`. -/
  gitHead : Option γ
  deriving DecidableEq

/-- A run directory; `record` is absent until its `run.json` is written. -/
structure RunDirectory (γ : Type) where
  record : Option (RunRecord γ)
  progress : RunProgress
  cancelRequested : Bool
  controllerAlive : Bool
  lastProgressAt : Option String
  deriving DecidableEq

/-! ## The chain -/

/-- Ancestry as git answers it: a commit contains itself and what its ancestors contain. -/
structure Ancestry (γ : Type) where
  isAncestor : γ → γ → Bool
  refl : ∀ commit, isAncestor commit commit = true
  trans : ∀ first second third, isAncestor first second = true → isAncestor second third = true →
    isAncestor first third = true

/-- A manifest entry, with what `runIdentityFor` reads of it. -/
structure CampaignContract where
  path : String
  id : String
  runDir : String
  deriving DecidableEq, Repr

/-- `MAX_RUN_RECOVERY_ATTEMPTS`. -/
def maxRunRecoveryAttempts : Nat := 3

/-- What stays fixed while a campaign is driven. -/
structure Campaign (γ : Type) where
  contracts : List CampaignContract
  landBranch : String
  allowMain : Bool
  git : Ancestry γ

/-- The resumes started for one run since it last showed progress. -/
structure RecoveryAttempts where
  attempts : Nat
  progressAt : Option String
  reason : Option String
  deriving DecidableEq, Repr

/-- Where the coordinator is in a turn of its loop. -/
inductive Point (γ : Type) where
  | reading
  | validating (contract : CampaignContract)
  | looking (contract : CampaignContract)
  | classifying (contract : CampaignContract) (baseSha : Option γ)
  | promoting (contract : CampaignContract) (baseSha : Option γ)
  /-- The landing branch is at `previousSha` and the run head descends from it. -/
  | advancing (contract : CampaignContract) (head previousSha : γ)
  | recording (contract : CampaignContract)
  | recovering (contract : CampaignContract)
  | resuming (contract : CampaignContract)
  | verifying (contract : CampaignContract)
  | launching (contract : CampaignContract)
  | bootstrapping (contract : CampaignContract)
  | parking (code : String)
  deriving DecidableEq

structure Coordinator (γ : Type) where
  index : Nat
  recovery : String → Option RecoveryAttempts
  point : Point γ

/-- What the chain did, as its history records it. -/
inductive Event (γ : Type) where
  /-- An invocation became the coordinator. -/
  | opened
  /-- The look before a launch found no `run.json`. -/
  | absent (index : Nat)
  | launched (index : Nat)
  | succeeded (index : Nat)
  | promoted (index : Nat) (head : γ)
  | resumed (id : String) (progressAt : Option String)
  /-- The turn ended in an attention the campaign is to be parked with. -/
  | halted (code : String)
  | parked (code : String)
  | unparked
  deriving DecidableEq

/-- The disk, the coordinator if one runs, and the history, newest first. -/
structure State (γ : Type) where
  active : Bool
  attention : Option String
  runs : String → RunDirectory γ
  heads : String → Option γ
  branch : Option γ
  coordinator : Option (Coordinator γ)
  history : List (Event γ)

inductive Label (γ : Type) where
  | start
  /-- The coordinator dies, or spends its tick budget. -/
  | crash
  | read
  /-- The contract validates, or fails with a code. -/
  | validate (failure : Option String)
  | look
  | classify
  | promote (checkedOut : Bool)
  | advance
  | record
  | recover
  | resumed (failure : Option String)
  /-- The controller snapshot is the recorded one or a refreshed one, or fails with a code. -/
  | verify (failure : Option String)
  | launch
  | bootstrapped (failure : Option String)
  | park
  /-- A run controller or the operator changes a run directory. -/
  | observe (runDir : String) (directory : RunDirectory γ)
  | integrate (id : String) (head : Option γ)
  | unpark
  | close

variable {γ : Type}

namespace State

/-- The coordinator goes on at a point. -/
def goto (s : State γ) (coordinator : Coordinator γ) (point : Point γ) : State γ :=
  { s with coordinator := some { coordinator with point := point } }

def log (s : State γ) (event : Event γ) : State γ := { s with history := event :: s.history }

/-- The turn ends in an attention. -/
def halt (s : State γ) (coordinator : Coordinator γ) (code : String) : State γ :=
  (s.log (.halted code)).goto coordinator (.parking code)

/-- The contract is promoted: the next turn is about the one after it. -/
def goNext (s : State γ) (coordinator : Coordinator γ) : State γ :=
  s.goto { coordinator with index := coordinator.index + 1 } .reading

end State

open State

/-- The checks of `promoteRun` before it reads the branch. -/
def promotionRefusal (campaign : Campaign γ) (s : State γ) (contract : CampaignContract) (checkedOut : Bool) :
    Option String :=
  if !s.active then some "promotion_failed"
  else if isBlank campaign.landBranch then some "land_branch_missing"
  else if campaign.landBranch = "main" ∧ !campaign.allowMain then some "land_branch_main_requires_flag"
  else if (s.heads contract.id).isNone then some "run_ref_missing"
  else if checkedOut then some "land_branch_checked_out"
  else none

/-- `promoteRun` up to its conditional ref update; it creates a missing branch at the run's base. -/
def promoteRun [DecidableEq γ] (campaign : Campaign γ) (s : State γ) (coordinator : Coordinator γ) (contract : CampaignContract)
    (baseSha : Option γ) (head : γ) : State γ :=
  match s.branch with
  | some current =>
      if current = head ∨ campaign.git.isAncestor head current then
        (s.log (.promoted coordinator.index head)).goNext coordinator
      else if campaign.git.isAncestor current head then s.goto coordinator (.advancing contract head current)
      else s.halt coordinator "land_branch_not_fast_forward"
  | none =>
      match baseSha with
      | none => s.halt coordinator "land_branch_base_missing"
      | some base =>
          if base = head ∨ campaign.git.isAncestor base head then
            { s with branch := some base }.goto coordinator (.advancing contract head base)
          else s.halt coordinator "land_branch_not_fast_forward"

/-- The budget `resumeDeadRun` has spent on a run since its progress last moved. -/
def spentAttempts (coordinator : Coordinator γ) (id : String) (progressAt : Option String) : Nat :=
  match coordinator.recovery id with
  | some previous => if previous.progressAt = progressAt then previous.attempts else 0
  | none => 0

/-- `resumeDeadRun` up to the call of the resume. -/
def resumeDeadRun (s : State γ) (coordinator : Coordinator γ) (contract : CampaignContract) : State γ :=
  let directory := s.runs contract.runDir
  let spent := spentAttempts coordinator contract.id directory.lastProgressAt
  if directory.cancelRequested then s.halt coordinator "run_canceled"
  else if maxRunRecoveryAttempts ≤ spent then s.halt coordinator "run_recovery_exhausted"
  else
    (s.log (.resumed contract.id directory.lastProgressAt)).goto
      { coordinator with
        recovery := fun id =>
          if id = contract.id then some ⟨spent + 1, directory.lastProgressAt, none⟩ else coordinator.recovery id }
      (.resuming contract)

/-- The failure of a resume is kept as the reason of a later attention. -/
def keepReason (coordinator : Coordinator γ) (contract : CampaignContract) (reason : String) : Coordinator γ :=
  { coordinator with
    recovery := fun id =>
      if id = contract.id then (coordinator.recovery id).map fun previous => { previous with reason := some reason }
      else coordinator.recovery id }

/-- What the chain does about a run by its classification. -/
def classify (s : State γ) (coordinator : Coordinator γ) (contract : CampaignContract) (baseSha : Option γ) : State γ :=
  match classifyRunProgress (s.runs contract.runDir).progress with
  | .succeeded => (s.log (.succeeded coordinator.index)).goto coordinator (.promoting contract baseSha)
  | .parked => s.halt coordinator "run_parked"
  | .canceled => s.halt coordinator "run_canceled"
  | .waiting => s.goto coordinator .reading
  | .unfinished =>
      if (s.runs contract.runDir).controllerAlive then s.goto coordinator .reading
      else s.goto coordinator (.recovering contract)

/-- The look for `run.json`: a launch when it is absent, the identity of the run when it is there. -/
def look (s : State γ) (coordinator : Coordinator γ) (contract : CampaignContract) : State γ :=
  match (s.runs contract.runDir).record with
  | none => (s.log (.absent coordinator.index)).goto coordinator (.verifying contract)
  | some record =>
      if record.contractDigest = some record.storedDigest ∧ record.storedId = some contract.id then
        s.goto coordinator (.classifying contract record.gitHead)
      else s.halt coordinator "contract_digest_mismatch"

/-- The top of the loop: `none` is a return of `driveCampaignChain`. -/
def nextContract (campaign : Campaign γ) (s : State γ) (coordinator : Coordinator γ) : Option CampaignContract :=
  if s.active ∧ s.attention = none then campaign.contracts[coordinator.index]? else none

/-- A coordinator on its first turn. -/
def opened : Coordinator γ := ⟨0, fun _ => none, .reading⟩

/-- A step of the coordinator at its point. -/
def coordinatorStep [DecidableEq γ] (campaign : Campaign γ) (s : State γ) (coordinator : Coordinator γ) :
    Point γ → Label γ → Option (State γ)
  | .reading, .read =>
      match nextContract campaign s coordinator with
      | some contract => some (s.goto coordinator (.validating contract))
      | none => some { s with coordinator := none }
  | .validating contract, .validate failure =>
      match failure with
      | none => some (s.goto coordinator (.looking contract))
      | some code => some (s.halt coordinator code)
  | .looking contract, .look => some (look s coordinator contract)
  | .classifying contract baseSha, .classify => some (classify s coordinator contract baseSha)
  | .promoting contract baseSha, .promote checkedOut =>
      match promotionRefusal campaign s contract checkedOut, s.heads contract.id with
      | none, some head => some (promoteRun campaign s coordinator contract baseSha head)
      | some code, _ => some (s.halt coordinator code)
      | none, none => some (s.halt coordinator "run_ref_missing")
  | .advancing contract head previousSha, .advance =>
      if s.branch = some previousSha then
        some (({ s with branch := some head }.log (.promoted coordinator.index head)).goto coordinator
          (.recording contract))
      else some (s.halt coordinator "promotion_failed")
  | .recording _, .record => some (s.goNext coordinator)
  | .recovering contract, .recover => some (resumeDeadRun s coordinator contract)
  | .resuming contract, .resumed failure =>
      match failure with
      | none => some (s.goto coordinator .reading)
      | some reason => some (s.goto (keepReason coordinator contract reason) .reading)
  | .verifying contract, .verify failure =>
      match failure with
      | none => some (s.goto coordinator (.launching contract))
      | some code => some (s.halt coordinator code)
  | .launching contract, .launch =>
      some ((s.log (.launched coordinator.index)).goto coordinator (.bootstrapping contract))
  | .bootstrapping _, .bootstrapped failure =>
      match failure with
      | none => some (s.goto coordinator .reading)
      | some code => some (s.halt coordinator code)
  | .parking code, .park => some { s.log (.parked code) with attention := some code, coordinator := none }
  | _, _ => none

def step [DecidableEq γ] (campaign : Campaign γ) (s : State γ) : Label γ → Option (State γ)
  | .start =>
      match s.coordinator with
      | none => some { s.log .opened with coordinator := some opened }
      | some _ => none
  | .crash => s.coordinator.map fun _ => { s with coordinator := none }
  | .observe runDir directory =>
      some { s with runs := fun other => if other = runDir then directory else s.runs other }
  | .integrate id head => some { s with heads := fun other => if other = id then head else s.heads other }
  | .unpark => if s.active ∧ s.attention.isSome then some { s.log .unparked with attention := none } else none
  | .close => some { s with active := false }
  | label => s.coordinator.bind fun coordinator => coordinatorStep campaign s coordinator coordinator.point label

/-- The campaign and its environment. -/
def machine [DecidableEq γ] (campaign : Campaign γ) : Machine (State γ) (Label γ) := ⟨step campaign⟩

/-- Nothing has been driven yet; the disk may hold anything but an attention. -/
structure Initial (s : State γ) : Prop where
  coordinator : s.coordinator = none
  attention : s.attention = none
  history : s.history = []

end Faberun.Chain
