import Mathlib.Data.List.Sort
import Faberun.Machine.KeyedStore
import Faberun.Model.Campaign.Chain
import Faberun.Model.Contract.Status
import Faberun.Model.Run.Lock

/-! # Collecting finished runs

The embedding of `run/disk-gc.mjs`: `describeRuns`, the selection and the removals of `runGarbageCollection`. Every read
of a run directory, every measurement of the free space and every removal is a step of its own, and between two of them
other processes start, die, take a run's lock, write to the run they hold and give it back. `nextStep` is what a turn
of `driveCampaignChain` comes to for a contract on the same directories.
-/

namespace Faberun.DiskGc

open Lock (Process LockRecord ReadLockResult lockStale)

variable {γ : Type}

/-! ## Run directories -/

/-- What the collector and the chain read of a directory. -/
structure RunFiles (γ : Type) where
  /-- A readable `run.json`, with the stored contract beside it. -/
  record : Option (Chain.RunRecord γ)
  /-- `startedAt` of `run.json`, where it is a text. -/
  startedAt : Option String
  lock : ReadLockResult
  /-- The statuses under `nodes/`, where it can be listed; a snapshot that cannot be read has none. -/
  nodes : Option (List (Option NodeStatus))
  progress : Chain.RunProgress
  cancelRequested : Bool
  /-- The heartbeat has not been missed. -/
  heartbeat : Bool
  lastProgressAt : Option String

/-- A directory with nothing in it, or none. -/
def RunFiles.none : RunFiles γ := ⟨.none, .none, .none, .none, ⟨.unknown, .none⟩, false, false, .none⟩

/-- The disk, by the path of a directory, and the processes. -/
structure Host (γ : Type) where
  disk : KeyedStore String (RunFiles γ)
  table : List Process
  /-- History: every process there ever was. -/
  born : List Process

namespace Host

def files (host : Host γ) (path : String) : RunFiles γ := (host.disk.get? path).getD .none

def write (host : Host γ) (path : String) (files : RunFiles γ) : Host γ := { host with disk := host.disk.set path files }

/-- `rmSync`. -/
def rm (host : Host γ) (path : String) : Host γ := { host with disk := host.disk.erase path }

/-- `controllerAlive`. -/
def controllerAlive (host : Host γ) (files : RunFiles γ) : Bool := !lockStale host.table files.lock && files.heartbeat

/-- A directory as the chain reads it. -/
def view (host : Host γ) (path : String) : Chain.RunDirectory γ :=
  let files := host.files path
  ⟨files.record, files.progress, files.cancelRequested, host.controllerAlive files, files.lastProgressAt⟩

end Host

/-- The record is the one this process wrote. -/
def holds (lock : ReadLockResult) (process : Process) : Bool :=
  match lock with
  | some (.record lock) => decide (lock.pid = process.pid ∧ lock.processStartToken = some process.token)
  | _ => false

/-- A live controller holds the lock of a directory. -/
def Held (host : Host γ) (path : String) : Prop := ∃ process ∈ host.table, holds (host.files path).lock process = true

/-! ## Selection -/

def basename (path : String) : String := String.ofList (path.toList.reverse.takeWhile (· ≠ '/')).reverse

/-- The entries of `readdirSync`, as `join` spells them. -/
def readdir (host : Host γ) (runsDir : String) : List String :=
  host.disk.keys.filter fun path => decide (path = runsDir ++ "/" ++ basename path)

/-- `RESERVED_RUN_DIR_NAMES`. -/
def reserved (path : String) : Bool := ["campaigns", "archive"].contains (basename path)

structure RunDescriptor where
  path : String
  startedAt : Option String
  hasActiveController : Bool
  allNodesTerminal : Bool
  deriving DecidableEq

def allNodeStatesTerminal (nodes : Option (List (Option NodeStatus))) : Bool :=
  match nodes with
  | none => false
  | some statuses => !statuses.isEmpty && statuses.all fun status => status.any NodeStatus.terminal

/-- The comparison of the sort; a date that is none compares as equal. -/
def notAfter (dateParse : String → Option Rat) (first second : RunDescriptor) : Bool :=
  match first.startedAt.bind dateParse, second.startedAt.bind dateParse with
  | some earlier, some later => decide (earlier ≤ later)
  | _, _ => true

def eligible (currentRunDir : Option String) (run : RunDescriptor) : Bool :=
  !reserved run.path && run.startedAt.isSome && run.allNodesTerminal && !run.hasActiveController &&
    decide (some run.path ≠ currentRunDir)

def selectGarbageCollectableRuns (dateParse : String → Option Rat) (descriptors : List RunDescriptor)
    (currentRunDir : Option String) : List String :=
  ((descriptors.filter (eligible currentRunDir)).insertionSort fun first second => notAfter dateParse first second = true).map
    RunDescriptor.path

/-! ## A collection -/

structure Collection where
  runsDir : String
  currentRunDir : Option String
  dateParse : String → Option Rat

/-- Where `runGarbageCollection` is. -/
inductive Stage where
  | measuring
  | listing
  | describing (paths : List String) (descriptors : List RunDescriptor)
  /-- `run.json` has been read. -/
  | locking (path : String) (startedAt : Option String) (paths : List String) (descriptors : List RunDescriptor)
  /-- The lock has been judged. -/
  | reading (path : String) (startedAt : Option String) (hasActiveController : Bool) (paths : List String)
      (descriptors : List RunDescriptor)
  | considering (candidates : List String) (removed : List String)
  /-- The free space does not clear the threshold. -/
  | removing (path : String) (candidates : List String) (removed : List String)
  | returned (removed : List String)
  deriving DecidableEq

def inactive (descriptors : List RunDescriptor) : List String :=
  (descriptors.filter fun run => !run.hasActiveController).map RunDescriptor.path

/-- The directories a collection takes to be without a controller. -/
def Stage.unlocked : Stage → List String
  | .measuring | .listing | .returned _ => []
  | .describing _ descriptors | .locking _ _ _ descriptors => inactive descriptors
  | .reading path _ active _ descriptors => if active then inactive descriptors else path :: inactive descriptors
  | .considering candidates _ => candidates
  | .removing path candidates _ => path :: candidates

/-- The directory about to be removed. -/
def Stage.target : Stage → Option String
  | .removing path _ _ => some path
  | _ => none

structure State (γ : Type) where
  host : Host γ
  stage : Stage
  /-- History: where a controller took the lock after the collection had read it. -/
  taken : List String
  /-- History: every removal, with what it was made from. -/
  removals : List (String × Host γ)

inductive Label (γ : Type) where
  /-- `isAboveThreshold` answers. -/
  | measure (above : Bool)
  /-- The next read or removal. -/
  | proceed
  | spawn (process : Process)
  | die (process : Process)
  /-- `acquire` of another controller installs its record: its reads, its rename and its link are one step here, so two
  that race for a lock are not told apart (`Run/Lock` has them step by step). -/
  | acquire (path : String) (process : Process) (startedAt : Nat)
  /-- The controller of a run writes to it. -/
  | write (path : String) (process : Process) (files : RunFiles γ)
  | release (path : String) (process : Process)

namespace State

/-- The next read or removal of a collection. -/
def proceed (c : Collection) (s : State γ) : Option (State γ) :=
  match s.stage with
  | .listing => some { s with stage := .describing (readdir s.host c.runsDir) [] }
  | .describing [] descriptors =>
    some { s with stage := .considering (selectGarbageCollectableRuns c.dateParse descriptors c.currentRunDir) [] }
  | .describing (path :: paths) descriptors =>
    if reserved path ∨ (s.host.files path).record.isNone then some { s with stage := .describing paths descriptors }
    else some { s with stage := .locking path (s.host.files path).startedAt paths descriptors }
  | .locking path startedAt paths descriptors =>
    some { s with stage := .reading path startedAt (!lockStale s.host.table (s.host.files path).lock) paths descriptors }
  | .reading path startedAt active paths descriptors =>
    some { s with
      stage := .describing paths
        (descriptors ++ [⟨path, startedAt, active, allNodeStatesTerminal (s.host.files path).nodes⟩]) }
  | .removing path candidates removed =>
    some { s with
      host := s.host.rm path, stage := .considering candidates (removed ++ [path]),
      removals := (path, s.host) :: s.removals }
  | .considering [] removed => some { s with stage := .returned removed }
  | .measuring | .considering (_ :: _) _ | .returned _ => none

def measure (above : Bool) (s : State γ) : Option (State γ) :=
  match s.stage with
  | .measuring => some { s with stage := if above then .returned [] else .listing }
  | .considering (path :: candidates) removed =>
    some { s with stage := if above then .returned removed else .removing path candidates removed }
  | _ => none

def step (c : Collection) (s : State γ) : Label γ → Option (State γ)
  | .measure above => s.measure above
  | .proceed => s.proceed c
  | .spawn process =>
    if 0 < process.pid ∧ process ∉ s.host.born ∧ process.pid ∉ s.host.table.map Process.pid then
      some { s with host := { s.host with table := process :: s.host.table, born := process :: s.host.born } }
    else none
  | .die process => some { s with host := { s.host with table := s.host.table.erase process } }
  | .acquire path process startedAt =>
    if process ∈ s.host.table ∧ lockStale s.host.table (s.host.files path).lock = true then
      some { s with
        host := s.host.write path
          { s.host.files path with lock := some (.record (Lock.LockDir.newRecord process startedAt)) },
        taken := if path ∈ s.stage.unlocked then path :: s.taken else s.taken }
    else none
  | .write path process files =>
    if process ∈ s.host.table ∧ holds (s.host.files path).lock process = true then
      some { s with host := s.host.write path { files with lock := (s.host.files path).lock } }
    else none
  | .release path process =>
    if process ∈ s.host.table ∧ holds (s.host.files path).lock process = true then
      some { s with host := s.host.write path { s.host.files path with lock := .none } }
    else none

end State

def machine (c : Collection) : Machine (State γ) (Label γ) := ⟨State.step c⟩

/-- Processes have their own pids, and every lock with a start token was written by one there has been. -/
structure Initial (s : State γ) : Prop where
  stage : s.stage = .measuring
  removals : s.removals = []
  taken : s.taken = []
  pids : (s.host.table.map Process.pid).Nodup
  positive : ∀ process ∈ s.host.table, 0 < process.pid
  known : ∀ process ∈ s.host.table, process ∈ s.host.born
  left : ∀ path process, holds (s.host.files path).lock process = true → process ∈ s.host.born

/-! ## What the chain does next -/

/-- A chain that has not finished, with what its next turn reads apart from the run directories. -/
structure CampaignChain (γ : Type) where
  campaign : Chain.Campaign γ
  active : Bool
  heads : String → Option γ
  branch : Option γ
  coordinator : Chain.Coordinator γ
  validate : Chain.CampaignContract → Option String
  checkedOut : Bool

/-- The turn of a chain comes to a contract. -/
def CampaignChain.state (chain : CampaignChain γ) (runs : String → Chain.RunDirectory γ) (contract : Chain.CampaignContract) :
    Chain.State γ :=
  ⟨chain.active, none, runs, chain.heads, chain.branch, some { chain.coordinator with point := .validating contract }, []⟩

/-- What a turn does. -/
inductive ChainStep where
  | skip
  | promote
  | park (code : String)
  | wait
  | resume
  | launch
  /-- The coordinator has gone no further. -/
  | pending
  deriving DecidableEq

/-- What a turn has come to, from the position it started at. -/
def ChainStep.of (index : Nat) (s : Chain.State γ) : ChainStep :=
  match s.coordinator with
  | none => .pending
  | some coordinator =>
    match coordinator.point with
    | .reading => if index < coordinator.index then .skip else .wait
    | .advancing _ _ _ => .promote
    | .parking code => .park code
    | .resuming _ => .resume
    | .verifying _ => .launch
    | _ => .pending

/-- The steps of a turn up to a promotion, a resume or a launch, each taken where the coordinator is at it. -/
def turn [DecidableEq γ] (chain : CampaignChain γ) (contract : Chain.CampaignContract) (s : Chain.State γ) : Chain.State γ :=
  [.validate (chain.validate contract), .look, .classify, .promote chain.checkedOut, .recover].foldl
    (fun s label => (Chain.step chain.campaign s label).getD s) s

def nextStep [DecidableEq γ] (chain : CampaignChain γ) (host : Host γ) (contract : Chain.CampaignContract) : ChainStep :=
  .of chain.coordinator.index (turn chain contract (chain.state host.view contract))

/-! ## What a collection owes -/

/-- A removal leaves alone what is held, and what a chain reads. -/
def Spares [DecidableEq γ] (chains : List (CampaignChain γ)) (path : String) (host : Host γ) : Prop :=
  ¬ Held host path ∧
    ∀ chain ∈ chains, ∀ contract ∈ chain.campaign.contracts,
      nextStep chain (host.rm path) contract = nextStep chain host contract

/-- No controller has taken the lock of the directory to be removed since it was read, and the directory belongs to no
contract, of a chain that has not finished, whose file still validates. -/
def Unneeded (chains : List (CampaignChain γ)) (s : State γ) (path : String) : Prop :=
  path ∉ s.taken ∧
    ∀ chain ∈ chains, ∀ contract ∈ chain.campaign.contracts, chain.validate contract = none → contract.runDir ≠ path

instance (chains : List (CampaignChain γ)) (s : State γ) (path : String) : Decidable (Unneeded chains s path) :=
  inferInstanceAs (Decidable (_ ∧ _))

/-- Every removal is of a directory nobody needs. -/
def Careful (chains : List (CampaignChain γ)) (s : State γ) (label : Label γ) : Prop :=
  match label with
  | .proceed => ∀ path ∈ s.stage.target, Unneeded chains s path
  | _ => True

instance (chains : List (CampaignChain γ)) : DecidableRel (Careful (γ := γ) chains) := fun s label =>
  match label with
  | .proceed => inferInstanceAs (Decidable (∀ path ∈ s.stage.target, Unneeded chains s path))
  | .measure _ | .spawn _ | .die _ | .acquire _ _ _ | .write _ _ _ | .release _ _ => instDecidableTrue

end Faberun.DiskGc
