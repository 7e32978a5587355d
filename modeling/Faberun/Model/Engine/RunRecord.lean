import Mathlib.Data.List.Sort
import Faberun.Machine.UnlockedFile
import Faberun.Model.Engine.Mutation
import Faberun.Model.Engine.Reauthor
import Faberun.Model.Engine.Supervise

/-! # The record of a run

`run.json` and what writes it: the start of a controller (`createRunMetadata` of `engine/run-identity.mjs` as `driveRun`
calls it), the ledger of automatic retries (`engine/lifecycle.mjs`) and the supervisor (`engine/supervise.mjs`), which
records a relaunch in what it read before it. A resume captures the identity of the source and compares it with the
recorded one (`assertSourceUnchanged`); one with `--reauthor` may write `contract.json`. What git answers about two commits
and the hashes are parameters; the other checks of a resume are not part of the model.
-/

namespace Faberun.RunRecord

open Mutation (textLe)
open Reauthor (ReauthorAdditions replacePacket widenTaskPacket)

/-! ## The identity of the source -/

structure SourceIdentity where
  cwd : String
  gitHead : Option String
  dirtyTreeFingerprint : Option String
  packetHashes : List (String × String)
  harnessVersions : List (String × Option String)
  baseRef : Option String
  deriving DecidableEq, Repr

/-- What the checkout and the harnesses answer at one moment; `head` is that of a base ref, or of the checkout. -/
structure Checkout where
  head : Option String → Option String
  dirtyTreeFingerprint : Option String
  harnessVersions : List (String × Option String)

/-- The nodes and the directory of `contract.json`. -/
structure StoredContract where
  cwd : String
  nodes : List Reauthor.ContractNode
  deriving DecidableEq

/-- `stableJson` of an object with texts: its members, sorted by name. -/
def stableEntries (entries : List (String × String)) : List (String × String) :=
  entries.insertionSort fun left right => textLe left.1 right.1

def drift (field : String) : Refusal := ⟨none, s!"source drift detected in {field}; resume refused"⟩

def treeChanged : String :=
  "source tree fingerprint changed since the run started; work committed between attempts is expected and the run " ++
    "continues on the current tree"

def checkVersions (expected actual : List (String × Option String)) : Except Refusal Unit :=
  ((expected ++ actual).map Prod.fst).eraseDups.forM fun id =>
    let expectedVersion := (expected.lookup id).join
    let actualVersion := (actual.lookup id).join
    if expectedVersion = actualVersion then .ok ()
    else if expectedVersion = none ∨ actualVersion = none then
      .error ⟨none, s!"harness probe unavailable for {id}; resume refused"⟩
    else .error (drift "harnessVersions")

section Identity

-- `git merge-base --is-ancestor`.
variable (isAncestor : String → String → Bool)

def checkHead (expected actual : Option String) : Except Refusal Unit :=
  if expected = actual then .ok ()
  else
    match expected, actual with
    | some recorded, some head => if isAncestor recorded head then .ok () else .error (drift "gitHead")
    | _, _ => .error (drift "gitHead")

/-- `assertSourceUnchanged`: the warnings. -/
def assertSourceUnchanged (expected actual : SourceIdentity) : Except Refusal (List String) := do
  if expected.cwd ≠ actual.cwd then .error (drift "cwd")
  else do
    checkHead isAncestor expected.gitHead actual.gitHead
    let warnings := if expected.dirtyTreeFingerprint = actual.dirtyTreeFingerprint then [] else [treeChanged]
    if stableEntries expected.packetHashes ≠ stableEntries actual.packetHashes then .error (drift "packetHashes")
    else do
      checkVersions expected.harnessVersions actual.harnessVersions
      return warnings

end Identity

/-! ## The record -/

structure ControllerIdentity where
  path : String
  sha : String
  deriving DecidableEq, Repr

structure ScopeDecision where
  decidedAt : String
  base : Option String
  dirtyTreeFingerprint : Option String
  deriving DecidableEq, Repr

structure AutoRetry where
  code : String
  retriedAt : String
  deriving DecidableEq, Repr

/-- What a controller's lock says of its process. -/
structure LockRecord where
  pid : Nat
  processStartToken : Option String
  startedAt : String
  deriving DecidableEq, Repr

/-- `run.json`. -/
structure Metadata extends Supervise.RunMetadata where
  lock : LockRecord
  sourceIdentity : SourceIdentity
  controllerIdentity : Option ControllerIdentity
  identityWarnings : List String
  contractDigest : Option String
  scopeDecision : Option ScopeDecision
  autoRetries : Option (List (String × AutoRetry))
  deriving DecidableEq, Repr

/-- A controller that starts: its lock, and what it would record for the first time. -/
structure Start where
  lock : LockRecord
  controllerIdentity : ControllerIdentity
  contractDigest : String
  deriving DecidableEq, Repr

/-- An identity that was compared with the recorded one, and the warnings of that. -/
structure Accepted where
  identity : SourceIdentity
  warnings : List String
  deriving DecidableEq, Repr

/-- `createRunMetadata`: the records of the run that exists are carried forward. -/
def createRunMetadata (start : Start) (accepted : Accepted) (stored : Option Metadata) (supervised : Supervise.RunMetadata) :
    Metadata where
  toRunMetadata := supervised
  lock := start.lock
  sourceIdentity := accepted.identity
  controllerIdentity := some ((stored.bind Metadata.controllerIdentity).getD start.controllerIdentity)
  identityWarnings := accepted.warnings
  contractDigest := some ((stored.bind Metadata.contractDigest).getD start.contractDigest)
  scopeDecision := some ((stored.bind Metadata.scopeDecision).getD
    ⟨start.lock.startedAt, accepted.identity.gitHead, accepted.identity.dirtyTreeFingerprint⟩)
  autoRetries := stored.bind Metadata.autoRetries

/-- `AUTO_RETRY_CODES`. -/
def autoRetryCodes : List String :=
  ["judge_unavailable", "provider_error", "incomplete_stream", "stall_timeout", "wall_clock_timeout", "turn_limit"]

/-- `autoRetryConsumed`. -/
def autoRetryConsumed (metadata : Metadata) (nodeId : String) : Bool :=
  ((metadata.autoRetries.getD []).map Prod.fst).contains nodeId

/-- `consumeAutoRetry`. -/
def consumeAutoRetry (metadata : Metadata) (nodeId code retriedAt : String) : Metadata :=
  let existing := (metadata.autoRetries.getD []).filter fun entry => decide (entry.1 ≠ nodeId)
  { metadata with autoRetries := some (existing ++ [(nodeId, ⟨code, retriedAt⟩)]) }

/-- A process that writes the record. -/
inductive Change where
  /-- `driveRun`; `cleared` says that the resume changed the state of a node. -/
  | start (start : Start) (accepted : Accepted) (cleared : Bool)
  | autoRetry (nodeId code retriedAt : String)
  /-- The supervisor's relaunch, from `nextRelaunch` to `persistRelaunch`. -/
  | relaunch (progressAt : Option Int)
  /-- `parkRun`. -/
  | park (attention : Supervise.Attention)
  /-- `reportParkedAttention`. -/
  | announce (attention : Supervise.Attention)
  deriving DecidableEq, Repr

def apply (metadata : Metadata) : Change → Metadata
  | .start start accepted cleared =>
    createRunMetadata start accepted (some metadata)
      { metadata.toRunMetadata with attention := if cleared then none else metadata.attention }
  | .autoRetry nodeId code retriedAt => consumeAutoRetry metadata nodeId code retriedAt
  | .relaunch progressAt =>
    match Supervise.nextRelaunch metadata.toRunMetadata progressAt with
    | .error _ => metadata
    | .ok count => { metadata with toRunMetadata := Supervise.persistRelaunch metadata.toRunMetadata count progressAt }
  | .park attention => { metadata with attention := some attention }
  | .announce attention => { metadata with attention := metadata.attention.or (some attention) }

/-! ## A run directory -/

section Run

variable (isAncestor : String → String → Bool) (hashPacket : TaskPacket → String)
  (contractDigest : StoredContract → String)

/-- `captureRunIdentity`. -/
def captureRunIdentity (contract : StoredContract) (checkout : Checkout) (baseRef : Option String) : SourceIdentity where
  cwd := contract.cwd
  gitHead := checkout.head baseRef
  dirtyTreeFingerprint := checkout.dirtyTreeFingerprint
  packetHashes := contract.nodes.map fun node => (node.id, hashPacket node.taskPacket)
  harnessVersions := checkout.harnessVersions
  baseRef := baseRef

/-- `recordedBaseRef`. -/
def recordedBaseRef (metadata : Metadata) : Option String := metadata.sourceIdentity.baseRef.filter fun ref => decide (ref ≠ "")

/-- The files of a run, and the controllers that may start: the one that created it, and the resumes that got past the
comparison. -/
structure RunDir where
  contract : StoredContract
  record : UnlockedFile Metadata Change
  launched : Accepted
  resumed : List Accepted

/-- What `runContract` leaves for its controller. -/
def createdIdentity (contract : StoredContract) (checkout : Checkout) (baseRef : Option String) : Accepted :=
  ⟨captureRunIdentity hashPacket contract checkout baseRef, []⟩

def createdMetadata (contract : StoredContract) (checkout : Checkout) (baseRef : Option String) (lock : LockRecord)
    (controllerIdentity : ControllerIdentity) : Metadata :=
  createRunMetadata ⟨lock, controllerIdentity, contractDigest contract⟩ (createdIdentity hashPacket contract checkout baseRef)
    none ⟨none, none, none⟩

def created (contract : StoredContract) (checkout : Checkout) (baseRef : Option String) (lock : LockRecord)
    (controllerIdentity : ControllerIdentity) : RunDir where
  contract := contract
  record := UnlockedFile.untouched
    (createdMetadata hashPacket contractDigest contract checkout baseRef lock controllerIdentity)
  launched := createdIdentity hashPacket contract checkout baseRef
  resumed := []

/-- The comparison of a resume. -/
def RunDir.resume (run : RunDir) (checkout : Checkout) : Except Refusal Accepted := do
  let stored := run.record.file.content
  let identity := captureRunIdentity hashPacket run.contract checkout (recordedBaseRef stored)
  let warnings ← assertSourceUnchanged isAncestor stored.sourceIdentity identity
  return ⟨identity, warnings⟩

/-- `readRunContract`: the contract a supervisor takes the nodes of the run from. -/
def RunDir.readRunContract (run : RunDir) : Option StoredContract :=
  match run.record.file.content.contractDigest with
  | none => some run.contract
  | some digest => if contractDigest run.contract = digest then some run.contract else none

inductive Label where
  | resume (checkout : Checkout)
  /-- A resume that got past its comparison applies a widening. -/
  | reauthor (nodeId : String) (additions : ReauthorAdditions)
  | record (label : UnlockedFile.Label Change)

/-- A controller starts with an identity that was accepted, and retries, after a failure of a listed code, a node of the contract that
the ledger does not have. -/
def RunDir.opens (run : RunDir) : Change → Bool
  | .start _ accepted _ => (run.launched :: run.resumed).contains accepted
  | .autoRetry nodeId code _ =>
    autoRetryCodes.contains code && (run.contract.nodes.any fun node => decide (node.id = nodeId)) &&
      !autoRetryConsumed run.record.file.content nodeId
  | .relaunch _ | .park _ | .announce _ => true

/-- The steps of the record itself; the file does not become unreadable, it is replaced at once. -/
def RunDir.write (blank : Metadata) (run : RunDir) : UnlockedFile.Label Change → Option RunDir
  | .opens change =>
    if run.opens change then (UnlockedFile.step apply blank run.record (.opens change)).map fun record => { run with record }
      else none
  | .write index => (UnlockedFile.step apply blank run.record (.write index)).map fun record => { run with record }
  | .die index => (UnlockedFile.step apply blank run.record (.die index)).map fun record => { run with record }
  | .damage => none

def RunDir.step (blank : Metadata) (run : RunDir) : Label → Option RunDir
  | .resume checkout =>
    match run.resume isAncestor hashPacket checkout with
    | .ok accepted => some { run with resumed := accepted :: run.resumed }
    | .error _ => some run
  | .reauthor nodeId additions =>
    if run.resumed = [] then none
    else
      (run.contract.nodes.find? fun node => decide (node.id = nodeId)).map fun node => { run with
        contract.nodes := replacePacket run.contract.nodes nodeId (widenTaskPacket node.taskPacket additions) }
  | .record label => run.write blank label

def machine (blank : Metadata) : Machine RunDir Label := ⟨RunDir.step isAncestor hashPacket blank⟩

end Run

end Faberun.RunRecord
