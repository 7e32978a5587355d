import Faberun.Machine.Core
import Faberun.Machine.KeyedStore
import Faberun.Model.Run.Lock

/-! # Moving the legacy runs root

The embedding of `run/migrate.mjs`: a tree is what its paths hold, in the order a walk meets them. A call checks the
leases, copies the legacy tree into a staging directory, verifies and publishes it by one rename, and removes the
original; where a published tree exists it only verifies that one. Every entry copied, checked or removed is a step, so
a call can be killed between any two, and a file half copied. Controllers write under the published tree at any time.
-/

namespace Faberun.Migrate

/-! ## Trees -/

/-- The names from the root of the tree down. -/
abbrev Path := List String

inductive Entry where
  | file (content : String)
  | link (target : String)
  | directory
  deriving DecidableEq

abbrev Tree := KeyedStore Path Entry

/-- What the target of a link is when it is read through. -/
inductive Followed where
  | missing
  | file (content : String)
  | directory (directories : Nat)
  | fails (code : String)
  deriving DecidableEq

/-- What a step reads of the world around the trees. -/
structure Surroundings where
  processes : List Lock.Process
  /-- What a lock file parses as. -/
  parse : String → Lock.Content
  /-- The links of the legacy tree, read through. -/
  follow : Path → String → Followed
  /-- The links of the copy, read through. -/
  followCopy : Path → String → Followed

/-- Where the three trees are. -/
structure Layout where
  legacy : String
  target : String
  staging : String

/-- `join` of a root and a path under it. -/
def join (root : String) (path : Path) : String := root ++ "/" ++ "/".intercalate path

/-- What a call throws: a refusal with its text, or the error of a file operation. -/
inductive Thrown where
  | refusal (text : String)
  | system (code path : String)
  deriving DecidableEq

/-! ## Leases -/

structure LiveLease where
  runDir : Path
  pid : Nat
  deriving DecidableEq

/-- `readLock` of a `controller.lock` that is no directory. -/
def readLock (around : Surroundings) (layout : Layout) (path : Path) : Entry → Except Thrown Lock.ReadLockResult
  | .file content => .ok (some (around.parse content))
  | .directory => .ok none
  | .link target =>
    match around.follow path target with
    | .missing => .ok none
    | .file content => .ok (some (around.parse content))
    | .directory _ => .error (.system "EISDIR" (join layout.legacy path))
    | .fails code => .error (.system code (join layout.legacy path))

/-- A path of the tree that is a lock file. -/
def isLock (entry : Path × Entry) : Bool :=
  decide (entry.1.getLast? = some "controller.lock") && decide (entry.2 ≠ .directory)

/-- The lease of one lock file. -/
def leaseOf (around : Surroundings) (layout : Layout) (entry : Path × Entry) : Except Thrown (Option LiveLease) :=
  match readLock around layout entry.1 entry.2 with
  | .error thrown => .error thrown
  | .ok lock =>
    match lock with
    | some (.record record) =>
      .ok (if Lock.lockStale around.processes lock then none else some ⟨entry.1.dropLast, record.pid⟩)
    | _ => .ok none

/-- `liveLeases`. -/
def liveLeases (around : Surroundings) (layout : Layout) (tree : Tree) : Except Thrown (List LiveLease) :=
  ((tree.entries.filter isLock).mapM (leaseOf around layout)).map fun leases => leases.filterMap id

/-- `refuseLiveLeases`. -/
def refuseLiveLeases (layout : Layout) : List LiveLease → Except Thrown Unit
  | [] => .ok ()
  | lease :: _ =>
    let runDir := join layout.legacy lease.runDir
    .error (.refusal s!"run {runDir} holds a live controller lock (pid {lease.pid}); stop the run or wait for its controller to exit, then run migrate again")

/-! ## Verification -/

inductive Role where
  | staging
  | published
  deriving DecidableEq

/-- `verifyFailure`. -/
def verifyFailure (source copied : String) : Role → Thrown
  | .published =>
    .refusal s!"migration copy does not verify: {source} is missing or different at {copied}; nothing was published or removed — {copied} is the copy every reader answers while both trees exist: move what {source} holds that it lacks into it and settle any differing bytes by hand, then run migrate again"
  | .staging =>
    .refusal s!"migration copy does not verify: {source} is missing or different at {copied}; nothing was published or removed — the staging copy is discarded and recopied by the next run, so run migrate again"

/-- `verifyExtraFailure`. -/
def verifyExtraFailure (path : String) : Thrown :=
  .refusal s!"migration copy does not verify: {path} is not part of the original; nothing was published or removed"

/-- `readOrUndefined`. -/
def readOrUndefined (follow : Path → String → Followed) (root : String) (tree : Tree) (path : Path) :
    Except Thrown (Option String) :=
  match tree.get? path with
  | none => .ok none
  | some (.file content) => .ok (some content)
  | some .directory => .error (.system "EISDIR" (join root path))
  | some (.link target) =>
    match follow path target with
    | .missing => .ok none
    | .file content => .ok (some content)
    | .directory _ => .error (.system "EISDIR" (join root path))
    | .fails code => .error (.system code (join root path))

/-- `readLinkOrUndefined`. -/
def readLinkOrUndefined (root : String) (tree : Tree) (path : Path) : Except Thrown (Option String) :=
  match tree.get? path with
  | none => .ok none
  | some (.link target) => .ok (some target)
  | some _ => .error (.system "EINVAL" (join root path))

def Role.root (layout : Layout) : Role → String
  | .staging => layout.staging
  | .published => layout.target

/-- One entry of `verifyCopy`. -/
def verifyEntry (around : Surroundings) (layout : Layout) (role : Role) (copy : Tree) (path : Path) (entry : Entry) :
    Except Thrown Unit :=
  let failure := verifyFailure (join layout.legacy path) (join (role.root layout) path) role
  match entry with
  | .directory => if copy.get? path = some .directory then .ok () else .error failure
  | .link target =>
    match readLinkOrUndefined (role.root layout) copy path with
    | .error thrown => .error thrown
    | .ok read => if read = some target then .ok () else .error failure
  | .file content =>
    match readOrUndefined around.followCopy (role.root layout) copy path with
    | .error thrown => .error thrown
    | .ok read => if read = some content then .ok () else .error failure

/-- One entry of `verifyNothingExtra`. -/
def verifyExtraEntry (around : Surroundings) (layout : Layout) (source : Tree) (path : Path) (entry : Entry) :
    Except Thrown Unit :=
  let failure := verifyExtraFailure (join layout.staging path)
  match entry with
  | .directory => if source.get? path = some .directory then .ok () else .error failure
  | .link _ =>
    match readLinkOrUndefined layout.legacy source path with
    | .error thrown => .error thrown
    | .ok read => if read.isSome then .ok () else .error failure
  | .file _ =>
    match readOrUndefined around.follow layout.legacy source path with
    | .error thrown => .error thrown
    | .ok read => if read.isSome then .ok () else .error failure

/-! ## Counts -/

/-- `existsSync` of a path of the legacy tree. -/
def existsSync (around : Surroundings) (tree : Tree) (path : Path) : Bool :=
  match tree.get? path with
  | none => false
  | some (.link target) =>
    match around.follow path target with
    | .missing | .fails _ => false
    | _ => true
  | some _ => true

/-- `countRunDirs`. -/
def countRunDirs (around : Surroundings) (tree : Tree) : Nat :=
  tree.entries.countP fun entry =>
    decide (entry.1.length = 1 ∧ entry.2 = .directory) && existsSync around tree (entry.1 ++ ["contract.json"])

/-- `campaignsDir`, under the root of the tree. -/
def campaignsDir : Path := ["campaigns"]

/-- `countCampaigns`. -/
def countCampaigns (around : Surroundings) (layout : Layout) (tree : Tree) : Except Thrown Nat :=
  let notDirectory := Thrown.system "ENOTDIR" (join layout.legacy campaignsDir)
  match tree.get? campaignsDir with
  | none => .ok 0
  | some .directory =>
    .ok (tree.entries.countP fun entry => decide (entry.1.dropLast = campaignsDir ∧ entry.2 = .directory))
  | some (.file _) => .error notDirectory
  | some (.link target) =>
    match around.follow campaignsDir target with
    | .missing | .fails _ => .ok 0
    | .directory directories => .ok directories
    | .file _ => .error notDirectory

/-! ## A call -/

/-- `MigrateResult`. -/
structure MigrateResult where
  moved : Bool
  legacy : String
  target : Option String
  runs : Nat
  campaigns : Nat
  deriving DecidableEq

/-- Where the current call is; `todo` is what a loop still has before it. -/
inductive Stage where
  | idle
  /-- The legacy root exists. -/
  | opened
  | leased
  | clearing
  /-- `half` is whether the file in front is partly copied. -/
  | copying (todo : List (Path × Entry)) (half : Bool)
  | verifying (role : Role) (todo : List (Path × Entry))
  | extra (todo : List (Path × Entry))
  | verified (role : Role)
  | counted (role : Role) (result : MigrateResult)
  | publishing (result : MigrateResult)
  | removing (result : MigrateResult)
  | finished (result : MigrateResult)
  | threw (thrown : Thrown)
  deriving DecidableEq

structure World where
  legacy : Option Tree
  staging : Option Tree
  published : Option Tree
  stage : Stage
  /-- History: a removal of the legacy tree has started. -/
  removed : Bool
  /-- History: the legacy tree when the last call started. -/
  began : Option Tree
  /-- History: whether there was a published tree then. -/
  publishedAtStart : Bool
  /-- History: what controllers wrote under the published tree. -/
  written : List (Path × String)

/-- The steps of a call. -/
inductive Event where
  | start
  | lease (around : Surroundings)
  /-- Whether a published tree is there decides how to go on. -/
  | choose
  | clear (path : Path)
  | cleared
  | half (content : String)
  | copy
  | check (around : Surroundings)
  | count (around : Surroundings)
  | publish
  | remove (path : Path)
  | removed

inductive Label where
  | call (event : Event)
  | killed
  /-- A controller writes a file that is there. -/
  | writes (path : Path) (content : String)
  /-- A controller makes what was not there. -/
  | creates (path : Path) (entry : Entry)

def Stage.going : Stage → Bool
  | .idle | .finished _ | .threw _ => false
  | _ => true

namespace World

/-- Go on, or throw. -/
def settle (w : World) (outcome : Except Thrown Stage) : World :=
  match outcome with
  | .ok stage => { w with stage }
  | .error thrown => { w with stage := .threw thrown }

/-- The first check of the leases, and the one before anything is published or removed. -/
def lease (w : World) (layout : Layout) (around : Surroundings) (tree : Tree) (next : Stage) : World :=
  w.settle (((liveLeases around layout tree).bind (refuseLiveLeases layout)).map fun _ => next)

def count (w : World) (layout : Layout) (around : Surroundings) (tree : Tree) (role : Role) : World :=
  w.settle ((countCampaigns around layout tree).map fun campaigns =>
    .counted role ⟨true, layout.legacy, some layout.target, countRunDirs around tree, campaigns⟩)

/-- The tree that is verified. -/
def copyOf (w : World) : Role → Option Tree
  | .staging => w.staging
  | .published => w.published

/-- One step of a call. -/
def call (layout : Layout) (w : World) : Event → Option World
  | .start =>
    if w.stage.going then none
    else match w.legacy with
      | none => some { w with stage := .finished ⟨false, layout.legacy, none, 0, 0⟩ }
      | some tree => some { w with stage := .opened, began := some tree, publishedAtStart := w.published.isSome }
  | .lease around =>
    match w.stage, w.legacy with
    | .opened, some tree => some (w.lease layout around tree .leased)
    | .counted .published result, some tree => some (w.lease layout around tree (.removing result))
    | .counted .staging result, some tree => some (w.lease layout around tree (.publishing result))
    | _, _ => none
  | .choose =>
    match w.stage, w.legacy with
    | .leased, some tree =>
      if w.published.isSome then some { w with stage := .verifying .published tree.entries }
      else some { w with stage := .clearing }
    | _, _ => none
  | .clear path =>
    match w.stage, w.staging with
    | .clearing, some tree =>
      if path ∈ tree.keys then some { w with staging := some (tree.erase path) } else none
    | _, _ => none
  | .cleared =>
    match w.stage, w.legacy with
    | .clearing, some tree =>
      if (w.staging.map KeyedStore.keys).getD [] = [] then
        some { w with staging := some .empty, stage := .copying tree.entries false }
      else none
    | _, _ => none
  | .half content =>
    match w.stage, w.staging with
    | .copying ((path, .file whole) :: todo) false, some tree =>
      some { w with staging := some (tree.set path (.file content)), stage := .copying ((path, .file whole) :: todo) true }
    | _, _ => none
  | .copy =>
    match w.stage, w.staging, w.legacy with
    | .copying [] _, _, some tree => some { w with stage := .verifying .staging tree.entries }
    | .copying ((path, entry) :: todo) _, some tree, _ =>
      some { w with staging := some (tree.set path entry), stage := .copying todo false }
    | _, _, _ => none
  | .check around =>
    match w.stage, w.legacy with
    | .verifying role ((path, entry) :: todo), some _ =>
      (w.copyOf role).map fun copy =>
        w.settle ((verifyEntry around layout role copy path entry).map fun _ => .verifying role todo)
    | .verifying .published [], some _ => some { w with stage := .verified .published }
    | .verifying .staging [], some _ => w.staging.map fun copy => { w with stage := .extra copy.entries }
    | .extra ((path, entry) :: todo), some tree =>
      some (w.settle ((verifyExtraEntry around layout tree path entry).map fun _ => .extra todo))
    | .extra [], some _ => some { w with stage := .verified .staging }
    | _, _ => none
  | .count around =>
    match w.stage, w.legacy with
    | .verified role, some tree => some (w.count layout around tree role)
    | _, _ => none
  | .publish =>
    match w.stage with
    | .publishing result => some { w with published := w.staging, staging := none, stage := .removing result }
    | _ => none
  | .remove path =>
    match w.stage, w.legacy with
    | .removing _, some tree =>
      if path ∈ tree.keys then some { w with legacy := some (tree.erase path), removed := true } else none
    | _, _ => none
  | .removed =>
    match w.stage, w.legacy with
    | .removing result, some tree =>
      if tree.keys = [] then some { w with legacy := none, removed := true, stage := .finished result } else none
    | _, _ => none

def step (layout : Layout) (w : World) : Label → Option World
  | .call event => w.call layout event
  | .killed => some { w with stage := .idle }
  | .writes path content =>
    w.published.bind fun tree =>
      match tree.get? path with
      | some (.file _) =>
        some { w with published := some (tree.set path (.file content)), written := w.written ++ [(path, content)] }
      | _ => none
  | .creates path entry =>
    w.published.bind fun tree =>
      if tree.get? path = none then some { w with published := some (tree.set path entry) } else none

end World

def machine (layout : Layout) : Machine World Label := ⟨World.step layout⟩

/-- A legacy tree, nothing published, and whatever an earlier attempt staged. -/
def Initial (original : Tree) (w : World) : Prop :=
  w.legacy = some original ∧ w.published = none ∧ w.stage = .idle ∧ w.removed = false

/-! ## What a migration owes -/

/-- Every path of the original is there, a file as it was or as a controller wrote it. -/
def Holds (original : Tree) (written : List (Path × String)) (tree : Tree) : Prop :=
  ∀ path entry, original.get? path = some entry →
    tree.get? path = some entry ∨
      ∃ before after, entry = .file before ∧ tree.get? path = some (.file after) ∧ (path, after) ∈ written

/-- Two trees with the same entry at every path. -/
def Same (first second : Tree) : Prop := ∀ path, first.get? path = second.get? path

/-- How far a call has to go: the stages before it, then what is left of its loop. -/
def World.remaining (w : World) : Nat × Nat :=
  match w.stage with
  | .opened => (9, 0)
  | .leased => (8, 0)
  | .clearing => (7, ((w.staging.map KeyedStore.keys).getD []).length)
  | .copying todo half => (6, 2 * todo.length + if half then 0 else 1)
  | .verifying _ todo => (5, todo.length)
  | .extra todo => (4, todo.length)
  | .verified _ => (3, 0)
  | .counted _ _ => (2, 0)
  | .publishing _ => (1, 0)
  | .removing _ => (0, ((w.legacy.map KeyedStore.keys).getD []).length + 1)
  | .idle | .finished _ | .threw _ => (0, 0)

end Faberun.Migrate
