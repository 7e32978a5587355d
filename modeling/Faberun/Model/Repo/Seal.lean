import Mathlib.Data.List.Sort
import Faberun.Machine.KeyedStore
import Faberun.Text.CodeUnits

/-! # Sealing an attempt

The embedding of what decides the commit of an accepted attempt: the snapshot comparison of `repo/workspace.mjs` with the
scope check and its findings, `untrackedPaths` and `verificationArtifacts` around the controller's verification, and
`sealAttempt` of `repo/worktree.mjs`. A worktree is a store of contents by path. It is read where the worker starts,
where the worker has ended, after the verification and after the command proofs of the gate, and anyone may have written
anything in between. The index is the base tree until the seal stages.
-/

namespace Faberun.Seal

/-- A path by its segments. -/
abbrev Path := List String

abbrev Tree (κ : Type) := KeyedStore Path κ

variable {κ : Type} [DecidableEq κ]

def runsDirName : String := ".runs"

/-- `MAX_SCOPE_FINDING_PATHS`. -/
def maxScopeFindingPaths : Nat := 64

/-- The path itself, or one below it. -/
def under (root path : Path) : Bool := root.isPrefixOf path

/-- What the seal unstages: `.runs` and the linked `node_modules` of the root. -/
def reserved (path : Path) : Bool := path.head?.any fun first => decide (first = runsDirName ∨ first = "node_modules")

/-- Default sort of paths. -/
def sortPaths (paths : List Path) : List Path :=
  paths.insertionSort fun left right => ¬ textLess ("/".intercalate right) ("/".intercalate left) = true

/-- Directories `captureIgnoreSources` skips at any depth. -/
def skippedSourceDirs : List String := [".git", runsDirName, "node_modules", ".venv", "venv"]

/-- An ignore source that can be written in the worktree. No worktree here has a virtual environment under another name (a
directory with a `pyvenv.cfg`, which the walk skips too), and no ignore source is a link or too large to be kept. -/
def isIgnoreSource (path : Path) : Bool :=
  decide (path = [".faberunignore"]) ||
    (decide (path.getLast? = some ".gitignore") && !path.any skippedSourceDirs.contains &&
      path.head?.all fun first => decide (first ≠ ".claude" ∧ first ≠ ".codex"))

/-- What git makes of the ignore sources it reads, and what the snapshot makes of a file. -/
structure Rules (κ : Type) where
  /-- `--exclude-standard`. -/
  ignored : (Path → Option κ) → Path → Bool
  /-- `--exclude-from=.faberunignore`. -/
  excluded : (Path → Option κ) → Path → Bool
  normalizeManagedSignalBlock : κ → κ

/-- The captured boundary: the declared paths, and what they led to through links. -/
structure WorkspaceScopeBoundary where
  files : List Path
  roots : List Path
  fileRoots : List Path

/-- A path the boundary covers; a root that names a file covers that path only. -/
def isDeclaredScopePath (allowed : WorkspaceScopeBoundary) (path : Path) : Bool :=
  allowed.files.contains path || allowed.fileRoots.contains path ||
    allowed.roots.any fun root => !allowed.fileRoots.contains root && under root path

/-- An attempt that completed, and what its worktree held. -/
structure Attempt (κ : Type) where
  rules : Rules κ
  base : Tree κ
  started : Tree κ
  worked : Tree κ
  verified : Tree κ
  proved : Tree κ
  boundary : WorkspaceScopeBoundary
  writeFiles : List Path
  writeRoots : List Path
  /-- `verificationArtifacts` of an earlier pass. -/
  previous : List Path
  /-- A proof of the node names one of these paths. -/
  cites : List Path → Bool

namespace Attempt

variable (a : Attempt κ)

def paths : List Path := (a.base.keys ++ a.started.keys ++ a.worked.keys ++ a.verified.keys ++ a.proved.keys).dedup

def tracked (path : Path) : Bool := (a.base.get? path).isSome

/-- The ignore files of a worktree. -/
def sources (tree : Tree κ) (path : Path) : Option κ :=
  if path.getLast? = some ".gitignore" ∨ path = [".faberunignore"] then tree.get? path else none

def ignored (tree : Tree κ) (path : Path) : Bool := a.rules.ignored (sources tree) path

/-! ## The scope check -/

/-- `relevantWorkspacePaths`, under some ignore files. -/
def relevant (sources : Path → Option κ) (tree : Tree κ) (path : Path) : Bool :=
  (a.tracked path || ((tree.get? path).isSome && !a.rules.ignored sources path && !a.rules.excluded sources path)) &&
  decide (path.head? ≠ some runsDirName) && !path.contains "node_modules"

/-- The ignore files the worker left, with its changes to ignore sources taken back: every one of them was kept whole. -/
def replayed (path : Path) : Option κ := if isIgnoreSource path then a.started.get? path else sources a.worked path

inductive SnapshotEntry (κ : Type) where
  | missing
  | file (identity : κ)
  deriving DecidableEq

/-- `fileIdentity`. -/
def identity (path : Path) (content : κ) : κ :=
  if path.getLast? = some "AGENTS.md" then a.rules.normalizeManagedSignalBlock content else content

def entry (tree : Tree κ) (path : Path) : SnapshotEntry κ :=
  match tree.get? path with
  | none => .missing
  | some content => .file (a.identity path content)

/-- The worker changed an ignore source. -/
def sourceChanged (path : Path) : Bool := isIgnoreSource path && decide (a.started.get? path ≠ a.worked.get? path)

/-- A path in the snapshot before the worker. -/
def prior (path : Path) : Option (SnapshotEntry κ) :=
  if a.relevant (sources a.started) a.started path then some (a.entry a.started path) else none

/-- A path in the snapshot after it; a changed ignore source is always in it. -/
def current (path : Path) : Option (SnapshotEntry κ) :=
  if a.relevant a.replayed a.worked path || a.sourceChanged path then some (a.entry a.worked path) else none

/-- The snapshots differ at a path. -/
def shows (path : Path) : Bool := decide (a.prior path ≠ a.current path)

def changedPaths : List Path := sortPaths (a.paths.filter a.shows)

def unexpectedPaths : List Path := a.changedPaths.filter fun path => !isDeclaredScopePath a.boundary path

/-- `compareWorkspaceSnapshot` throws: an ignore source outside the boundary has changed. -/
def ignoreSourcesChanged : Bool := a.paths.any fun path => a.sourceChanged path && !isDeclaredScopePath a.boundary path

/-- `scopeFindingFromScope`. -/
def scopeFindings : List Path := a.unexpectedPaths.take maxScopeFindingPaths

/-! ## What the verification left -/

def isUntracked (tree : Tree κ) (path : Path) : Bool :=
  (tree.get? path).isSome && !a.tracked path && !a.ignored tree path && !reserved path

def untrackedPaths (tree : Tree κ) : List Path := sortPaths (tree.keys.filter (a.isUntracked tree))

/-- The packet names the path. -/
def isNamed (path : Path) : Bool := a.writeFiles.contains path || a.writeRoots.any fun root => under root path

def verificationArtifacts : List Path :=
  (((a.untrackedPaths a.verified).filter fun path =>
    !(a.untrackedPaths a.worked).contains path || a.previous.contains path).filter fun path => !a.isNamed path).take
      maxScopeFindingPaths

/-! ## The seal -/

/-- `git add -A` stages the path, and it is not unstaged for its name. -/
def stages (path : Path) : Bool := (a.tracked path || !a.ignored a.proved path) && !reserved path

/-- `git status` reports a change outside `.runs` and `node_modules`. -/
def dirty : Bool := a.paths.any fun path => a.stages path && decide (a.proved.get? path ≠ a.base.get? path)

/-- The tree of the commit. -/
def sealAttempt : Tree κ :=
  if a.dirty then a.proved.filter fun path => a.stages path && !a.verificationArtifacts.contains path else a.base

structure Sealed (κ : Type) where
  tree : Tree κ
  scopeFindings : List Path

/-- An accepted attempt is sealed; the scope check may have failed it. -/
def settle : Option (Sealed κ) :=
  if a.ignoreSourcesChanged then none
  else if !a.unexpectedPaths.isEmpty && a.cites (a.unexpectedPaths.take maxScopeFindingPaths) then none
  else some ⟨a.sealAttempt, a.scopeFindings⟩

/-! ## What a seal owes -/

/-- The worker turn changed the path. -/
def WorkerChanged (path : Path) : Prop := a.worked.get? path ≠ a.started.get? path

instance (path : Path) : Decidable (a.WorkerChanged path) := inferInstanceAs (Decidable (_ ≠ _))

/-- What was sealed was the worker's and was checked against the scope, and what the worker did within it was sealed. -/
structure Sound (s : Sealed κ) : Prop where
  worker : ∀ path, s.tree.get? path ≠ a.base.get? path → a.WorkerChanged path
  checked : ∀ path, s.tree.get? path ≠ a.base.get? path →
    isDeclaredScopePath a.boundary path = true ∨ path ∈ s.scopeFindings
  kept : ∀ path, isDeclaredScopePath a.boundary path = true → a.stages path = true → a.WorkerChanged path →
    a.proved.get? path = a.worked.get? path → s.tree.get? path = a.worked.get? path

/-- A change that is staged and not taken for the verification's. -/
def Remains (path : Path) : Prop :=
  a.stages path = true ∧ path ∉ a.verificationArtifacts ∧ a.proved.get? path ≠ a.base.get? path

instance (path : Path) : Decidable (a.Remains path) := inferInstanceAs (Decidable (_ ∧ _))

/-- Nobody but the worker leaves a change that remains, and each that does is within the boundary, or differs between
the snapshots and is one of the first paths outside it. -/
def RemainsChecked : Prop :=
  ∀ path ∈ a.paths, a.Remains path → a.WorkerChanged path ∧
    (isDeclaredScopePath a.boundary path = true ∨
      a.shows path = true ∧ a.unexpectedPaths.idxOf path < maxScopeFindingPaths)

/-- Where there is a change to seal, every tracked path under `.runs` or `node_modules` was changed by the worker within
the boundary. -/
def ReservedUntracked : Prop :=
  a.dirty = true → ∀ path ∈ a.paths, reserved path = true → a.tracked path = true →
    a.WorkerChanged path ∧ isDeclaredScopePath a.boundary path = true

/-- No file of the worker within the boundary is taken for the verification's. -/
def ArtifactsForeign : Prop :=
  ∀ path ∈ a.paths, path ∈ a.verificationArtifacts → isDeclaredScopePath a.boundary path = true → a.stages path = true →
    a.WorkerChanged path → a.proved.get? path = a.worked.get? path → a.worked.get? path = none

def Clean : Prop := a.RemainsChecked ∧ a.ReservedUntracked ∧ a.ArtifactsForeign

instance : Decidable a.RemainsChecked := inferInstanceAs (Decidable (∀ path ∈ a.paths, a.Remains path → _))

instance : Decidable a.ReservedUntracked :=
  inferInstanceAs (Decidable (a.dirty = true → ∀ path ∈ a.paths, reserved path = true → a.tracked path = true → _))

instance : Decidable a.ArtifactsForeign :=
  inferInstanceAs (Decidable (∀ path ∈ a.paths, path ∈ a.verificationArtifacts → _))

instance : Decidable a.Clean := inferInstanceAs (Decidable (_ ∧ _))

end Attempt

end Faberun.Seal
