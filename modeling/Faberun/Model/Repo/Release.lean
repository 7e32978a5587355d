import Faberun.Machine.CommitGraph
import Faberun.Model.Repo.Seal

/-! # Releasing worktrees

The embedding of `releaseRunWorktrees` and `releaseAttemptBranches` of `repo/worktree.mjs`, over a repository with its commits
and refs and the worktrees of one run. A ref is named by its segments. A worktree is what it has checked out, its index and its
files; `git stash create` records the index and the files of the paths git knows, and nothing of the rest.
-/

namespace Faberun.Release

open Seal (Path)

abbrev RefName := List String

/-- The commits and the refs of a repository; every ref names a commit that is there. -/
structure Repository (κ : Type) where
  graph : CommitGraph (Seal.Tree κ)
  refs : KeyedStore RefName Nat
  known : ∀ ref sha, refs.get? ref = some sha → sha < graph.size

/-- What a worktree has checked out. -/
inductive Head where
  | branch (name : RefName)
  | detached (sha : Nat)
  deriving DecidableEq

structure Worktree (κ : Type) where
  head : Head
  index : Seal.Tree κ
  files : Seal.Tree κ
  /-- The ignore rules name the path. -/
  ignored : Path → Bool

/-- An entry of the run's worktree directory; git need not know it. -/
structure Entry (κ : Type) where
  name : String
  worktree : Option (Worktree κ)

def branchRef (branch : RefName) : RefName := ["refs", "heads"] ++ branch

def archiveRef (runId entry : String) : RefName := ["refs", "faberun-archive", runId, entry]

/-- The branch `git symbolic-ref --short HEAD` answers. -/
def Worktree.branch? {κ : Type} (w : Worktree κ) : Option RefName :=
  match w.head with
  | .branch name => some name
  | .detached _ => none

variable {κ : Type}

namespace Repository

/-- `git rev-parse HEAD`. -/
def resolve (repo : Repository κ) : Head → Option Nat
  | .branch name => repo.refs.get? (branchRef name)
  | .detached sha => some sha

/-- `deleteRef`. -/
def deleteRef (repo : Repository κ) (ref : RefName) : Repository κ where
  graph := repo.graph
  refs := repo.refs.erase ref
  known other found held := by
    rw [KeyedStore.get?_erase] at held
    split_ifs at held
    exact repo.known other found held

/-- A repository that gained a commit. -/
def commit (repo : Repository κ) (tree : Seal.Tree κ) (parents : List Nat) (there : ∀ parent ∈ parents, parent < repo.graph.size) :
    Repository κ where
  graph := repo.graph.extend ⟨tree, parents⟩ there
  refs := repo.refs
  known ref sha held := by
    rw [CommitGraph.size_extend]
    exact Nat.lt_succ_of_lt (repo.known ref sha held)

/-- The tree of a commit. -/
def treeOf (repo : Repository κ) (sha : Nat) : Seal.Tree κ := (repo.graph.tree? sha).getD .empty

end Repository

/-! ## Keeping a worktree -/

namespace Worktree

/-- The path is in the index. -/
def tracked (w : Worktree κ) (path : Path) : Bool := (w.index.get? path).isSome

/-- The path is in the index or in the commit that is checked out. -/
def recorded (w : Worktree κ) (base : Seal.Tree κ) (path : Path) : Bool := w.tracked path || (base.get? path).isSome

/-- `git stash create` has something to record. -/
def changed [DecidableEq κ] (w : Worktree κ) (base : Seal.Tree κ) : Bool :=
  (base.keys ++ w.index.keys).any fun path =>
    decide (base.get? path ≠ w.index.get? path) || w.tracked path && decide (w.files.get? path ≠ w.index.get? path)

/-- The tree of the stash: the files of the recorded paths. -/
def stashTree (w : Worktree κ) (base : Seal.Tree κ) : Seal.Tree κ := w.files.filter (w.recorded base)

end Worktree

/-- A repository and a commit of it. -/
structure Kept (κ : Type) where
  repo : Repository κ
  sha : Nat
  there : sha < repo.graph.size

/-- The repository with the index commit of a stash. -/
def commitIndex (repo : Repository κ) (w : Worktree κ) (head : Nat) (there : head < repo.graph.size) : Repository κ :=
  repo.commit w.index [head] (by simpa using there)

/-- `git stash create`, where there is something to record: a commit of the index, and one of the files on both. -/
def stashCreate (repo : Repository κ) (w : Worktree κ) (head : Nat) (there : head < repo.graph.size) : Kept κ where
  repo := (commitIndex repo w head there).commit (w.stashTree (repo.treeOf head)) [head, repo.graph.size] (by
    simp only [commitIndex, Repository.commit, CommitGraph.size_extend, List.mem_cons, List.not_mem_nil, or_false]
    omega)
  sha := (commitIndex repo w head there).graph.size
  there := by
    simp only [Repository.commit, CommitGraph.size_extend]
    omega

variable [DecidableEq κ]

/-- What is kept of a worktree: its stash, or its HEAD. -/
def keep (repo : Repository κ) (w : Worktree κ) : Option (Kept κ) :=
  match repo.resolve w.head with
  | none => none
  | some head =>
    if there : head < repo.graph.size then
      some (if w.changed (repo.treeOf head) then stashCreate repo w head there else ⟨repo, head, there⟩)
    else none

/-- `deleteRef` of the branch the worktree had checked out. -/
def deleteBranch (repo : Repository κ) (w : Worktree κ) : Repository κ :=
  match w.branch? with
  | none => repo
  | some branch => repo.deleteRef (branchRef branch)

section

variable (accepts : RefName → Bool) (runId : String)

end

/-! ## Releasing branches -/

/-- The attempt branches of a run. -/
def isAttempt (runId : String) (ref : RefName) : Bool :=
  ["refs", "heads", "faberun", runId].isPrefixOf ref && decide (4 < ref.length)

/-- The refs that hold a commit for an attempt branch. -/
def isKeeper (ref : RefName) : Bool :=
  (["refs", "heads"].isPrefixOf ref || ["refs", "faberun"].isPrefixOf ref || ["refs", "faberun-archive"].isPrefixOf ref) &&
    !(["refs", "heads", "faberun"].isPrefixOf ref && decide (3 < ref.length))

/-- `git merge-base --is-ancestor`, of a commit and a ref. -/
def isHeld (repo : Repository κ) (sha : Nat) (keeper : RefName) : Bool :=
  (repo.refs.get? keeper).any fun held => repo.graph.isAncestor sha held

/-- One turn of `releaseAttemptBranches`. -/
def releaseBranch (keepers : List RefName) (state : Repository κ × List RefName) (attempt : RefName × Nat) :
    Repository κ × List RefName :=
  if keepers.any (isHeld state.1 attempt.2) then (state.1.deleteRef attempt.1, state.2 ++ [attempt.1]) else state

/-- A commit, or one it descends from, has a file of this content. -/
def Carries (repo : Repository κ) (sha : Nat) (content : κ) : Prop :=
  ∃ ancestor, repo.graph.Ancestor ancestor sha ∧ ∃ path, (repo.treeOf ancestor).get? path = some content

/-- Some ref reaches the content. -/
def Reaches (repo : Repository κ) (content : κ) : Prop :=
  ∃ ref sha, repo.refs.get? ref = some sha ∧ Carries repo sha content

/-- Some ref reaches the commit. -/
def Holds (repo : Repository κ) (commit : Nat) : Prop :=
  ∃ ref sha, repo.refs.get? ref = some sha ∧ repo.graph.Ancestor commit sha

/-- The content is in what git records of the worktree: its HEAD and what that descends from, its index, or a file it knows. -/
def Captured (repo : Repository κ) (w : Worktree κ) (content : κ) : Prop :=
  ∃ head, repo.resolve w.head = some head ∧ (Carries repo head content ∨ (∃ path, w.index.get? path = some content) ∨
    ∃ path, w.files.get? path = some content ∧ w.recorded (repo.treeOf head) path = true)

/-- The release leaves the ref alone: it archives no worktree under it and no worktree has it checked out. -/
def Untouched (repo : Repository κ) (runId : String) (entries : List (Entry κ)) (ref : RefName) : Prop :=
  ∀ entry ∈ entries, ∀ w ∈ entry.worktree, ((repo.resolve w.head).isSome = true → ref ≠ archiveRef runId entry.name) ∧
    ∀ branch, w.branch? = some branch → ref ≠ branchRef branch

/-- The content is in what git records of a worktree of the run, or a ref that the release leaves alone reaches it. -/
def Elsewhere (repo : Repository κ) (runId : String) (entries : List (Entry κ)) (content : κ) : Prop :=
  (∃ entry ∈ entries, ∃ w ∈ entry.worktree, Captured repo w content) ∨
    ∃ ref sha, Untouched repo runId entries ref ∧ repo.refs.get? ref = some sha ∧ Carries repo sha content

end Faberun.Release
