import Mathlib.Logic.Relation
import Faberun.Machine.KeyedLog

/-! # Append-only commit graphs

A commit names its tree and its parents, and every parent is older than its child. Commits are only
ever added, so what is an ancestor stays one. `isAncestor` decides ancestry by walking to the parents;
an id that names no commit is nobody's ancestor there.
-/

namespace Faberun

/-- One commit. Commits are named by their position in the graph. -/
structure Commit (τ : Type) where
  tree : τ
  parents : List Nat
  deriving DecidableEq, Repr

structure CommitGraph (τ : Type) where
  commits : List (Commit τ)
  older : ∀ (sha : Nat) (commit : Commit τ), commits[sha]? = some commit → ∀ parent ∈ commit.parents, parent < sha

namespace CommitGraph

variable {τ : Type}

def size (g : CommitGraph τ) : Nat := g.commits.length

def parents (g : CommitGraph τ) (sha : Nat) : List Nat := ((g.commits[sha]?).map Commit.parents).getD []

def tree? (g : CommitGraph τ) (sha : Nat) : Option τ := (g.commits[sha]?).map Commit.tree

/-- One commit with no parent. -/
def root (tree : τ) : CommitGraph τ where
  commits := [⟨tree, []⟩]
  older sha commit found parent member := by
    cases sha with
    | zero =>
      obtain rfl := Option.some.inj found
      cases member
    | succ sha => simp at found

/-- Add a commit whose parents exist; it is named by the old size. -/
def extend (g : CommitGraph τ) (commit : Commit τ) (known : ∀ parent ∈ commit.parents, parent < g.size) :
    CommitGraph τ where
  commits := g.commits ++ [commit]
  older sha other found parent member := by
    rcases getElem?_concat_eq_some_iff.mp found with before | ⟨rfl, rfl⟩
    · exact g.older sha other before parent member
    · exact known parent member

theorem parents_lt (g : CommitGraph τ) {parent sha : Nat} (member : parent ∈ g.parents sha) : parent < sha := by
  simp only [parents] at member
  cases found : g.commits[sha]? with
  | none =>
    rw [found] at member
    cases member
  | some commit =>
    rw [found] at member
    exact g.older sha commit found parent member

@[simp] theorem size_extend (g : CommitGraph τ) (commit : Commit τ) known :
    (g.extend commit known).size = g.size + 1 := by
  simp only [size, extend, List.length_append, List.length_singleton]

/-- A commit added changes no older one. -/
theorem parents_extend_of_lt {g : CommitGraph τ} {commit : Commit τ} {known} {sha : Nat} (old : sha < g.size) :
    (g.extend commit known).parents sha = g.parents sha := by
  simp only [parents, extend, List.getElem?_append_left old]

theorem parents_extend_size (g : CommitGraph τ) (commit : Commit τ) known :
    (g.extend commit known).parents g.size = commit.parents := by
  simp only [parents, extend, size, List.getElem?_concat_length, Option.map_some, Option.getD_some]

/-- Ancestry, a commit included in its own. -/
def Ancestor (g : CommitGraph τ) : Nat → Nat → Prop :=
  Relation.ReflTransGen fun parent child => parent ∈ g.parents child

theorem Ancestor.refl (g : CommitGraph τ) (sha : Nat) : g.Ancestor sha sha := Relation.ReflTransGen.refl

theorem Ancestor.trans {g : CommitGraph τ} {a b c : Nat} (first : g.Ancestor a b) (second : g.Ancestor b c) :
    g.Ancestor a c :=
  Relation.ReflTransGen.trans first second

theorem Ancestor.extend {g : CommitGraph τ} {a b : Nat} (line : g.Ancestor a b) (commit : Commit τ) (known) :
    (g.extend commit known).Ancestor a b := by
  induction line with
  | refl => exact Relation.ReflTransGen.refl
  | @tail mid child _ member ih =>
    refine ih.tail ?_
    by_cases old : child < g.size
    · rwa [parents_extend_of_lt old]
    · simp only [parents, List.getElem?_eq_none_iff.mpr (Nat.not_lt.mp old), Option.map_none,
        Option.getD_none, List.not_mem_nil] at member

/-- The parents of a commit added are its ancestors. -/
theorem ancestor_extend_size {g : CommitGraph τ} {commit : Commit τ} {known} {parent : Nat}
    (member : parent ∈ commit.parents) : (g.extend commit known).Ancestor parent g.size :=
  .single (by rwa [parents_extend_size])

/-- Walk to the parents, `fuel` generations deep. -/
def reaches (g : CommitGraph τ) : Nat → Nat → Nat → Bool
  | 0, _, _ => false
  | fuel + 1, ancestor, sha => ancestor == sha || (g.parents sha).any (g.reaches fuel ancestor)

/-- Every generation is older, so an id is fuel enough for its own line. -/
theorem reaches_iff (g : CommitGraph τ) {fuel : Nat} {ancestor sha : Nat} (enough : sha < fuel) :
    g.reaches fuel ancestor sha = true ↔ g.Ancestor ancestor sha := by
  induction fuel generalizing sha with
  | zero => omega
  | succ fuel ih =>
    simp only [reaches, Bool.or_eq_true, beq_iff_eq, List.any_eq_true]
    constructor
    · rintro (rfl | ⟨parent, member, found⟩)
      · exact Ancestor.refl g ancestor
      · have shorter := g.parents_lt member
        exact ((ih (by omega)).mp found).tail member
    · intro line
      cases line with
      | refl => exact .inl rfl
      | @tail parent _ line member =>
        have shorter := g.parents_lt member
        exact .inr ⟨parent, member, (ih (by omega)).mpr line⟩

instance (g : CommitGraph τ) : DecidableRel g.Ancestor := fun _ sha =>
  decidable_of_iff _ (g.reaches_iff (Nat.lt_succ_self sha))

/-- Whether one commit is an ancestor of the other, both being there. -/
def isAncestor (g : CommitGraph τ) (ancestor sha : Nat) : Bool :=
  decide (ancestor < g.size) && decide (sha < g.size) && g.reaches (sha + 1) ancestor sha

theorem isAncestor_iff (g : CommitGraph τ) {ancestor sha : Nat} :
    g.isAncestor ancestor sha = true ↔ (ancestor < g.size ∧ sha < g.size) ∧ g.Ancestor ancestor sha := by
  simp only [isAncestor, Bool.and_eq_true, decide_eq_true_eq, g.reaches_iff (Nat.lt_succ_self sha)]

/-! ## Graphs that grew -/

/-- Every commit of the first graph is the same commit of the second. -/
def Extends (g h : CommitGraph τ) : Prop := g.commits <+: h.commits

theorem Extends.refl (g : CommitGraph τ) : g.Extends g := List.prefix_refl _

theorem Extends.trans {g h k : CommitGraph τ} (first : g.Extends h) (second : h.Extends k) : g.Extends k :=
  List.IsPrefix.trans first second

theorem Extends.size_le {g h : CommitGraph τ} (grown : g.Extends h) : g.size ≤ h.size := List.IsPrefix.length_le grown

private theorem Extends.getElem? {g h : CommitGraph τ} (grown : g.Extends h) {sha : Nat} (old : sha < g.size) :
    h.commits[sha]? = g.commits[sha]? := by
  obtain ⟨more, same⟩ := grown
  rw [← same, List.getElem?_append_left old]

theorem Extends.tree? {g h : CommitGraph τ} (grown : g.Extends h) {sha : Nat} (old : sha < g.size) : h.tree? sha = g.tree? sha := by
  rw [CommitGraph.tree?, CommitGraph.tree?, grown.getElem? old]

theorem Extends.parents {g h : CommitGraph τ} (grown : g.Extends h) {sha : Nat} (old : sha < g.size) :
    h.parents sha = g.parents sha := by
  rw [CommitGraph.parents, CommitGraph.parents, grown.getElem? old]

theorem Ancestor.le {g : CommitGraph τ} {a b : Nat} (line : g.Ancestor a b) : a ≤ b := by
  induction line with
  | refl => exact Nat.le_refl _
  | tail _ member ih => exact Nat.le_trans ih (Nat.le_of_lt (g.parents_lt member))

/-- A commit that was there has the ancestors it had. -/
theorem Extends.ancestor_iff {g h : CommitGraph τ} (grown : g.Extends h) {a sha : Nat} (old : sha < g.size) :
    h.Ancestor a sha ↔ g.Ancestor a sha := by
  constructor
  · intro line
    induction line with
    | refl => exact .refl g _
    | tail _ member ih =>
      rw [grown.parents old] at member
      exact (ih (Nat.lt_trans (g.parents_lt member) old)).tail member
  · intro line
    induction line with
    | refl => exact .refl h _
    | tail _ member ih =>
      refine (ih (Nat.lt_trans (g.parents_lt member) old)).tail ?_
      rwa [grown.parents old]

/-- The ancestors of a commit are itself and those of its parents. -/
theorem ancestor_iff_parents {g : CommitGraph τ} {a sha : Nat} :
    g.Ancestor a sha ↔ a = sha ∨ ∃ parent ∈ g.parents sha, g.Ancestor a parent := by
  rw [CommitGraph.Ancestor, Relation.ReflTransGen.cases_tail_iff]
  constructor
  · rintro (rfl | ⟨parent, line, member⟩)
    · exact .inl rfl
    · exact .inr ⟨parent, member, line⟩
  · rintro (rfl | ⟨parent, member, line⟩)
    · exact .inl rfl
    · exact .inr ⟨parent, line, member⟩

end CommitGraph

end Faberun
