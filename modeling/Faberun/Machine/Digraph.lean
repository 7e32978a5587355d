import Mathlib.Logic.Relation
import Mathlib.Data.List.Nodup
import Mathlib.Data.List.Perm.Subperm

/-! # Directed graphs that are edited

Three edits of a directed graph, each with what it does to cycles: two nodes become one, all nodes are renamed, and a
new node is put between others. The search for a cycle walks depth first and remembers the nodes it came through.
-/

namespace Faberun.Digraph

open Relation

variable {α : Type*}

/-- No node reaches itself. -/
def Acyclic (edge : α → α → Prop) : Prop := ∀ node, ¬ TransGen edge node node

theorem Acyclic.mono {edge fewer : α → α → Prop} (acyclic : Acyclic edge) (sub : ∀ a b, fewer a b → edge a b) :
    Acyclic fewer := fun node cycle => acyclic node (TransGen.mono sub node node cycle)

/-- A path into a set has an edge that enters it. -/
theorem exists_entry {edge : α → α → Prop} {inside : α → Prop} {a b : α} (path : TransGen edge a b) (outside : ¬ inside a)
    (ends : inside b) : ∃ last first, ReflTransGen edge a last ∧ ¬ inside last ∧ edge last first ∧ inside first := by
  induction path using TransGen.head_induction_on with
  | @single a here => exact ⟨a, b, .refl, outside, here, ends⟩
  | @head a mid here _ ih =>
    by_cases enters : inside mid
    · exact ⟨a, mid, .refl, outside, here, enters⟩
    · obtain ⟨last, first, walk, rest⟩ := ih enters
      exact ⟨last, first, .head here walk, rest⟩

/-! ## Renaming nodes -/

/-- The graph of the new names; an edge between two nodes of one name is dropped. -/
def Image (name : α → α) (edge : α → α → Prop) (a b : α) : Prop :=
  ∃ x y, edge x y ∧ name x = a ∧ name y = b ∧ a ≠ b

theorem image_image (later name : α → α) (edge : α → α → Prop) (a b : α) :
    Image later (Image name edge) a b ↔ Image (later ∘ name) edge a b := by
  constructor
  · rintro ⟨_, _, ⟨x, y, here, rfl, rfl, -⟩, rfl, rfl, apart⟩
    exact ⟨x, y, here, rfl, rfl, apart⟩
  · rintro ⟨x, y, here, rfl, rfl, apart⟩
    exact ⟨name x, name y, ⟨x, y, here, rfl, rfl, fun same => apart (congrArg later same)⟩, rfl, rfl, apart⟩

/-- A walk keeps its ends under the new names. -/
theorem image_walk {name : α → α} {edge : α → α → Prop} {a b : α} (walk : ReflTransGen edge a b) :
    ReflTransGen (Image name edge) (name a) (name b) := by
  induction walk with
  | refl => exact .refl
  | @tail mid last _ here ih =>
    by_cases same : name mid = name last
    · rw [← same]
      exact ih
    · exact ih.tail ⟨mid, last, here, rfl, rfl, same⟩

/-- A path between two nodes keeps joining them, unless they got one name. -/
theorem image_path {name : α → α} {edge : α → α → Prop} {a b : α} (path : TransGen edge a b) (apart : name a ≠ name b) :
    TransGen (Image name edge) (name a) (name b) := by
  rcases reflTransGen_iff_eq_or_transGen.mp (image_walk path.to_reflTransGen : ReflTransGen (Image name edge) (name a) (name b)) with same | walk
  · exact absurd same.symm apart
  · exact walk

/-! ## Two nodes become one -/

section Contract

variable [DecidableEq α] {edge : α → α → Prop} {child parent : α}

/-- The child takes the name of the parent. -/
def rename (child parent node : α) : α := if node = child then parent else node

theorem rename_child : rename child parent child = parent := if_pos rfl

theorem rename_parent : rename child parent parent = parent := by
  unfold rename
  split <;> rfl

theorem rename_of_ne {node : α} (other : node ≠ child) : rename child parent node = node := if_neg other

/-- What got the parent's name. -/
theorem rename_eq_parent {node : α} (named : rename child parent node = parent) : node = child ∨ node = parent := by
  by_cases same : node = child
  · exact .inl same
  · exact .inr ((rename_of_ne same).symm.trans named)

/-- Away from the parent a name has one node. -/
theorem eq_of_rename {a b : α} (named : rename child parent a = rename child parent b)
    (away : rename child parent a ≠ parent) : a = b := by
  have first : a ≠ child := fun same => away (same ▸ rename_child)
  have second : b ≠ child := fun same => away (named.trans (same ▸ rename_child))
  rw [rename_of_ne first, rename_of_ne second] at named
  exact named

/-- Some path joins the two nodes, in one direction or the other, and leaves them on the way. -/
def Detour (edge : α → α → Prop) (child parent : α) : Prop :=
  ∃ mid, mid ≠ child ∧ mid ≠ parent ∧
    ((TransGen edge child mid ∧ TransGen edge mid parent) ∨ (TransGen edge parent mid ∧ TransGen edge mid child))

/-- The edges that stay edges. -/
private def Kept (edge : α → α → Prop) (child parent a b : α) : Prop :=
  edge a b ∧ rename child parent a ≠ rename child parent b

/-- A path of kept edges between two names. -/
private def Lifted (edge : α → α → Prop) (child parent a b : α) : Prop :=
  ∃ x y, rename child parent x = a ∧ rename child parent y = b ∧ TransGen (Kept edge child parent) x y

private theorem kept_edge {x y : α} (path : TransGen (Kept edge child parent) x y) : TransGen edge x y :=
  TransGen.mono (fun _ _ kept => kept.1) x y path

/-- No kept path leads from the two nodes back to them. -/
private theorem not_lifted_parent (acyclic : Acyclic edge) (straight : ¬ Detour edge child parent) :
    ¬ Lifted edge child parent parent parent := by
  rintro ⟨x, y, first, last, path⟩
  obtain ⟨mid, ⟨here, apart⟩, rest⟩ := TransGen.head'_iff.mp path
  have away : rename child parent mid ≠ parent := fun same => apart (first.trans same.symm)
  have notChild : mid ≠ child := fun same => away (same ▸ rename_child)
  have notParent : mid ≠ parent := fun same => away (same ▸ rename_parent)
  have onwards : TransGen edge mid y := by
    rcases reflTransGen_iff_eq_or_transGen.mp rest with same | walk
    · exact absurd (same ▸ last) away
    · exact kept_edge walk
  have begins : TransGen edge x mid := .single here
  rcases rename_eq_parent first with rfl | rfl
  · rcases rename_eq_parent last with rfl | rfl
    · exact acyclic _ (begins.trans onwards)
    · exact straight ⟨mid, notChild, notParent, .inl ⟨begins, onwards⟩⟩
  · rcases rename_eq_parent last with rfl | rfl
    · exact straight ⟨mid, notChild, notParent, .inr ⟨begins, onwards⟩⟩
    · exact acyclic _ (begins.trans onwards)

/-- Extend a lifted path by one edge; it breaks only at the parent. -/
private theorem lifted_snoc {a b last : α} (before : Lifted edge child parent a b)
    (here : Image (rename child parent) edge b last) :
    Lifted edge child parent a last ∨ b = parent := by
  obtain ⟨x, y, first, named, path⟩ := before
  obtain ⟨y', z, step, named', target, apart⟩ := here
  by_cases same : b = parent
  · exact .inr same
  · have joined : y = y' := eq_of_rename (named.trans named'.symm) (named ▸ same)
    subst joined
    refine .inl ⟨x, z, first, target, path.tail ⟨step, ?_⟩⟩
    rw [named', target]
    exact apart

private theorem lifted_single {b last : α} (here : Image (rename child parent) edge b last) :
    Lifted edge child parent b last := by
  obtain ⟨y, z, step, named, target, apart⟩ := here
  exact ⟨y, z, named, target, .single ⟨step, by rw [named, target]; exact apart⟩⟩

/-- A path of the new graph lifts, or lifts in two parts that meet at the parent. -/
private theorem lifted_of_path (acyclic : Acyclic edge) (straight : ¬ Detour edge child parent) {a b : α}
    (path : TransGen (Image (rename child parent) edge) a b) :
    Lifted edge child parent a b ∨ (Lifted edge child parent a parent ∧ Lifted edge child parent parent b) := by
  induction path with
  | single here => exact .inl (lifted_single here)
  | @tail mid last _ here ih =>
    rcases ih with whole | ⟨before, after⟩
    · rcases lifted_snoc whole here with longer | rfl
      · exact .inl longer
      · exact .inr ⟨whole, lifted_single here⟩
    · rcases lifted_snoc after here with longer | rfl
      · exact .inr ⟨before, longer⟩
      · exact absurd after (not_lifted_parent acyclic straight)

/-- Joining two nodes of an acyclic graph closes a cycle exactly when a path joined them by way of a third node. -/
theorem acyclic_contract_iff (acyclic : Acyclic edge) :
    Acyclic (Image (rename child parent) edge) ↔ ¬ Detour edge child parent := by
  constructor
  · rintro kept ⟨mid, notChild, notParent, ⟨begins, ends⟩ | ⟨begins, ends⟩⟩ <;>
    · have away : rename child parent mid ≠ parent := by
        rw [rename_of_ne notChild]
        exact notParent
      have out := @image_path _ (rename child parent) _ _ _ begins (by
        first | rw [rename_child]; exact away.symm | rw [rename_parent]; exact away.symm)
      have back := @image_path _ (rename child parent) _ _ _ ends (by
        first | rw [rename_child]; exact away | rw [rename_parent]; exact away)
      simp only [rename_child, rename_parent] at out back
      exact kept parent (out.trans back)
  · intro straight node cycle
    rcases lifted_of_path acyclic straight cycle with ⟨x, y, first, last, path⟩ | ⟨before, after⟩
    · by_cases same : node = parent
      · subst same
        exact not_lifted_parent acyclic straight ⟨x, y, first, last, path⟩
      · have closed : x = y := eq_of_rename (first.trans last.symm) (first ▸ same)
        subst closed
        exact acyclic x (kept_edge path)
    · by_cases same : node = parent
      · subst same
        exact not_lifted_parent acyclic straight before
      · obtain ⟨x, y, first, last, path⟩ := before
        obtain ⟨x', y', first', last', path'⟩ := after
        have joined : y' = x := eq_of_rename (last'.trans first.symm) (last' ▸ same)
        subst joined
        exact not_lifted_parent acyclic straight ⟨x', y, first', last, path'.trans path⟩

end Contract

/-! ## A node put between others -/

section Insert

variable {edge : α → α → Prop} {fresh : α} {below above : α → Prop}

/-- The new node points to the nodes below it, and the nodes above point to it. -/
def Insert (edge : α → α → Prop) (fresh : α) (below above : α → Prop) (a b : α) : Prop :=
  edge a b ∨ (a = fresh ∧ below b) ∨ (above a ∧ b = fresh)

/-- A node above the new one can be reached from a node below it. -/
def Sandwich (edge : α → α → Prop) (below above : α → Prop) : Prop :=
  ∃ low high, below low ∧ above high ∧ ReflTransGen edge low high

/-- A path out of another node stays among the old edges, or meets a node above the new one first. -/
private theorem exists_above (isolated : ∀ other, ¬ edge other fresh) {a b : α}
    (path : TransGen (Insert edge fresh below above) a b) (other : a ≠ fresh) :
    (TransGen edge a b ∧ b ≠ fresh) ∨ ∃ mid, ReflTransGen edge a mid ∧ above mid := by
  induction path with
  | @single last here =>
    rcases here with here | ⟨same, -⟩ | ⟨beyond, -⟩
    · refine .inl ⟨.single here, ?_⟩
      rintro rfl
      exact isolated _ here
    · exact absurd same other
    · exact .inr ⟨a, .refl, beyond⟩
  | @tail mid last _ here ih =>
    rcases ih with ⟨walk, away⟩ | found
    · rcases here with here | ⟨same, -⟩ | ⟨beyond, -⟩
      · refine .inl ⟨walk.tail here, ?_⟩
        rintro rfl
        exact isolated _ here
      · exact absurd same away
      · exact .inr ⟨mid, walk.to_reflTransGen, beyond⟩
    · exact .inr found

/-- A path into another node stays among the old edges, or leaves the new one last. -/
private theorem exists_below (isolated : ∀ other, ¬ edge fresh other) {a b : α}
    (path : TransGen (Insert edge fresh below above) a b) (other : b ≠ fresh) :
    (TransGen edge a b ∧ a ≠ fresh) ∨ ∃ mid, ReflTransGen edge mid b ∧ below mid := by
  induction path using TransGen.head_induction_on with
  | @single first here =>
    rcases here with here | ⟨-, under⟩ | ⟨-, same⟩
    · refine .inl ⟨.single here, ?_⟩
      rintro rfl
      exact isolated _ here
    · exact .inr ⟨b, .refl, under⟩
    · exact absurd same other
  | @head first mid here _ ih =>
    rcases ih with ⟨walk, away⟩ | found
    · rcases here with here | ⟨-, under⟩ | ⟨-, same⟩
      · refine .inl ⟨.head here walk, ?_⟩
        rintro rfl
        exact isolated _ here
      · exact .inr ⟨mid, walk.to_reflTransGen, under⟩
      · exact absurd same away
    · exact .inr found

/-- Putting a node between others closes a cycle exactly when one above it could be reached from one below it. -/
theorem acyclic_insert_iff (acyclic : Acyclic edge) (isolated : ∀ other, ¬ edge fresh other ∧ ¬ edge other fresh)
    (lows : ¬ below fresh) (highs : ¬ above fresh) :
    Acyclic (Insert edge fresh below above) ↔ ¬ Sandwich edge below above := by
  constructor
  · rintro kept ⟨low, high, under, beyond, walk⟩
    have old : ReflTransGen (Insert edge fresh below above) low high := ReflTransGen.mono (fun _ _ here => .inl here) _ _ walk
    have down : Insert edge fresh below above fresh low := .inr (.inl ⟨rfl, under⟩)
    have up : Insert edge fresh below above high fresh := .inr (.inr ⟨beyond, rfl⟩)
    exact kept fresh ((TransGen.head' down old).tail up)
  · intro apart node cycle
    by_cases same : node = fresh
    · subst same
      obtain ⟨low, here, rest⟩ := TransGen.head'_iff.mp cycle
      have under : below low := by
        rcases here with here | ⟨-, under⟩ | ⟨beyond, -⟩
        · exact absurd here (isolated low).1
        · exact under
        · exact absurd beyond highs
      have away : low ≠ node := fun same => lows (same ▸ under)
      have path : TransGen (Insert edge node below above) low node :=
        (reflTransGen_iff_eq_or_transGen.mp rest).resolve_left fun closed => away closed.symm
      rcases exists_above (fun other => (isolated other).2) path away with ⟨-, same⟩ | ⟨high, walk, beyond⟩
      · exact same rfl
      · exact apart ⟨low, high, under, beyond, walk⟩
    · rcases exists_above (fun other => (isolated other).2) cycle same with ⟨walk, -⟩ | ⟨high, upwards, beyond⟩
      · exact acyclic node walk
      · rcases exists_below (fun other => (isolated other).1) cycle same with ⟨walk, -⟩ | ⟨low, downwards, under⟩
        · exact acyclic node walk
        · exact apart ⟨low, high, under, beyond, downwards.trans upwards⟩

end Insert

/-! ## Looking for a cycle -/

section Search

variable [DecidableEq α]

/-- Walk depth first along `next` and answer the first node that is met again on the way to it. -/
def findCycle (next : α → List α) : Nat → List α → α → Option α
  | 0, _, node => some node
  | fuel + 1, way, node =>
    if node ∈ way then some node else (next node).findSome? (findCycle next fuel (node :: way))

variable {next : α → List α} {nodes : List α}

/-- The edges along `next`. -/
def Edge (next : α → List α) (a b : α) : Prop := b ∈ next a

/-- A search that can get back to where it came from does not come out empty. -/
private theorem findCycle_of_back {fuel : Nat} {way : List α} {node back : α} (member : back ∈ way)
    (walk : ReflTransGen (Edge next) node back) : (findCycle next fuel way node).isSome := by
  induction fuel generalizing way node with
  | zero => rfl
  | succ fuel ih =>
    unfold findCycle
    split
    · rfl
    · rename_i fresh
      rcases ReflTransGen.cases_head walk with rfl | ⟨mid, here, rest⟩
      · exact absurd member fresh
      · rw [List.findSome?_isSome_iff]
        exact ⟨mid, here, ih (List.mem_cons_of_mem _ member) rest⟩

/-- What a search has walked through: a path to where it is, of different nodes. -/
private structure Way (next : α → List α) (nodes way : List α) (node : α) : Prop where
  distinct : way.Nodup
  known : ∀ other ∈ way, other ∈ nodes
  leads : ∀ other ∈ way, TransGen (Edge next) other node

omit [DecidableEq α] in
private theorem Way.cons {way : List α} {node mid : α} (so : Way next nodes way node) (fresh : node ∉ way)
    (member : node ∈ nodes) (here : mid ∈ next node) : Way next nodes (node :: way) mid where
  distinct := List.nodup_cons.mpr ⟨fresh, so.distinct⟩
  known other inside := by
    rcases List.mem_cons.mp inside with rfl | inside
    · exact member
    · exact so.known other inside
  leads other inside := by
    rcases List.mem_cons.mp inside with rfl | inside
    · exact .single here
    · exact (so.leads other inside).tail here

/-- In an acyclic graph a search with enough fuel ends without an answer. -/
private theorem findCycle_eq_none (acyclic : Acyclic (Edge next)) (leaves : ∀ node, node ∉ nodes → next node = [])
    {fuel : Nat} {way : List α} {node : α} (so : Way next nodes way node) (enough : nodes.length < fuel + way.length) :
    findCycle next fuel way node = none := by
  induction fuel generalizing way node with
  | zero =>
    have few : way.length ≤ nodes.length := (so.distinct.subperm so.known).length_le
    omega
  | succ fuel ih =>
    have fresh : node ∉ way := fun member => acyclic node (so.leads node member)
    rw [findCycle, if_neg fresh, List.findSome?_eq_none_iff]
    intro mid here
    by_cases member : node ∈ nodes
    · refine ih (so.cons fresh member here) ?_
      rw [List.length_cons]
      omega
    · rw [leaves node member] at here
      cases here

/-- The search from every node comes out empty exactly when the graph is acyclic. -/
theorem findCycle_eq_none_iff (leaves : ∀ node, node ∉ nodes → next node = []) :
    (∀ node ∈ nodes, findCycle next (nodes.length + 1) [] node = none) ↔ Acyclic (Edge next) := by
  constructor
  · intro clean node cycle
    obtain ⟨mid, here, rest⟩ := TransGen.head'_iff.mp cycle
    have member : node ∈ nodes := by
      by_contra outside
      rw [Edge, leaves node outside] at here
      cases here
    have found : (findCycle next (nodes.length + 1) [] node).isSome := by
      rw [findCycle, if_neg List.not_mem_nil, List.findSome?_isSome_iff]
      exact ⟨mid, here, findCycle_of_back (List.mem_singleton.mpr rfl) rest⟩
    rw [clean node member] at found
    cases found
  · intro acyclic node _
    refine findCycle_eq_none acyclic leaves ⟨List.nodup_nil, by simp, by simp⟩ ?_
    simp

end Search

end Faberun.Digraph
