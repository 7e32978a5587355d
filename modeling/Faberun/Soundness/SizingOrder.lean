import Faberun.Soundness.SizingMerges

/-! # Sizing and the order of nodes

Folding two nodes contracts them in the dependency graph, so an acyclic graph stays acyclic exactly when no third node
lies on a path between them. The rules pick the parent by declaration order or by write sets and do not look, and a fold
across such a path makes the cycle the depth check then refuses.
-/

namespace Faberun.Sizing

open Digraph Relation Faberun.Plan

/-- A node of the first id depends on the second. -/
def Depends (nodes : List SizingNode) (a b : String) : Prop := ∃ node ∈ nodes, node.id = a ∧ b ∈ node.dependsOn

/-- Every dependency names a node. -/
def Known (nodes : List SizingNode) : Prop := ∀ node ∈ nodes, ∀ id ∈ node.dependsOn, id ∈ nodes.map SizingNode.id

instance (nodes : List SizingNode) : Decidable (Known nodes) :=
  inferInstanceAs (Decidable (∀ node ∈ nodes, ∀ id ∈ node.dependsOn, id ∈ nodes.map SizingNode.id))

/-- Where a node ended: every recorded merge hands it on. -/
def endsIn (transformations : List Transformation) (id : String) : String :=
  transformations.foldl (fun current transformation =>
    match transformation.nodes with
    | [child, parent] => rename child parent current
    | _ => current) id

/-- A fold with a third node on a path between the two. -/
def Fold.Crosses (fold : Fold) : Prop := Detour (Depends fold.before) fold.child.id fold.parent.id

/-! ## One fold -/

section OneFold

variable {nodes : List SizingNode} {child parent : SizingNode}

private theorem eq_of_same_id (distinct : (nodes.map SizingNode.id).Nodup) {node other : SizingNode}
    (member : node ∈ nodes) (otherMember : other ∈ nodes) (same : node.id = other.id) : node = other :=
  List.inj_on_of_nodup_map distinct member otherMember same

theorem mem_redirect {childId parentId id : String} {node : SizingNode} :
    id ∈ (redirect childId parentId node).dependsOn ↔ id ≠ node.id ∧ ∃ old ∈ node.dependsOn, rename childId parentId old = id := by
  simp only [redirect, List.mem_filter, List.mem_eraseDups, List.mem_map, bne_iff_ne, rename]
  exact and_comm

theorem mem_absorb {id : String} :
    id ∈ (absorb child parent).dependsOn ↔
      (id ∈ parent.dependsOn ∨ id ∈ child.dependsOn) ∧ id ≠ parent.id ∧ id ≠ child.id := by
  simp only [absorb, List.mem_filter, List.mem_eraseDups, List.mem_append, Bool.and_eq_true, bne_iff_ne]

/-- What a fold leaves are the redirected nodes and the absorbing one. -/
theorem mem_foldNodeInto {node : SizingNode} :
    node ∈ foldNodeInto nodes child parent ↔
      (∃ old ∈ nodes, old.id ≠ child.id ∧ old.id ≠ parent.id ∧ redirect child.id parent.id old = node) ∨
        (parent.id ≠ child.id ∧ (∃ old ∈ nodes, old.id = parent.id) ∧ absorb child parent = node) := by
  simp only [foldNodeInto, List.mem_map, List.mem_filter, bne_iff_ne]
  constructor
  · rintro ⟨old, ⟨member, other⟩, rfl⟩
    by_cases same : old.id = parent.id
    · rw [if_pos same]
      exact .inr ⟨same ▸ other, ⟨old, member, same⟩, rfl⟩
    · rw [if_neg same]
      exact .inl ⟨old, member, other, same, rfl⟩
  · rintro (⟨old, member, other, apart, rfl⟩ | ⟨apart, ⟨old, member, same⟩, rfl⟩)
    · exact ⟨old, ⟨member, other⟩, if_neg apart⟩
    · exact ⟨old, ⟨member, same ▸ apart⟩, if_pos same⟩

/-- A fold contracts the two nodes in the dependency graph. -/
theorem depends_foldNodeInto (distinct : (nodes.map SizingNode.id).Nodup) (childMember : child ∈ nodes)
    (parentMember : parent ∈ nodes) (apart : parent.id ≠ child.id) (a b : String) :
    Depends (foldNodeInto nodes child parent) a b ↔ Image (rename child.id parent.id) (Depends nodes) a b := by
  constructor
  · rintro ⟨node, member, rfl, depends⟩
    rcases mem_foldNodeInto.mp member with ⟨old, oldMember, other, away, rfl⟩ | ⟨-, -, rfl⟩
    · obtain ⟨differs, id, inside, rfl⟩ := mem_redirect.mp depends
      exact ⟨old.id, id, ⟨old, oldMember, rfl, inside⟩, rename_of_ne other, rfl, differs.symm⟩
    · obtain ⟨inside, notParent, notChild⟩ := mem_absorb.mp depends
      rcases inside with inside | inside
      · exact ⟨parent.id, b, ⟨parent, parentMember, rfl, inside⟩, rename_parent, rename_of_ne notChild, notParent.symm⟩
      · exact ⟨child.id, b, ⟨child, childMember, rfl, inside⟩, rename_child, rename_of_ne notChild, notParent.symm⟩
  · rintro ⟨x, y, ⟨node, member, rfl, inside⟩, rfl, rfl, differs⟩
    by_cases isChild : node.id = child.id
    · obtain rfl := eq_of_same_id distinct member childMember isChild
      rw [rename_child] at differs ⊢
      refine ⟨absorb node parent, mem_foldNodeInto.mpr (.inr ⟨apart, ⟨parent, parentMember, rfl⟩, rfl⟩), rfl, ?_⟩
      have notChild : y ≠ node.id := fun same => differs (by rw [same, rename_child])
      rw [rename_of_ne notChild] at differs ⊢
      exact mem_absorb.mpr ⟨.inr inside, differs.symm, notChild⟩
    · rw [rename_of_ne isChild] at differs ⊢
      by_cases isParent : node.id = parent.id
      · obtain rfl := eq_of_same_id distinct member parentMember isParent
        refine ⟨absorb child node, mem_foldNodeInto.mpr (.inr ⟨apart, ⟨node, member, rfl⟩, rfl⟩), rfl, ?_⟩
        have notChild : y ≠ child.id := fun same => differs (by rw [same, rename_child])
        rw [rename_of_ne notChild] at differs ⊢
        exact mem_absorb.mpr ⟨.inl inside, differs.symm, notChild⟩
      · refine ⟨redirect child.id parent.id node, mem_foldNodeInto.mpr (.inl ⟨node, member, isChild, isParent, rfl⟩), rfl, ?_⟩
        exact mem_redirect.mpr ⟨differs.symm, y, inside, rfl⟩

/-- The ids a fold leaves are the new names of the ids there were. -/
theorem rename_mem_ids (parentMember : parent ∈ nodes) (apart : parent.id ≠ child.id) {id : String}
    (member : id ∈ nodes.map SizingNode.id) :
    rename child.id parent.id id ∈ (foldNodeInto nodes child parent).map SizingNode.id := by
  rw [foldNodeInto_ids, List.mem_filter, bne_iff_ne]
  by_cases same : id = child.id
  · rw [same, rename_child]
    exact ⟨List.mem_map_of_mem parentMember, apart⟩
  · rw [rename_of_ne same]
    exact ⟨member, same⟩

theorem known_foldNodeInto (distinct : (nodes.map SizingNode.id).Nodup) (childMember : child ∈ nodes)
    (parentMember : parent ∈ nodes) (apart : parent.id ≠ child.id) (known : Known nodes) :
    Known (foldNodeInto nodes child parent) := by
  intro node member id depends
  obtain ⟨x, y, ⟨old, oldMember, -, inside⟩, -, rfl, -⟩ :=
    (depends_foldNodeInto distinct childMember parentMember apart node.id id).mp ⟨node, member, rfl, depends⟩
  exact rename_mem_ids parentMember apart (known old oldMember y inside)

end OneFold

/-! ## All folds -/

/-- What holds after some folds of an acyclic graph. -/
private structure Ordered (start : List SizingNode) (folds : List Fold) (current : List SizingNode) : Prop where
  distinct : (current.map SizingNode.id).Nodup
  known : Known current
  acyclic : Acyclic (Depends current)
  depends : ∀ a b, Depends current a b ↔ Image (endsIn (folds.map Fold.transformation)) (Depends start) a b
  ends : ∀ id ∈ start.map SizingNode.id, endsIn (folds.map Fold.transformation) id ∈ current.map SizingNode.id

/-- One more fold renames its child. -/
theorem endsIn_concat (folds : List Fold) (fold : Fold) (id : String) :
    endsIn ((folds ++ [fold]).map Fold.transformation) id =
      rename fold.child.id fold.parent.id (endsIn (folds.map Fold.transformation) id) := by
  simp only [endsIn, List.map_append, List.map_cons, List.map_nil, List.foldl_append, List.foldl_cons, List.foldl_nil,
    Fold.transformation]

private theorem apart_of_acyclic {nodes : List SizingNode} {child parent : SizingNode} (member : child ∈ nodes)
    (acyclic : Acyclic (Depends nodes)) (apart : parent.id ∈ child.dependsOn ∨ parent.id ≠ child.id) :
    parent.id ≠ child.id := by
  rcases apart with depends | apart
  · intro same
    exact acyclic child.id (.single ⟨child, member, rfl, same ▸ depends⟩)
  · exact apart

private theorem Ordered.fold {start : List SizingNode} {folds : List Fold} {fold : Fold}
    (ordered : Ordered start folds fold.before) (childMember : fold.child ∈ fold.before)
    (parentMember : fold.parent ∈ fold.before)
    (apart : fold.parent.id ∈ fold.child.dependsOn ∨ fold.parent.id ≠ fold.child.id) (straight : ¬ fold.Crosses) :
    Ordered start (folds ++ [fold]) fold.after := by
  have differ := apart_of_acyclic childMember ordered.acyclic apart
  have contracted := depends_foldNodeInto ordered.distinct childMember parentMember differ
  have same : endsIn ((folds ++ [fold]).map Fold.transformation) =
      rename fold.child.id fold.parent.id ∘ endsIn (folds.map Fold.transformation) := by
    funext id
    exact endsIn_concat folds fold id
  constructor
  · rw [Fold.after, foldNodeInto_ids]
    exact ordered.distinct.filter _
  · exact known_foldNodeInto ordered.distinct childMember parentMember differ ordered.known
  · intro node cycle
    refine (@acyclic_contract_iff _ _ _ fold.child.id fold.parent.id ordered.acyclic).mpr straight node ?_
    exact TransGen.mono (fun a b here => (contracted a b).mp here) _ _ cycle
  · intro a b
    rw [same, ← image_image]
    refine (contracted a b).trans ?_
    constructor
    · rintro ⟨x, y, here, rest⟩
      exact ⟨x, y, (ordered.depends x y).mp here, rest⟩
    · rintro ⟨x, y, here, rest⟩
      exact ⟨x, y, (ordered.depends x y).mpr here, rest⟩
  · intro id member
    rw [endsIn_concat]
    exact rename_mem_ids parentMember differ (ordered.ends id member)

private theorem Ordered.of_folded {start current : List SizingNode} {folds : List Fold}
    (folded : Folded start folds current) (distinct : (start.map SizingNode.id).Nodup) (known : Known start)
    (acyclic : Acyclic (Depends start)) (straight : ∀ fold ∈ folds, ¬ fold.Crosses) : Ordered start folds current := by
  induction folded with
  | none =>
    refine ⟨distinct, known, acyclic, fun a b => ?_, fun id member => member⟩
    have loopless : Depends start a b → a ≠ b := fun here same => acyclic a (.single (same ▸ here))
    exact ⟨fun here => ⟨a, b, here, rfl, rfl, loopless here⟩, fun ⟨x, y, here, first, last, _⟩ => first ▸ last ▸ here⟩
  | @next folds fold _ childMember parentMember apart ih =>
    refine (ih fun other member => straight other (List.mem_append_left _ member)).fold childMember parentMember apart ?_
    exact straight fold (by simp)

/-- The graph between two folds is acyclic exactly as long as no fold has crossed anything. -/
private theorem straight_iff {start current : List SizingNode} {folds : List Fold} (folded : Folded start folds current)
    (distinct : (start.map SizingNode.id).Nodup) (known : Known start) (acyclic : Acyclic (Depends start)) :
    (∀ fold ∈ folds, ¬ fold.Crosses) ↔ ∀ fold ∈ folds, Acyclic (Depends fold.after) := by
  induction folded with
  | none => simp only [List.not_mem_nil, false_implies, implies_true]
  | @next folds fold before childMember parentMember apart ih =>
    constructor
    · intro straight other member
      rcases List.mem_append.mp member with earlier | last
      · exact ih.mp (fun fold inside => straight fold (List.mem_append_left _ inside)) other earlier
      · obtain rfl := List.mem_singleton.mp last
        exact (Ordered.of_folded (before.next childMember parentMember apart) distinct known acyclic straight).acyclic
    · intro clean other member
      have earlier := ih.mpr fun fold inside => clean fold (List.mem_append_left _ inside)
      rcases List.mem_append.mp member with inside | last
      · exact earlier other inside
      · obtain rfl := List.mem_singleton.mp last
        have ordered := Ordered.of_folded before distinct known acyclic earlier
        have differ := apart_of_acyclic childMember ordered.acyclic apart
        refine (acyclic_contract_iff ordered.acyclic).mp ?_
        refine (clean other member).mono fun a b here => ?_
        exact (depends_foldNodeInto ordered.distinct childMember parentMember differ a b).mpr here

/-! ## What follows the merges -/

/-- The ids and what they depend on. -/
private def skeleton (nodes : List SizingNode) : List (String × List String) := nodes.map fun node => (node.id, node.dependsOn)

private theorem skeleton_markEach {rule : SizingNode → Marked} (nodes : List SizingNode)
    (keeps : ∀ node, (rule node).1.id = node.id ∧ (rule node).1.dependsOn = node.dependsOn) :
    skeleton (markEach rule nodes).1 = skeleton nodes := by
  simp only [skeleton, markEach, List.map_map]
  refine List.map_congr_left fun node _ => ?_
  rw [Function.comp_apply, (keeps node).1, (keeps node).2]

private theorem markNode_keeps (nodes : List SizingNode) (node : SizingNode) :
    (markNode nodes node).1.id = node.id ∧ (markNode nodes node).1.dependsOn = node.dependsOn := by
  unfold markNode
  dsimp only
  split <;> exact ⟨rfl, rfl⟩

private theorem flagNode_keeps (turnCeiling : Option Nat) (node : SizingNode) :
    (flagNode turnCeiling node).1.id = node.id ∧ (flagNode turnCeiling node).1.dependsOn = node.dependsOn := by
  unfold flagNode
  split
  · split <;> exact ⟨rfl, rfl⟩
  · exact ⟨rfl, rfl⟩

private theorem skeleton_reshape (options : Options) (nodes : List SizingNode) :
    skeleton (reshape options nodes).1 = skeleton nodes := by
  simp only [reshape]
  rw [skeleton_markEach _ (flagNode_keeps _), skeleton_markEach _ (markNode_keeps _),
    skeleton_markEach _ fun node => ⟨rfl, rfl⟩]

private theorem depends_of_skeleton {nodes others : List SizingNode} (same : skeleton nodes = skeleton others) (a b : String) :
    Depends nodes a b ↔ Depends others a b := by
  have through (some : List SizingNode) : Depends some a b ↔ ∃ entry ∈ skeleton some, entry.1 = a ∧ b ∈ entry.2 := by
    simp [Depends, skeleton]
  rw [through, through, same]

private theorem ids_of_skeleton {nodes others : List SizingNode} (same : skeleton nodes = skeleton others) :
    nodes.map SizingNode.id = others.map SizingNode.id := by
  have through (some : List SizingNode) : some.map SizingNode.id = (skeleton some).map (·.1) := by
    simp [skeleton]
  rw [through, through, same]

theorem reshape_ids (options : Options) (nodes : List SizingNode) :
    (reshape options nodes).1.map SizingNode.id = nodes.map SizingNode.id :=
  ids_of_skeleton (skeleton_reshape options nodes)

theorem depends_reshape (options : Options) (nodes : List SizingNode) (a b : String) :
    Depends (reshape options nodes).1 a b ↔ Depends nodes a b :=
  depends_of_skeleton (skeleton_reshape options nodes) a b

private theorem single_markEach {rule : SizingNode → Marked} {nodes : List SizingNode}
    (single : ∀ node, ∀ transformation ∈ (rule node).2, ∃ id, transformation.nodes = [id]) {transformation : Transformation}
    (member : transformation ∈ (markEach rule nodes).2) : ∃ id, transformation.nodes = [id] := by
  obtain ⟨node, -, said⟩ := List.mem_flatMap.mp member
  exact single node transformation said

private theorem splitNode_single (nodeBudgetMs : Rat) (facts : Facts) (node : SizingNode) (transformation : Transformation)
    (member : transformation ∈ (splitNode nodeBudgetMs facts node).2) : ∃ id, transformation.nodes = [id] := by
  obtain ⟨piece, pieceMember, said⟩ := List.mem_flatMap.mp member
  obtain ⟨command, -, rfl⟩ := List.mem_map.mp pieceMember
  unfold splitCommand at said
  split at said
  · cases said
  · split_ifs at said
    · cases said
    all_goals
      obtain rfl := List.mem_singleton.mp said
      exact ⟨node.id, rfl⟩

private theorem markNode_single (nodes : List SizingNode) (node : SizingNode) (transformation : Transformation)
    (member : transformation ∈ (markNode nodes node).2) : ∃ id, transformation.nodes = [id] := by
  unfold markNode at member
  dsimp only at member
  split at member
  · cases member
  · obtain rfl := List.mem_singleton.mp member
    exact ⟨node.id, rfl⟩

private theorem flagNode_single (turnCeiling : Option Nat) (node : SizingNode) (transformation : Transformation)
    (member : transformation ∈ (flagNode turnCeiling node).2) : ∃ id, transformation.nodes = [id] := by
  unfold flagNode at member
  split at member
  · split at member
    · cases member
    · obtain rfl := List.mem_singleton.mp member
      exact ⟨node.id, rfl⟩
  · cases member

private theorem volume_single (nodes : List SizingNode) (readVolume : Option (String → Option Nat))
    (transformation : Transformation) (member : transformation ∈ flagReadVolumeImbalance nodes readVolume) :
    ∃ id, transformation.nodes = [id] := by
  unfold flagReadVolumeImbalance at member
  split at member
  · cases member
  · dsimp only at member
    split at member
    · cases member
    · obtain ⟨entry, -, rfl⟩ := List.mem_map.mp member
      exact ⟨entry.1, rfl⟩

/-- What follows the merges records one node at a time. -/
theorem reshape_single (options : Options) (nodes : List SizingNode) {transformation : Transformation}
    (member : transformation ∈ (reshape options nodes).2) : ∃ id, transformation.nodes = [id] := by
  simp only [reshape, List.mem_append] at member
  rcases member with ((split | marked) | flagged) | volumes
  · exact single_markEach (splitNode_single _ _) split
  · exact single_markEach (markNode_single _) marked
  · exact single_markEach (flagNode_single _) flagged
  · split at volumes
    · exact volume_single _ _ _ volumes
    · cases volumes

private theorem endsIn_of_single {transformations : List Transformation}
    (single : ∀ transformation ∈ transformations, ∃ id, transformation.nodes = [id]) (id : String) :
    endsIn transformations id = id := by
  induction transformations with
  | nil => rfl
  | cons first rest ih =>
    obtain ⟨node, same⟩ := single first List.mem_cons_self
    simp only [endsIn, List.foldl_cons, same]
    exact ih fun other member => single other (List.mem_cons_of_mem _ member)

/-- Only the merges hand a node on. -/
theorem endsIn_append_single (merges rest : List Transformation)
    (single : ∀ transformation ∈ rest, ∃ id, transformation.nodes = [id]) (id : String) :
    endsIn (merges ++ rest) id = endsIn merges id := by
  have later := endsIn_of_single single (endsIn merges id)
  rw [endsIn, List.foldl_append]
  exact later

/-! ## The depth check -/

private theorem depthOf_ok {next : String → List String} {fuel : Nat} {way : List String} {id : String}
    (clean : findCycle next fuel way id = none) : ∃ depth, depthOf next fuel way id = .ok depth := by
  induction fuel generalizing way id with
  | zero => cases clean
  | succ fuel ih =>
    unfold findCycle at clean
    unfold depthOf
    split at clean
    · cases clean
    · rename_i fresh
      rw [if_neg fresh]
      have below := List.findSome?_eq_none_iff.mp clean
      have measured (dependencies : List String) (inside : ∀ other ∈ dependencies, findCycle next fuel (id :: way) other = none)
          (depth : Nat) : ∃ whole, dependencies.foldlM (fun depth dependency => do
            let below ← depthOf next fuel (id :: way) dependency
            return max depth (below + 1)) depth = .ok whole := by
        induction dependencies generalizing depth with
        | nil => exact ⟨depth, rfl⟩
        | cons dependency rest inner =>
          obtain ⟨own, here⟩ := ih (inside dependency List.mem_cons_self)
          obtain ⟨whole, later⟩ := inner (fun other member => inside other (List.mem_cons_of_mem _ member)) (max depth (own + 1))
          refine ⟨whole, ?_⟩
          rw [List.foldlM_cons, here]
          exact later
      exact measured (next id) below 1

private theorem depends_iff_edge {nodes : List SizingNode} (distinct : (nodes.map SizingNode.id).Nodup) (a b : String) :
    Depends nodes a b ↔ Edge (dependenciesOf nodes) a b := by
  unfold Edge dependenciesOf
  constructor
  · rintro ⟨node, member, rfl, inside⟩
    obtain ⟨found, here⟩ := Option.isSome_iff_exists.mp (KeyedLog.lastOf_isSome SizingNode.id member)
    have same : found = node :=
      List.inj_on_of_nodup_map distinct (KeyedLog.mem_of_lastOf here) member (KeyedLog.key_of_lastOf here)
    rw [here, same]
    exact inside
  · intro inside
    cases here : KeyedLog.lastOf SizingNode.id nodes a with
    | none =>
      rw [here] at inside
      cases inside
    | some node =>
      rw [here] at inside
      exact ⟨node, KeyedLog.mem_of_lastOf here, KeyedLog.key_of_lastOf here, inside⟩

private theorem dependenciesOf_leaves {nodes : List SizingNode} (id : String) (outside : id ∉ nodes.map SizingNode.id) :
    dependenciesOf nodes id = [] := by
  unfold dependenciesOf
  cases here : KeyedLog.lastOf SizingNode.id nodes id with
  | none => rfl
  | some node =>
    have member := List.mem_map_of_mem (f := SizingNode.id) (KeyedLog.mem_of_lastOf here)
    rw [KeyedLog.key_of_lastOf here] at member
    exact absurd member outside

/-- A search that finds no cycle from any node shows there is none. -/
theorem acyclic_of_search {nodes : List SizingNode} (distinct : (nodes.map SizingNode.id).Nodup)
    (clean : ∀ id ∈ nodes.map SizingNode.id, findCycle (dependenciesOf nodes) ((nodes.map SizingNode.id).length + 1) [] id = none) :
    Acyclic (Depends nodes) :=
  ((findCycle_eq_none_iff dependenciesOf_leaves).mp clean).mono fun a b here => (depends_iff_edge distinct a b).mp here

/-- The depth of an acyclic graph is computed. -/
theorem longestChainDepth_ok {nodes : List SizingNode} (distinct : (nodes.map SizingNode.id).Nodup)
    (acyclic : Acyclic (Depends nodes)) : ∃ depth, longestChainDepth nodes = .ok depth := by
  have edges : Acyclic (Edge (dependenciesOf nodes)) :=
    acyclic.mono fun a b here => (depends_iff_edge distinct a b).mpr here
  have clean := (findCycle_eq_none_iff dependenciesOf_leaves).mpr edges
  rw [List.length_map] at clean
  unfold longestChainDepth
  generalize 0 = depth
  have own (node : SizingNode) (member : node ∈ nodes) :
      ∃ depth, depthOf (dependenciesOf nodes) (nodes.length + 1) [] node.id = .ok depth :=
    depthOf_ok (clean node.id (List.mem_map_of_mem member))
  generalize depthOf (dependenciesOf nodes) (nodes.length + 1) [] = measure at own
  clear clean edges acyclic distinct
  induction nodes generalizing depth with
  | nil => exact ⟨depth, rfl⟩
  | cons node rest ih =>
    obtain ⟨first, here⟩ := own node List.mem_cons_self
    obtain ⟨whole, later⟩ := ih (max depth first) fun other member => own other (List.mem_cons_of_mem _ member)
    refine ⟨whole, ?_⟩
    rw [List.foldlM_cons, here]
    exact later

/-! ## The whole run -/

section Run

variable {nodes : List SizingNode} {justification : Option String} {options : Options}

/-- What a sizing run returns, when it returns. -/
theorem applySizingRules_ok {result : SizingResult} (success : applySizingRules nodes justification options = .ok result) :
    result.nodes = (reshape options (mergeAll options nodes).current).1 ∧
      result.transformations = (mergeAll options nodes).folds.map Fold.transformation ++
        (reshape options (mergeAll options nodes).current).2 := by
  simp only [applySizingRules, bind, Except.bind] at success
  split at success
  · cases success
  · split at success
    · cases success
    · split at success
      · cases success
      · split at success
        · cases success
        · obtain rfl := Except.ok.inj success
          exact ⟨rfl, rfl⟩

private theorem refuseRead_ne {facts : Facts} {id : String} :
    refuseReadSelectionOutsideFactSet nodes facts ≠ .error (.dependencyCycle id) := by
  unfold refuseReadSelectionOutsideFactSet
  split
  · exact nofun
  · split <;> exact nofun

private theorem refuseSingle_ne {targetedFix : Bool} {id : String} :
    refuseSingleNode nodes targetedFix ≠ .error (.dependencyCycle id) := by
  unfold refuseSingleNode
  split
  · split <;> exact nofun
  · exact nofun

private theorem refuseDepth_ne {depth : Nat} {id : String} : refuseDepth depth justification ≠ .error (.dependencyCycle id) := by
  unfold refuseDepth
  split <;> exact nofun

/-- Only the depth check reports a cycle. -/
theorem longestChainDepth_of_cycle {id : String}
    (failure : applySizingRules nodes justification options = .error (.dependencyCycle id)) :
    ∀ depth, longestChainDepth (reshape options (mergeAll options nodes).current).1 ≠ .ok depth := by
  intro depth measured
  simp only [applySizingRules, bind, Except.bind, measured] at failure
  split at failure
  · rename_i refusal reads
    exact refuseRead_ne (reads.trans (congrArg _ (Except.error.inj failure)))
  · split at failure
    · rename_i refusal single
      exact refuseSingle_ne (single.trans (congrArg _ (Except.error.inj failure)))
    · split at failure
      · rename_i refusal deep
        exact refuseDepth_ne (deep.trans (congrArg _ (Except.error.inj failure)))
      · cases failure

end Run

/-! ## The order is kept -/

/-- The folds of a sizing run. -/
def foldsOf (nodes : List SizingNode) (options : Options) : List Fold := (mergeAll options nodes).folds

/-- Sizing reports no cycle, and what it returns is an acyclic graph that keeps every path between different nodes. -/
structure KeepsOrder (nodes : List SizingNode) (justification : Option String) (options : Options) : Prop where
  passes : ∀ id, applySizingRules nodes justification options ≠ .error (.dependencyCycle id)
  acyclic : ∀ result, applySizingRules nodes justification options = .ok result → Acyclic (Depends result.nodes)
  known : ∀ result, applySizingRules nodes justification options = .ok result → Known result.nodes
  paths : ∀ result, applySizingRules nodes justification options = .ok result → ∀ a b, TransGen (Depends nodes) a b →
    endsIn result.transformations a ≠ endsIn result.transformations b →
      TransGen (Depends result.nodes) (endsIn result.transformations a) (endsIn result.transformations b)

section Order

variable {nodes : List SizingNode} {justification : Option String} {options : Options}

private theorem keepsOrder_of_ordered (ordered : Ordered nodes (foldsOf nodes options) (mergeAll options nodes).current) :
    KeepsOrder nodes justification options := by
  have shaped : Acyclic (Depends (reshape options (mergeAll options nodes).current).1) :=
    ordered.acyclic.mono fun a b here => (depends_reshape options _ a b).mp here
  constructor
  · intro id failure
    have distinct := ordered.distinct
    rw [← reshape_ids options] at distinct
    obtain ⟨depth, measured⟩ := longestChainDepth_ok distinct shaped
    exact longestChainDepth_of_cycle failure depth measured
  · intro result success
    rw [(applySizingRules_ok success).1]
    exact shaped
  · intro result success node member id depends
    rw [(applySizingRules_ok success).1] at member ⊢
    rw [reshape_ids]
    obtain ⟨old, oldMember, -, inside⟩ := (depends_reshape options _ node.id id).mp ⟨node, member, rfl, depends⟩
    exact ordered.known old oldMember id inside
  · intro result success a b path apart
    obtain ⟨sameNodes, sameSteps⟩ := applySizingRules_ok success
    have single (transformation : Transformation) (member : transformation ∈ (reshape options (mergeAll options nodes).current).2) :
        ∃ id, transformation.nodes = [id] := reshape_single options _ member
    rw [sameSteps, endsIn_append_single _ _ single, endsIn_append_single _ _ single] at apart ⊢
    rw [sameNodes]
    refine TransGen.mono (fun x y here => ?_) _ _ (image_path path apart)
    exact (depends_reshape options _ x y).mpr ((ordered.depends x y).mpr here)

/-- A fold leaves an acyclic graph exactly when it crosses nothing; then the whole run keeps the order. -/
theorem applySizingRules_keepsOrder (distinct : (nodes.map SizingNode.id).Nodup) (known : Known nodes)
    (acyclic : Acyclic (Depends nodes)) :
    ((∀ fold ∈ foldsOf nodes options, ¬ fold.Crosses) → KeepsOrder nodes justification options) ∧
      ((∀ fold ∈ foldsOf nodes options, ¬ fold.Crosses) ↔
        ∀ fold ∈ foldsOf nodes options, Acyclic (Depends fold.after)) := by
  have folded := mergeAll_folded options nodes
  constructor
  · intro straight
    exact keepsOrder_of_ordered (Ordered.of_folded folded distinct known acyclic straight)
  · exact straight_iff folded distinct known acyclic

end Order

/-! ## A fold across a path -/

/-- The options of the pipeline for facts that know one file. -/
def pipelineOptions : Options where
  nodeBudgetMs := 600000
  targetedFix := false
  facts := ⟨some ["README.md"], []⟩
  minWriteFiles := some 4
  maxMergedWriteFiles := 6
  turnCeiling := some 150
  exploratory := false
  readVolume := none

/-- A node that writes one file; without commands its done item is for the judge. -/
def plainNode (id file : String) (dependsOn : List String) (proved : Bool) : PlanNode where
  id := id
  objective := s!"Write {file}"
  taskKind := "implement"
  riskTier := .standard
  dependsOn := dependsOn
  readFiles := ["README.md"]
  writeFiles := [file]
  scopeAcknowledged := []
  definitionOfDone := [⟨id, "It works", if proved then some (.verification 0) else none, !proved, none⟩]
  verification := if proved then [⟨["npm", "run", id], 120, 1, [], none, none, none⟩] else []
  expectedTurns := none

/-- The node without a proof depends on the first node directly, and on the third, which depends on the first too. -/
def crossingPlan : PlanOutput where
  nodes := [plainNode "api" "api/server.mjs" [] true, plainNode "client" "client/call.mjs" ["api"] true,
    plainNode "guide" "docs/guide.md" ["api", "client"] false]
  phases := none
  sharedVerification := none
  finalVerification := none
  justification := none

/-- The same plan without the third node's dependency on the first. -/
def straightPlan : PlanOutput :=
  { crossingPlan with nodes := [plainNode "api" "api/server.mjs" [] true, plainNode "client" "client/call.mjs" [] true,
      plainNode "guide" "docs/guide.md" ["api", "client"] false] }

/-- The nodes sizing gets of a plan. -/
def sizingNodes (plan : PlanOutput) : List SizingNode := plan.nodes.map toSizingNode

/-- An accepted acyclic plan whose sizing reports a cycle. -/
theorem applySizingRules_makes_cycle : ∃ plan options, validatePlanOutput plan = .ok () ∧
    ((sizingNodes plan).map SizingNode.id).Nodup ∧ Known (sizingNodes plan) ∧ Acyclic (Depends (sizingNodes plan)) ∧
      ∃ id, sizePlan plan options = .error (.dependencyCycle id) :=
  ⟨crossingPlan, pipelineOptions, by decide, by decide, by decide, acyclic_of_search (by decide) (by decide),
    "api", rfl⟩

/-- A plan whose fold crosses nothing keeps its order. -/
theorem applySizingRules_keepsOrder_straight : foldsOf (sizingNodes straightPlan) pipelineOptions ≠ [] ∧
    KeepsOrder (sizingNodes straightPlan) none pipelineOptions := by
  have acyclic : Acyclic (Depends (sizingNodes straightPlan)) := acyclic_of_search (by decide) (by decide)
  have both := @applySizingRules_keepsOrder (sizingNodes straightPlan) none pipelineOptions (by decide) (by decide) acyclic
  refine ⟨by decide, both.1 (both.2.mpr fun fold member => ?_)⟩
  have searched : ∀ fold ∈ foldsOf (sizingNodes straightPlan) pipelineOptions, (fold.after.map SizingNode.id).Nodup ∧
      ∀ id ∈ fold.after.map SizingNode.id, findCycle (dependenciesOf fold.after) ((fold.after.map SizingNode.id).length + 1) [] id = none := by
    decide
  exact acyclic_of_search (searched fold member).1 (searched fold member).2

end Faberun.Sizing
