import Faberun.Model.Plan.Sizing

/-! # What the merge rules do

The folds of a sizing run form a chain: each was made among the nodes the one before it left, of two of them. Every
loop ends because its rule no longer applies. What follows the merges keeps ids and dependencies, and says nothing
about two nodes at once.
-/

namespace Faberun.Sizing

/-- The nodes some folds make of others, one after the other. -/
inductive Folded (start : List SizingNode) : List Fold → List SizingNode → Prop
  | none : Folded start [] start
  | next {folds : List Fold} {fold : Fold} : Folded start folds fold.before → fold.child ∈ fold.before →
      fold.parent ∈ fold.before → (fold.parent.id ∈ fold.child.dependsOn ∨ fold.parent.id ≠ fold.child.id) →
      Folded start (folds ++ [fold]) fold.after

/-- The loop of a rule has folded so far. -/
private def Traced (start : List SizingNode) (merging : Merging) : Prop := Folded start merging.folds merging.current

private theorem Traced.fold {start : List SizingNode} {merging : Merging} {child parent : SizingNode}
    {rule detail : String} (traced : Traced start merging) (childMember : child ∈ merging.current)
    (parentMember : parent ∈ merging.current) (apart : parent.id ∈ child.dependsOn ∨ parent.id ≠ child.id) :
    Traced start (merging.fold child parent rule detail) :=
  @Folded.next start merging.folds ⟨merging.current, child, parent, rule, detail⟩ traced childMember parentMember apart

private theorem firstDependency_spec {child parent : SizingNode} {nodes : List SizingNode}
    (found : firstDependency child nodes = some parent) : parent ∈ nodes ∧ parent.id ∈ child.dependsOn := by
  obtain ⟨id, member, here⟩ := List.exists_of_findSome?_eq_some found
  refine ⟨KeyedLog.mem_of_lastOf here, ?_⟩
  rw [KeyedLog.key_of_lastOf here]
  exact member

private theorem findContainingNode_spec {node parent : SizingNode} {nodes : List SizingNode}
    (found : findContainingNode node nodes = some parent) : parent ∈ nodes ∧ parent.id ≠ node.id := by
  have holds := List.find?_some found
  simp only [Bool.and_eq_true, bne_iff_ne] at holds
  exact ⟨List.mem_of_find?_eq_some found, holds.1⟩

private theorem reaches_self (nodes : List SizingNode) (id : String) : reaches nodes id id = true := by
  simp [reaches, searchFuel, reachesFrom]

private theorem siblings_apart {minWriteFiles ceiling : Nat} {nodes : List SizingNode} {child candidate : SizingNode}
    (holds : siblings minWriteFiles ceiling nodes child candidate = true) : candidate.id ≠ child.id := by
  intro same
  simp only [siblings, Bool.and_eq_true, Bool.not_eq_true', dependencyRelated, same, reaches_self, Bool.true_or,
    Bool.true_eq_false, and_false] at holds

private theorem siblingPair_spec {minWriteFiles ceiling : Nat} {nodes earlier rest : List SizingNode}
    {child parent : SizingNode} (found : siblingPair minWriteFiles ceiling nodes earlier rest = some (child, parent)) :
    child ∈ rest ∧ parent ∈ earlier ++ rest ∧ siblings minWriteFiles ceiling nodes child parent = true := by
  induction rest generalizing earlier with
  | nil => cases found
  | cons node rest ih =>
    unfold siblingPair at found
    split at found
    · rename_i pair here
      obtain ⟨rfl, rfl⟩ := Prod.mk.inj (Option.some.inj found)
      obtain ⟨first, -⟩ := Option.filter_eq_some_iff.mp here
      exact ⟨List.mem_cons_self, List.mem_append_left _ (List.mem_of_find?_eq_some first), List.find?_some first⟩
    · obtain ⟨childMember, parentMember, holds⟩ := ih found
      refine ⟨List.mem_cons_of_mem _ childMember, ?_, holds⟩
      simpa using parentMember

private theorem noMechanicalProofStep_traced {start : List SizingNode} (before after : Merging)
    (traced : Traced start before) (taken : noMechanicalProofStep before = some after) : Traced start after := by
  obtain ⟨child, found, rfl⟩ := Option.map_eq_some_iff.mp taken
  have childMember := List.mem_of_find?_eq_some found
  split
  · exact traced
  · rename_i parent here
    rcases Option.or_eq_some_iff.mp here with first | ⟨-, containing⟩
    · obtain ⟨parentMember, depends⟩ := firstDependency_spec first
      exact traced.fold childMember parentMember (.inl depends)
    · obtain ⟨parentMember, apart⟩ := findContainingNode_spec containing
      exact traced.fold childMember parentMember (.inr apart)

private theorem containedWriteSetStep_traced {start : List SizingNode} (before after : Merging)
    (traced : Traced start before) (taken : containedWriteSetStep before = some after) : Traced start after := by
  obtain ⟨child, found, rest⟩ := Option.bind_eq_some_iff.mp taken
  obtain ⟨parent, containing, same⟩ := Option.bind_eq_some_iff.mp rest
  obtain rfl := Option.some.inj same
  obtain ⟨parentMember, apart⟩ := findContainingNode_spec containing
  exact traced.fold (List.mem_of_find?_eq_some found) parentMember (.inr apart)

private theorem underfilledSiblingsStep_traced {start : List SizingNode} {minWriteFiles ceiling : Nat}
    (before after : Merging) (traced : Traced start before)
    (taken : underfilledSiblingsStep minWriteFiles ceiling before = some after) : Traced start after := by
  obtain ⟨⟨child, parent⟩, found, rfl⟩ := Option.map_eq_some_iff.mp taken
  obtain ⟨childMember, parentMember, holds⟩ := siblingPair_spec found
  exact traced.fold childMember parentMember (.inr (siblings_apart holds))

private theorem runRule_traced {start nodes : List SizingNode} {folds : List Fold} {step : Merging → Option Merging}
    (preserved : ∀ before after, Traced start before → step before = some after → Traced start after)
    (so : Folded start folds nodes) : Folded start (runRule step nodes folds).folds (runRule step nodes folds).current :=
  drain_invariant (Traced start) preserved so

/-- The merges of a sizing run are a chain of folds. -/
theorem mergeAll_folded (options : Options) (nodes : List SizingNode) :
    Folded nodes (mergeAll options nodes).folds (mergeAll options nodes).current := by
  unfold mergeAll
  split
  · exact .none
  · have unproved : Folded nodes (mergeNoMechanicalProof nodes []).folds (mergeNoMechanicalProof nodes []).current :=
      runRule_traced noMechanicalProofStep_traced .none
    have contained := runRule_traced containedWriteSetStep_traced unproved
    unfold mergeUnderfilledSiblings
    dsimp only
    split
    · exact contained
    · exact runRule_traced underfilledSiblingsStep_traced contained

/-! ## The loops end -/

@[simp] theorem absorb_id (child parent : SizingNode) : (absorb child parent).id = parent.id := rfl

@[simp] theorem redirect_id (child parent : String) (node : SizingNode) : (redirect child parent node).id = node.id := rfl

/-- A fold takes the child's id away and leaves the others. -/
theorem foldNodeInto_ids (nodes : List SizingNode) (child parent : SizingNode) :
    (foldNodeInto nodes child parent).map SizingNode.id = (nodes.map SizingNode.id).filter fun id => id != child.id := by
  rw [foldNodeInto, List.map_map, List.filter_map]
  refine List.map_congr_left fun node _ => ?_
  rw [Function.comp_apply]
  split
  · rename_i same
    rw [absorb_id, same]
  · rfl

/-- The nodes a loop may still turn to. -/
private def openIds (merging : Merging) : List String :=
  (merging.current.map SizingNode.id).filter fun id => !merging.skip.contains id

private theorem length_foldNodeInto {nodes : List SizingNode} {child : SizingNode} (parent : SizingNode)
    (member : child ∈ nodes) : (foldNodeInto nodes child parent).length < nodes.length := by
  have fewer : ((nodes.map SizingNode.id).filter fun id => id != child.id).length < (nodes.map SizingNode.id).length := by
    refine List.length_filter_lt_length_iff_exists.mpr ⟨child.id, List.mem_map_of_mem member, ?_⟩
    simp
  rw [← foldNodeInto_ids nodes child parent] at fewer
  simpa using fewer

private theorem open_fold (merging : Merging) (child parent : SizingNode) (rule detail : String) :
    (openIds (merging.fold child parent rule detail)).length ≤ (openIds merging).length := by
  have same : openIds (merging.fold child parent rule detail) = (openIds merging).filter fun id => id != child.id := by
    change ((foldNodeInto merging.current child parent).map SizingNode.id).filter _ = _
    rw [foldNodeInto_ids, openIds, List.filter_filter, List.filter_filter]
    exact List.filter_congr fun id _ => Bool.and_comm _ _
  rw [same]
  exact List.length_filter_le _ _

private theorem open_skip (merging : Merging) {child : SizingNode} (member : child ∈ merging.current)
    (fresh : merging.skip.contains child.id = false) :
    (openIds { merging with skip := child.id :: merging.skip }).length < (openIds merging).length := by
  have same : openIds { merging with skip := child.id :: merging.skip } = (openIds merging).filter fun id => id != child.id := by
    rw [openIds, openIds, List.filter_filter]
    refine List.filter_congr fun id _ => ?_
    simp only [List.contains_cons, Bool.not_or, bne]
  rw [same]
  refine List.length_filter_lt_length_iff_exists.mpr ⟨child.id, ?_, by simp⟩
  exact List.mem_filter.mpr ⟨List.mem_map_of_mem member, by simp only [fresh, Bool.not_false]⟩

/-- The first rule's loop ends because no node is left to turn to. -/
theorem mergeNoMechanicalProof_done (nodes : List SizingNode) (folds : List Fold) :
    noMechanicalProofStep (mergeNoMechanicalProof nodes folds) = none := by
  refine drain_done (fun merging => merging.current.length + (openIds merging).length) ?_ ?_
  · intro before after taken
    obtain ⟨child, found, rfl⟩ := Option.map_eq_some_iff.mp taken
    have member := List.mem_of_find?_eq_some found
    have holds := List.find?_some found
    simp only [Bool.and_eq_true, Bool.not_eq_true'] at holds
    split
    · have fewer := open_skip before member holds.1
      dsimp only
      omega
    · rename_i parent _
      have fewer := length_foldNodeInto parent member
      have atMost := open_fold before child parent "no-mechanical-proof-merge"
        s!"{child.id} has no mechanical Definition of Done proof; merged into {parent.id}"
      change (foldNodeInto before.current child parent).length + _ < _
      omega
  · have few : (openIds ⟨nodes, [], folds⟩).length ≤ nodes.length := by
      refine le_trans (List.length_filter_le _ _) ?_
      rw [List.length_map]
    dsimp only
    omega

private theorem runRule_done {step : Merging → Option Merging} (nodes : List SizingNode) (folds : List Fold)
    (folds? : ∀ before after, step before = some after → ∃ child parent rule detail, child ∈ before.current ∧
      after = before.fold child parent rule detail) : step (runRule step nodes folds) = none := by
  refine drain_done (fun merging => merging.current.length) ?_ (by dsimp only; omega)
  intro before after taken
  obtain ⟨child, parent, rule, detail, member, rfl⟩ := folds? before after taken
  exact length_foldNodeInto parent member

/-- The second rule's loop ends because no write set is contained in another. -/
theorem mergeContainedWriteSet_done (nodes : List SizingNode) (folds : List Fold) :
    containedWriteSetStep (mergeContainedWriteSet nodes folds) = none := by
  refine runRule_done nodes folds fun before after taken => ?_
  obtain ⟨child, found, rest⟩ := Option.bind_eq_some_iff.mp taken
  obtain ⟨parent, -, same⟩ := Option.bind_eq_some_iff.mp rest
  obtain rfl := Option.some.inj same
  exact ⟨child, parent, _, _, List.mem_of_find?_eq_some found, rfl⟩

/-- The third rule's loop ends because no small siblings are left. -/
theorem mergeUnderfilledSiblings_done (minWriteFiles ceiling : Nat) (nodes : List SizingNode) (folds : List Fold) :
    underfilledSiblingsStep minWriteFiles ceiling (mergeUnderfilledSiblings (some minWriteFiles) ceiling nodes folds) =
      none := by
  refine runRule_done nodes folds fun before after taken => ?_
  obtain ⟨⟨child, parent⟩, found, rfl⟩ := Option.map_eq_some_iff.mp taken
  exact ⟨child, parent, _, _, (siblingPair_spec found).1, rfl⟩

end Faberun.Sizing
