import Faberun.Model.Plan.Declarations
import Faberun.Soundness.SizingOrder

/-! # Phase declarations survive sizing

Sizing picks its folds by proofs, write sets and dependencies, and does not look at the phases. The declarations carried
over cover the sized nodes exactly once as long as every fold joins two nodes of one declaration; a fold across two of
them names the absorbing node in both, which the freeze then refuses.
-/

namespace Faberun.Plan

open Sizing Absorption

/-- Every planned node is named exactly once, and nothing else is. -/
structure Covered (assignments : List (String × String)) (planned : List String) : Prop where
  known : ∀ assignment ∈ assignments, assignment.2 ∈ planned
  once : (assignments.map (·.2)).Nodup
  whole : ∀ nodeId ∈ planned, nodeId ∈ assignments.map (·.2)

/-- The declaration that names a node. -/
def declarationOf (declarations : List PlanPhase) (nodeId : String) : Option String :=
  ((assignmentsOf declarations).find? fun assignment => assignment.2 = nodeId).map (·.1)

/-! ## What is accepted -/

section Accepted

variable {declarations : List PlanPhase} {planned : List String}

private theorem checkAssignments_ok_iff {owner assignments : List (String × String)} :
    checkAssignments planned owner assignments = .ok () ↔
      (∀ assignment ∈ assignments, assignment.2 ∈ planned) ∧ (∀ assignment ∈ assignments, assignment.2 ∉ owner.map (·.2)) ∧
        (assignments.map (·.2)).Nodup := by
  induction assignments generalizing owner with
  | nil => simp [checkAssignments]
  | cons assignment rest ih =>
    obtain ⟨phase, nodeId⟩ := assignment
    have free : ((owner.find? fun assignment => assignment.2 = nodeId).map (·.1)).isNone = true ↔ nodeId ∉ owner.map (·.2) := by
      simp only [Option.isNone_map, Option.isNone_iff_eq_none, List.find?_eq_none, decide_eq_true_eq, List.mem_map,
        not_exists, not_and]
    rw [List.forall_mem_cons, List.forall_mem_cons]
    simp only [checkAssignments, andThen_ok_iff, check_ok_iff, ih, free, List.contains_iff_mem, List.map_cons,
      List.nodup_cons, List.mem_cons, not_or]
    constructor
    · rintro ⟨known, fresh, others, apart, once⟩
      refine ⟨⟨known, others⟩, ⟨fresh, fun other member => (apart other member).2⟩, ?_, once⟩
      intro inside
      obtain ⟨other, member, same⟩ := List.mem_map.mp inside
      exact (apart other member).1 same
    · rintro ⟨⟨known, others⟩, ⟨fresh, apart⟩, alone, once⟩
      refine ⟨known, fresh, others, fun other member => ⟨fun same => ?_, apart other member⟩, once⟩
      exact alone (List.mem_map.mpr ⟨other, member, same⟩)

theorem validateNodeAssignments_ok_iff :
    validateNodeAssignments declarations planned = .ok () ↔ Covered (assignmentsOf declarations) planned := by
  have named : (planned.eraseDups.filter fun nodeId => !((assignmentsOf declarations).map (·.2)).contains nodeId).isEmpty = true ↔
      ∀ nodeId ∈ planned, nodeId ∈ (assignmentsOf declarations).map (·.2) := by
    simp only [List.isEmpty_iff, List.filter_eq_nil_iff, List.mem_eraseDups, Bool.not_eq_true', Bool.not_eq_false,
      List.contains_iff_mem]
  simp only [validateNodeAssignments, andThen_ok_iff, check_ok_iff, checkAssignments_ok_iff, named]
  constructor
  · rintro ⟨⟨known, -, once⟩, whole⟩
    exact ⟨known, once, whole⟩
  · rintro ⟨known, once, whole⟩
    exact ⟨⟨known, by simp, once⟩, whole⟩

private theorem checkDeclarations_fresh {index : Nat} {seen : List String}
    (accepted : checkDeclarations index seen declarations = .ok ()) :
    (declarations.map PlanPhase.id).Nodup ∧ ∀ phase ∈ declarations, phase.id ∉ seen := by
  induction declarations generalizing index seen with
  | nil => simp
  | cons phase rest ih =>
    simp only [checkDeclarations, andThen_ok_iff, check_ok_iff, Bool.not_eq_true', ← Bool.not_eq_true,
      List.contains_iff_mem] at accepted
    obtain ⟨-, fresh, -, later⟩ := accepted
    obtain ⟨distinct, apart⟩ := ih later
    rw [List.map_cons, List.nodup_cons, List.forall_mem_cons]
    refine ⟨⟨fun inside => ?_, distinct⟩, fresh, fun other member inside => ?_⟩
    · obtain ⟨other, member, same⟩ := List.mem_map.mp inside
      exact apart other member (same ▸ List.mem_cons_self)
    · exact apart other member (List.mem_cons_of_mem _ inside)

private theorem checkDeclarations_each {index : Nat} {seen : List String}
    (accepted : checkDeclarations index seen declarations = .ok ()) {phase : PlanPhase} (member : phase ∈ declarations) :
    ∃ label, checkDeclaration phase label = .ok () := by
  induction declarations generalizing index seen with
  | nil => cases member
  | cons first rest ih =>
    simp only [checkDeclarations, andThen_ok_iff] at accepted
    rcases List.mem_cons.mp member with rfl | member
    · exact ⟨_, accepted.2.2.1⟩
    · exact ih accepted.2.2.2 member

private theorem checkDeclarations_map {index : Nat} {seen : List String} {change : PlanPhase → PlanPhase}
    (sameId : ∀ phase, (change phase).id = phase.id)
    (kept : ∀ phase ∈ declarations, ∀ label, checkDeclaration phase label = .ok () → checkDeclaration (change phase) label = .ok ())
    (accepted : checkDeclarations index seen declarations = .ok ()) :
    checkDeclarations index seen (declarations.map change) = .ok () := by
  induction declarations generalizing index seen with
  | nil => rfl
  | cons first rest ih =>
    simp only [checkDeclarations, andThen_ok_iff, List.map_cons, sameId] at accepted ⊢
    obtain ⟨named, fresh, checked, later⟩ := accepted
    exact ⟨named, fresh, kept first List.mem_cons_self _ checked, ih (fun phase member => kept phase (List.mem_cons_of_mem _ member)) later⟩

/-- The checks on one declaration that assigns nodes, apart from the names of the nodes. -/
private theorem checkDeclaration_some_iff {phase : PlanPhase} {nodeIds : List String} {label : String}
    (assigns : phase.nodeIds = some nodeIds) :
    checkDeclaration phase label = .ok () ↔
      (isBlank phase.deliverable = false ∧ ∀ requirement ∈ phase.requirementIds, isBlank requirement = false) ∧
      (∀ nodeId ∈ nodeIds, isBlank nodeId = false) ∧ nodeIds ≠ [] ∧ phase.requirementIds ≠ [] := by
  simp only [checkDeclaration, assigns, requireStringArray_ok_iff, andThen_ok_iff, check_ok_iff, Bool.not_eq_true',
    List.isEmpty_eq_false_iff, and_assoc, ne_eq]

theorem validatePlanPhases_ok_iff {given : Option (List PlanPhase)} (some : declarations ≠ []) :
    validatePlanPhases (.some declarations) planned = .ok given ↔
      (checkDeclarations 0 [] declarations = .ok () ∧ checkShape declarations planned = .ok ()) ∧ given = .some declarations := by
  cases declarations with
  | nil => exact absurd rfl some
  | cons first rest =>
    simp only [validatePlanPhases, bind, Except.bind]
    cases checkDeclarations 0 [] (first :: rest) with
    | error refusal => simp
    | ok done =>
      cases checkShape (first :: rest) planned with
      | error refusal => simp
      | ok done => simp [pure, Except.pure, eq_comm]

end Accepted

/-! ## Carrying declarations over merges -/

section Carried

variable {declarations : List PlanPhase} {planned : List String} {merges : List (String × String)}

private theorem mem_assignmentsOf {phase nodeId : String} :
    (phase, nodeId) ∈ assignmentsOf declarations ↔
      ∃ declaration ∈ declarations, declaration.id = phase ∧ nodeId ∈ declaration.nodeIds.getD [] := by
  simp only [assignmentsOf, List.mem_flatMap, List.mem_map, Prod.mk.injEq]
  constructor
  · rintro ⟨declaration, member, named, inside, same, rfl⟩
    exact ⟨declaration, member, same, inside⟩
  · rintro ⟨declaration, member, same, inside⟩
    exact ⟨declaration, member, nodeId, inside, same, rfl⟩

private theorem carryPhase_nodeIds (phase : PlanPhase) :
    (carryPhase merges phase).nodeIds.getD [] = ((phase.nodeIds.getD []).map (resolveMerged merges)).eraseDups := by
  cases assigns : phase.nodeIds <;> simp [carryPhase, assigns]

private theorem mem_carried {phase nodeId : String} :
    (phase, nodeId) ∈ assignmentsOf (declarations.map (carryPhase merges)) ↔
      ∃ old, (phase, old) ∈ assignmentsOf declarations ∧ resolveMerged merges old = nodeId := by
  simp only [mem_assignmentsOf, List.mem_map]
  constructor
  · rintro ⟨-, ⟨declaration, member, rfl⟩, same, inside⟩
    rw [carryPhase_nodeIds, List.mem_eraseDups, List.mem_map] at inside
    obtain ⟨old, named, resolved⟩ := inside
    exact ⟨old, ⟨declaration, member, same, named⟩, resolved⟩
  · rintro ⟨old, ⟨declaration, member, same, named⟩, resolved⟩
    refine ⟨_, ⟨declaration, member, rfl⟩, same, ?_⟩
    rw [carryPhase_nodeIds, List.mem_eraseDups]
    exact List.mem_map.mpr ⟨old, named, resolved⟩

private theorem Covered.assignment {assignments : List (String × String)} (covered : Covered assignments planned)
    {nodeId : String} (member : nodeId ∈ planned) : ∃ phase, (phase, nodeId) ∈ assignments := by
  obtain ⟨⟨phase, other⟩, inside, rfl⟩ := List.mem_map.mp (covered.whole nodeId member)
  exact ⟨phase, inside⟩

private theorem same_phase {assignments : List (String × String)} (once : (assignments.map (·.2)).Nodup)
    {first second nodeId : String} (here : (first, nodeId) ∈ assignments) (there : (second, nodeId) ∈ assignments) :
    first = second :=
  (Prod.mk.inj (List.inj_on_of_nodup_map once here there rfl)).1

/-- In assignments that name a node once, the declaration that names it is the one it is assigned to. -/
private theorem declarationOf_eq (once : ((assignmentsOf declarations).map (·.2)).Nodup) {phase nodeId : String}
    (assigns : (phase, nodeId) ∈ assignmentsOf declarations) : declarationOf declarations nodeId = some phase := by
  unfold declarationOf
  cases found : (assignmentsOf declarations).find? fun assignment => assignment.2 = nodeId with
  | none =>
    have missed := List.find?_eq_none.mp found _ assigns
    simp at missed
  | some assignment =>
    obtain ⟨first, other⟩ := assignment
    have named := List.find?_some found
    obtain rfl : other = nodeId := of_decide_eq_true named
    exact congrArg some (same_phase once (List.mem_of_find?_eq_some found) assigns)

/-- Every merge joins two nodes of one declaration. -/
def Within (declarations : List PlanPhase) (merges : List (String × String)) : Prop :=
  ∀ merge ∈ merges, merge.1 ≠ merge.2 ∧ declarationOf declarations merge.1 = declarationOf declarations merge.2

variable (covered : Covered (assignmentsOf declarations) planned) (absorbs : Absorbs planned merges)

include covered absorbs

private theorem apart_of_covered
    (carried : Covered (assignmentsOf (declarations.map (carryPhase merges))) (remaining planned merges)) :
    Proper merges := by
  rintro ⟨child, parent⟩ member same
  obtain rfl : child = parent := same
  have loop : resolveMerged merges child = child := follow_self (absorber_of_mem absorbs member)
  obtain ⟨phase, assigns⟩ := covered.assignment (absorbs.mem member).1
  have left := carried.known _ (mem_carried.mpr ⟨child, assigns, loop⟩)
  exact (mem_remaining.mp left).2 _ member rfl

private theorem within_of_covered
    (carried : Covered (assignmentsOf (declarations.map (carryPhase merges))) (remaining planned merges)) :
    Within declarations merges := by
  have proper := apart_of_covered covered absorbs carried
  rintro ⟨child, parent⟩ member
  refine ⟨proper _ member, ?_⟩
  obtain ⟨childMember, parentMember⟩ := absorbs.mem member
  obtain ⟨first, here⟩ := covered.assignment childMember
  obtain ⟨second, there⟩ := covered.assignment parentMember
  -- both names end in the same node, which is assigned once
  have together : resolveMerged merges child = resolveMerged merges parent := by
    rw [resolveMerged, resolveMerged, follow_eq_owner absorbs proper, follow_eq_owner absorbs proper]
    exact owner_absorber absorbs (absorber_of_mem absorbs member)
  have same := same_phase carried.once (mem_carried.mpr ⟨child, here, together⟩) (mem_carried.mpr ⟨parent, there, rfl⟩)
  rw [declarationOf_eq covered.once here, declarationOf_eq covered.once there, same]

private theorem covered_of_within (distinct : (declarations.map PlanPhase.id).Nodup) (within : Within declarations merges) :
    Covered (assignmentsOf (declarations.map (carryPhase merges))) (remaining planned merges) := by
  have proper : Proper merges := fun merge member => (within merge member).1
  have resolves (nodeId : String) : resolveMerged merges nodeId = owner merges nodeId := follow_eq_owner absorbs proper
  constructor
  · rintro ⟨phase, nodeId⟩ member
    obtain ⟨old, assigns, rfl⟩ := mem_carried.mp member
    rw [resolves]
    exact owner_mem absorbs proper (covered.known _ assigns)
  · have names : (assignmentsOf (declarations.map (carryPhase merges))).map (·.2) =
        declarations.flatMap fun phase => ((phase.nodeIds.getD []).map (resolveMerged merges)).eraseDups := by
      simp only [assignmentsOf, List.map_flatMap, List.flatMap_map, carryPhase_nodeIds, List.map_map]
      simp [Function.comp_def]
    rw [names, List.nodup_flatMap]
    refine ⟨fun phase _ => FirstByKey.nodup_eraseDups _, ?_⟩
    have ids : declarations.Pairwise fun first second => first.id ≠ second.id := List.pairwise_map.mp distinct
    refine ids.imp_of_mem fun {first second} firstMember secondMember apart => ?_
    refine List.disjoint_left.mpr ?_
    intro nodeId here there
    rw [List.mem_eraseDups, List.mem_map] at here there
    obtain ⟨old, named, rfl⟩ := here
    obtain ⟨other, otherNamed, same⟩ := there
    -- what a name ends in is still named by the declaration of the name
    have own := declarationOf_eq covered.once (mem_assignmentsOf.mpr ⟨first, firstMember, rfl, named⟩)
    have others := declarationOf_eq covered.once (mem_assignmentsOf.mpr ⟨second, secondMember, rfl, otherNamed⟩)
    have classes : ∀ merge ∈ merges, declarationOf declarations merge.1 = declarationOf declarations merge.2 :=
      fun merge member => (within merge member).2
    rw [← owner_class classes, ← resolves] at own others
    rw [same, own] at others
    exact apart (Option.some.inj others)
  · intro nodeId left
    obtain ⟨member, survives⟩ := mem_remaining.mp left
    obtain ⟨phase, assigns⟩ := covered.assignment member
    refine List.mem_map.mpr ⟨(phase, nodeId), mem_carried.mpr ⟨nodeId, assigns, ?_⟩, rfl⟩
    rw [resolves, owner_of_survivor survives]

end Carried

/-! ## Inherited requirements -/

section Inherited

variable {declarations : List PlanPhase} {merges : List (String × String)}

private theorem mem_requirementsByNode {entry : String × List String} :
    entry ∈ requirementsByNode declarations ↔
      ∃ phase ∈ declarations, phase.requirementIds ≠ [] ∧ entry.1 ∈ phase.nodeIds.getD [] ∧ entry.2 = phase.requirementIds := by
  simp only [requirementsByNode, List.mem_flatMap]
  refine exists_congr fun phase => and_congr_right fun _ => ?_
  cases requirements : phase.requirementIds with
  | nil => simp
  | cons first rest =>
    simp only [List.isEmpty_cons, Bool.false_eq_true, if_false, List.mem_map]
    constructor
    · rintro ⟨nodeId, named, rfl⟩
      exact ⟨nofun, named, rfl⟩
    · rintro ⟨-, named, same⟩
      exact ⟨entry.1, named, Prod.ext rfl same.symm⟩

/-- A node that one declaration names inherits the requirements of that declaration. -/
private theorem inheritedIds_of_named (distinct : (declarations.map PlanPhase.id).Nodup)
    (once : ((assignmentsOf declarations).map (·.2)).Nodup) {phase : PlanPhase} (member : phase ∈ declarations)
    {nodeId : String} (named : nodeId ∈ phase.nodeIds.getD []) (some : phase.requirementIds ≠ [])
    (executionPhase : Option String) :
    inheritedIds declarations nodeId executionPhase = .some phase.requirementIds := by
  have listed : (nodeId, phase.requirementIds) ∈ requirementsByNode declarations :=
    mem_requirementsByNode.mpr ⟨phase, member, some, named, rfl⟩
  obtain ⟨entry, found⟩ := Option.isSome_iff_exists.mp (KeyedLog.lastOf_isSome Prod.fst listed)
  obtain ⟨other, otherMember, -, otherNamed, same⟩ := mem_requirementsByNode.mp (KeyedLog.mem_of_lastOf found)
  rw [KeyedLog.key_of_lastOf found] at otherNamed
  have alike := same_phase once (mem_assignmentsOf.mpr ⟨phase, member, rfl, named⟩)
    (mem_assignmentsOf.mpr ⟨other, otherMember, rfl, otherNamed⟩)
  obtain rfl := List.inj_on_of_nodup_map distinct member otherMember alike
  simp only [inheritedIds, found, Option.map_some, same, Option.some_or]

private theorem carry_legacy (legacy : assigned declarations = []) : declarations.map (carryPhase merges) = declarations := by
  refine (List.map_congr_left fun phase member => ?_).trans (List.map_id _)
  have none := List.filter_eq_nil_iff.mp legacy phase member
  rw [Option.not_isSome_iff_eq_none] at none
  cases phase
  cases none
  rfl

end Inherited

/-! ## The merges of a sizing run -/

section Merges

/-- A fold as a merge of two names. -/
def mergeOf (fold : Fold) : String × String := (fold.child.id, fold.parent.id)

private theorem absorbs_of_folded {start current : List SizingNode} {folds : List Fold}
    (folded : Folded start folds current) :
    Absorbs (start.map SizingNode.id) (folds.map mergeOf) ∧
      remaining (start.map SizingNode.id) (folds.map mergeOf) = current.map SizingNode.id := by
  induction folded with
  | none => exact ⟨trivial, rfl⟩
  | @next folds fold earlier childMember parentMember _ ih =>
    obtain ⟨absorbs, left⟩ := ih
    rw [List.map_append, List.map_singleton]
    constructor
    · refine absorbs_concat.mpr ⟨absorbs, ?_, ?_⟩
      · rw [left]
        exact List.mem_map_of_mem childMember
      · rw [left]
        exact List.mem_map_of_mem parentMember
    · rw [remaining, List.foldl_append]
      change (remaining _ _).filter _ = _
      rw [left, Fold.after, foldNodeInto_ids]
      refine List.filter_congr fun id _ => ?_
      exact decide_not

variable {plan : PlanOutput} {options : Options} {result : SizingResult}

private theorem mergesOf_sized (success : sizePlan plan options = .ok result) :
    mergesOf result.transformations = (foldsOf (sizingNodes plan) options).map mergeOf := by
  obtain ⟨-, same⟩ := applySizingRules_ok success
  have none : mergesOf (reshape options (mergeAll options (plan.nodes.map toSizingNode)).current).2 = [] := by
    refine List.filterMap_eq_nil_iff.mpr fun transformation member => ?_
    obtain ⟨id, single⟩ := reshape_single options _ member
    simp only [single]
  rw [same, mergesOf, List.filterMap_append]
  change _ ++ mergesOf _ = _
  rw [none, List.append_nil, List.filterMap_map]
  exact congrFun (@List.filterMap_eq_map _ _ mergeOf) _

private theorem endsIn_sized (success : sizePlan plan options = .ok result) (id : String) :
    endsIn result.transformations id = owner ((foldsOf (sizingNodes plan) options).map mergeOf) id := by
  obtain ⟨-, same⟩ := applySizingRules_ok success
  rw [same, endsIn_append_single _ _ fun transformation member => reshape_single options _ member]
  rw [endsIn, owner, List.foldl_map, List.foldl_map]
  rfl

private theorem sized_ids (success : sizePlan plan options = .ok result) :
    result.nodes.map SizingNode.id =
      remaining (plan.nodes.map PlanNode.id) ((foldsOf (sizingNodes plan) options).map mergeOf) := by
  obtain ⟨same, -⟩ := applySizingRules_ok success
  obtain ⟨-, left⟩ := absorbs_of_folded (mergeAll_folded options (sizingNodes plan))
  rw [same, reshape_ids]
  refine left.symm.trans (congrArg (remaining · _) ?_)
  rw [sizingNodes, List.map_map]
  rfl

end Merges

/-! ## Declarations and sizing -/

/-- The carried declarations are accepted for the sized nodes, every phase keeps its requirements, and what a node
inherited its absorbing node inherits. -/
structure DeclarationsSurvive (plan : PlanOutput) (result : SizingResult) : Prop where
  accepted : ∃ given, validatePlanPhases (carryPhaseDeclarations plan.phases result.transformations)
    (result.nodes.map SizingNode.id) = .ok given
  kept : ((carryPhaseDeclarations plan.phases result.transformations).getD []).map (fun phase => (phase.id, phase.requirementIds)) =
    (plan.phases.getD []).map fun phase => (phase.id, phase.requirementIds)
  inherited : ∀ node ∈ plan.nodes, ∀ executionPhase,
    ∀ id ∈ (inheritedIds (plan.phases.getD []) node.id executionPhase).getD [],
      id ∈ (inheritedIds ((carryPhaseDeclarations plan.phases result.transformations).getD [])
        (endsIn result.transformations node.id) executionPhase).getD []

section Survival

variable {declarations : List PlanPhase} {planned : List String} {merges : List (String × String)}

private theorem checkShape_of_assigned (some : assigned declarations ≠ []) :
    checkShape declarations planned = .ok () ↔
      assigned declarations = declarations ∧ Covered (assignmentsOf declarations) planned := by
  rw [checkShape, if_neg (by simpa using some)]
  simp only [andThen_ok_iff, check_ok_iff, decide_eq_true_eq, validateNodeAssignments_ok_iff]
  have whole : (assigned declarations).length = declarations.length ↔ assigned declarations = declarations := by
    constructor
    · intro same
      exact List.filter_eq_self.mpr (List.length_filter_eq_length_iff.mp same)
    · exact congrArg List.length
  rw [whole]
  exact and_congr_right fun same => by rw [same]

private theorem assigned_carried : assigned (declarations.map (carryPhase merges)) = (assigned declarations).map (carryPhase merges) := by
  rw [assigned, List.filter_map, assigned]
  congr 1
  refine List.filter_congr fun phase _ => ?_
  simp [carryPhase]

private theorem nodeIds_of_assigned (all : assigned declarations = declarations) {phase : PlanPhase}
    (member : phase ∈ declarations) : ∃ nodeIds, phase.nodeIds = some nodeIds :=
  Option.isSome_iff_exists.mp (List.filter_eq_self.mp all phase member)

/-- The checks on each declaration pass again once the names are known. -/
private theorem checkDeclarations_carried (all : assigned declarations = declarations)
    (accepted : checkDeclarations 0 [] declarations = .ok ()) (covered : Covered (assignmentsOf declarations) planned)
    (ends : ∀ nodeId ∈ planned, resolveMerged merges nodeId ∈ planned) :
    checkDeclarations 0 [] (declarations.map (carryPhase merges)) = .ok () := by
  have shown (nodeId : String) (member : nodeId ∈ planned) : isBlank nodeId = false := by
    obtain ⟨id, assigns⟩ := covered.assignment member
    obtain ⟨phase, phaseMember, -, named⟩ := mem_assignmentsOf.mp assigns
    obtain ⟨nodeIds, same⟩ := nodeIds_of_assigned all phaseMember
    obtain ⟨label, checked⟩ := checkDeclarations_each accepted phaseMember
    rw [same] at named
    exact ((checkDeclaration_some_iff same).mp checked).2.1 nodeId named
  refine checkDeclarations_map (fun _ => rfl) (fun phase member label checked => ?_) accepted
  obtain ⟨nodeIds, same⟩ := nodeIds_of_assigned all member
  obtain ⟨alone, -, some, requirements⟩ := (checkDeclaration_some_iff same).mp checked
  have carried : (carryPhase merges phase).nodeIds = .some ((nodeIds.map (resolveMerged merges)).eraseDups) := by
    rw [carryPhase, same]
    rfl
  refine (checkDeclaration_some_iff carried).mpr ⟨alone, fun nodeId inside => ?_, fun empty => ?_, requirements⟩
  · rw [List.mem_eraseDups, List.mem_map] at inside
    obtain ⟨old, named, rfl⟩ := inside
    refine shown _ (ends old (covered.known (phase.id, old) (mem_assignmentsOf.mpr ⟨phase, member, rfl, ?_⟩)))
    rw [same]
    exact named
  · obtain ⟨first, rest, rfl⟩ := List.exists_cons_of_ne_nil some
    rw [List.map_cons, List.eraseDups_cons] at empty
    cases empty

/-- Carrying over writes the same declarations whether or not there are merges. -/
private theorem carried_eq (once : ∀ phase ∈ declarations, (phase.nodeIds.getD []).Nodup) (transformations : List Transformation) :
    carryPhaseDeclarations (some declarations) transformations =
      some (declarations.map (carryPhase (mergesOf transformations))) := by
  rw [carryPhaseDeclarations, Option.map_some]
  split
  · rename_i none
    rw [List.isEmpty_iff] at none
    refine congrArg some (((List.map_congr_left fun phase member => ?_).trans (List.map_id _)).symm)
    have own := once phase member
    rw [none]
    obtain ⟨id, requirementIds, nodeIds, deliverable⟩ := phase
    cases nodeIds with
    | none => rfl
    | some nodeIds =>
      have same : nodeIds.map (resolveMerged []) = nodeIds := List.map_id _
      have kept : nodeIds.eraseDups = nodeIds := FirstByKey.eraseDups_of_nodup own
      simp only [carryPhase, Option.map_some, same, kept]
      rfl
  · rfl

private theorem survive_legacy {plan : PlanOutput} {result : SizingResult} {given : Option (List PlanPhase)}
    (given? : plan.phases = some declarations) (some : declarations ≠ [])
    (accepted : validatePlanPhases plan.phases planned = .ok given) (legacy : assigned declarations = []) :
    DeclarationsSurvive plan result := by
  have none (phase : PlanPhase) (member : phase ∈ declarations) : phase.nodeIds = .none := by
    have unassigned := List.filter_eq_nil_iff.mp legacy phase member
    rwa [Option.not_isSome_iff_eq_none] at unassigned
  have once (phase : PlanPhase) (member : phase ∈ declarations) : (phase.nodeIds.getD []).Nodup := by
    rw [none phase member]
    exact List.nodup_nil
  have same := carried_eq once result.transformations
  rw [carry_legacy legacy] at same
  rw [given?, validatePlanPhases_ok_iff some] at accepted
  have anonymous : requirementsByNode declarations = [] := by
    refine List.eq_nil_iff_forall_not_mem.mpr fun entry member => ?_
    obtain ⟨phase, phaseMember, -, named, -⟩ := mem_requirementsByNode.mp member
    rw [none phase phaseMember] at named
    cases named
  constructor
  · rw [given?, same]
    refine ⟨_, (validatePlanPhases_ok_iff some).mpr ⟨⟨accepted.1.1, ?_⟩, rfl⟩⟩
    rw [checkShape, legacy]
    rfl
  · rw [given?, same]
  · intro node _ executionPhase id inherits
    rw [given?, same] at *
    simp only [Option.getD_some, inheritedIds, anonymous] at inherits ⊢
    exact inherits

private theorem nodup_of_covered (covered : Covered (assignmentsOf declarations) planned) (phase : PlanPhase)
    (member : phase ∈ declarations) : (phase.nodeIds.getD []).Nodup := by
  have names : (assignmentsOf declarations).map (·.2) = declarations.flatMap fun phase => phase.nodeIds.getD [] := by
    simp only [assignmentsOf, List.map_flatMap, List.map_map]
    simp [Function.comp_def]
  have once := covered.once
  rw [names, List.nodup_flatMap] at once
  exact once.1 phase member

variable {plan : PlanOutput} {options : Options} {result : SizingResult} {given : Option (List PlanPhase)}

private theorem survive_of_within (given? : plan.phases = some declarations) (some : declarations ≠ [])
    (all : assigned declarations = declarations) (checked : checkDeclarations 0 [] declarations = .ok ())
    (covered : Covered (assignmentsOf declarations) (plan.nodes.map PlanNode.id))
    (success : sizePlan plan options = .ok result)
    (within : Within declarations ((foldsOf (sizingNodes plan) options).map mergeOf)) : DeclarationsSurvive plan result := by
  obtain ⟨absorbs, -⟩ := absorbs_of_folded (mergeAll_folded options (sizingNodes plan))
  rw [sizingNodes, List.map_map] at absorbs
  change Absorbs (plan.nodes.map PlanNode.id) ((foldsOf (sizingNodes plan) options).map mergeOf) at absorbs
  have same := carried_eq (nodup_of_covered covered) result.transformations
  have steps := mergesOf_sized success
  have sized := sized_ids success
  have ends := endsIn_sized success
  rw [steps] at same
  generalize (foldsOf (sizingNodes plan) options).map mergeOf = merges at *
  have proper : Proper merges := fun merge member => (within merge member).1
  have resolves (nodeId : String) : resolveMerged merges nodeId = owner merges nodeId := follow_eq_owner absorbs proper
  obtain ⟨distinct, -⟩ := checkDeclarations_fresh checked
  have carried := covered_of_within covered absorbs distinct within
  have still : assigned (declarations.map (carryPhase merges)) = declarations.map (carryPhase merges) := by
    rw [assigned_carried, all]
  have someCarried : declarations.map (carryPhase merges) ≠ [] := fun empty => some (List.map_eq_nil_iff.mp empty)
  constructor
  · rw [given?, same, sized]
    refine ⟨_, (validatePlanPhases_ok_iff someCarried).mpr ⟨⟨?_, ?_⟩, rfl⟩⟩
    · refine checkDeclarations_carried all checked covered fun nodeId member => ?_
      rw [resolves]
      exact (mem_remaining.mp (owner_mem absorbs proper member)).1
    · exact (checkShape_of_assigned (still.symm ▸ someCarried)).mpr ⟨still, carried⟩
  · rw [given?, same, Option.getD_some, Option.getD_some, List.map_map]
    rfl
  · intro node member executionPhase id inherits
    obtain ⟨phaseId, assigns⟩ := covered.assignment (List.mem_map_of_mem member)
    obtain ⟨phase, phaseMember, -, named⟩ := mem_assignmentsOf.mp assigns
    obtain ⟨nodeIds, here⟩ := nodeIds_of_assigned all phaseMember
    obtain ⟨label, checkedHere⟩ := checkDeclarations_each checked phaseMember
    have requirements := ((checkDeclaration_some_iff here).mp checkedHere).2.2.2
    have ids : (declarations.map (carryPhase merges)).map PlanPhase.id = declarations.map PlanPhase.id := List.map_map
    have namedAfter : owner merges node.id ∈ (carryPhase merges phase).nodeIds.getD [] := by
      rw [carryPhase_nodeIds, List.mem_eraseDups, ← resolves]
      exact List.mem_map_of_mem named
    rw [given?, Option.getD_some, inheritedIds_of_named distinct covered.once phaseMember named requirements] at inherits
    rw [given?, same, Option.getD_some, ends,
      inheritedIds_of_named (ids ▸ distinct) carried.once (List.mem_map_of_mem phaseMember) namedAfter requirements]
    exact inherits

private theorem within_of_survive (given? : plan.phases = some declarations) (some : declarations ≠ [])
    (all : assigned declarations = declarations)
    (covered : Covered (assignmentsOf declarations) (plan.nodes.map PlanNode.id))
    (success : sizePlan plan options = .ok result) (survive : DeclarationsSurvive plan result) :
    Within declarations ((foldsOf (sizingNodes plan) options).map mergeOf) := by
  obtain ⟨absorbs, -⟩ := absorbs_of_folded (mergeAll_folded options (sizingNodes plan))
  rw [sizingNodes, List.map_map] at absorbs
  change Absorbs (plan.nodes.map PlanNode.id) ((foldsOf (sizingNodes plan) options).map mergeOf) at absorbs
  obtain ⟨given, accepted⟩ := survive.accepted
  rw [given?, carried_eq (nodup_of_covered covered), mergesOf_sized success, sized_ids success] at accepted
  generalize (foldsOf (sizingNodes plan) options).map mergeOf = merges at *
  have someCarried : declarations.map (carryPhase merges) ≠ [] := fun empty => some (List.map_eq_nil_iff.mp empty)
  have still : assigned (declarations.map (carryPhase merges)) = declarations.map (carryPhase merges) := by
    rw [assigned_carried, all]
  obtain ⟨⟨-, shaped⟩, -⟩ := (validatePlanPhases_ok_iff someCarried).mp accepted
  exact within_of_covered covered absorbs ((checkShape_of_assigned (still.symm ▸ someCarried)).mp shaped).2

private theorem survive_of_none (absent : plan.phases = none ∨ plan.phases = some []) : DeclarationsSurvive plan result := by
  rcases absent with absent | absent
  · refine ⟨⟨none, ?_⟩, ?_, ?_⟩
    · rw [absent]
      rfl
    · rw [absent]
      rfl
    · intro node _ executionPhase id inherits
      rw [absent] at inherits ⊢
      exact inherits
  · have same : carryPhaseDeclarations (some []) result.transformations = some [] := by
      rw [carryPhaseDeclarations, Option.map_some]
      split <;> rfl
    refine ⟨⟨none, ?_⟩, ?_, ?_⟩
    · rw [absent, same]
      rfl
    · rw [absent, same]
    · intro node _ executionPhase id inherits
      rw [absent] at inherits
      rw [absent, same]
      exact inherits

/-- The declarations survive sizing exactly when every fold joins two nodes of one declaration. -/
theorem carryPhaseDeclarations_survive (accepted : validatePlanPhases plan.phases (plan.nodes.map PlanNode.id) = .ok given)
    (success : sizePlan plan options = .ok result) :
    DeclarationsSurvive plan result ↔
      ∀ declarations, plan.phases = some declarations → assigned declarations ≠ [] →
        ∀ fold ∈ foldsOf (sizingNodes plan) options, fold.child.id ≠ fold.parent.id ∧
          declarationOf declarations fold.child.id = declarationOf declarations fold.parent.id := by
  cases given? : plan.phases with
  | none => exact iff_of_true (survive_of_none (.inl given?)) (fun _ absent => nomatch absent)
  | some declarations =>
    by_cases empty : declarations = []
    · subst empty
      refine iff_of_true (survive_of_none (.inr given?)) fun declarations same named => ?_
      obtain rfl := Option.some.inj same
      exact absurd rfl named
    by_cases legacy : assigned declarations = []
    · refine iff_of_true (survive_legacy given? empty accepted legacy) fun declarations same named => ?_
      obtain rfl := Option.some.inj same
      exact absurd legacy named
    · rw [given?, validatePlanPhases_ok_iff empty] at accepted
      obtain ⟨⟨checked, shaped⟩, -⟩ := accepted
      obtain ⟨all, covered⟩ := (checkShape_of_assigned legacy).mp shaped
      constructor
      · intro survive declarations same _ fold member
        obtain rfl := Option.some.inj same
        exact within_of_survive given? empty all covered success survive _ (List.mem_map_of_mem member)
      · intro within
        refine survive_of_within given? empty all checked covered success fun merge member => ?_
        obtain ⟨fold, inside, rfl⟩ := List.mem_map.mp member
        exact within declarations rfl legacy fold inside

/-! ## A fold across two declarations -/

/-- A declaration with one requirement. -/
def phaseOf (id requirement : String) (nodeIds : List String) : PlanPhase := ⟨id, [requirement], some nodeIds, s!"What {id} delivers"⟩

/-- The node without a proof is folded into the node it depends on, which another declaration names. -/
def crossedPhases : PlanOutput :=
  { straightPlan with phases := some [phaseOf "server" "R-1" ["api"], phaseOf "docs" "R-2" ["client", "guide"]] }

/-- The same nodes with the two that are folded in one declaration. -/
def joinedPhases : PlanOutput :=
  { straightPlan with phases := some [phaseOf "server" "R-1" ["api", "guide"], phaseOf "docs" "R-2" ["client"]] }

/-- An accepted plan whose carried declarations are refused. -/
theorem carryPhaseDeclarations_crossed : ∃ plan options result, validatePlanOutput plan = .ok () ∧
    sizePlan plan options = .ok result ∧ ¬ DeclarationsSurvive plan result := by
  refine ⟨crossedPhases, pipelineOptions, _, by decide, rfl, ?_⟩
  rintro ⟨⟨given, accepted⟩, -, -⟩
  have refused := congrArg Except.toBool accepted
  change _ = true at refused
  revert refused
  clear accepted given
  decide

/-- A plan whose fold stays in one declaration keeps its declarations. -/
theorem carryPhaseDeclarations_survive_joined : ∃ result, sizePlan joinedPhases pipelineOptions = .ok result ∧
    foldsOf (sizingNodes joinedPhases) pipelineOptions ≠ [] ∧ DeclarationsSurvive joinedPhases result := by
  refine ⟨_, rfl, by decide, (@carryPhaseDeclarations_survive joinedPhases pipelineOptions _ joinedPhases.phases (by decide) rfl).mpr ?_⟩
  rintro declarations same -
  obtain rfl := Option.some.inj same
  decide

end Survival

end Faberun.Plan
