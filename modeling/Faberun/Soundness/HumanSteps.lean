import Faberun.Machine.Digraph
import Faberun.Model.Plan.HumanSteps

/-! # Human steps in the graph

The steps are added one after the other, and the outcome can be written down at once: every node that depends on a
carrier of a step without being one waits for the step, and so does the human node of an earlier step that shares a
carrier. A cycle appears only where a carrier already reaches a node that would wait.
-/

namespace Faberun.Plan

open Digraph Relation

variable {ρ : Type} (toLowerCase : String → String)

/-- A node of the first id depends on the second. -/
def DependsOn (records : List (FrozenNode ρ)) (a b : String) : Prop := ∃ record ∈ records, record.id = a ∧ b ∈ record.dependsOn

/-- The ids are distinct, and the new ones appear nowhere. -/
structure Unused (records : List (FrozenNode ρ)) (steps : List PlanHumanStep) : Prop where
  distinct : (records.map FrozenNode.id ++ steps.map (humanStepId toLowerCase)).Nodup
  undeclared : ∀ record ∈ records, ∀ step ∈ steps, humanStepId toLowerCase step ∉ record.dependsOn

/-! ## The outcome at once -/

/-- Whether a node waits for a step with some carriers. -/
def waits (carriers : List String) (record : FrozenNode ρ) : Bool :=
  !carriers.contains record.id && record.dependsOn.any carriers.contains

/-- A node after some steps, under the carriers of each requirement. -/
def grow (carriersOf : String → List String) (steps : List PlanHumanStep) (record : FrozenNode ρ) : FrozenNode ρ :=
  { record with
    dependsOn := record.dependsOn ++
      (steps.filter fun step => waits (carriersOf step.requirementId) record).map (humanStepId toLowerCase) }

/-- The human nodes after all steps. -/
def humanNodes (records : List (FrozenNode ρ)) (carriersOf : String → List String) : List PlanHumanStep → List (FrozenNode ρ)
  | [] => []
  | step :: later => grow toLowerCase carriersOf later (humanNode toLowerCase records step) :: humanNodes records carriersOf later

section Closed

variable {toLowerCase} {records : List (FrozenNode ρ)} {step : PlanHumanStep} {steps : List PlanHumanStep}

/-- The nodes after one step. -/
def afterStep (toLowerCase : String → String) (records : List (FrozenNode ρ)) (step : PlanHumanStep) : List (FrozenNode ρ) :=
  records.map (waitFor (carrierIds step.requirementId records) (humanStepId toLowerCase step)) ++ [humanNode toLowerCase records step]

@[simp] theorem waitFor_id (carriers : List String) (id : String) (record : FrozenNode ρ) :
    (waitFor carriers id record).id = record.id := by
  unfold waitFor
  split <;> rfl

@[simp] theorem waitFor_requirementIds (carriers : List String) (id : String) (record : FrozenNode ρ) :
    (waitFor carriers id record).requirementIds = record.requirementIds := by
  unfold waitFor
  split <;> rfl

@[simp] theorem waitFor_phase (carriers : List String) (id : String) (record : FrozenNode ρ) :
    (waitFor carriers id record).phase = record.phase := by
  unfold waitFor
  split <;> rfl

private theorem carries_waitFor (requirementId : String) (carriers : List String) (id : String) :
    carries requirementId ∘ waitFor carriers id = carries (ρ := ρ) requirementId := by
  funext record
  simp [carries]

theorem mem_carrierIds {requirementId id : String} :
    id ∈ carrierIds requirementId records ↔ ∃ record ∈ records, record.id = id ∧ carries requirementId record = true := by
  simp only [carrierIds, List.mem_eraseDups, List.mem_map, List.mem_filter]
  constructor
  · rintro ⟨record, ⟨member, holds⟩, same⟩
    exact ⟨record, member, same, holds⟩
  · rintro ⟨record, member, same, holds⟩
    exact ⟨record, ⟨member, holds⟩, same⟩

private theorem carrierIds_mem {requirementId id : String} (member : id ∈ carrierIds requirementId records) :
    id ∈ records.map FrozenNode.id := by
  obtain ⟨record, inside, same, -⟩ := mem_carrierIds.mp member
  exact List.mem_map.mpr ⟨record, inside, same⟩

/-- The human node of a step carries the requirement of the step only. -/
private theorem carries_humanNode {requirementId : String} (other : requirementId ≠ step.requirementId) :
    carries requirementId (humanNode toLowerCase records step) = false := by
  simpa [carries, humanNode] using other

private theorem carrierIds_after {requirementId : String} (other : requirementId ≠ step.requirementId) :
    carrierIds requirementId (afterStep toLowerCase records step) = carrierIds requirementId records := by
  rw [carrierIds, afterStep, List.filter_append, List.filter_map, carries_waitFor]
  simp only [List.filter_cons, carries_humanNode other, List.filter_nil, List.append_nil, Bool.false_eq_true, if_false,
    List.map_map]
  have ids (carriers : List String) (id : String) : FrozenNode.id ∘ waitFor (ρ := ρ) carriers id = FrozenNode.id := by
    funext record
    simp
  rw [ids, carrierIds]

private theorem humanNode_after {next : PlanHumanStep} (other : next.requirementId ≠ step.requirementId) :
    humanNode toLowerCase (afterStep toLowerCase records step) next = humanNode toLowerCase records next := by
  have phases : ((afterStep toLowerCase records step).find? (carries next.requirementId)).bind FrozenNode.phase =
      (records.find? (carries next.requirementId)).bind FrozenNode.phase := by
    rw [afterStep, List.find?_append, List.find?_map, carries_waitFor]
    simp only [List.find?_cons, carries_humanNode other, List.find?_nil, Option.or_none]
    cases records.find? (carries next.requirementId) <;> simp
  simp only [humanNode, carrierIds_after other, phases]

private theorem carriers_apart (unused : Unused toLowerCase records (step :: steps)) :
    ∀ next ∈ steps, next.requirementId ≠ step.requirementId := by
  intro next member same
  have once := (List.nodup_append.mp unused.distinct).2.1
  rw [List.map_cons, List.nodup_cons] at once
  refine once.1 (List.mem_map.mpr ⟨next, member, ?_⟩)
  rw [humanStepId, humanStepId, same]

private theorem after_ids : (afterStep toLowerCase records step).map FrozenNode.id =
    records.map FrozenNode.id ++ [humanStepId toLowerCase step] := by
  rw [afterStep, List.map_append, List.map_map]
  refine congrArg₂ _ (List.map_congr_left fun record _ => ?_) rfl
  exact waitFor_id _ _ record

private theorem waitFor_dependsOn {carriers : List String} {id other : String} {record : FrozenNode ρ}
    (member : other ∈ (waitFor carriers id record).dependsOn) : other ∈ record.dependsOn ∨ other = id := by
  unfold waitFor at member
  split at member
  · exact .inl member
  · simpa using member

private theorem Unused.after (unused : Unused toLowerCase records (step :: steps)) :
    Unused toLowerCase (afterStep toLowerCase records step) steps where
  distinct := by
    rw [after_ids, List.append_assoc, List.singleton_append]
    exact unused.distinct
  undeclared record member next nextMember depends := by
    have fresh : humanStepId toLowerCase next ∉ records.map FrozenNode.id := fun inside =>
      (List.nodup_append.mp unused.distinct).2.2 _ inside _ (List.mem_map_of_mem (List.mem_cons_of_mem _ nextMember)) rfl
    have once := (List.nodup_append.mp unused.distinct).2.1
    rw [List.map_cons, List.nodup_cons] at once
    rcases List.mem_append.mp member with member | member
    · obtain ⟨old, oldMember, rfl⟩ := List.mem_map.mp member
      rcases waitFor_dependsOn depends with depends | same
      · exact unused.undeclared old oldMember next (List.mem_cons_of_mem _ nextMember) depends
      · exact once.1 (List.mem_map.mpr ⟨next, nextMember, same⟩)
    · obtain rfl := List.mem_singleton.mp member
      exact fresh (carrierIds_mem depends)

private theorem Unused.fresh (unused : Unused toLowerCase records (step :: steps)) :
    humanStepId toLowerCase step ∉ records.map FrozenNode.id := fun inside =>
  (List.nodup_append.mp unused.distinct).2.2 _ inside _ (List.mem_map_of_mem List.mem_cons_self) rfl

private theorem addHumanStep_of_unused (unused : Unused toLowerCase records (step :: steps)) :
    addHumanStep toLowerCase records step = .ok (afterStep toLowerCase records step) := by
  have unknown : (!(records.map FrozenNode.id).contains (humanStepId toLowerCase step)) = true := by
    rw [Bool.not_eq_true', ← Bool.not_eq_true, List.contains_iff_mem]
    exact unused.fresh
  simp only [addHumanStep, check, unknown, if_true]
  rfl

private theorem waitFor_eq (carriers : List String) (id : String) (record : FrozenNode ρ) :
    waitFor carriers id record = if waits carriers record then { record with dependsOn := record.dependsOn ++ [id] } else record := by
  unfold waitFor waits
  cases carriers.contains record.id <;> cases record.dependsOn.any carriers.contains <;> rfl

/-- Growing by one step and then by others is growing by all of them. -/
private theorem grow_waitFor {carriersOf : String → List String} {record : FrozenNode ρ}
    (apart : ∀ next ∈ steps, humanStepId toLowerCase step ∉ carriersOf next.requirementId) :
    grow toLowerCase carriersOf steps (waitFor (carriersOf step.requirementId) (humanStepId toLowerCase step) record) =
      grow toLowerCase carriersOf (step :: steps) record := by
  rw [waitFor_eq]
  by_cases here : waits (carriersOf step.requirementId) record
  · have same (next : PlanHumanStep) (member : next ∈ steps) :
        waits (carriersOf next.requirementId) { record with dependsOn := record.dependsOn ++ [humanStepId toLowerCase step] } =
          waits (carriersOf next.requirementId) record := by
      have fresh : (carriersOf next.requirementId).contains (humanStepId toLowerCase step) = false := by
        rw [← Bool.not_eq_true, List.contains_iff_mem]
        exact apart next member
      simp only [waits, List.any_append, List.any_cons, fresh, List.any_nil, Bool.or_false]
    rw [if_pos here, grow, grow, List.filter_congr same]
    simp only [List.filter_cons, here, if_true, List.map_cons, List.append_assoc, List.singleton_append]
  · rw [if_neg here, grow, grow]
    simp only [List.filter_cons, here, Bool.false_eq_true, if_false]

private theorem grow_congr {first second : String → List String} {record : FrozenNode ρ}
    (same : ∀ step ∈ steps, first step.requirementId = second step.requirementId) :
    grow toLowerCase first steps record = grow toLowerCase second steps record := by
  rw [grow, grow, List.filter_congr fun step member => by rw [same step member]]

private theorem humanNodes_congr {first second : String → List String} {others : List (FrozenNode ρ)}
    (same : ∀ step ∈ steps, first step.requirementId = second step.requirementId)
    (nodes : ∀ step ∈ steps, humanNode toLowerCase records step = humanNode toLowerCase others step) :
    humanNodes toLowerCase records first steps = humanNodes toLowerCase others second steps := by
  induction steps with
  | nil => rfl
  | cons step rest ih =>
    obtain ⟨-, sameRest⟩ := List.forall_mem_cons.mp same
    obtain ⟨node, nodesRest⟩ := List.forall_mem_cons.mp nodes
    rw [humanNodes, humanNodes, node, grow_congr sameRest, ih sameRest nodesRest]

/-- What the steps make of the nodes, written down at once. -/
theorem addHumanStepNodes_eq (unused : Unused toLowerCase records steps) :
    addHumanStepNodes toLowerCase records steps =
      .ok (records.map (grow toLowerCase (carrierIds · records) steps) ++
        humanNodes toLowerCase records (carrierIds · records) steps) := by
  induction steps generalizing records with
  | nil =>
    have same : records.map (grow toLowerCase (carrierIds · records) []) = records := by
      refine (List.map_congr_left fun record _ => ?_).trans (List.map_id _)
      rw [grow, List.filter_nil, List.map_nil, List.append_nil]
      rfl
    rw [same, humanNodes, List.append_nil]
    rfl
  | cons step rest ih =>
    have apart := carriers_apart unused
    have carriers (next : PlanHumanStep) (member : next ∈ rest) :
        carrierIds next.requirementId (afterStep toLowerCase records step) = carrierIds next.requirementId records :=
      carrierIds_after (apart next member)
    have later := ih unused.after
    rw [addHumanStepNodes] at later ⊢
    rw [List.foldlM_cons, addHumanStep_of_unused unused]
    refine later.trans (congrArg Except.ok ?_)
    have nodes : humanNodes toLowerCase (afterStep toLowerCase records step) (carrierIds · (afterStep toLowerCase records step)) rest =
        humanNodes toLowerCase records (carrierIds · records) rest :=
      humanNodes_congr carriers fun next member => humanNode_after (apart next member)
    rw [nodes, afterStep, List.map_append, List.map_map, List.map_singleton, humanNodes, List.append_assoc, List.singleton_append]
    refine congrArg₂ _ (List.map_congr_left fun record _ => ?_) (congrArg₂ _ (grow_congr carriers) rfl)
    refine (grow_congr carriers).trans (@grow_waitFor _ _ _ _ (carrierIds · records) _ fun next _ inside => ?_)
    exact unused.fresh (carrierIds_mem inside)

end Closed

/-! ## Order -/

/-- The nodes that will wait for a step: they depend on a carrier and carry nothing. -/
def Waiting (records : List (FrozenNode ρ)) (step : PlanHumanStep) (id : String) : Prop :=
  id ∉ carrierIds step.requirementId records ∧ ∃ carrier ∈ carrierIds step.requirementId records, DependsOn records id carrier

/-- No carrier of a step reaches a node that will wait for the step, when the step is added. -/
def Clear (records : List (FrozenNode ρ)) (steps : List PlanHumanStep) : Prop :=
  ∀ earlier step later before, steps = earlier ++ step :: later → addHumanStepNodes toLowerCase records earlier = .ok before →
    ¬ Sandwich (DependsOn before) (· ∈ carrierIds step.requirementId before) (Waiting before step)

section Order

variable {toLowerCase} {records result : List (FrozenNode ρ)} {step : PlanHumanStep} {steps : List PlanHumanStep}

/-- One step puts its node between the carriers and the nodes that depended on them. -/
private theorem dependsOn_after (a b : String) :
    DependsOn (afterStep toLowerCase records step) a b ↔
      Insert (DependsOn records) (humanStepId toLowerCase step) (· ∈ carrierIds step.requirementId records)
        (Waiting records step) a b := by
  have waiting (record : FrozenNode ρ) : waits (carrierIds step.requirementId records) record = true ↔
      record.id ∉ carrierIds step.requirementId records ∧
        ∃ carrier ∈ carrierIds step.requirementId records, carrier ∈ record.dependsOn := by
    rw [waits, Bool.and_eq_true, Bool.not_eq_true', ← Bool.not_eq_true, List.contains_iff_mem, List.any_eq_true]
    refine and_congr_right fun _ => exists_congr fun carrier => ?_
    rw [List.contains_iff_mem]
    exact and_comm
  constructor
  · rintro ⟨record, member, rfl, depends⟩
    rcases List.mem_append.mp member with member | member
    · obtain ⟨old, oldMember, rfl⟩ := List.mem_map.mp member
      rw [waitFor_id]
      rw [waitFor_eq] at depends
      split at depends
      · rename_i holds
        rcases List.mem_append.mp depends with depends | depends
        · exact .inl ⟨old, oldMember, rfl, depends⟩
        · obtain ⟨apart, carrier, carried, here⟩ := (waiting old).mp holds
          exact .inr (.inr ⟨⟨apart, carrier, carried, old, oldMember, rfl, here⟩, List.mem_singleton.mp depends⟩)
      · exact .inl ⟨old, oldMember, rfl, depends⟩
    · obtain rfl := List.mem_singleton.mp member
      exact .inr (.inl ⟨rfl, depends⟩)
  · rintro (⟨record, member, rfl, depends⟩ | ⟨rfl, carried⟩ | ⟨⟨apart, carrier, carried, record, member, rfl, depends⟩, rfl⟩)
    · refine ⟨_, List.mem_append_left _ (List.mem_map_of_mem member), waitFor_id _ _ _, ?_⟩
      rw [waitFor_eq]
      split
      · exact List.mem_append_left _ depends
      · exact depends
    · exact ⟨humanNode toLowerCase records step, List.mem_append_right _ List.mem_cons_self, rfl, carried⟩
    · refine ⟨_, List.mem_append_left _ (List.mem_map_of_mem member), waitFor_id _ _ _, ?_⟩
      rw [waitFor_eq, if_pos ((waiting record).mpr ⟨apart, carrier, carried, depends⟩)]
      exact List.mem_append_right _ List.mem_cons_self

/-- A step keeps the graph acyclic exactly when no carrier reaches a node that will wait. -/
theorem acyclic_addHumanStep_iff (unused : Unused toLowerCase records (step :: steps)) (acyclic : Acyclic (DependsOn records)) :
    Acyclic (DependsOn (afterStep toLowerCase records step)) ↔
      ¬ Sandwich (DependsOn records) (· ∈ carrierIds step.requirementId records) (Waiting records step) := by
  have fresh := unused.fresh
  have known {a b : String} (depends : DependsOn records a b) : a ∈ records.map FrozenNode.id := by
    obtain ⟨record, member, same, -⟩ := depends
    exact List.mem_map.mpr ⟨record, member, same⟩
  have graphs : DependsOn (afterStep toLowerCase records step) = Insert (DependsOn records) (humanStepId toLowerCase step)
      (· ∈ carrierIds step.requirementId records) (Waiting records step) := by
    funext a b
    exact propext (dependsOn_after a b)
  rw [graphs]
  refine acyclic_insert_iff acyclic (fun other => ⟨fun here => fresh (known here), ?_⟩) (fun inside => fresh (carrierIds_mem inside)) ?_
  · rintro ⟨record, member, -, depends⟩
    exact unused.undeclared record member step List.mem_cons_self depends
  · rintro ⟨-, carrier, -, here⟩
    exact fresh (known here)

private theorem acyclic_of_clear (unused : Unused toLowerCase records steps) (acyclic : Acyclic (DependsOn records))
    (clear : Clear toLowerCase records steps) (success : addHumanStepNodes toLowerCase records steps = .ok result) :
    Acyclic (DependsOn result) := by
  induction steps generalizing records with
  | nil =>
    obtain rfl := Except.ok.inj success
    exact acyclic
  | cons step rest ih =>
    have first := addHumanStep_of_unused unused
    rw [addHumanStepNodes, List.foldlM_cons, first] at success
    refine ih unused.after ((acyclic_addHumanStep_iff unused acyclic).mpr (clear [] step rest records rfl rfl)) ?_ success
    intro earlier next later before same made
    refine clear (step :: earlier) next later before (by rw [same, List.cons_append]) ?_
    rw [addHumanStepNodes, List.foldlM_cons, first]
    exact made

end Order

/-! ## Insertion -/

/-- What adding the steps promises. The node of a step waits for its carriers, and besides them only for later steps that
share one. -/
structure StepsInserted (records : List (FrozenNode ρ)) (steps : List PlanHumanStep) (result : List (FrozenNode ρ)) : Prop where
  ids : result.map FrozenNode.id = records.map FrozenNode.id ++ steps.map (humanStepId toLowerCase)
  kept : ∀ record ∈ records, ∃ added, { record with dependsOn := record.dependsOn ++ added } ∈ result ∧
    ∀ id ∈ added, id ∈ steps.map (humanStepId toLowerCase)
  carriers : ∀ earlier step later, steps = earlier ++ step :: later → ∃ human ∈ result,
    human.id = humanStepId toLowerCase step ∧ human.dependsOn = carrierIds step.requirementId records ++
      (later.filter fun next => (carrierIds step.requirementId records).any (carrierIds next.requirementId records).contains).map
        (humanStepId toLowerCase)
  waited : ∀ step ∈ steps, ∀ node carrier, node ∉ carrierIds step.requirementId records →
    carrier ∈ carrierIds step.requirementId records → TransGen (DependsOn records) node carrier →
      TransGen (DependsOn result) node (humanStepId toLowerCase step)
  acyclic : Clear toLowerCase records steps → Acyclic (DependsOn result)

section Insertion

variable {toLowerCase} {records result : List (FrozenNode ρ)} {steps : List PlanHumanStep}

private theorem humanNodes_split {carriersOf : String → List String} {earlier later : List PlanHumanStep} {step : PlanHumanStep} :
    grow toLowerCase carriersOf later (humanNode toLowerCase records step) ∈
      humanNodes toLowerCase records carriersOf (earlier ++ step :: later) := by
  induction earlier with
  | nil => exact List.mem_cons_self
  | cons first rest ih => exact List.mem_cons_of_mem _ ih

private theorem humanNodes_ids {carriersOf : String → List String} :
    (humanNodes toLowerCase records carriersOf steps).map FrozenNode.id = steps.map (humanStepId toLowerCase) := by
  induction steps with
  | nil => rfl
  | cons step rest ih =>
    rw [humanNodes, List.map_cons, List.map_cons, ih]
    rfl

/-- Steps with fresh ids are always inserted, and as promised. -/
theorem addHumanStepNodes_inserted (acyclic : Acyclic (DependsOn records)) (unused : Unused toLowerCase records steps) :
    ∃ result, addHumanStepNodes toLowerCase records steps = .ok result ∧ StepsInserted toLowerCase records steps result := by
  refine ⟨_, addHumanStepNodes_eq unused, ?_⟩
  constructor
  · rw [List.map_append, List.map_map, humanNodes_ids]
    rfl
  · intro record member
    refine ⟨_, List.mem_append_left _ (List.mem_map_of_mem member), fun id inside => ?_⟩
    obtain ⟨step, kept, rfl⟩ := List.mem_map.mp inside
    exact List.mem_map_of_mem (List.mem_filter.mp kept).1
  · rintro earlier step later rfl
    refine ⟨_, List.mem_append_right _ humanNodes_split, rfl, ?_⟩
    have fresh (next : PlanHumanStep) : (carrierIds next.requirementId records).contains (humanStepId toLowerCase step) = false := by
      rw [← Bool.not_eq_true, List.contains_iff_mem]
      intro inside
      refine (List.nodup_append.mp unused.distinct).2.2 _ (carrierIds_mem inside) _ (List.mem_map_of_mem ?_) rfl
      exact List.mem_append_right _ List.mem_cons_self
    refine congrArg (_ ++ List.map _ ·) (List.filter_congr fun next _ => ?_)
    simp only [waits, humanNode, fresh, Bool.not_false, Bool.true_and]
  · intro step member node carrier outside inside path
    obtain ⟨last, first, walk, apart, here, carried⟩ :=
      @exists_entry _ _ (· ∈ carrierIds step.requirementId records) _ _ path outside inside
    obtain ⟨record, recordMember, rfl, depends⟩ := here
    refine TransGen.tail' (ReflTransGen.mono (fun a b here => ?_) _ _ walk) ?_
    · obtain ⟨old, oldMember, rfl, inside⟩ := here
      exact ⟨_, List.mem_append_left _ (List.mem_map_of_mem oldMember), rfl, List.mem_append_left _ inside⟩
    · refine ⟨_, List.mem_append_left _ (List.mem_map_of_mem recordMember), rfl, List.mem_append_right _ ?_⟩
      refine List.mem_map_of_mem (List.mem_filter.mpr ⟨member, ?_⟩)
      rw [waits, Bool.and_eq_true, Bool.not_eq_true', ← Bool.not_eq_true, List.contains_iff_mem, List.any_eq_true]
      exact ⟨apart, first, depends, List.contains_iff_mem.mpr carried⟩
  · intro clear
    exact acyclic_of_clear unused acyclic clear (addHumanStepNodes_eq unused)

/-! ## Steps that share a carrier -/

/-- A planned node without other fields. -/
def plannedNode (id : String) (requirementIds dependsOn : List String) : FrozenNode Unit :=
  ⟨id, none, some requirementIds, dependsOn, .planned ()⟩

/-- One node carries both requirements. -/
def sharedCarrier : List (FrozenNode Unit) := [plannedNode "api" ["R-1", "R-2"] [], plannedNode "client" ["R-3"] ["api"]]

def sharedSteps : List PlanHumanStep := [⟨"R-1", "Rotate the key", "rotate"⟩, ⟨"R-2", "Approve the release", "approve"⟩]

/-- Lower case of ASCII text. -/
def asciiLower (text : String) : String := String.ofList (text.toList.map Char.toLower)

private theorem acyclic_sharedCarrier : Acyclic (DependsOn sharedCarrier) := by
  have edges : ∀ record ∈ sharedCarrier, ∀ b ∈ record.dependsOn, record.id = "client" ∧ b = "api" := by decide
  intro node cycle
  obtain ⟨mid, ⟨record, member, rfl, depends⟩, rest⟩ := TransGen.head'_iff.mp cycle
  obtain ⟨first, rfl⟩ := edges record member mid depends
  rw [first] at rest
  rcases ReflTransGen.cases_head rest with same | ⟨next, ⟨other, otherMember, same, dependsNext⟩, -⟩
  · exact absurd same (by decide)
  · have away := (edges other otherMember next dependsNext).1
    rw [same] at away
    exact absurd away (by decide)

/-- The node of the first step waits for the node of the second, which carries nothing of the first. -/
theorem addHumanStepNodes_shared : ∃ (records : List (FrozenNode Unit)) (steps : List PlanHumanStep),
    Acyclic (DependsOn records) ∧ Unused asciiLower records steps ∧ (steps.map PlanHumanStep.requirementId).Nodup ∧
      ∃ result, addHumanStepNodes asciiLower records steps = .ok result ∧
        ¬ ∀ step ∈ steps, ∀ human ∈ result, human.id = humanStepId asciiLower step →
          ∀ id ∈ human.dependsOn, ∃ carrier ∈ records, carrier.id = id ∧ carries step.requirementId carrier = true :=
  ⟨sharedCarrier, sharedSteps, acyclic_sharedCarrier, ⟨by decide, by decide⟩, by decide, _, rfl, by decide⟩

/-- The steps of the example are inserted as promised. -/
theorem addHumanStepNodes_inserted_shared :
    ∃ result, addHumanStepNodes asciiLower sharedCarrier sharedSteps = .ok result ∧
      StepsInserted asciiLower sharedCarrier sharedSteps result :=
  addHumanStepNodes_inserted acyclic_sharedCarrier ⟨by decide, by decide⟩

end Insertion

end Faberun.Plan
