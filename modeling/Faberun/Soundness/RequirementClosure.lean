import Mathlib.Data.List.Lex
import Mathlib.Data.List.Sort
import Faberun.Model.Campaign.Record

/-! # The closure of a close

One pass over the linked runs collects a set of declared requirement ids and a map of evidence. What comes of it does not
depend on the order the runs were registered in: each requirement a linked run declares stands in it once, sorted, and is
covered exactly when a done node that declares it carries it in its own snapshot.
-/

namespace Faberun.CampaignRecord

open Mutation (textLe)

variable {files : RunFiles} {linkedRunIds : List String} {requirementId : String}

/-! ## Sorted texts -/

theorem textLe_iff {left right : String} : textLe left right ↔ textUnits left ≤ textUnits right := by
  rw [textLe, ← Bool.not_eq_true, textLess_iff, not_lt]

instance : Std.Total textLe := ⟨fun left right => by simpa only [textLe_iff] using le_total (textUnits left) (textUnits right)⟩

instance : IsTrans String textLe := ⟨fun first second third => by simpa only [textLe_iff] using le_trans⟩

instance : Std.Antisymm textLe :=
  ⟨fun left right => by simpa only [textLe_iff] using fun le ge => textUnits_injective (le_antisymm le ge)⟩

theorem sortTexts_sorted (texts : List String) : (sortTexts texts).Pairwise textLe := List.pairwise_insertionSort textLe texts

theorem sortTexts_perm (texts : List String) : (sortTexts texts).Perm texts := List.perm_insertionSort textLe texts

/-- Sorting forgets the order texts came in. -/
theorem sortTexts_congr {texts others : List String} (same : texts.Perm others) : sortTexts texts = sortTexts others :=
  List.Perm.eq_of_pairwise' (sortTexts_sorted texts) (sortTexts_sorted others)
    ((sortTexts_perm texts).trans (same.trans (sortTexts_perm others).symm))

theorem mem_linkedNodes {entry : String × ContractNode} : entry ∈ linkedNodes files linkedRunIds ↔
    entry.1 ∈ linkedRunIds ∧ ∃ nodes, files.contract entry.1 = some nodes ∧ entry.2 ∈ nodes ∧ entry.2.id ≠ "" := by
  obtain ⟨runId, node⟩ := entry
  simp only [linkedNodes, List.mem_flatMap, List.mem_map, List.mem_filter, decide_eq_true_eq, (sortTexts_perm _).mem_iff,
    Prod.mk.injEq]
  constructor
  · rintro ⟨_, linked, _, ⟨member, named⟩, rfl, rfl⟩
    cases contract : files.contract _ with
    | none => simp [contract] at member
    | some nodes => exact ⟨linked, nodes, rfl, by simpa [contract] using member, named⟩
  · rintro ⟨linked, nodes, contract, member, named⟩
    exact ⟨runId, linked, node, ⟨by simpa [contract] using member, named⟩, rfl, rfl⟩

/-! ## The pass -/

/-- The evidence a node gives for a requirement it declares. -/
def evidence? (runId node : String) (snapshot : Option NodeRecord) (requirementId : String) : Option RequirementNodeEvidence :=
  snapshot.bind fun snapshot =>
    if snapshot.status = "done" ∧ requirementId ∈ snapshot.requirementIds then
      some ⟨runId, node, snapshot.passed, snapshot.verdict⟩
    else none

/-- A node gives its evidence each time it declares the requirement. -/
def evidenceOf (files : RunFiles) (requirementId : String) (entry : String × ContractNode) : List RequirementNodeEvidence :=
  (entry.2.requirementIds.filter fun declared => decide (declared = requirementId)).flatMap fun _ =>
    (evidence? entry.1 entry.2.id (files.snapshot entry.1 entry.2.id) requirementId).toList

section Declare

variable {runId node : String} {snapshot : Option NodeRecord} {t : ClosureTally}

/-- A declared id adds its evidence to its own entry of the map. -/
theorem declare_covered (other : String) : (t.declare runId node snapshot requirementId).covered other =
    t.covered other ++ if requirementId = other then (evidence? runId node snapshot other).toList else [] := by
  cases snapshot with
  | none => simp [ClosureTally.declare, evidence?]
  | some snapshot =>
    simp only [ClosureTally.declare, evidence?, Option.bind_some]
    by_cases counts : snapshot.status = "done" ∧ requirementId ∈ snapshot.requirementIds
    · rw [if_pos counts]
      by_cases same : requirementId = other
      · subst same
        simp [counts]
      · simp [same, Function.update_of_ne (Ne.symm same)]
    · rw [if_neg counts]
      by_cases same : requirementId = other
      · subst same
        simp [counts]
      · simp [same]

theorem declare_declared : (t.declare runId node snapshot requirementId).declared =
    if requirementId ∈ t.declared then t.declared else t.declared ++ [requirementId] := by
  cases snapshot with
  | none => rfl
  | some snapshot =>
    simp only [ClosureTally.declare]
    split <;> rfl

theorem mem_declare_declared {other : String} :
    other ∈ (t.declare runId node snapshot requirementId).declared ↔ other ∈ t.declared ∨ other = requirementId := by
  rw [declare_declared]
  split_ifs with known
  · exact ⟨.inl, fun held => held.elim id fun same => same ▸ known⟩
  · simp

theorem nodup_declare_declared (distinct : t.declared.Nodup) :
    (t.declare runId node snapshot requirementId).declared.Nodup := by
  rw [declare_declared]
  split_ifs with known
  · exact distinct
  · refine List.nodup_append.mpr ⟨distinct, List.nodup_singleton _, fun other member one single same => known ?_⟩
    rw [← List.mem_singleton.mp single, ← same]
    exact member

/-- The ids of one node. -/
theorem declare_all (ids : List String) (distinct : t.declared.Nodup) :
    let after := ids.foldl (ClosureTally.declare runId node snapshot) t
    (∀ other, after.covered other = t.covered other ++
      (ids.filter fun declared => decide (declared = other)).flatMap fun _ => (evidence? runId node snapshot other).toList) ∧
    (∀ other, other ∈ after.declared ↔ other ∈ t.declared ∨ other ∈ ids) ∧ after.declared.Nodup := by
  induction ids generalizing t with
  | nil => simpa using distinct
  | cons first rest ih =>
    have next : (t.declare runId node snapshot first).declared.Nodup := nodup_declare_declared distinct
    obtain ⟨covered, declared, nodup⟩ := ih next
    refine ⟨fun other => ?_, fun other => ?_, nodup⟩
    · rw [List.foldl_cons, covered other, declare_covered other]
      by_cases same : first = other
      · simp [same]
      · simp [same]
    · rw [List.foldl_cons, declared other, mem_declare_declared, List.mem_cons, or_assoc]

end Declare

/-- What a tally holds after some nodes. -/
structure Tallied (files : RunFiles) (visited : List (String × ContractNode)) (t : ClosureTally) : Prop where
  covered : ∀ requirementId, t.covered requirementId = visited.flatMap (evidenceOf files requirementId)
  declared : ∀ requirementId, requirementId ∈ t.declared ↔ ∃ entry ∈ visited, requirementId ∈ entry.2.requirementIds
  distinct : t.declared.Nodup

theorem Tallied.visit {visited : List (String × ContractNode)} {t : ClosureTally} (tallied : Tallied files visited t)
    (entry : String × ContractNode) : Tallied files (visited ++ [entry]) (t.visit files entry) := by
  obtain ⟨covered, declared, nodup⟩ := @declare_all entry.1 entry.2.id (files.snapshot entry.1 entry.2.id) t
    entry.2.requirementIds tallied.distinct
  refine ⟨fun requirementId => ?_, fun requirementId => ?_, nodup⟩
  · rw [ClosureTally.visit, covered, tallied.covered, List.flatMap_append, List.flatMap_singleton]
    rfl
  · rw [ClosureTally.visit, declared, tallied.declared]
    simp [or_and_right, exists_or]

theorem tallied_linkedNodes : Tallied files (linkedNodes files linkedRunIds) (requirementTally files linkedRunIds) := by
  have fold (nodes : List (String × ContractNode)) {visited : List (String × ContractNode)} {t : ClosureTally}
      (tallied : Tallied files visited t) : Tallied files (visited ++ nodes) (nodes.foldl (ClosureTally.visit files) t) := by
    induction nodes generalizing visited t with
    | nil => simpa using tallied
    | cons entry rest ih => simpa using ih (tallied.visit entry)
  have start : Tallied files [] ⟨fun _ => [], []⟩ := ⟨fun _ => rfl, by simp, List.nodup_nil⟩
  exact fold (linkedNodes files linkedRunIds) start

/-! ## What a closure says -/

/-- A linked run declares a requirement. -/
def Declared (files : RunFiles) (linkedRunIds : List String) (requirementId : String) : Prop :=
  ∃ runId ∈ linkedRunIds, ∃ nodes, files.contract runId = some nodes ∧
    ∃ node ∈ nodes, node.id ≠ "" ∧ requirementId ∈ node.requirementIds

/-- A done node of a linked run declares a requirement, and its own snapshot carries it. -/
def Gives (files : RunFiles) (linkedRunIds : List String) (requirementId : String) (evidence : RequirementNodeEvidence) : Prop :=
  ∃ runId ∈ linkedRunIds, ∃ nodes, files.contract runId = some nodes ∧
    ∃ node ∈ nodes, node.id ≠ "" ∧ requirementId ∈ node.requirementIds ∧
      ∃ snapshot, files.snapshot runId node.id = some snapshot ∧ snapshot.status = "done" ∧
        requirementId ∈ snapshot.requirementIds ∧ evidence = ⟨runId, node.id, snapshot.passed, snapshot.verdict⟩

theorem declared_iff : Declared files linkedRunIds requirementId ↔
    ∃ entry ∈ linkedNodes files linkedRunIds, requirementId ∈ entry.2.requirementIds := by
  simp only [Declared, mem_linkedNodes, Prod.exists]
  constructor
  · rintro ⟨runId, linked, nodes, contract, node, member, named, declares⟩
    exact ⟨runId, node, ⟨linked, nodes, contract, member, named⟩, declares⟩
  · rintro ⟨runId, node, ⟨linked, nodes, contract, member, named⟩, declares⟩
    exact ⟨runId, linked, nodes, contract, node, member, named, declares⟩

theorem mem_evidenceOf {entry : String × ContractNode} {evidence : RequirementNodeEvidence} :
    evidence ∈ evidenceOf files requirementId entry ↔ requirementId ∈ entry.2.requirementIds ∧
      ∃ snapshot, files.snapshot entry.1 entry.2.id = some snapshot ∧ snapshot.status = "done" ∧
        requirementId ∈ snapshot.requirementIds ∧ evidence = ⟨entry.1, entry.2.id, snapshot.passed, snapshot.verdict⟩ := by
  cases found : files.snapshot entry.1 entry.2.id with
  | none => simp [evidenceOf, evidence?, found]
  | some snapshot =>
    by_cases counts : snapshot.status = "done" ∧ requirementId ∈ snapshot.requirementIds
    · simp [evidenceOf, evidence?, found, counts, eq_comm]
    · simp only [evidenceOf, evidence?, found, Option.bind_some, if_neg counts]
      simpa using fun _ done carried => absurd ⟨done, carried⟩ counts

theorem gives_iff {evidence : RequirementNodeEvidence} : Gives files linkedRunIds requirementId evidence ↔
    evidence ∈ (requirementTally files linkedRunIds).covered requirementId := by
  rw [tallied_linkedNodes.covered]
  simp only [List.mem_flatMap, mem_evidenceOf, mem_linkedNodes, Gives]
  constructor
  · rintro ⟨runId, linked, nodes, contract, node, member, named, declares, rest⟩
    exact ⟨(runId, node), ⟨linked, nodes, contract, member, named⟩, declares, rest⟩
  · rintro ⟨⟨runId, node⟩, ⟨linked, nodes, contract, member, named⟩, declares, rest⟩
    exact ⟨runId, linked, nodes, contract, node, member, named, declares, rest⟩

theorem requirementIds_closure :
    (buildRequirementClosure files linkedRunIds).map RequirementClosure.requirementId =
      sortTexts (requirementTally files linkedRunIds).declared := by
  rw [buildRequirementClosure, List.map_map]
  exact List.map_id _

theorem mem_requirementIds_closure :
    requirementId ∈ (buildRequirementClosure files linkedRunIds).map RequirementClosure.requirementId ↔
      Declared files linkedRunIds requirementId := by
  rw [requirementIds_closure, (sortTexts_perm _).mem_iff, tallied_linkedNodes.declared, declared_iff]

/-- The closure of a close has every requirement a linked run declares, once and sorted, with exactly the evidence its done
nodes give, and is the same in whatever order the runs were registered. -/
theorem closure_of_linked_runs (files : RunFiles) (linkedRunIds : List String) :
    let closure := buildRequirementClosure files linkedRunIds
    ((closure.map RequirementClosure.requirementId).Nodup ∧ (closure.map RequirementClosure.requirementId).Pairwise textLe) ∧
    (∀ requirementId, requirementId ∈ closure.map RequirementClosure.requirementId ↔
      Declared files linkedRunIds requirementId) ∧
    (∀ entry ∈ closure,
      (∀ evidence, evidence ∈ entry.nodes ↔ Gives files linkedRunIds entry.requirementId evidence) ∧
      (entry.status = .covered ↔ ∃ evidence, Gives files linkedRunIds entry.requirementId evidence)) ∧
    ∀ others, linkedRunIds.Perm others → buildRequirementClosure files others = closure := by
  refine ⟨?_, fun _ => mem_requirementIds_closure, fun entry member => ?_, fun others same => ?_⟩
  · rw [requirementIds_closure]
    exact ⟨(sortTexts_perm _).nodup_iff.mpr tallied_linkedNodes.distinct, sortTexts_sorted _⟩
  · obtain ⟨requirementId, -, rfl⟩ := List.mem_map.mp member
    refine ⟨fun _ => gives_iff.symm, ?_⟩
    simp only [gives_iff, ← List.length_pos_iff_exists_mem]
    split_ifs with given
    · exact ⟨fun _ => given, fun _ => rfl⟩
    · exact ⟨fun covered => absurd covered (by decide), fun some' => absurd some' given⟩
  · have nodes : linkedNodes files others = linkedNodes files linkedRunIds := by
      rw [linkedNodes, sortTexts_congr same.symm, ← linkedNodes]
    rw [buildRequirementClosure, requirementTally, nodes]
    rfl

end Faberun.CampaignRecord
