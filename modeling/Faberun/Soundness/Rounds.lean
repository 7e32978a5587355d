import Mathlib.Data.List.Nodup
import Faberun.Model.Plan.Rounds

/-! # What becomes of a critical finding

A critical finding on a node of the graded plan stays open until it is answered (`Tracked`): a review that merges it
keeps it or lowers it, and a revise keeps it unless it changes its node. The merge is by id, so this holds in the runs
where a finding that takes another's place is about the same node; the rounds end without a critical finding, so there
every objection was answered.
-/

namespace Faberun.Rounds

variable {s t : State}

/-! ## Merging -/

theorem mem_mergeFindings {carried incoming : List Finding} {finding : Finding} :
    finding ∈ mergeFindings carried incoming ↔
      KeyedLog.lastOf Finding.id (carried ++ incoming) finding.id = some finding := KeyedLog.mem_latest

/-- What a round holds of an id, in order. -/
def State.written (s : State) (review : Review) : List Finding :=
  s.findings ++ State.raised review ++ (s.invalidReview review ++ s.freezeFailure review ++ s.droppedWrites)

/-- A round merged in two steps keeps the last finding of every id. -/
theorem mem_settled (s : State) (review : Review) (finding : Finding) :
    finding ∈ mergeFindings (s.withReview review) s.droppedWrites ↔
      KeyedLog.lastOf Finding.id (s.written review) finding.id = some finding := by
  rw [mem_mergeFindings]
  cases output : review.findings with
  | ok findings =>
    simp only [State.withReview, State.written, State.raised, State.invalidReview, output, mergeFindings,
      KeyedLog.lastOf_append, KeyedLog.lastOf_latest, List.nil_append, Option.or_assoc]
  | error error =>
    simp only [State.withReview, State.written, State.raised, State.invalidReview, output, List.append_nil,
      List.append_assoc]

/-- Something is held under the id of every finding a round wrote. -/
theorem settled_of_written (s : State) (review : Review) {finding : Finding} (member : finding ∈ s.written review) :
    ∃ other, KeyedLog.lastOf Finding.id (s.written review) finding.id = some other ∧ other.id = finding.id ∧
      other ∈ s.written review ∧ other ∈ mergeFindings (s.withReview review) s.droppedWrites := by
  obtain ⟨other, last⟩ := Option.isSome_iff_exists.mp (KeyedLog.lastOf_isSome Finding.id member)
  have same := KeyedLog.key_of_lastOf last
  refine ⟨other, last, same, KeyedLog.mem_of_lastOf last, (mem_settled s review other).mpr ?_⟩
  rw [same]
  exact last

/-- The findings of the pipeline itself are critical. -/
theorem own_critical (s : State) (review : Review) (drops : ∀ finding ∈ s.droppedWrites, finding.severity = .critical)
    {finding : Finding} (member : finding ∈ s.invalidReview review ++ s.freezeFailure review ++ s.droppedWrites) :
    finding.severity = .critical := by
  rcases List.mem_append.mp member with own | dropped
  · rcases List.mem_append.mp own with invalid | freeze
    · cases output : review.findings with
      | ok findings => simp [State.invalidReview, output] at invalid
      | error error =>
        simp only [State.invalidReview, output, List.mem_singleton] at invalid
        exact invalid ▸ rfl
    · cases failed : review.failure with
      | none => simp [State.freezeFailure, failed] at freeze
      | some error =>
        simp only [State.freezeFailure, failed, List.mem_singleton] at freeze
        exact freeze ▸ rfl
  · exact drops finding dropped

/-- A finding of the pipeline itself leaves a critical one under its id. -/
theorem own_settled (s : State) (review : Review) (drops : ∀ finding ∈ s.droppedWrites, finding.severity = .critical)
    {finding : Finding} (member : finding ∈ s.invalidReview review ++ s.freezeFailure review ++ s.droppedWrites) :
    ∃ other ∈ mergeFindings (s.withReview review) s.droppedWrites, other.severity = .critical := by
  obtain ⟨other, last⟩ := Option.isSome_iff_exists.mp (KeyedLog.lastOf_isSome Finding.id member)
  have same := KeyedLog.key_of_lastOf last
  refine ⟨other, (mem_settled s review other).mpr ?_, own_critical s review drops (KeyedLog.mem_of_lastOf last)⟩
  rw [State.written, KeyedLog.lastOf_append, same, last]
  rfl

theorem droppedWriteFindings_critical {previousPlan revisedPlan : Option Plan} {onDisk : String → Bool}
    {finding : Finding} (member : finding ∈ droppedWriteFindings previousPlan revisedPlan onDisk) :
    finding.severity = .critical := by
  unfold droppedWriteFindings at member
  split at member
  · obtain ⟨node, -, member⟩ := List.mem_flatMap.mp member
    unfold droppedWritesOf at member
    split at member
    · exact nomatch member
    · obtain ⟨entry, -, rfl⟩ := List.mem_map.mp member
      rfl
  · exact nomatch member

/-! ## Repairs and revises -/

/-- Repairs keep the nodes a plan has. -/
theorem node?_apply (repairs : Repairs) (plan : Plan) (id : String) :
    (repairs.apply plan).node? id = (plan.node? id).map repairs.node := by
  unfold Plan.node? Repairs.apply
  generalize plan.nodes = nodes
  induction nodes using List.reverseRecOn with
  | nil => rfl
  | append_singleton nodes last ih =>
    rw [List.map_append, List.map_singleton, KeyedLog.lastOf_concat, KeyedLog.lastOf_concat, repairs.keepsId, ih]
    split_ifs <;> rfl

/-- A finding a revise drops had its node changed or removed. -/
theorem mem_unresolvedFindings {findings : List Finding} {before : Option Plan} {after : Plan} {finding : Finding}
    (member : finding ∈ findings) (present : ((before.bind fun plan => plan.node? finding.nodeId)).isSome)
    (same : (before.bind fun plan => plan.node? finding.nodeId) = after.node? finding.nodeId) :
    finding ∈ unresolvedFindings findings before (some after) := by
  refine List.mem_filter.mpr ⟨member, ?_⟩
  rw [← same, present, decide_eq_true rfl]
  rfl

/-! ## Open and answered objections -/

/-- A critical finding with the id and the node is still held, and the plan has the node. -/
def State.Holds (s : State) (finding : Finding) : Prop :=
  (∃ other ∈ s.findings, other.id = finding.id ∧ other.nodeId = finding.nodeId ∧ other.severity = .critical) ∧
    (s.plan.bind fun plan => plan.node? finding.nodeId).isSome

/-- Every objection was answered since, or is still held. -/
def State.Tracked (s : State) : Prop :=
  ∀ earlier event later finding, s.history = earlier ++ event :: later → event.objects finding →
    (∃ answer ∈ later, answer.answers finding) ∨ s.Holds finding

/-- What holds of the rounds. -/
structure Inv (s : State) : Prop where
  tracked : s.Tracked
  drops : ∀ finding ∈ s.droppedWrites, finding.severity = .critical
  unreviewed : s.plan = none → s.history = []
  distinct : s.stage = .revising ∨ (s.stage = .reviewing ∧ s.history ≠ []) → (s.findings.map Finding.id).Nodup
  ended : s.stage = .resolved → criticals s.findings = []
  graded : ∀ plan, s.stage = .resolved → s.plan = some plan → Graded s.history plan

theorem Initial.inv (initial : Initial s) : Inv s := by
  obtain ⟨-, -, drops, -, -, stage, history⟩ := initial
  refine ⟨?_, ?_, fun _ => history, ?_, ?_, ?_⟩
  · intro earlier event later finding split
    rw [history] at split
    exact absurd split (by simp)
  · simp [drops]
  · simp [stage, history]
  · rw [stage]
    exact nofun
  · rw [stage]
    exact nofun

/-- The last event of a history is it or stands after what happened before. -/
private theorem split_concat {history earlier later : List Event} {last event : Event}
    (split : history ++ [last] = earlier ++ event :: later) :
    (later = [] ∧ event = last ∧ earlier = history) ∨
      ∃ between, later = between ++ [last] ∧ history = earlier ++ event :: between := by
  rcases List.eq_nil_or_concat later with rfl | ⟨between, final, rfl⟩
  · obtain ⟨same, one⟩ := List.append_inj' split rfl
    exact .inl ⟨rfl, (List.cons.inj one).1.symm, same.symm⟩
  · rw [List.concat_eq_append, ← List.cons_append, ← List.append_assoc] at split
    obtain ⟨same, one⟩ := List.append_inj' split rfl
    exact .inr ⟨between, by rw [List.concat_eq_append, (List.cons.inj one).1], same⟩

/-! ## Steps -/

/-- A round that was merged: wherever it goes it holds the merged findings. -/
structure Settles (s t : State) (merged : List Finding) : Prop where
  plan : t.plan = s.plan
  history : t.history = s.history
  drops : t.droppedWrites = s.droppedWrites
  keeps : ∀ finding ∈ merged, finding ∈ t.findings
  goes : t.stage = .reviewing ∨ t.stage = .revising → t.findings = merged
  ends : t.stage = .resolved → t.findings = merged ∧ criticals merged = []

theorem settleMerged_settles (s : State) (merged : List Finding) (previous : Option Nat) (counts : List Nat) :
    Settles s (s.settleMerged merged previous counts) merged := by
  unfold State.settleMerged
  split_ifs with none
  · exact ⟨rfl, rfl, rfl, fun _ member => member, fun _ => rfl, fun _ => ⟨rfl, none⟩⟩
  · exact ⟨rfl, rfl, rfl, fun _ member => List.mem_append_left _ member, by simp, by simp⟩
  · exact ⟨rfl, rfl, rfl, fun _ member => member, by simp, by simp⟩
  · exact ⟨rfl, rfl, rfl, fun _ member => member, fun _ => rfl, by simp⟩

theorem settle_settles (s : State) (reviewed : Bool) (findings : List Finding) :
    Settles s (s.settle reviewed findings) (mergeFindings findings s.droppedWrites) := by
  cases reviewed with
  | true => exact settleMerged_settles ..
  | false => exact settleMerged_settles ..

/-- What is held under the id of a critical finding of a round is about its node. -/
private theorem kept {review : Review} (keeps : KeepsObjections s (.review review)) {finding : Finding}
    (member : finding ∈ s.findings ++ State.raised review) (critical : finding.severity = .critical) :
    ∃ other, other ∈ s.written review ∧ other ∈ mergeFindings (s.withReview review) s.droppedWrites ∧
      KeyedLog.lastOf Finding.id (s.written review) finding.id = some other ∧ other.id = finding.id ∧
      other.nodeId = finding.nodeId ∧ (finding ∈ State.raised review → other.severity = .critical) := by
  obtain ⟨other, last, same, written, merged⟩ := settled_of_written s review (List.mem_append_left _ member)
  obtain ⟨node, raised⟩ := keeps finding member critical other last
  exact ⟨other, written, merged, last, same, node, raised⟩

/-- A critical finding held before a review is held after it or lowered by it. -/
private theorem carried_through {review : Review} (keeps : KeepsObjections s (.review review))
    (drops : ∀ finding ∈ s.droppedWrites, finding.severity = .critical)
    (distinct : (s.findings.map Finding.id).Nodup) {finding : Finding} (member : finding ∈ s.findings)
    (critical : finding.severity = .critical) :
    (∃ other ∈ State.raised review, other.id = finding.id ∧ other.nodeId = finding.nodeId ∧
      other.severity ≠ .critical) ∨
    ∃ other ∈ mergeFindings (s.withReview review) s.droppedWrites, other.id = finding.id ∧
      other.nodeId = finding.nodeId ∧ other.severity = .critical := by
  obtain ⟨other, written, merged, last, same, node, -⟩ := kept keeps (List.mem_append_left _ member) critical
  by_cases lowered : other.severity = .critical
  · exact .inr ⟨other, merged, same, node, lowered⟩
  · refine .inl ⟨other, ?_, same, node, lowered⟩
    rcases List.mem_append.mp written with before | own
    · rcases List.mem_append.mp before with carried | raised
      · have equal : other = finding := List.inj_on_of_nodup_map distinct carried member same
        exact absurd (equal ▸ critical) lowered
      · exact raised
    · exact absurd (own_critical s review drops own) lowered

private theorem criticals_nil {findings : List Finding} (none : criticals findings = []) {finding : Finding}
    (member : finding ∈ findings) : finding.severity ≠ .critical := by
  intro critical
  have left : finding ∈ criticals findings := List.mem_filter.mpr ⟨member, decide_eq_true critical⟩
  rw [none] at left
  exact nomatch left

private theorem Inv.review (inv : Inv s) {plan : Plan} (here : s.plan = some plan) (stage : s.stage = .reviewing)
    {review : Review} (keeps : KeepsObjections s (.review review)) : Inv (s.review plan review) := by
  have settles := settle_settles { s with
    plan := some (review.repairs.apply plan)
    history := s.history ++ [.reviewed (review.repairs.apply plan) (State.raised review) review.failure] } true
    (s.withReview review)
  set graded := review.repairs.apply plan with repaired
  change Settles _ (s.review plan review) (mergeFindings (s.withReview review) s.droppedWrites) at settles
  have presence (id : String) (some : (s.plan.bind fun plan => plan.node? id).isSome) : (graded.node? id).isSome := by
    rw [here] at some
    rw [repaired, node?_apply, Option.isSome_map]
    exact some
  have later {finding other : Finding} (merged : other ∈ mergeFindings (s.withReview review) s.droppedWrites)
      (id : other.id = finding.id) (node : other.nodeId = finding.nodeId) (critical : other.severity = .critical)
      (present : (graded.node? finding.nodeId).isSome) : (s.review plan review).Holds finding :=
    ⟨⟨other, settles.keeps other merged, id, node, critical⟩, by rw [settles.plan]; exact present⟩
  refine ⟨?_, ?_, ?_, ?_, ?_, ?_⟩
  · intro earlier event after finding split objects
    rw [settles.history] at split
    rcases split_concat split with ⟨rfl, rfl, -⟩ | ⟨between, rfl, before⟩
    · obtain ⟨raised, critical, present⟩ := objects
      obtain ⟨other, -, merged, -, id, node, lowered⟩ := kept keeps (List.mem_append_right _ raised) critical
      exact .inr (later merged id node (lowered raised) present)
    · rcases inv.tracked earlier event between finding before objects with ⟨answer, member, answers⟩ | ⟨held, some⟩
      · exact .inl ⟨answer, List.mem_append_left _ member, answers⟩
      · obtain ⟨mine, member, id, node, critical⟩ := held
        have distinct := inv.distinct (.inr ⟨stage, by rw [before]; simp⟩)
        rcases carried_through keeps inv.drops distinct member critical with
          ⟨other, raised, otherId, otherNode, lowered⟩ | ⟨other, merged, otherId, otherNode, still⟩
        · exact .inl ⟨_, List.mem_append_right _ List.mem_cons_self, other, raised, otherId.trans id,
            otherNode.trans node, lowered⟩
        · exact .inr (later merged (otherId.trans id) (otherNode.trans node) still (presence _ some))
  · rw [settles.drops]
    exact inv.drops
  · rw [settles.plan]
    exact nofun
  · intro goes
    rw [settles.goes (goes.symm.imp And.left id)]
    exact KeyedLog.nodup_map_latest _
  · intro resolved
    obtain ⟨same, none⟩ := settles.ends resolved
    rw [same]
    exact none
  · intro final resolved isFinal
    rw [settles.plan] at isFinal
    obtain rfl := Option.some.inj isFinal
    refine ⟨s.history, State.raised review, ?_⟩
    rw [settles.history]
    cases failed : review.failure with
    | none => rfl
    | some error =>
      have own : invalidPlanFinding s!"freeze-r{s.round}" error ∈ s.freezeFailure review := by
        simp [State.freezeFailure, failed]
      obtain ⟨other, merged, critical⟩ :=
        own_settled s review inv.drops (List.mem_append_left _ (List.mem_append_right _ own))
      exact absurd critical (criticals_nil (settles.ends resolved).2 merged)

/-- No plan was graded while there is none. -/
private theorem Inv.skip (inv : Inv s) (absent : s.plan = none) : Inv (s.settle false s.findings) := by
  have unreviewed := inv.unreviewed absent
  have settles := settle_settles s false s.findings
  refine ⟨?_, ?_, ?_, ?_, ?_, ?_⟩
  · intro earlier event later finding split
    rw [settles.history, unreviewed] at split
    exact absurd split (by simp)
  · rw [settles.drops]
    exact inv.drops
  · rw [settles.history]
    exact fun _ => unreviewed
  · intro goes
    rw [settles.goes (goes.symm.imp And.left id)]
    exact KeyedLog.nodup_map_latest _
  · intro resolved
    obtain ⟨same, none⟩ := settles.ends resolved
    rw [same]
    exact none
  · intro plan _ here
    rw [settles.plan, absent] at here
    exact nomatch here

private theorem Inv.revise (inv : Inv s) (stage : s.stage = .revising) (revise : Revise) : Inv (s.revise revise) := by
  unfold State.revise
  split
  · rename_i refused _
    refine ⟨?_, inv.drops, inv.unreviewed, by simp, by simp, by simp⟩
    intro earlier event later finding split objects
    refine (inv.tracked earlier event later finding split objects).imp id ?_
    rintro ⟨⟨other, member, same⟩, present⟩
    exact ⟨⟨other, List.mem_append_left _ member, same⟩, present⟩
  · rename_i plan _
    refine ⟨?_, fun _ member => droppedWriteFindings_critical member, nofun, ?_, by simp, by simp⟩
    · intro earlier event later finding split objects
      rcases split_concat split with ⟨-, rfl, -⟩ | ⟨between, rfl, before⟩
      · exact absurd objects id
      · rcases inv.tracked earlier event between finding before objects with ⟨answer, member, answers⟩ | ⟨held, some⟩
        · exact .inl ⟨answer, List.mem_append_left _ member, answers⟩
        · by_cases same : (s.plan.bind fun plan => plan.node? finding.nodeId) = plan.node? finding.nodeId
          · obtain ⟨other, member, otherId, node, critical⟩ := held
            have present : (plan.node? finding.nodeId).isSome := by rwa [← same]
            refine .inr ⟨⟨other, ?_, otherId, node, critical⟩, present⟩
            rw [← node] at some same
            exact mem_unresolvedFindings member some same
          · exact .inl ⟨_, List.mem_append_right _ List.mem_cons_self, same⟩
    · intro _
      exact (inv.distinct (.inl stage)).sublist (List.filter_sublist.map _)

/-! ## Runs -/

/-- Every step under the condition keeps the objections. -/
theorem Inv.step (inv : Inv s) {label : Label} (keeps : KeepsObjections s label) (taken : s.step label = some t) :
    Inv t := by
  cases label with
  | review review =>
    simp only [State.step] at taken
    split at taken
    · rename_i plan stage here
      obtain rfl := Option.some.inj taken
      exact inv.review here stage keeps
    · exact nomatch taken
  | skip =>
    simp only [State.step] at taken
    split at taken
    · rename_i _ absent
      obtain rfl := Option.some.inj taken
      exact inv.skip absent
    · exact nomatch taken
  | revise revise =>
    simp only [State.step] at taken
    split_ifs at taken with stage
    obtain rfl := Option.some.inj taken
    exact inv.revise stage revise

theorem inv_of_reach (reach : machine.Reach KeepsObjections Initial s) : Inv s :=
  reach.invariant Inv (fun _ initial => initial.inv) fun _ _ _ inv keeps taken => inv.step keeps taken

/-- Rounds that resolve to a plan: it is the plan the last review graded and would freeze, and every critical finding
on one of its nodes was answered. -/
theorem runReviewRounds_answers (reach : machine.Reach KeepsObjections Initial s) {plan : Plan}
    (resolved : s.stage = .resolved) (final : s.plan = some plan) : Graded s.history plan ∧ Answered s.history := by
  have inv := inv_of_reach reach
  refine ⟨inv.graded plan resolved final, ?_⟩
  intro earlier event later finding split objects
  rcases inv.tracked earlier event later finding split objects with answered | ⟨⟨other, member, -, -, critical⟩, -⟩
  · exact answered
  · exact absurd critical (criticals_nil (inv.ended resolved) member)

/-! ## Two rounds over two nodes -/

/-- A draft of the nodes `a` and `b` that still has `rounds` rounds to go. -/
def drafted (rounds : Nat) (draft : Plan) : State := ⟨rounds, 1, some draft, [], [], [], 0, .reviewing, []⟩

private theorem drafted_initial {rounds : Nat} (some : 1 ≤ rounds) (draft : Plan) : Initial (drafted rounds draft) :=
  ⟨some, rfl, rfl, rfl, rfl, rfl, rfl⟩

def twoNodes (first second : String) : Plan := ⟨[⟨"a", ["a.js"], first⟩, ⟨"b", ["b.js"], second⟩], ""⟩

/-- A review of a plan that would freeze and that no pre-flight repairs. -/
def graded (findings : List Finding) : Label := .review ⟨⟨fun node => node, fun _ => rfl, fun text => text⟩, none, .ok findings⟩

/-- A revise whose first attempt holds. -/
def rewritten (plan : Plan) : Label := .revise ⟨none, ⟨.ok plan, none⟩, none, .ok plan, fun _ => true⟩

def objection : Finding := ⟨"F1", .critical, "a", "no test covers the error path"⟩

/-- The node the review objected to is revised, and the next review agrees. -/
theorem runReviewRounds_answers_two :
    ∃ s, machine.replay? KeepsObjections (drafted 2 (twoNodes "old" "old"))
        [graded [objection], rewritten (twoNodes "new" "old"), graded []] = some s ∧
      Graded s.history (twoNodes "new" "old") ∧ Answered s.history :=
  Machine.exists_replay (fun s => s.stage = .resolved ∧ s.plan = some (twoNodes "new" "old"))
    (fun _ ran ends => runReviewRounds_answers (.of_replay (drafted_initial (by decide) _) _ ran) ends.1 ends.2)
    (by decide)

/-- The next review gives the open finding's id to a minor one on the other node: nobody answered the objection. -/
theorem runReviewRounds_forgets :
    ∃ s plan, machine.Reach Machine.free Initial s ∧ s.stage = .resolved ∧ s.plan = some plan ∧ ¬ Answered s.history := by
  have ran : ∃ s, machine.replay? Machine.free (drafted 2 (twoNodes "old" "old"))
      [graded [objection], rewritten (twoNodes "old" "new"), graded [⟨"F1", .minor, "b", "a name is unclear"⟩]] = some s ∧
        s.stage = .resolved ∧ s.plan = some (twoNodes "old" "new") ∧
        s.history = [.reviewed (twoNodes "old" "old") [objection] none,
          .revised (some (twoNodes "old" "old")) (some (twoNodes "old" "new")),
          .reviewed (twoNodes "old" "new") [⟨"F1", .minor, "b", "a name is unclear"⟩] none] :=
    Machine.exists_replay _ (fun _ _ held => held) (by decide)
  obtain ⟨s, ran, resolved, final, history⟩ := ran
  refine ⟨s, _, .of_replay (drafted_initial (by decide) _) _ ran, resolved, final, ?_⟩
  intro answered
  obtain ⟨answer, member, answers⟩ := answered [] _ _ objection history ⟨List.mem_cons_self, rfl, by decide⟩
  rcases List.mem_cons.mp member with rfl | member
  · exact answers (by decide)
  · obtain rfl := List.mem_singleton.mp member
    obtain ⟨other, raised, -, node, -⟩ := answers
    obtain rfl := List.mem_singleton.mp raised
    exact absurd node (by decide)

end Faberun.Rounds
