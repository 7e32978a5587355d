import Faberun.Machine.OnePass
import Faberun.Model.Engine.RetryPlan

/-! # What a resume re-opens

The second loop of the plan is one walk over the nodes as they are declared. It holds back every node that a chain of
waiting leads to in that order, and no other, so the plan closes over dependencies exactly when the order of the declarations
never hides a chain.
-/

namespace Faberun.RetryPlan

open OnePass

variable {κ : Type} {contract : Contract String κ} {states : String → Option RetryState} {options : ResumeOptions String}
  {clock : RetryClock}

/-- No node is re-opened while one it waited on is neither re-opened with it nor done. -/
def ClosesOver (states : String → Option RetryState) (plan : ResumePlan) : Prop :=
  ∀ id state, states id = some state → isDependencyFailed state.toRunNode = true → plan.actions id = some .retry →
    ∀ dependency ∈ state.blockedBy, plan.actions dependency = some .retry ∨ plan.actions dependency = some .rejudge ∨
      ∃ other, states dependency = some other ∧ other.status = .done

/-- What a declared node with a state is classified as by itself. -/
def firstAction (contract : Contract String κ) (states : String → Option RetryState) (options : ResumeOptions String)
    (clock : RetryClock) (id : String) : Option ResumeAction :=
  if id ∈ contract.nodes.map ContractNode.id then (states id).map (classifyNode clock (targetsOf contract options) options id)
  else none

/-- What a node that is blocked on a failed dependency and would be retried waits on. -/
def waitsOn (states : String → Option RetryState) (actions : String → Option ResumeAction) (id : String) : List String :=
  match states id with
  | none => []
  | some state => if isDependencyFailed state.toRunNode = true ∧ actions id = some .retry then state.blockedBy else []

/-- Whatever waits on a node that is not retried, directly or through other waiting nodes, does so through nodes each
declared before the one that waits on it. -/
def WaitsInOrder (contract : Contract String κ) (states : String → Option RetryState) (options : ResumeOptions String)
    (clock : RetryClock) : Prop :=
  let actions := firstAction contract states options clock
  let leads := Leads (waitsOn states actions) (fun id => retriedToo states actions id = false)
  ∀ chain id, leads chain id → ∃ inOrder, leads inOrder id ∧ (inOrder ++ [id]).Sublist (contract.nodes.map ContractNode.id)

/-! ## The first loop -/

private theorem classifyInto_fold (nodes : List (ContractNode String κ)) (plan : ResumePlan) :
    (nodes.foldl (classifyInto states clock options) plan).targets = plan.targets ∧
      ∀ id, (nodes.foldl (classifyInto states clock options) plan).actions id =
        if id ∈ nodes.map ContractNode.id then
          ((states id).map (classifyNode clock plan.targets options id)).or (plan.actions id)
        else plan.actions id := by
  induction nodes using List.reverseRecOn with
  | nil => exact ⟨rfl, fun id => rfl⟩
  | append_singleton nodes node ih =>
    obtain ⟨targets, actions⟩ := ih
    rw [List.foldl_append, List.foldl_cons, List.foldl_nil]
    generalize nodes.foldl (classifyInto states clock options) plan = before at targets actions ⊢
    rw [classifyInto]
    cases found : states node.id with
    | none =>
      refine ⟨targets, fun id => ?_⟩
      rw [actions]
      by_cases same : id = node.id
      · subst same
        simp [found]
      · simp [same]
    | some state =>
      refine ⟨targets, fun id => ?_⟩
      by_cases same : id = node.id
      · subst same
        simp [found, targets]
      · simp [same, actions]

private theorem classifiedPlan_actions (contract : Contract String κ) (states : String → Option RetryState)
    (options : ResumeOptions String) (clock : RetryClock) :
    (classifiedPlan states contract options clock).actions = firstAction contract states options clock := by
  funext id
  rw [classifiedPlan, (classifyInto_fold contract.nodes _).2, firstAction, Option.or_none]

/-! ## The second loop -/

private theorem waitsOn_eq {actions : String → Option ResumeAction} {id dependency : String}
    (waiting : dependency ∈ waitsOn states actions id) : ∃ state, states id = some state ∧
      isDependencyFailed state.toRunNode = true ∧ actions id = some .retry ∧ dependency ∈ state.blockedBy := by
  rw [waitsOn] at waiting
  split at waiting
  · exact absurd waiting List.not_mem_nil
  · rename_i state found
    split_ifs at waiting with blocked
    · exact ⟨state, found, blocked.1, blocked.2, waiting⟩
    · exact absurd waiting List.not_mem_nil

private theorem waitsOn_of {actions : String → Option ResumeAction} {id : String} {state : RetryState}
    (found : states id = some state) (failed : isDependencyFailed state.toRunNode = true) (retried : actions id = some .retry) :
    waitsOn states actions id = state.blockedBy := by
  rw [waitsOn, found]
  exact if_pos ⟨failed, retried⟩

/-- The nodes a walk holds back. -/
private def heldBack (states : String → Option RetryState) (actions : String → Option ResumeAction) (order : List String) :
    List String :=
  walk (waitsOn states actions) (fun id => retriedToo states actions id = false) order

/-- The actions once some nodes are held back. -/
private def held (actions : String → Option ResumeAction) (ids : List String) (id : String) : Option ResumeAction :=
  if id ∈ ids then some .hold else actions id

private theorem held_retry {actions : String → Option ResumeAction} {ids : List String} {id : String} :
    held actions ids id = some .retry ↔ id ∉ ids ∧ actions id = some .retry := by
  rw [held]
  split_ifs with member <;> simp [member]

/-- A node that is held back waits on something, so it is not done. -/
private theorem not_done_of_held {actions : String → Option ResumeAction} {order : List String} {id : String} {state : RetryState}
    (member : id ∈ heldBack states actions order) (found : states id = some state) : state.status ≠ .done := by
  obtain ⟨chain, leads, -⟩ := mem_walk_iff.mp member
  obtain ⟨other, waiting⟩ : ∃ other, other ∈ waitsOn states actions id := by
    cases leads with
    | first waiting stop => exact ⟨_, waiting⟩
    | next before waiting => exact ⟨_, waiting⟩
  obtain ⟨same, here, failed, -, -⟩ := waitsOn_eq waiting
  obtain rfl : same = state := Option.some.inj (here.symm.trans found)
  intro done
  simp [isDependencyFailed, blockedWith, done] at failed

private theorem retriedToo_held {actions : String → Option ResumeAction} {order : List String} (id : String) :
    retriedToo states (held actions (heldBack states actions order)) id = true ↔
      id ∉ heldBack states actions order ∧ retriedToo states actions id = true := by
  by_cases member : id ∈ heldBack states actions order
  · simp only [retriedToo, held, member, if_true, not_true_eq_false, false_and, iff_false]
    intro retried
    rw [Bool.or_eq_true] at retried
    rcases retried with action | done
    · simp at action
    · obtain ⟨state, found, done⟩ := (Option.any_eq_true _ _).mp done
      exact not_done_of_held member found (of_decide_eq_true done)
  · simp only [retriedToo, held, member, if_false, not_false_eq_true, true_and]

private theorem all_retriedToo {actions : String → Option ResumeAction} {order ids : List String} :
    ids.all (retriedToo states (held actions (heldBack states actions order))) = true ↔
      ¬ ∃ other ∈ ids, retriedToo states actions other = false ∨ other ∈ heldBack states actions order := by
  rw [List.all_eq_true]
  constructor
  · rintro all ⟨other, member, stop | back⟩
    · exact Bool.false_ne_true (stop.symm.trans ((retriedToo_held other).mp (all other member)).2)
    · exact ((retriedToo_held other).mp (all other member)).1 back
  · intro free other member
    refine (retriedToo_held other).mpr ⟨fun back => free ⟨other, member, .inr back⟩, ?_⟩
    exact Bool.eq_true_of_not_eq_false fun stop => free ⟨other, member, .inl stop⟩

/-- One step of the second loop is one of the walk. -/
private theorem holdBack_step {actions : String → Option ResumeAction} {order : List String} {plan : ResumePlan}
    (sofar : plan.actions = held actions (heldBack states actions order)) (node : ContractNode String κ) :
    (holdBack states plan node).actions = held actions (heldBack states actions (order ++ [node.id])) := by
  have next (id : String) : id ∈ heldBack states actions (order ++ [node.id]) ↔ id ∈ heldBack states actions order ∨
      id = node.id ∧ ∃ other ∈ waitsOn states actions node.id, retriedToo states actions other = false ∨
        other ∈ heldBack states actions order := by
    rw [heldBack, walk_append, mem_hold, ← heldBack]
  have unchanged (kept : node.id ∈ heldBack states actions order ∨ ¬ ∃ other ∈ waitsOn states actions node.id,
      retriedToo states actions other = false ∨ other ∈ heldBack states actions order) :
      plan.actions = held actions (heldBack states actions (order ++ [node.id])) := by
    rw [sofar]
    funext id
    refine if_congr ?_ rfl rfl
    rw [next]
    refine (or_iff_left_of_imp ?_).symm
    rintro ⟨rfl, blocked⟩
    exact kept.resolve_right fun free => free blocked
  have nothing (none : waitsOn states actions node.id = []) : ¬ ∃ other ∈ waitsOn states actions node.id,
      retriedToo states actions other = false ∨ other ∈ heldBack states actions order := by
    rintro ⟨other, member, -⟩
    exact List.not_mem_nil (none ▸ member)
  rw [holdBack]
  split
  · rename_i absent
    exact unchanged (.inr (nothing (by rw [waitsOn, absent])))
  · rename_i state found
    split_ifs with passed retried
    · refine unchanged ?_
      by_cases member : node.id ∈ heldBack states actions order
      · exact .inl member
      · refine .inr (nothing ?_)
        rw [waitsOn, found]
        refine if_neg fun waiting => ?_
        rcases passed with ordinary | other
        · exact Bool.false_ne_true (ordinary.symm.trans waiting.1)
        · rw [sofar, held, if_neg member] at other
          exact other waiting.2
    all_goals
      obtain ⟨failed, retry⟩ := not_or.mp passed
      rw [sofar, ne_eq, not_not, held_retry] at retry
      rw [Bool.not_eq_false] at failed
      have waited := waitsOn_of found failed retry.2
      rw [sofar, all_retriedToo] at retried
      rw [← waited] at retried
    · exact unchanged (.inr retried)
    · funext id
      rw [sofar, held]
      dsimp only
      by_cases same : id = node.id
      · subst same
        rw [Function.update_self, if_pos ((next node.id).mpr (.inr ⟨rfl, not_not.mp retried⟩))]
      · rw [Function.update_of_ne same]
        exact if_congr ((next id).trans (or_iff_left fun last => same last.1)).symm rfl rfl

private theorem holdBack_fold (nodes : List (ContractNode String κ)) (plan : ResumePlan) :
    (nodes.foldl (holdBack states) plan).actions =
      held plan.actions (heldBack states plan.actions (nodes.map ContractNode.id)) := by
  induction nodes using List.reverseRecOn with
  | nil => rfl
  | append_singleton nodes node ih =>
    rw [List.foldl_append, List.foldl_cons, List.foldl_nil, List.map_append, List.map_singleton]
    exact holdBack_step ih node

private theorem planResumeRetry_actions (contract : Contract String κ) (states : String → Option RetryState)
    (options : ResumeOptions String) (clock : RetryClock) :
    (planResumeRetry states contract options clock).actions = held (firstAction contract states options clock)
      (heldBack states (firstAction contract states options clock) (contract.nodes.map ContractNode.id)) := by
  rw [planResumeRetry, holdBack_fold, classifiedPlan_actions]

/-! ## What the plan closes over -/

private theorem retriedToo_iff {actions : String → Option ResumeAction} {id : String} : retriedToo states actions id = true ↔
    actions id = some .retry ∨ actions id = some .rejudge ∨ ∃ state, states id = some state ∧ state.status = .done := by
  rw [retriedToo, Bool.or_eq_true, decide_eq_true_eq, Option.any_eq_true, or_assoc]
  simp only [decide_eq_true_eq]

/-- The plan of a resume closes over dependencies exactly when every chain of waiting can be followed in the order the nodes
are declared. -/
theorem planResumeRetry_closes (contract : Contract String κ) (states : String → Option RetryState)
    (options : ResumeOptions String) (clock : RetryClock) :
    ClosesOver states (planResumeRetry states contract options clock) ↔ WaitsInOrder contract states options clock := by
  rw [WaitsInOrder, ← closed_iff, ClosesOver, planResumeRetry_actions]
  simp only [← retriedToo_iff]
  generalize firstAction contract states options clock = actions
  generalize contract.nodes.map ContractNode.id = order
  constructor
  · intro closes id left dependency waiting
    obtain ⟨state, found, failed, retry, member⟩ := waitsOn_eq waiting
    have retried := closes id state found failed (held_retry.mpr ⟨left, retry⟩) dependency member
    obtain ⟨free, open'⟩ := (retriedToo_held dependency).mp retried
    exact ⟨fun stop => Bool.false_ne_true (stop.symm.trans open'), free⟩
  · intro closed id state found failed retry dependency member
    obtain ⟨left, first⟩ := held_retry.mp retry
    obtain ⟨free, stays⟩ := closed id left dependency (waitsOn_of found failed first ▸ member)
    exact (retriedToo_held dependency).mpr ⟨stays, Bool.eq_true_of_not_eq_false free⟩

/-- A dependant declared before what it waits on. -/
private def reversedChain : Contract String Unit where
  nodes := [⟨"c", ["b"], none, []⟩, ⟨"b", ["a"], none, []⟩, ⟨"a", [], none, []⟩]
  sharedVerification := none
  finalVerification := none
  nonempty := nofun
  nodup := by decide
  known := by decide
  acyclic := ⟨fun id => if id = "c" then 2 else if id = "b" then 1 else 0, by decide⟩

private def blockedOn (code : String) (blockedBy : List String) : RetryState where
  status := .blocked
  phase := .dependency
  error := some ⟨code, ""⟩
  blockedBy := blockedBy
  result := false
  backoff := false
  quotaReset := false
  sealed := false
  updatedAt := none
  startedAt := none
  exhaustedUntil := []

/-- The stop boundary holds the first node, and the two behind it wait. -/
private def heldChain (id : String) : Option RetryState :=
  if id = "a" then some (blockedOn "unknown_effect_reconciled" [])
  else if id = "b" then some (blockedOn "dependency_failed" ["a"])
  else if id = "c" then some (blockedOn "dependency_failed" ["b"])
  else none

/-- The last node of the chain is re-opened while the one it waited on is held. -/
theorem reversed_chain_reopened : ¬ ClosesOver heldChain (planResumeRetry heldChain reversedChain ⟨none, none, none⟩
    ⟨fun _ => none, 0, fun _ => ""⟩) := by
  intro closes
  have retried := closes "c" (blockedOn "dependency_failed" ["b"]) rfl rfl (by decide) "b" List.mem_cons_self
  revert retried
  have back : (planResumeRetry heldChain reversedChain ⟨none, none, none⟩ ⟨fun _ => none, 0, fun _ => ""⟩).actions "b" =
      some .hold := by decide
  rintro (retry | rejudge | ⟨state, found, done⟩)
  · exact nomatch back.symm.trans retry
  · exact nomatch back.symm.trans rejudge
  · obtain rfl := Option.some.inj found
    cases done

/-! ## The plan of the loop -/

private theorem classify_agrees {contract : Contract String κ} {states : String → RetryState} {options : ResumeOptions String}
    (named : options.node ≠ some "" ∧ options.answer ≠ some "") (id : String) :
    classifyNode clock (targetsOf contract options) options id (states id) =
      classify (options.targets contract) options (tierWait clock (states id)) id (states id).toRunNode := by
  have same : targetsOf contract options = options.targets contract := by
    obtain ⟨node, reconcile, answer⟩ := options
    obtain ⟨first, second⟩ := named
    rw [targetsOf, ResumeOptions.targets]
    congr 1
    cases node with
    | some value => exact Option.filter_some_pos (decide_eq_true fun none => first (none ▸ rfl))
    | none =>
      cases answer with
      | some value => exact Option.filter_some_pos (decide_eq_true fun none => second (none ▸ rfl))
      | none => rfl
  rw [classifyNode, same]

private theorem fold_agrees {contract : Contract String κ} {states : String → RetryState}
    (declared : ∀ id, ∀ dependency ∈ (states id).blockedBy, dependency ∈ contract.nodes.map ContractNode.id)
    {nodes : List (ContractNode String κ)} (within : nodes ⊆ contract.nodes) {plan : ResumePlan} {actions : String → ResumeAction}
    (agree : ∀ id ∈ contract.nodes.map ContractNode.id, plan.actions id = some (actions id)) :
    ∀ id ∈ contract.nodes.map ContractNode.id, (nodes.foldl (holdBack fun id => some (states id)) plan).actions id =
      some (nodes.foldl (fun actions node =>
        if isDependencyFailed (states node.id).toRunNode ∧ actions node.id = .retry then
          if (states node.id).blockedBy.all fun id =>
              decide (actions id = .retry ∨ actions id = .rejudge ∨ (states id).status = .done) then actions
          else Function.update actions node.id .hold
        else actions) actions id) := by
  induction nodes generalizing plan actions with
  | nil => exact agree
  | cons node rest ih =>
    obtain ⟨here, later⟩ := List.cons_subset.mp within
    refine ih later ?_
    have own := agree node.id (List.mem_map_of_mem here)
    have same : (states node.id).blockedBy.all (retriedToo (fun id => some (states id)) plan.actions) =
        (states node.id).blockedBy.all fun id =>
          decide (actions id = .retry ∨ actions id = .rejudge ∨ (states id).status = .done) := by
      rw [Bool.eq_iff_iff, List.all_eq_true, List.all_eq_true]
      refine forall₂_congr fun id member => ?_
      rw [retriedToo, agree id (declared node.id id member)]
      simp [or_assoc]
    have passed : (isDependencyFailed (states node.id).toRunNode = false ∨ plan.actions node.id ≠ some .retry) ↔
        ¬ (isDependencyFailed (states node.id).toRunNode = true ∧ actions node.id = .retry) := by
      rw [own, not_and_or, Bool.not_eq_true, ne_eq, Option.some_inj]
    intro id member
    simp only [holdBack, passed, same]
    by_cases waiting : isDependencyFailed (states node.id).toRunNode = true ∧ actions node.id = .retry
    · rw [if_neg (not_not.mpr waiting), if_pos waiting]
      split_ifs with retried
      · exact agree id member
      · by_cases last : id = node.id
        · subst last
          rw [Function.update_self]
          exact Function.update_self ..
        · rw [Function.update_of_ne last, ← agree id member]
          exact Function.update_of_ne last ..
    · rw [if_pos waiting, if_neg waiting]
      exact agree id member

/-- On nodes that all have a state, the plan acts as the loop's model of it does. -/
theorem planResumeRetry_agrees {contract : Contract String κ} {states : String → RetryState} {options : ResumeOptions String}
    (named : options.node ≠ some "" ∧ options.answer ≠ some "")
    (declared : ∀ id, ∀ dependency ∈ (states id).blockedBy, dependency ∈ contract.nodes.map ContractNode.id) :
    ∀ id ∈ contract.nodes.map ContractNode.id,
      (planResumeRetry (fun id => some (states id)) contract options clock).actions id =
        some (Faberun.planResumeRetry contract (fun id => (states id).toRunNode) options
          (fun id => tierWait clock (states id)) id) := by
  rw [planResumeRetry, Faberun.planResumeRetry]
  refine @fold_agrees κ contract states declared contract.nodes (List.Subset.refl _) _ _ ?_
  intro id member
  rw [classifiedPlan_actions, firstAction, if_pos member, Option.map_some, classify_agrees named]

end Faberun.RetryPlan
