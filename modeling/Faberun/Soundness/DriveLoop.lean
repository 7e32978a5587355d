import Mathlib.Algebra.Order.BigOperators.Group.List
import Mathlib.Algebra.Order.Group.Nat
import Faberun.Model.Engine.DriveLoop

/-! # The control loop does not spin

A node counts one while it is not settled and two while its automatic retry is unspent. No step of a
controller raises the sum, and a tick that starts with nothing attended and nothing held lowers it: it
parks a node nobody runs, re-opens one for its one retry, or blocks one behind a parked dependency.
-/

namespace Faberun.DriveLoop

variable {ν κ : Type}

/-! ## The passes over the snapshots -/

section Passes

variable [DecidableEq ν] [ToString ν] {states : ν → RunNode ν} {id : ν}

/-- Only a pending node is blocked. -/
theorem blockDependent_eq_or (states : ν → RunNode ν) (node : ContractNode ν κ) (id : ν) :
    blockDependent states node id = states id ∨
      (states id).status = .pending ∧ (blockDependent states node id).status = .blocked := by
  by_cases pending : (states node.id).status = .pending
  · by_cases none : node.dependsOn.filter (fun id => (states id).status.parked) = []
    · simp only [blockDependent, pending, none, if_true, true_or]
    · simp only [blockDependent, pending, none, if_true, if_false]
      rcases eq_or_ne id node.id with rfl | differs
      · exact .inr ⟨pending, by rw [Function.update_self]⟩
      · exact .inl (Function.update_of_ne differs _ _)
  · simp only [blockDependent, pending, if_false, true_or]

/-- A pending node behind a parked dependency is blocked. -/
theorem blockDependent_of_parked {node : ContractNode ν κ} (pending : (states node.id).status = .pending)
    (parked : ∃ id ∈ node.dependsOn, (states id).status.parked = true) :
    (blockDependent states node node.id).status = .blocked := by
  obtain ⟨id, depends, parked⟩ := parked
  have some : node.dependsOn.filter (fun id => (states id).status.parked) ≠ [] :=
    List.ne_nil_of_mem (List.mem_filter.mpr ⟨depends, parked⟩)
  simp [blockDependent, pending, some]

theorem foldl_blockDependent_eq_or (nodes : List (ContractNode ν κ)) (states : ν → RunNode ν) (id : ν) :
    nodes.foldl blockDependent states id = states id ∨
      (states id).status = .pending ∧ (nodes.foldl blockDependent states id).status = .blocked := by
  induction nodes generalizing states with
  | nil => exact .inl rfl
  | cons node rest ih =>
    rw [List.foldl_cons]
    rcases blockDependent_eq_or states node id with same | ⟨pending, blocked⟩
    · rw [← same]
      exact ih _
    · rcases ih (blockDependent states node) with same | ⟨again, _⟩
      · exact .inr ⟨pending, by rw [same, blocked]⟩
      · exact absurd (blocked.symm.trans again) nofun

/-- What is not pending stays. -/
theorem foldl_blockDependent_of_not_pending (nodes : List (ContractNode ν κ)) (other : (states id).status ≠ .pending) :
    nodes.foldl blockDependent states id = states id := by
  rcases foldl_blockDependent_eq_or nodes states id with same | ⟨pending, _⟩
  · exact same
  · exact absurd pending other

theorem foldl_blockDependent_of_parked (nodes : List (ContractNode ν κ)) {node : ContractNode ν κ}
    (member : node ∈ nodes) (pending : (states node.id).status = .pending)
    (parked : ∃ id ∈ node.dependsOn, (states id).status.parked = true) :
    (nodes.foldl blockDependent states node.id).status = .blocked := by
  induction nodes generalizing states with
  | nil => cases member
  | cons head rest ih =>
    rw [List.foldl_cons]
    have stays (id : ν) (blocked : (blockDependent states head id).status = .blocked) :
        (rest.foldl blockDependent (blockDependent states head) id).status = .blocked := by
      rw [foldl_blockDependent_of_not_pending rest (by simp [blocked]), blocked]
    rcases List.mem_cons.mp member with rfl | inRest
    · exact stays node.id (blockDependent_of_parked pending parked)
    · rcases blockDependent_eq_or states head node.id with same | ⟨_, blocked⟩
      · refine ih inRest (by rw [same, pending]) ?_
        obtain ⟨id, depends, parked⟩ := parked
        refine ⟨id, depends, ?_⟩
        rcases blockDependent_eq_or states head id with same | ⟨waits, _⟩
        · rw [same, parked]
        · simp [waits, NodeStatus.parked] at parked
      · exact stays node.id blocked

omit [DecidableEq ν] [ToString ν] in
/-- A parked node is re-opened at the cost of its retry, or nothing happens to it. -/
theorem autoRetryParked_cases (previouslyParked consumed : Bool) (state : RunNode ν) :
    autoRetryParked previouslyParked consumed state = (state, consumed) ∨
      state.status.parked = true ∧ consumed = false ∧
        (autoRetryParked previouslyParked consumed state).1.status = .pending ∧
        (autoRetryParked previouslyParked consumed state).2 = true := by
  rw [autoRetryParked]
  split
  · rename_i retries
    simp only [Bool.and_eq_true, autoRetries, Bool.not_eq_true'] at retries
    exact .inr ⟨retries.1.1, retries.2.1.2, rfl, rfl⟩
  · exact .inl rfl

omit [DecidableEq ν] [ToString ν] in
theorem enforceRunning_cases (held : Bool) (state : RunNode ν) :
    enforceRunning held state = state ∧ (state.status = .running → held = true) ∨
      state.status = .running ∧ held = false ∧ (enforceRunning held state).status = .blocked := by
  simp only [enforceRunning]
  split_ifs with orphaned
  · exact .inr ⟨orphaned.1, orphaned.2, rfl⟩
  · exact .inl ⟨rfl, fun running => by simpa [running] using orphaned⟩

end Passes

/-! ## The measure -/

/-- One while the node is not settled, two while its automatic retry is unspent. -/
def weight (s : DriveLoop ν) (id : ν) : Nat :=
  (if (s.states id).status.settled then 0 else 1) + if s.autoRetried id then 0 else 2

def measure (contract : Contract ν κ) (s : DriveLoop ν) : Nat := (contract.nodes.map fun node => s.weight node.id).sum

/-- No node weighs more. -/
def Fewer (s t : DriveLoop ν) : Prop := ∀ id, t.weight id ≤ s.weight id

section Measure

variable {contract : Contract ν κ} {s t u : DriveLoop ν} {id : ν}

theorem Fewer.refl (s : DriveLoop ν) : Fewer s s := fun _ => Nat.le_refl _

theorem Fewer.trans (first : Fewer s t) (second : Fewer t u) : Fewer s u :=
  fun id => Nat.le_trans (second id) (first id)

/-- The weights read the statuses and the ledger. -/
theorem weight_congr (status : (t.states id).status = (s.states id).status)
    (retried : t.autoRetried id = s.autoRetried id) : t.weight id = s.weight id := by
  rw [weight, weight, status, retried]

theorem weight_le_of_settled (settled : (t.states id).status.settled = true)
    (retried : t.autoRetried id = s.autoRetried id) : t.weight id ≤ s.weight id := by
  simp only [weight, settled, if_true, retried]
  omega

theorem weight_le_of_unsettled (unsettled : (s.states id).status.settled = false)
    (retried : t.autoRetried id = s.autoRetried id) : t.weight id ≤ s.weight id := by
  rw [weight, weight, retried, unsettled, if_neg Bool.false_ne_true]
  apply Nat.add_le_add_right
  split_ifs <;> omega

/-- Settling a node lowers its weight. -/
theorem weight_lt_of_settles (before : (s.states id).status.settled = false)
    (after : (t.states id).status.settled = true) (retried : t.autoRetried id = s.autoRetried id) :
    t.weight id < s.weight id := by
  simp only [weight, before, after, retried, if_true, Bool.false_eq_true, if_false]
  omega

theorem measure_le (fewer : Fewer s t) : t.measure contract ≤ s.measure contract :=
  List.sum_le_sum fun node _ => fewer node.id

theorem measure_lt (fewer : Fewer s t) (less : ∃ node ∈ contract.nodes, t.weight node.id < s.weight node.id) :
    t.measure contract < s.measure contract :=
  List.sum_lt_sum _ _ (fun node _ => fewer node.id) less

theorem measure_le_three (contract : Contract ν κ) (s : DriveLoop ν) :
    s.measure contract ≤ 3 * contract.nodes.length := by
  have each (node : ContractNode ν κ) : s.weight node.id ≤ 3 := by
    simp only [weight]
    split_ifs <;> omega
  have bound : ∀ nodes : List (ContractNode ν κ), (nodes.map fun node => s.weight node.id).sum ≤ 3 * nodes.length := by
    intro nodes
    induction nodes with
    | nil => exact Nat.le_refl 0
    | cons node rest ih =>
      have here := each node
      simp only [List.map_cons, List.sum_cons, List.length_cons]
      omega
  exact bound contract.nodes

theorem measure_pos (unsettled : s.unsettled contract) : 0 < s.measure contract := by
  obtain ⟨node, member, open'⟩ := unsettled
  have here : s.weight node.id ≤ s.measure contract := List.single_le_sum (by simp) _ (List.mem_map_of_mem member)
  simp only [weight, open', Bool.false_eq_true, if_false] at here
  omega

variable [DecidableEq ν]

theorem put_fewer {state : RunNode ν} (less : state.status.settled = true ∨ (s.states id).status.settled = false) :
    Fewer s (s.put id state) := by
  intro other
  by_cases same : other = id
  · subst same
    rcases less with settled | unsettled
    · exact weight_le_of_settled (by simpa [put] using settled) rfl
    · exact weight_le_of_unsettled unsettled rfl
  · refine Nat.le_of_eq (weight_congr ?_ rfl)
    simp [put, same]

theorem enforceRunningInvariant_fewer (s : DriveLoop ν) : Fewer s s.enforceRunningInvariant := by
  intro id
  rcases enforceRunning_cases (decide (id ∈ s.running ∨ id ∈ s.settling)) (s.states id) with ⟨same, _⟩ | ⟨_, _, blocked⟩
  · exact Nat.le_of_eq (weight_congr (congrArg RunNode.status same) rfl)
  · refine weight_le_of_settled ?_ rfl
    show (enforceRunning _ (s.states id)).status.settled = true
    rw [blocked]
    rfl

omit [DecidableEq ν] in
theorem autoRetryParkedNodes_cases (s : DriveLoop ν) (id : ν) :
    s.autoRetryParkedNodes.states id = s.states id ∧ s.autoRetryParkedNodes.autoRetried id = s.autoRetried id ∨
      (s.states id).status.parked = true ∧ s.autoRetried id = false ∧
        (s.autoRetryParkedNodes.states id).status = .pending ∧ s.autoRetryParkedNodes.autoRetried id = true := by
  rcases autoRetryParked_cases (s.parkedBefore id) (s.autoRetried id) (s.states id) with same | retried
  · exact .inl ⟨congrArg Prod.fst same, congrArg Prod.snd same⟩
  · exact .inr retried

omit [DecidableEq ν] in
/-- A retry is spent for good. -/
theorem weight_lt_of_retried (unspent : s.autoRetried id = false) (spent : t.autoRetried id = true)
    : t.weight id < s.weight id := by
  simp only [weight, unspent, spent, if_true, Bool.false_eq_true, if_false]
  split_ifs <;> omega

omit [DecidableEq ν] in
theorem autoRetryParkedNodes_fewer (s : DriveLoop ν) : Fewer s s.autoRetryParkedNodes := by
  intro id
  rcases s.autoRetryParkedNodes_cases id with ⟨same, ledger⟩ | ⟨_, unspent, _, spent⟩
  · exact Nat.le_of_eq (weight_congr (congrArg RunNode.status same) ledger)
  · exact Nat.le_of_lt (weight_lt_of_retried unspent spent)

theorem stopHumanStep_fewer (s : DriveLoop ν) (node : ContractNode ν κ) : Fewer s (s.stopHumanStep node) := by
  rw [stopHumanStep]
  cases node.humanStep with
  | none => exact .refl s
  | some humanStep => exact put_fewer (.inl rfl)

theorem foldl_stopHumanStep_fewer (nodes : List (ContractNode ν κ)) (s : DriveLoop ν) :
    Fewer s (nodes.foldl stopHumanStep s) := by
  induction nodes generalizing s with
  | nil => exact .refl s
  | cons node rest ih => exact (s.stopHumanStep_fewer node).trans (ih _)

variable [ToString ν]

theorem blockDependents_fewer (contract : Contract ν κ) (s : DriveLoop ν) :
    Fewer s { s with states := blockDependents contract s.states } := by
  intro id
  rcases foldl_blockDependent_eq_or contract.nodes s.states id with same | ⟨_, blocked⟩
  · exact Nat.le_of_eq (weight_congr (congrArg RunNode.status same) rfl)
  · refine weight_le_of_settled ?_ rfl
    show (contract.nodes.foldl blockDependent s.states id).status.settled = true
    rw [blocked]
    rfl

theorem sweep_fewer (contract : Contract ν κ) (s : DriveLoop ν) :
    Fewer s.enforceRunningInvariant.autoRetryParkedNodes (s.sweep contract) :=
  (blockDependents_fewer contract _).trans (foldl_stopHumanStep_fewer _ _)

end Measure

/-! ## What one tick does -/

section Sweep

variable [DecidableEq ν] {contract : Contract ν κ} {s t : DriveLoop ν} {id : ν}

/-- A human step that stops was ready, so what it was is pending. -/
theorem foldl_stopHumanStep_cases (nodes : List (ContractNode ν κ)) (s : DriveLoop ν) (id : ν) :
    (nodes.foldl stopHumanStep s).states id = s.states id ∨
      (∃ node ∈ nodes, node.id = id ∧ node.humanStep ≠ none) ∧
        ((nodes.foldl stopHumanStep s).states id).status = .blocked := by
  induction nodes generalizing s with
  | nil => exact .inl rfl
  | cons node rest ih =>
    rw [List.foldl_cons]
    have head : (s.stopHumanStep node).states id = s.states id ∨
        (node.id = id ∧ node.humanStep ≠ none) ∧ ((s.stopHumanStep node).states id).status = .blocked := by
      rw [stopHumanStep]
      cases human : node.humanStep with
      | none => exact .inl rfl
      | some humanStep =>
        rcases eq_or_ne id node.id with rfl | differs
        · exact .inr ⟨⟨rfl, nofun⟩, by simp [put]⟩
        · exact .inl (Function.update_of_ne differs _ _)
    rcases ih (s.stopHumanStep node) with same | ⟨⟨other, inside, here⟩, blocked⟩
    · rcases head with unchanged | ⟨here, blocked⟩
      · exact .inl (same.trans unchanged)
      · exact .inr ⟨⟨node, List.mem_cons_self, here⟩, by rw [same, blocked]⟩
    · exact .inr ⟨⟨other, List.mem_cons_of_mem _ inside, here⟩, blocked⟩

/-- Everything but the snapshots is as it was. -/
theorem foldl_stopHumanStep_frame (nodes : List (ContractNode ν κ)) (s : DriveLoop ν) :
    (nodes.foldl stopHumanStep s).autoRetried = s.autoRetried ∧
      (nodes.foldl stopHumanStep s).settling = s.settling ∧ (nodes.foldl stopHumanStep s).idle = s.idle := by
  induction nodes generalizing s with
  | nil => exact ⟨rfl, rfl, rfl⟩
  | cons node rest ih =>
    obtain ⟨ledger, settling, idle⟩ := ih (s.stopHumanStep node)
    rw [List.foldl_cons, ledger, settling, idle, stopHumanStep]
    cases node.humanStep <;> exact ⟨rfl, rfl, rfl⟩

omit [DecidableEq ν] in
/-- The first unsettled node waits for nothing unsettled. -/
theorem exists_first_unsettled (unsettled : s.unsettled contract) :
    ∃ node ∈ contract.nodes, (s.states node.id).status.settled = false ∧
      ∀ id ∈ node.dependsOn, (s.states id).status.settled = true := by
  obtain ⟨node, member, open', first⟩ := contract.exists_first unsettled
  refine ⟨node, member, open', fun id depends => ?_⟩
  obtain ⟨other, inside, rfl⟩ := contract.known node member id depends
  by_contra waits
  exact first other inside (Bool.not_eq_true _ ▸ waits) depends

/-- What settled is done, canceled, without effect, or parked. -/
theorem parked_of_settled {status : NodeStatus} (settled : status.settled = true) (notDone : status ≠ .done)
    (notHeld : ¬ (status = .canceled ∨ status = .noOp)) : status.parked = true := by
  cases status <;> simp_all [NodeStatus.settled, NodeStatus.terminal, NodeStatus.parked]

omit [DecidableEq ν] in
/-- With nothing attended and nothing held, a node nobody runs is left over, or one waits behind a parked one. -/
theorem Idle.cases (idle : s.Idle contract) :
    (∃ node ∈ contract.nodes, (s.states node.id).status = .running ∧ node.id ∉ s.running ∧ node.id ∉ s.settling) ∨
      ∃ node ∈ contract.nodes, (s.states node.id).status = .pending ∧
        ∃ other ∈ contract.nodes, other.id ∈ node.dependsOn ∧ (s.states other.id).status.parked = true := by
  obtain ⟨unsettled, unattended, unheld⟩ := idle
  obtain ⟨node, member, open', first⟩ := exists_first_unsettled unsettled
  rcases NodeStatus.settled_eq_false_iff.mp open' with pending | running
  · have waits : ¬ s.dependenciesDone node :=
      fun done => unattended (.inr (.inr ⟨node, member, pending, .inr done⟩))
    simp only [dependenciesDone, not_forall] at waits
    obtain ⟨id, depends, notDone⟩ := waits
    obtain ⟨other, inside, rfl⟩ := contract.known node member id depends
    have notHeld : ¬ ((s.states other.id).status = .canceled ∨ (s.states other.id).status = .noOp) :=
      fun held => unheld ⟨node, member, pending, other.id, depends, held⟩
    exact .inr ⟨node, member, pending, other, inside, depends, parked_of_settled (first _ depends) notDone notHeld⟩
  · refine .inl ⟨node, member, running, fun job => ?_, fun settles => ?_⟩
    · exact unattended (.inl ⟨node.id, job⟩)
    · exact unattended (.inr (.inl ⟨node.id, settles⟩))

variable [ToString ν]

/-- A tick that starts idle gets somewhere. -/
theorem sweep_lt (idle : s.Idle contract) : (s.sweep contract).measure contract < s.measure contract := by
  have enforced := s.enforceRunningInvariant_fewer
  have retried := s.enforceRunningInvariant.autoRetryParkedNodes_fewer
  have rest := sweep_fewer contract s
  apply measure_lt (enforced.trans (retried.trans rest))
  rcases idle.cases with ⟨node, member, running, noJob, noSettlement⟩ | ⟨node, member, pending, other, inside, depends,
    parked⟩
  · refine ⟨node, member, Nat.lt_of_le_of_lt ((retried.trans rest) node.id) ?_⟩
    rcases enforceRunning_cases (decide (node.id ∈ s.running ∨ node.id ∈ s.settling)) (s.states node.id) with
      ⟨_, held⟩ | ⟨_, _, blocked⟩
    · simp [noJob, noSettlement] at held
      exact absurd running held
    · apply weight_lt_of_settles
      · simp [running, NodeStatus.settled, NodeStatus.terminal, NodeStatus.parked]
      · show (enforceRunning _ (s.states node.id)).status.settled = true
        rw [blocked]
        rfl
      · rfl
  · -- The dependency is still parked when its retry is decided.
    have kept : s.enforceRunningInvariant.states other.id = s.states other.id := by
      rcases enforceRunning_cases (decide (other.id ∈ s.running ∨ other.id ∈ s.settling)) (s.states other.id) with
        ⟨same, _⟩ | ⟨running, _, _⟩
      · exact same
      · simp [running, NodeStatus.parked] at parked
    have waits : s.enforceRunningInvariant.states node.id = s.states node.id := by
      rcases enforceRunning_cases (decide (node.id ∈ s.running ∨ node.id ∈ s.settling)) (s.states node.id) with
        ⟨same, _⟩ | ⟨running, _, _⟩
      · exact same
      · cases pending.symm.trans running
    rcases s.enforceRunningInvariant.autoRetryParkedNodes_cases other.id with ⟨same, _⟩ | ⟨_, unspent, _, spent⟩
    · -- It is not retried, and the node behind it is blocked.
      have still : (s.enforceRunningInvariant.autoRetryParkedNodes.states node.id).status = .pending := by
        rcases s.enforceRunningInvariant.autoRetryParkedNodes_cases node.id with ⟨same, _⟩ | ⟨parks, _⟩
        · rw [same, waits, pending]
        · simp [waits, pending, NodeStatus.parked] at parks
      have blocked : (blockDependents contract s.enforceRunningInvariant.autoRetryParkedNodes.states node.id).status =
          .blocked := by
        apply foldl_blockDependent_of_parked contract.nodes member still
        exact ⟨other.id, depends, by rw [same, kept, parked]⟩
      refine ⟨node, member, Nat.lt_of_lt_of_le ?_ ((enforced.trans retried) node.id)⟩
      refine Nat.lt_of_le_of_lt (foldl_stopHumanStep_fewer _ _ node.id) ?_
      apply weight_lt_of_settles
      · simp [still, NodeStatus.settled, NodeStatus.terminal, NodeStatus.parked]
      · show (blockDependents contract _ node.id).status.settled = true
        rw [blocked]
        rfl
      · rfl
    · refine ⟨other, inside, Nat.lt_of_lt_of_le ?_ (enforced other.id)⟩
      refine Nat.lt_of_le_of_lt (rest other.id) ?_
      exact weight_lt_of_retried unspent spent

/-- After the passes, a running node has somebody to finish it, and a node still pending behind a parked dependency
waits for one that these passes blocked. -/
theorem sweep_settles (contract : Contract ν κ) (s : DriveLoop ν) {node : ContractNode ν κ}
    (member : node ∈ contract.nodes) :
    (((s.sweep contract).states node.id).status = .running → node.id ∈ s.running ∨ node.id ∈ s.settling) ∧
      (((s.sweep contract).states node.id).status = .pending → ∀ id ∈ node.dependsOn,
        ((s.sweep contract).states id).status.parked = true → (s.states id).status = .pending ∨
          s.autoRetried id = false ∧ (s.sweep contract).autoRetried id = true) := by
  -- What is left as it was by the human steps, and by the block pass.
  have unstopped (id : ν) (open' : ((s.sweep contract).states id).status ≠ .blocked) :
      (s.sweep contract).states id = (s.swept contract).states id := by
    rcases foldl_stopHumanStep_cases ((s.swept contract).readyNodes contract) (s.swept contract) id with same | ⟨_, blocked⟩
    · exact same
    · exact absurd blocked open'
  have unblocked (id : ν) (open' : ((s.swept contract).states id).status ≠ .blocked) :
      (s.swept contract).states id = s.enforceRunningInvariant.autoRetryParkedNodes.states id := by
    rcases foldl_blockDependent_eq_or contract.nodes s.enforceRunningInvariant.autoRetryParkedNodes.states id with
      same | ⟨_, blocked⟩
    · exact same
    · exact absurd blocked open'
  constructor
  · intro running
    have swept := unstopped node.id (by simp [running])
    have retried := unblocked node.id (by simp [← swept, running])
    rw [swept, retried] at running
    rcases s.enforceRunningInvariant.autoRetryParkedNodes_cases node.id with ⟨same, _⟩ | ⟨_, _, pending, _⟩
    · rw [same] at running
      rcases enforceRunning_cases (decide (node.id ∈ s.running ∨ node.id ∈ s.settling)) (s.states node.id) with
        ⟨same, held⟩ | ⟨_, _, blocked⟩
      · exact of_decide_eq_true (held (same ▸ running))
      · exact absurd (blocked.symm.trans running) nofun
    · exact absurd (running.symm.trans pending) nofun
  · intro pending id depends parked
    have swept := unstopped node.id (by simp [pending])
    have retried := unblocked node.id (by simp [← swept, pending])
    rw [swept, retried] at pending
    -- The dependency was pending when the block pass ran.
    have waited : (s.enforceRunningInvariant.autoRetryParkedNodes.states id).status = .pending := by
      by_contra settles
      have stays : (s.swept contract).states id = s.enforceRunningInvariant.autoRetryParkedNodes.states id :=
        foldl_blockDependent_of_not_pending contract.nodes settles
      have blocked : (blockDependents contract s.enforceRunningInvariant.autoRetryParkedNodes.states node.id).status =
          .blocked := by
        apply foldl_blockDependent_of_parked contract.nodes member pending
        refine ⟨id, depends, ?_⟩
        rcases foldl_stopHumanStep_cases ((s.swept contract).readyNodes contract) (s.swept contract) id with
          same | ⟨⟨other, ready, rfl, _⟩, _⟩
        · rw [← stays, ← same]
          exact parked
        · have here := (List.mem_filter.mp ready).2
          rw [decide_eq_true_eq] at here
          exact absurd (stays ▸ here.1) settles
      rw [← retried] at pending
      exact absurd (blocked.symm.trans pending) nofun
    rcases s.enforceRunningInvariant.autoRetryParkedNodes_cases id with ⟨same, _⟩ | ⟨_, unspent, _, spent⟩
    · rw [same] at waited
      rcases enforceRunning_cases (decide (id ∈ s.running ∨ id ∈ s.settling)) (s.states id) with
        ⟨same, _⟩ | ⟨_, _, blocked⟩
      · exact .inl (same ▸ waited)
      · exact absurd (blocked.symm.trans waited) nofun
    · refine .inr ⟨unspent, ?_⟩
      exact (congrFun (foldl_stopHumanStep_frame _ (s.swept contract)).1 id).trans spent

end Sweep

/-! ## Runs -/

section Runs

variable [DecidableEq ν] {contract : Contract ν κ} {s t : DriveLoop ν}

omit [DecidableEq ν] in
/-- Nothing to wait for, as long as nobody starts and no status changes. -/
theorem Idle.congr (idle : s.Idle contract) (status : ∀ id, (t.states id).status = (s.states id).status)
    (running : t.running.Nonempty → s.running.Nonempty) (settling : t.settling.Nonempty → s.settling.Nonempty)
    (backoff : ∀ id, (t.states id).backoff = true → (s.states id).backoff = true) : t.Idle contract := by
  obtain ⟨unsettled, unattended, unheld⟩ := idle
  simp only [Idle, Attended, Held, DriveLoop.unsettled, dependenciesDone, status] at unsettled unattended unheld ⊢
  refine ⟨unsettled, ?_, unheld⟩
  rintro (job | settles | ⟨node, member, pending, waits | done⟩)
  · exact unattended (.inl (running job))
  · exact unattended (.inr (.inl (settling settles)))
  · exact unattended (.inr (.inr ⟨node, member, pending, .inl (backoff node.id waits)⟩))
  · exact unattended (.inr (.inr ⟨node, member, pending, .inr done⟩))

omit [DecidableEq ν] in
theorem Idle.running (idle : s.Idle contract) : s.running = ∅ :=
  Finset.not_nonempty_iff_eq_empty.mp fun job => idle.2.1 (.inl job)

omit [DecidableEq ν] in
theorem Idle.settling (idle : s.Idle contract) : s.settling = ∅ :=
  Finset.not_nonempty_iff_eq_empty.mp fun settles => idle.2.1 (.inr (.inl settles))

/-- What every run keeps. The ticks counted so far and the measure left stay below three a node. -/
structure Kept (contract : Contract ν κ) (s : DriveLoop ν) : Prop where
  before : s.point.swept = false → 0 < s.idle →
    s.Idle contract ∧ s.idle + s.measure contract ≤ 3 * contract.nodes.length + 1
  after : s.point.swept = true → 0 < s.idle → s.idle + s.measure contract ≤ 3 * contract.nodes.length
  ready : ∀ nodes, s.point = .ready nodes → ∀ id ∈ nodes, (s.states id).status = .pending ∧ id ∉ s.settling

omit [DecidableEq ν] in
/-- Something of the background, at whatever point the controller is. -/
theorem Kept.background (kept : Kept contract s) (point : t.point = s.point) (idle : t.idle = s.idle)
    (fewer : Fewer s t) (quiet : s.Idle contract → t.Idle contract)
    (ready : ∀ id, (s.states id).status = .pending → id ∉ s.settling →
      (t.states id).status = .pending ∧ id ∉ t.settling) : Kept contract t := by
  have less : t.measure contract ≤ s.measure contract := measure_le fewer
  constructor
  · intro unswept counted
    rw [point] at unswept
    rw [idle] at counted ⊢
    obtain ⟨here, bound⟩ := kept.before unswept counted
    exact ⟨quiet here, by omega⟩
  · intro swept counted
    rw [point] at swept
    rw [idle] at counted ⊢
    have bound := kept.after swept counted
    omega
  · intro nodes here id member
    rw [point] at here
    obtain ⟨pending, free⟩ := kept.ready nodes here id member
    exact ready id pending free

omit [DecidableEq ν] in
/-- A controller that starts, or is gone. -/
theorem Kept.of_idle_zero (none : s.idle = 0) (notReady : ∀ nodes, s.point ≠ .ready nodes) : Kept contract s := by
  constructor
  · intro _ counted
    omega
  · intro _ counted
    omega
  · exact fun nodes here => absurd here (notReady nodes)

/-- A settlement or a handler decides a node that is not settled. -/
theorem Kept.decide (kept : Kept contract s) {id : ν} {state : RunNode ν} {running : Finset ν}
    (unsettled : (s.states id).status.settled = false) (acting : id ∈ s.settling ∨ s.point = .stalls ∧ id ∈ s.running) :
    Kept contract { s.put id state with running } := by
  have fewer : Fewer s { s.put id state with running } := put_fewer (.inr unsettled)
  constructor
  · intro unswept counted
    obtain ⟨idle, _⟩ := kept.before unswept counted
    rcases acting with settles | ⟨_, job⟩
    · exact absurd (idle.settling ▸ settles) (Finset.notMem_empty id)
    · exact absurd (idle.running ▸ job) (Finset.notMem_empty id)
  · intro swept counted
    have bound := kept.after swept counted
    have less : measure contract { s.put id state with running } ≤ s.measure contract := measure_le fewer
    show s.idle + measure contract { s.put id state with running } ≤ _
    omega
  · intro nodes here other member
    obtain ⟨pending, free⟩ := kept.ready nodes here other member
    rcases acting with settles | ⟨stalls, _⟩
    · have differs : other ≠ id := fun same => free (same ▸ settles)
      refine ⟨?_, free⟩
      show (Function.update s.states id state other).status = .pending
      rw [Function.update_of_ne differs, pending]
    · exact absurd (stalls.symm.trans here) nofun

theorem dispatchNode_fewer {id : ν} (pending : (s.states id).status = .pending) (action : DispatchAction) :
    Fewer s (s.dispatchNode id action) := by
  have unsettled : (s.states id).status.settled = false := by rw [pending]; rfl
  cases action with
  | worker => exact put_fewer (.inr unsettled)
  | workerFails => exact put_fewer (.inr unsettled)
  | judge => exact .refl s

theorem dispatchNode_states_of_ne {id other : ν} (differs : other ≠ id) (action : DispatchAction) :
    (s.dispatchNode id action).states other = s.states other := by
  cases action with
  | worker => exact Function.update_of_ne differs _ _
  | workerFails => exact Function.update_of_ne differs _ _
  | judge => rfl

theorem foldl_dispatchNode (actions : List (ν × DispatchAction)) (distinct : (actions.map Prod.fst).Nodup)
    (pending : ∀ action ∈ actions, (s.states action.1).status = .pending) :
    Fewer s (actions.foldl (fun s action => s.dispatchNode action.1 action.2) s) ∧
      (actions.foldl (fun s action => s.dispatchNode action.1 action.2) s).idle = s.idle := by
  induction actions generalizing s with
  | nil => exact ⟨.refl s, rfl⟩
  | cons action rest ih =>
    obtain ⟨fresh, distinct⟩ := List.nodup_cons.mp distinct
    have head := dispatchNode_fewer (pending action List.mem_cons_self) action.2
    have idle : (s.dispatchNode action.1 action.2).idle = s.idle := by cases action.2 <;> rfl
    rw [List.foldl_cons, ← idle]
    refine (ih distinct fun later inside => ?_).imp_left head.trans
    have differs : later.1 ≠ action.1 := fun same => fresh (same ▸ List.mem_map_of_mem inside)
    rw [dispatchNode_states_of_ne differs]
    exact pending later (List.mem_cons_of_mem _ inside)

omit [DecidableEq ν] in
theorem Kept.notify (kept : Kept contract s) (here : s.point = .notify) :
    Kept contract { s.autoRetryParkedNodes with
      point := .ended
      idle := if s.autoRetryParkedNodes.Idle contract then s.idle + 1 else 0 } := by
  have swept : s.point.swept = true := by rw [here]; rfl
  have less : s.autoRetryParkedNodes.measure contract ≤ s.measure contract := measure_le s.autoRetryParkedNodes_fewer
  have most := s.measure_le_three contract
  constructor
  · intro _ counted
    by_cases idle : s.autoRetryParkedNodes.Idle contract
    · refine ⟨idle, ?_⟩
      show (if s.autoRetryParkedNodes.Idle contract then s.idle + 1 else 0) + s.autoRetryParkedNodes.measure contract ≤ _
      rw [if_pos idle]
      by_cases first : s.idle = 0
      · omega
      · have bound := kept.after swept (Nat.pos_of_ne_zero first)
        omega
    · simp only [if_neg idle] at counted
      omega
  · intro no
    cases no
  · nofun

variable [ToString ν]

theorem Kept.sweep (kept : Kept contract s) (here : s.point = .stalls) : Kept contract (s.sweep contract) := by
  have unswept : s.point.swept = false := by rw [here]; rfl
  obtain ⟨_, settling, idle⟩ := foldl_stopHumanStep_frame ((s.swept contract).readyNodes contract) (s.swept contract)
  have idle : (s.sweep contract).idle = s.idle := idle
  have settling : (s.sweep contract).settling = s.settling := settling
  constructor
  · intro no
    cases no
  · intro _ counted
    rw [idle] at counted ⊢
    obtain ⟨nothing, bound⟩ := kept.before unswept counted
    have less := sweep_lt nothing
    omega
  · intro nodes same id member
    obtain rfl := LoopPoint.ready.inj same
    obtain ⟨node, inside, rfl⟩ := List.mem_map.mp member
    obtain ⟨ready, human⟩ := List.mem_filter.mp inside
    obtain ⟨listed, waits⟩ := List.mem_filter.mp ready
    rw [decide_eq_true_eq] at waits
    refine ⟨?_, settling ▸ waits.2.1⟩
    rcases foldl_stopHumanStep_cases ((s.swept contract).readyNodes contract) (s.swept contract) node.id with
      same | ⟨⟨other, stopped, sameId, isHuman⟩, _⟩
    · exact (congrArg RunNode.status same).trans waits.1
    · obtain rfl := contract.eq_of_id (List.mem_filter.mp stopped).1 listed sameId
      exact absurd (Option.isNone_iff_eq_none.mp human) isHuman

theorem Kept.step (kept : Kept contract s) {label : Label ν} (taken : step contract s label = some t) :
    Kept contract t := by
  cases label with
  | resume options settled recovered tier =>
    simp only [DriveLoop.step] at taken
    split_ifs at taken
    obtain ⟨states, _, rfl⟩ := Option.map_eq_some_iff.mp taken
    refine .of_idle_zero rfl fun nodes => ?_
    dsimp only
    split_ifs <;> nofun
  | die =>
    obtain rfl := Option.some.inj taken
    exact .of_idle_zero rfl nofun
  | settle id state =>
    simp only [DriveLoop.step] at taken
    split_ifs at taken with acts
    obtain rfl := Option.some.inj taken
    exact kept.decide acts.2 (.inl acts.1)
  | spawn id =>
    simp only [DriveLoop.step] at taken
    split_ifs at taken with acts
    obtain rfl := Option.some.inj taken
    exact kept.decide acts.2 (.inl acts.1)
  | finish id =>
    simp only [DriveLoop.step] at taken
    split_ifs at taken with settles
    obtain rfl := Option.some.inj taken
    refine kept.background rfl rfl (.refl s) (fun idle => ?_) fun other pending free => ?_
    · exact absurd (idle.settling ▸ settles) (Finset.notMem_empty id)
    · exact ⟨pending, fun member => free (Finset.mem_of_mem_erase member)⟩
  | wake id =>
    obtain rfl := Option.some.inj taken
    have status (other : ν) : ((s.put id { s.states id with backoff := false }).states other).status =
        (s.states other).status := by
      rcases eq_or_ne other id with rfl | differs
      · simp [put]
      · simp [put, differs]
    refine kept.background rfl rfl (fun other => Nat.le_of_eq (weight_congr (status other) rfl)) (fun idle => ?_)
      fun other pending free => ⟨(status other).trans pending, free⟩
    refine idle.congr status (fun job => job) (fun settles => settles) fun other waits => ?_
    rcases eq_or_ne other id with rfl | differs
    · simp [put] at waits
    · simpa [put, differs] using waits
  | cancel =>
    simp only [DriveLoop.step] at taken
    split_ifs at taken
    obtain rfl := Option.some.inj taken
    exact .of_idle_zero rfl nofun
  | close nodes =>
    simp only [DriveLoop.step] at taken
    split_ifs at taken with closes
    obtain rfl := Option.some.inj taken
    constructor
    · intro _ counted
      obtain ⟨idle, bound⟩ := kept.before (by rw [closes.1]; rfl) counted
      refine ⟨idle.congr (fun _ => rfl) (fun job => job.mono Finset.sdiff_subset) (fun settles => ?_) fun _ waits => waits,
        bound⟩
      have none : nodes = ∅ := Finset.subset_empty.mp (closes.2.trans (by simp [idle.running]))
      simpa [none] using settles
    · intro no
      cases no
    · nofun
  | stall id state respawn =>
    simp only [DriveLoop.step] at taken
    split_ifs at taken with acts respawns
    · obtain rfl := Option.some.inj taken
      exact kept.decide acts.2.2 (.inr ⟨acts.1, acts.2.1⟩)
    · obtain rfl := Option.some.inj taken
      exact kept.decide acts.2.2 (.inr ⟨acts.1, acts.2.1⟩)
  | sweep =>
    simp only [DriveLoop.step] at taken
    split_ifs at taken with here
    obtain rfl := Option.some.inj taken
    exact kept.sweep here
  | dispatch actions =>
    simp only [DriveLoop.step] at taken
    split at taken
    · rename_i nodes here
      split_ifs at taken with chosen
      obtain rfl := Option.some.inj taken
      obtain ⟨fewer, idle⟩ := foldl_dispatchNode actions chosen.1 fun action inside =>
        (kept.ready nodes here action.1 (chosen.2 action inside).1).1
      constructor
      · intro no
        cases no
      · intro _ counted
        have counted : 0 < s.idle := idle ▸ counted
        have bound := kept.after (by rw [here]; rfl) counted
        have less : measure contract (actions.foldl (fun s action => s.dispatchNode action.1 action.2) s) ≤
            s.measure contract := measure_le fewer
        show (actions.foldl (fun s action => s.dispatchNode action.1 action.2) s).idle +
          measure contract (actions.foldl (fun s action => s.dispatchNode action.1 action.2) s) ≤ _
        omega
      · nofun
    · cases taken
  | notify =>
    simp only [DriveLoop.step] at taken
    split at taken
    · rename_i here
      split at taken
      · obtain rfl := Option.some.inj taken
        exact kept.notify here
      · obtain rfl := Option.some.inj taken
        exact .of_idle_zero rfl nofun
    · cases taken
  | tick =>
    simp only [DriveLoop.step] at taken
    split_ifs at taken with here
    obtain rfl := Option.some.inj taken
    constructor
    · exact fun _ counted => kept.before (by rw [here]; rfl) counted
    · intro no
      cases no
    · nofun

/-- A node nobody runs is left over, or one waits behind a parked dependency. -/
def Lagging (contract : Contract ν κ) (s : DriveLoop ν) : Prop :=
  (∃ node ∈ contract.nodes, (s.states node.id).status = .running ∧ node.id ∉ s.running ∧ node.id ∉ s.settling) ∨
    ∃ node ∈ contract.nodes, (s.states node.id).status = .pending ∧
      ∃ other ∈ contract.nodes, other.id ∈ node.dependsOn ∧ (s.states other.id).status.parked = true

/-- What the loop promises at every instant. -/
structure NoLivelock (contract : Contract ν κ) (s : DriveLoop ν) : Prop where
  /-- At the end of a tick that is not the last. -/
  ended : s.point = .ended → s.unsettled contract → s.Attended contract ∨ s.Held contract ∨ s.Lagging contract
  /-- Ticks in a row that end with nothing but lagging nodes. -/
  bounded : s.idle ≤ 3 * contract.nodes.length
  /-- The next passes take care of every lagging node. -/
  swept : ∀ t, step contract s .sweep = some t → ∀ node ∈ contract.nodes,
    ((t.states node.id).status = .running → node.id ∈ s.running ∨ node.id ∈ s.settling) ∧
      ((t.states node.id).status = .pending → ∀ id ∈ node.dependsOn, (t.states id).status.parked = true →
        (s.states id).status = .pending ∨ s.autoRetried id = false ∧ t.autoRetried id = true)

theorem Kept.noLivelock (kept : Kept contract s) : s.NoLivelock contract := by
  constructor
  · intro _ unsettled
    by_cases attended : s.Attended contract
    · exact .inl attended
    · by_cases held : s.Held contract
      · exact .inr (.inl held)
      · have idle : s.Idle contract := ⟨unsettled, attended, held⟩
        exact .inr (.inr idle.cases)
  · by_cases none : s.idle = 0
    · omega
    · have counted : 0 < s.idle := Nat.pos_of_ne_zero none
      cases swept : s.point.swept with
      | false =>
        obtain ⟨idle, bound⟩ := kept.before swept counted
        have left : 0 < s.measure contract := measure_pos idle.1
        omega
      | true =>
        have bound := kept.after swept counted
        omega
  · intro t taken node member
    simp only [DriveLoop.step] at taken
    split_ifs at taken with here
    obtain rfl := Option.some.inj taken
    exact sweep_settles contract s member

/-- The control loop does not livelock. -/
theorem driveLoop_noLivelock (reach : (machine contract).Reach Machine.free Initial s) : s.NoLivelock contract := by
  have kept : Kept contract s := by
    apply reach.invariant (Kept contract)
    · exact fun _ start => .of_idle_zero start.idle fun nodes here => absurd (start.point.symm.trans here) nofun
    · exact fun _ _ _ kept _ taken => kept.step taken
  exact kept.noLivelock

end Runs

/-- Three nodes in a row, the last one declared first. -/
def chain : Contract (Fin 3) String where
  nodes := [⟨2, [1], none, []⟩, ⟨1, [0], none, []⟩, ⟨0, [], none, []⟩]
  sharedVerification := none
  finalVerification := none
  nonempty := by decide
  nodup := by decide
  known := by decide
  acyclic := ⟨Fin.val, by decide⟩

def waiting : RunNode (Fin 3) := ⟨.pending, .waiting, none, [], false, false, false, false⟩

/-- A run before its first controller. -/
def fresh : DriveLoop (Fin 3) := ⟨fun _ => waiting, fun _ => false, ∅, ∅, fun _ => false, .off, 0⟩

/-- A resume with nothing to recover. -/
def resumeWith (node : Option (Fin 3)) : Label (Fin 3) :=
  .resume ⟨node, none, none⟩ (fun _ => none) (fun _ => none) fun _ => .due

/-- A tick in which nothing closes and nothing is dispatched. -/
def emptyTick : List (Label (Fin 3)) := [.close ∅, .sweep, .dispatch [], .notify]

/-- The first node fails in the second tick, which blocks the second one and not yet the third. -/
def failing : List (Label (Fin 3)) :=
  [resumeWith none, .close ∅, .sweep, .dispatch [(0, .worker)], .notify, .tick, .close {0},
    .settle 0 { waiting with status := .failed, error := some ⟨"verification_failed", "red"⟩ }, .finish 0, .sweep,
    .dispatch [], .notify]

theorem fresh_initial : Initial fresh := ⟨rfl, rfl, rfl, rfl⟩

/-- One such tick is counted, and the next one settles the run. -/
theorem driveLoop_noLivelock_chain : ∃ s, (machine chain).replay? Machine.free fresh failing = some s ∧
    s.idle = 1 ∧ s.NoLivelock chain :=
  Machine.exists_replay (fun s => s.idle = 1)
    (fun _ ran counted => ⟨counted, driveLoop_noLivelock (.of_replay fresh_initial _ ran)⟩) (by decide)

example : ((machine chain).replay? Machine.free fresh (failing ++ .tick :: emptyTick)).map
    (fun s => decide (s.point = .off ∧ (s.states 2).status = .blocked)) = some true := by decide

/-- A tick may end with nothing attended: with one node left behind a dependency that this tick blocked, and, after a
cancel and a resume of one node, with that node behind a canceled one, where another tick changes nothing. -/
theorem unattended_ended :
    (∃ s, (machine chain).replay? Machine.free fresh failing = some s ∧
      s.point = .ended ∧ s.unsettled chain ∧ ¬ s.Attended chain) ∧
    ∃ s, (machine chain).replay? Machine.free fresh ([resumeWith none, .cancel, resumeWith (some 1)] ++ emptyTick) = some s ∧
      (s.point = .ended ∧ s.unsettled chain ∧ ¬ s.Attended chain) ∧
      ∃ t, (machine chain).replay? Machine.free s (.tick :: emptyTick) = some t ∧ t.point = .ended ∧ t.states = s.states := by
  constructor
  · exact Machine.exists_replay (fun s => s.point = .ended ∧ s.unsettled chain ∧ ¬ s.Attended chain)
      (fun _ _ ended => ended) (by decide)
  · refine Machine.exists_replay (fun s => (s.point = .ended ∧ s.unsettled chain ∧ ¬ s.Attended chain) ∧
      ((machine chain).replay? Machine.free s (.tick :: emptyTick)).any
        (fun t => decide (t.point = .ended ∧ ∀ id, t.states id = s.states id)) = true) (fun s _ checked => ?_) (by decide)
    refine ⟨checked.1, Machine.exists_replay (fun t => t.point = .ended ∧ ∀ id, t.states id = s.states id)
      (fun t _ same => ⟨same.1, funext same.2⟩) checked.2⟩

end Faberun.DriveLoop
