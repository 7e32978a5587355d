import Mathlib.Algebra.GroupWithZero.Nat
import Faberun.Model.Engine.FinalVerification
import Faberun.Soundness.IntegrationStretch

/-! # Which verdict closes a phase

A verification reads the other node snapshots when it starts, and the verifications take turns: `Fresh` says that one saw
every other done node as done. So the phase-terminal node that comes last carries the suite, unless what comes last is a
human step, which the operator closes without any verification, or a transaction a recovery accepts on a verdict from
before other nodes were done.
-/

namespace Faberun.Phase

open Integration

variable {ν τ κ : Type} [DecidableEq ν]

/-! ## What a verdict saw -/

/-- Every other node that is done now was seen done. -/
def Fresh (w : World ν τ) (node : ν) (seen : ν → NodeStatus) : Prop :=
  ∀ other, other ≠ node → (w.nodes other).status = .done → seen other = .done

/-- The transaction passed a verification that saw every other phase-terminal node done. -/
def Saw (contract : Contract ν κ) (w : World ν τ) (key : ν × Nat) : Prop :=
  ∃ candidate seen, .verdict key.1 key.2 candidate true seen ∈ w.history ∧
    ∀ sibling ∈ contract.nodes, sibling.id ≠ key.1 → phaseTerminalNode contract sibling = true → seen sibling.id = .done

/-- A phase-terminal node is done, and its verification saw every other one done. -/
def Carried (contract : Contract ν κ) (w : World ν τ) (node : ContractNode ν κ) : Prop :=
  phaseTerminalNode contract node = true ∧ (w.nodes node.id).status = .done ∧
    Saw contract w (node.id, (w.nodes node.id).attempt)

/-- The phase is open, or it closed on a verdict that carried the suite. -/
def Covered (contract : Contract ν κ) (w : World ν τ) : Prop :=
  (∃ node ∈ contract.nodes, phaseTerminalNode contract node = true ∧ (w.nodes node.id).status ≠ .done) ∨
    ∃ node ∈ contract.nodes, Carried contract w node

section Verdicts

variable {contract : Contract ν κ} {w t : World ν τ} {node : ν}

omit [DecidableEq ν] in
/-- A verification that starts now sees everything. -/
theorem fresh_statuses (w : World ν τ) (node : ν) : Fresh w node w.statuses := fun _ _ done => done

omit [DecidableEq ν] in
theorem Fresh.of_done {seen : ν → NodeStatus} (fresh : Fresh w node seen)
    (less : ∀ other, other ≠ node → (t.nodes other).status = .done → (w.nodes other).status = .done) :
    Fresh t node seen :=
  fun other differs done => fresh other differs (less other differs done)

theorem Saw.mono {key : ν × Nat} (saw : Saw contract w key) (kept : ∀ deed ∈ w.history, deed ∈ t.history) :
    Saw contract t key := by
  obtain ⟨candidate, seen, verdict, others⟩ := saw
  exact ⟨candidate, seen, kept _ verdict, others⟩

theorem saw_of_sawOthersDone {id : ν} (checked : sawOthersDone contract w id = true) :
    Saw contract w (id, (w.nodes id).attempt) := by
  obtain ⟨deed, member, passes⟩ := List.any_eq_true.mp checked
  cases deed with
  | verdict node attempt candidate passed seen =>
    simp only [Bool.and_eq_true, decide_eq_true_eq, List.all_eq_true] at passes
    obtain ⟨⟨rfl, rfl, rfl⟩, others⟩ := passes
    exact ⟨candidate, seen, member, others⟩
  | journaled record => cases passes
  | moved node attempt source target => cases passes

/-- Nodes that are done stay as they are, and no other becomes done. -/
theorem Covered.of_done (covered : Covered contract w) (kept : ∀ deed ∈ w.history, deed ∈ t.history)
    (less : ∀ other, (t.nodes other).status = .done → t.nodes other = w.nodes other) : Covered contract t := by
  rcases covered with ⟨node, member, terminal, open'⟩ | ⟨node, member, terminal, done, saw⟩
  · refine .inl ⟨node, member, terminal, fun done => open' ?_⟩
    rwa [← less _ done]
  · by_cases now : (t.nodes node.id).status = .done
    · refine .inr ⟨node, member, terminal, now, ?_⟩
      rw [less _ now]
      exact saw.mono kept
    · exact .inl ⟨node, member, terminal, now⟩

/-- A stretch that completes the last phase-terminal node completes it with a verdict that saw the others. -/
theorem Covered.stretch (covered : Covered contract w) {key : ν × Nat} (stretch : Stretch key w t)
    (earned : ∀ last ∈ contract.nodes, last.id = key.1 → phaseTerminalNode contract last = true →
      (t.nodes key.1).status = .done → (w.nodes key.1).status ≠ .done →
      (∀ sibling ∈ contract.nodes, sibling.id ≠ key.1 → phaseTerminalNode contract sibling = true →
        (w.nodes sibling.id).status = .done) → Saw contract t (key.1, (w.nodes key.1).attempt)) :
    Covered contract t := by
  rcases covered with ⟨last, member, terminal, open'⟩ | ⟨carrier, member, terminal, carried, saw⟩
  · by_cases others : ∃ other ∈ contract.nodes, phaseTerminalNode contract other = true ∧ (t.nodes other.id).status ≠ .done
    · exact .inl others
    · have closed (other : ContractNode ν κ) (inside : other ∈ contract.nodes)
          (otherTerminal : phaseTerminalNode contract other = true) : (t.nodes other.id).status = .done := by
        by_contra otherOpen
        exact others ⟨other, inside, otherTerminal, otherOpen⟩
      -- only the node of the stretch becomes done in it, so it is the last one
      have own : last.id = key.1 := by
        by_contra differs
        exact open' (stretch.others last.id differs ▸ closed last member terminal)
      have done := closed last member terminal
      refine .inr ⟨last, member, terminal, done, ?_⟩
      rw [stretch.attempt_eq, own]
      rw [own] at done open'
      refine earned last member own terminal done open' fun sibling inside differs siblingTerminal => ?_
      rw [← stretch.others sibling.id differs]
      exact closed sibling inside siblingTerminal
  · refine .inr ⟨carrier, member, terminal, stretch.keeps carried, ?_⟩
    rw [stretch.attempt_eq]
    exact saw.mono stretch.history

end Verdicts

/-! ## The world of a run -/

/-- What a run keeps of its world, whatever is in flight: journaled attempts are not ahead of the node's, candidates are
commits, and an attempt that is accepted or has its event is done. -/
structure Held (contract : Contract ν κ) (w : World ν τ) : Prop where
  ref : w.runRef < w.graph.size
  attempt : ∀ key record, w.lastRecord key = some record → key.2 ≤ (w.nodes key.1).attempt
  candidate : ∀ key record, w.lastRecord key = some record → ∀ candidate, record.candidateSha = some candidate →
    candidate < w.graph.size
  accepted : ∀ key record, w.lastRecord key = some record → record.status = .accepted →
    (w.nodes key.1).attempt = key.2 → (w.nodes key.1).status = .done
  events : ∀ key ∈ w.doneEvents, key.2 ≤ (w.nodes key.1).attempt ∧
    ((w.nodes key.1).attempt = key.2 → (w.nodes key.1).status = .done)
  covered : Covered contract w

section Worlds

variable {contract : Contract ν κ} {w t : World ν τ} {key : ν × Nat}

theorem Held.stretch (held : Held contract w) (stretch : Stretch key w t) (journaled : key.2 ≤ (w.nodes key.1).attempt)
    (earned : ∀ last ∈ contract.nodes, last.id = key.1 → phaseTerminalNode contract last = true →
      (t.nodes key.1).status = .done → (w.nodes key.1).status ≠ .done →
      (∀ sibling ∈ contract.nodes, sibling.id ≠ key.1 → phaseTerminalNode contract sibling = true →
        (w.nodes sibling.id).status = .done) → Saw contract t (key.1, (w.nodes key.1).attempt)) : Held contract t where
  ref := stretch.ref held.ref
  attempt other record last := by
    rw [stretch.attempt_eq]
    by_cases same : other = key
    · exact same ▸ journaled
    · rw [stretch.journal other same] at last
      exact held.attempt other record last
  candidate other record last candidate has := by
    by_cases same : other = key
    · subst same
      rcases stretch.own record last with before | ⟨known, _⟩
      · exact Nat.lt_of_lt_of_le (held.candidate other record before candidate has) stretch.size
      · exact known candidate has
    · rw [stretch.journal other same] at last
      exact Nat.lt_of_lt_of_le (held.candidate other record last candidate has) stretch.size
  accepted other record last accepted current := by
    rw [stretch.attempt_eq] at current
    by_cases same : other = key
    · subst same
      rcases stretch.own record last with before | ⟨_, done⟩
      · exact stretch.keeps (held.accepted other record before accepted current)
      · exact done accepted current
    · rw [stretch.journal other same] at last
      exact stretch.keeps (held.accepted other record last accepted current)
  events event member := by
    rw [stretch.attempt_eq]
    rcases stretch.written event member with before | ⟨rfl, done⟩
    · obtain ⟨le, done⟩ := held.events event before
      exact ⟨le, fun current => stretch.keeps (done current)⟩
    · exact ⟨Nat.le_refl _, fun _ => done⟩
  covered := held.covered.stretch stretch earned

/-- A node that is not done is given another status that is not, or another attempt. -/
theorem Held.patch (held : Held contract w) {id : ν} (open' : (w.nodes id).status ≠ .done)
    {change : Integration.NodeSnapshot → Integration.NodeSnapshot} (opens : (change (w.nodes id)).status ≠ .done)
    (later : (w.nodes id).attempt ≤ (change (w.nodes id)).attempt) : Held contract (w.patch id change) := by
  have attempt (other : ν) : (w.nodes other).attempt ≤ ((w.patch id change).nodes other).attempt := by
    by_cases same : other = id
    · rw [same, patch_nodes_self]
      exact later
    · rw [patch_nodes_of_ne w same]
  -- an attempt that is done is not the node's
  have done {key : ν × Nat} (le : key.2 ≤ (w.nodes key.1).attempt)
      (before : (w.nodes key.1).attempt = key.2 → (w.nodes key.1).status = .done)
      (current : ((w.patch id change).nodes key.1).attempt = key.2) : ((w.patch id change).nodes key.1).status = .done := by
    have here := attempt key.1
    have done := before (by omega)
    have differs : key.1 ≠ id := fun same => open' (same ▸ done)
    rwa [patch_nodes_of_ne w differs]
  refine ⟨held.ref, fun key record last => Nat.le_trans (held.attempt key record last) (attempt key.1), held.candidate,
    fun key record last accepted => done (held.attempt key record last) (held.accepted key record last accepted),
    fun key member => ?_, held.covered.of_done (fun _ deed => deed) fun other now => ?_⟩
  · obtain ⟨le, before⟩ := held.events key member
    exact ⟨Nat.le_trans le (attempt key.1), done le before⟩
  · by_cases same : other = id
    · rw [same, patch_nodes_self] at now
      exact absurd now opens
    · exact patch_nodes_of_ne w same change

theorem Held.commit (held : Held contract w) {tree : τ} {parents : List Nat}
    (known : ∀ parent ∈ parents, parent < w.graph.size) :
    Held contract { w with graph := w.graph.extend ⟨tree, parents⟩ known } := by
  have larger : w.graph.size ≤ (w.graph.extend ⟨tree, parents⟩ known).size := by simp
  exact ⟨Nat.lt_of_lt_of_le held.ref larger, held.attempt,
    fun key record last candidate has => Nat.lt_of_lt_of_le (held.candidate key record last candidate has) larger,
    held.accepted, held.events, held.covered⟩

end Worlds

/-! ## Recovery -/

/-- A recovery that could complete the phase by transactions verified before finds that their verdicts saw the others. -/
def Resumable (contract : Contract ν κ) (w : World ν τ) : Prop :=
  (∀ node ∈ contract.nodes, phaseTerminalNode contract node = true →
    (w.nodes node.id).status = .done ∨ Acceptable w node.id) →
  ∀ node ∈ contract.nodes, phaseTerminalNode contract node = true → Acceptable w node.id →
    Saw contract w (node.id, (w.nodes node.id).attempt)

/-- What a recovery keeps where it passes over a record and goes on. -/
structure Passed (w t : World ν τ) (id : ν) : Prop where
  completes : (t.nodes id).status = .done → (w.nodes id).status = .done ∨ Acceptable w id
  acceptable : ∀ other, Acceptable t other → Acceptable w other

/-- What a recovery makes of one record: what becomes done was verified before or is verified now, having seen everything. -/
structure Recovered (w : World ν τ) (record : IntegrationRecord ν) (next : World ν τ × Bool) : Prop where
  stretch : Stretch record.key w next.1
  earned : (next.1.nodes record.node).status = .done → (w.nodes record.node).status = .done ∨ Acceptable w record.node ∨
    ∃ candidate, .verdict record.node record.attempt candidate true w.statuses ∈ next.1.history
  passed : next.2 = true → Passed w next.1 record.node

section Recoveries

variable {contract : Contract ν κ} {w t : World ν τ} {key : ν × Nat} {record : IntegrationRecord ν}

theorem passed_refl (w : World ν τ) (id : ν) : Passed w w id := ⟨.inl, fun _ acceptable => acceptable⟩

/-- A stretch that leaves the run ref leaves nothing to accept but what was there. -/
theorem acceptable_of_stretch (stretch : Stretch key w t) (graph : t.graph = w.graph) (ref : t.runRef = w.runRef)
    (own : ∀ record, t.lastRecord key = some record → record.status = .verified → w.lastRecord key = some record) {other : ν}
    (acceptable : Acceptable t other) : Acceptable w other := by
  obtain ⟨open', record, member, named, verified, stands⟩ := acceptable
  rw [stretch.attempt_eq] at named
  rw [graph, ref] at stands
  refine ⟨fun done => open' (stretch.keeps done), record, mem_latestIntegrationTransactions.mpr ?_, named, verified, stands⟩
  have last := mem_latestIntegrationTransactions.mp member
  by_cases same : record.key = key
  · rw [same] at last ⊢
    exact own record last verified
  · rwa [stretch.journal record.key same] at last

theorem Resumable.passed (resumable : Resumable contract w) (stretch : Stretch key w t) (passed : Passed w t key.1) :
    Resumable contract t := by
  intro ready node member terminal acceptable
  rw [stretch.attempt_eq]
  refine (resumable (fun other inside otherTerminal => ?_) node member terminal (passed.acceptable node.id acceptable)).mono
    stretch.history
  rcases ready other inside otherTerminal with done | open'
  · by_cases same : other.id = key.1
    · rw [same] at done ⊢
      exact passed.completes done
    · exact .inl (stretch.others other.id same ▸ done)
  · exact .inr (passed.acceptable other.id open')

variable [DecidableEq τ] {cfg : Config ν τ} {crash : Option Integration.Stage} {passed : Bool}

omit [DecidableEq τ] in
theorem Recovered.of_passed (stretch : Stretch record.key w t) (passed : Passed w t record.node) :
    Recovered w record (t, true) :=
  ⟨stretch, fun done => (passed.completes done).imp_right .inl, fun _ => passed⟩

omit [DecidableEq τ] in
/-- A rejection, whether it is journaled first or not. -/
private theorem recovered_of_rejects {u : World ν τ} {transaction : IntegrationRecord ν} (same : transaction.key = record.key)
    (nodes : u.nodes = w.nodes) (journaled : Stretch record.key w u) (graph : u.graph = w.graph) (ref : u.runRef = w.runRef)
    (own : ∀ other, u.lastRecord record.key = some other → other.status = .verified → w.lastRecord record.key = some other)
    (rejects : (recoveryCallbacks cfg).Rejects u transaction t) : Recovered w record (t, true) := by
  have serves := recoveryCallbacks_serves cfg record.key w
  have touches := (serves.rejected u t transaction same nodes rejects).1
  have stretch := journaled.trans (serves.stretch same nodes rejects)
  refine .of_passed stretch ⟨fun done => .inl (nodes ▸ touches.status done), fun other => acceptable_of_stretch stretch ?_ ?_ ?_⟩
  · rw [touches.same.1, graph]
  · rw [touches.same.2.1, ref]
  · intro other found
    rw [lastRecord_congr touches.same.2.2.1] at found
    exact own other found

/-- A record that is over: at most its event is missing. -/
private theorem recoverRecord_over (held : Held contract w) (running : w.halted = false)
    (last : w.lastRecord record.key = some record) (ended : record.status.terminal = true) :
    Recovered w record (recoverRecord cfg (recoveryCallbacks cfg) crash passed w record) := by
  cases status : record.status with
  | accepted =>
    simp only [recoverRecord, status]
    rcases (recoveryCallbacks_serves cfg record.key w).onAccepted crash w record rfl rfl running
      fun event => (held.events record.key event).2 with ⟨completes, attempt⟩ | ⟨stays, _⟩
    · have stretch := completes.stretch attempt
      refine .of_passed stretch ⟨fun _ => .inl (held.accepted record.key record last status attempt), fun other =>
        acceptable_of_stretch stretch completes.same.1 completes.same.2.1 fun other found _ => ?_⟩
      rwa [lastRecord_congr completes.same.2.2.1] at found
    · rw [stays]
      exact .of_passed (.refl _ w) (passed_refl w record.node)
  | failed =>
    simp only [recoverRecord, status]
    exact .of_passed (.refl _ w) (passed_refl w record.node)
  | conflict =>
    simp only [recoverRecord, status]
    exact .of_passed (.refl _ w) (passed_refl w record.node)
  | prepared => simp [status, IntegrationStatus.terminal] at ended
  | verified => simp [status, IntegrationStatus.terminal] at ended

/-- A record without a candidate is in conflict, or void. -/
private theorem recoverRecord_none (held : Held contract w) (last : w.lastRecord record.key = some record)
    (open' : record.status = .prepared ∨ record.status = .verified) (none : record.candidateSha = none) :
    Recovered w record (recoverRecord cfg (recoveryCallbacks cfg) crash passed w record) := by
  have known := held.candidate record.key record last
  have free : record.status ≠ .conflict := by rcases open' with status | status <;> simp [status]
  have reads : recoverRecord cfg (recoveryCallbacks cfg) crash passed w record =
      if record.conflictingPaths = [] then (w, true)
      else ((recoveryCallbacks cfg).onConflict (w.appendConflict record).1 (w.appendConflict record).2, true) := by
    rcases open' with status | status <;> simp only [recoverRecord, status, none]
  rw [reads]
  split_ifs with paths
  · exact .of_passed (.refl _ w) (passed_refl w record.node)
  · have conflicting : (record.withStatus .conflict).key = record.key := rfl
    rw [appendConflict_of_last last free]
    have rejects : (recoveryCallbacks cfg).Rejects (w.appendRecord (record.withStatus .conflict)) (record.withStatus .conflict) _ :=
      .conflict
    have journaled := stretch_appendRecord w conflicting (fun same => by cases same) known
    refine recovered_of_rejects conflicting (show (w.appendRecord (record.withStatus .conflict)).nodes = w.nodes from rfl)
      journaled rfl rfl (fun other found => ?_) rejects
    rw [lastRecord_appendRecord, if_pos conflicting] at found
    obtain rfl := Option.some.inj found
    exact fun same => by cases same

/-- A prepared record is verified now, unless the run ref has moved. -/
private theorem recoverRecord_prepared (held : Held contract w) (running : w.halted = false)
    (last : w.lastRecord record.key = some record) (status : record.status = .prepared) {candidate : Nat}
    (has : record.candidateSha = some candidate) :
    Recovered w record (recoverRecord cfg (recoveryCallbacks cfg) crash passed w record) := by
  have known := held.candidate record.key record last
  by_cases stands : w.runRef = record.previousRunRefTip
  · have verifies : recoverRecord cfg (recoveryCallbacks cfg) crash passed w record =
        (verifyAndAdvance (recoveryCallbacks cfg) crash passed w.statuses w { record with conflictingPaths := [] }, false) := by
      simp only [recoverRecord, status, has, stands.symm, ne_eq, not_true_eq_false, if_true, if_false, known candidate has,
        or_self]
    rw [verifies]
    have same : ({ record with conflictingPaths := [] } : IntegrationRecord ν).key = record.key := rfl
    obtain ⟨stretch, verified⟩ := verifyAndAdvance_stretch (recoveryCallbacks_serves cfg record.key w) same rfl running
      (fun event => (held.events record.key event).2) known
    exact ⟨stretch, fun done => (verified done).imp_right .inr, fun same => by cases same⟩
  · simp only [recoverRecord, status, has, ne_eq, stands, not_false_eq_true, if_true]
    exact recovered_of_rejects rfl rfl (.refl _ w) rfl rfl (fun _ found _ => found) (.concurrentMove w.runRef)

/-- A verified record is accepted where the run ref contains its candidate, and moves it where it still stands. -/
private theorem recoverRecord_verified (held : Held contract w) (running : w.halted = false)
    (last : w.lastRecord record.key = some record) (status : record.status = .verified) {candidate : Nat}
    (has : record.candidateSha = some candidate) :
    Recovered w record (recoverRecord cfg (recoveryCallbacks cfg) crash passed w record) := by
  have known := held.candidate record.key record last
  have serves := recoveryCallbacks_serves cfg record.key w
  have settled : record.key ∈ w.doneEvents → (w.nodes record.node).attempt = record.attempt →
      (w.nodes record.node).status = .done := fun event => (held.events record.key event).2
  have acceptable (stands : w.runRef = record.previousRunRefTip ∨ isAncestor w.graph record.candidateSha w.runRef = true)
      {t : World ν τ} (stretch : Stretch record.key w t) (done : (t.nodes record.node).status = .done) :
      (w.nodes record.node).status = .done ∨ Acceptable w record.node := by
    by_cases before : (w.nodes record.node).status = .done
    · exact .inl before
    · have current := (stretch.current done).resolve_left before
      refine .inr ⟨before, record, mem_latestIntegrationTransactions.mpr last, ?_, status, stands⟩
      exact Prod.ext rfl current.symm
  have accepts (contains : isAncestor w.graph record.candidateSha w.runRef = true) :
      Recovered w record (accept (recoveryCallbacks cfg) crash w record, true) := by
    obtain ⟨stretch, after⟩ : Stretch record.key w (accept (recoveryCallbacks cfg) crash w record) ∧
        Settled record.key w (accept (recoveryCallbacks cfg) crash w record) :=
      accept_stretch serves rfl rfl running settled known last (by simp [status])
    exact .of_passed stretch ⟨acceptable (.inr contains) stretch, fun other => acceptable_of_stretch stretch after.graph after.ref
      fun other found verified => absurd verified (after.last other found)⟩
  have contained : isAncestor w.graph record.candidateSha w.runRef = w.graph.isAncestor candidate w.runRef := by
    simp only [isAncestor, has]
  simp only [recoverRecord, status, has, reduceCtorEq, if_false]
  split_ifs with here inside moved
  · refine accepts ?_
    rw [contained, here.1, CommitGraph.isAncestor_iff]
    exact ⟨⟨known candidate has, known candidate has⟩, .refl _ _⟩
  · exact accepts (contained.trans inside.2)
  · exact recovered_of_rejects rfl rfl (.refl _ w) rfl rfl (fun _ found _ => found) (.concurrentMove w.runRef)
  · have stretch : Stretch record.key w (advanceVerified (recoveryCallbacks cfg) crash w record) :=
      advanceVerified_stretch serves rfl rfl running settled known last status
    exact ⟨stretch, fun done => (acceptable (.inl (not_not.mp moved)) stretch done).imp_right .inl, fun same => by cases same⟩

theorem recoverRecord_spec (held : Held contract w) (running : w.halted = false) (last : w.lastRecord record.key = some record) :
    Recovered w record (recoverRecord cfg (recoveryCallbacks cfg) crash passed w record) := by
  cases status : record.status with
  | accepted | failed | conflict => exact recoverRecord_over held running last (by rw [status]; rfl)
  | prepared =>
    cases has : record.candidateSha with
    | none => exact recoverRecord_none held last (.inl status) has
    | some candidate => exact recoverRecord_prepared held running last status has
  | verified =>
    cases has : record.candidateSha with
    | none => exact recoverRecord_none held last (.inr status) has
    | some candidate => exact recoverRecord_verified held running last status has

omit [DecidableEq τ] in
/-- What becomes done by one record of a recovery has a verdict that saw the others. -/
theorem Held.recovered (held : Held contract w) (resumable : Resumable contract w) {next : World ν τ × Bool}
    (last : w.lastRecord record.key = some record) (recovered : Recovered w record next) : Held contract next.1 := by
  refine held.stretch recovered.stretch (held.attempt record.key record last) fun node member own terminal done open' closed => ?_
  have others (other : ContractNode ν κ) (inside : other ∈ contract.nodes) (otherTerminal : phaseTerminalNode contract other = true)
      (differs : other.id ≠ record.node) : (w.nodes other.id).status = .done := closed other inside differs otherTerminal
  rcases recovered.earned done with before | acceptable | ⟨candidate, verdict⟩
  · exact absurd before open'
  · have here : node.id = record.node := own
    have saw := resumable (fun other inside otherTerminal => ?_) node member terminal (here ▸ acceptable)
    · rw [here] at saw
      exact saw.mono recovered.stretch.history
    · by_cases same : other.id = record.node
      · exact .inr (same ▸ acceptable)
      · exact .inl (others other inside otherTerminal same)
  · have current : (w.nodes record.key.1).attempt = record.attempt := (recovered.stretch.current done).resolve_left open'
    refine ⟨candidate, w.statuses, ?_, fun sibling inside differs siblingTerminal => others sibling inside siblingTerminal differs⟩
    rw [current]
    exact verdict

theorem recoverLoop_held {records : List (IntegrationRecord ν)} (distinct : (records.map IntegrationRecord.key).Nodup)
    (latest : ∀ record ∈ records, w.lastRecord record.key = some record) (held : Held contract w)
    (resumable : Resumable contract w) (running : w.halted = false) :
    Held contract (recoverLoop cfg (recoveryCallbacks cfg) crash passed w records) := by
  induction records generalizing w with
  | nil => exact held
  | cons record rest ih =>
    obtain ⟨fresh, distinct⟩ := List.nodup_cons.mp distinct
    have last := latest record List.mem_cons_self
    have recovered : Recovered w record (recoverRecord cfg (recoveryCallbacks cfg) crash passed w record) :=
      recoverRecord_spec held running last
    have next := held.recovered resumable last recovered
    simp only [recoverLoop]
    split_ifs with stops
    · exact next
    · rw [not_or, Bool.not_eq_true, Bool.not_eq_false] at stops
      refine ih distinct (fun other inRest => ?_) next (resumable.passed recovered.stretch (recovered.passed stops.2)) stops.1
      rw [recovered.stretch.journal other.key fun same => fresh (same ▸ List.mem_map_of_mem inRest)]
      exact latest other (List.mem_cons_of_mem _ inRest)

end Recoveries

/-! ## Runs -/

/-- An integration in flight: its node stands at the attempt, not done, and a verification that runs saw what is done. -/
structure Waits (w : World ν τ) (flight : Flight ν) : Prop where
  attempt : (w.nodes flight.transaction.node).attempt = flight.transaction.attempt
  open' : (w.nodes flight.transaction.node).status ≠ .done
  known : ∀ candidate, flight.transaction.candidateSha = some candidate → candidate < w.graph.size
  fresh : ∀ seen, flight.seen = some seen → Fresh w flight.transaction.node seen

/-- What every careful run keeps, with any number of integrations in flight. -/
structure Proven (contract : Contract ν κ) (p : Phase ν τ) : Prop where
  held : Held contract p.world
  running : p.flights ≠ [] → p.world.halted = false
  waits : ∀ flight ∈ p.flights, Waits p.world flight
  apart : (p.flights.map fun flight => flight.transaction.node).Nodup
  /-- Verifications take turns. -/
  turns : ∀ flight ∈ p.flights.tail, flight.seen = none

section Runs

variable {contract : Contract ν κ} {p : Phase ν τ} {w t world : World ν τ}

/-- The others go on while an integration waits. -/
theorem Waits.stretch {flight : Flight ν} (waits : Waits w flight) {key : ν × Nat} (stretch : Stretch key w t)
    (differs : flight.transaction.node ≠ key.1) (still : flight.seen = none ∨ (t.nodes key.1).status ≠ .done) : Waits t flight where
  attempt := by rw [stretch.attempt_eq, waits.attempt]
  open' := by
    rw [stretch.others _ differs]
    exact waits.open'
  known candidate has := Nat.lt_of_lt_of_le (waits.known candidate has) stretch.size
  fresh seen saw := by
    rcases still with unseen | open'
    · exact absurd (unseen.symm.trans saw) nofun
    · refine (waits.fresh seen saw).of_done fun other _ done => ?_
      by_cases same : other = key.1
      · exact absurd (same ▸ done) open'
      · rwa [← stretch.others other same]

theorem Waits.patch {flight : Flight ν} (waits : Waits w flight) {id : ν}
    {change : Integration.NodeSnapshot → Integration.NodeSnapshot} (opens : (change (w.nodes id)).status ≠ .done)
    (own : flight.transaction.node = id → (change (w.nodes id)).attempt = (w.nodes id).attempt) :
    Waits (w.patch id change) flight := by
  refine ⟨?_, fun done => ?_, waits.known, fun seen saw => (waits.fresh seen saw).of_done fun other _ done => ?_⟩
  · rw [← waits.attempt]
    by_cases same : flight.transaction.node = id
    · rw [same, patch_nodes_self, own same]
    · rw [patch_nodes_of_ne w same]
  · by_cases same : flight.transaction.node = id
    · rw [same, patch_nodes_self] at done
      exact opens done
    · rw [patch_nodes_of_ne w same] at done
      exact waits.open' done
  · by_cases same : other = id
    · rw [same, patch_nodes_self] at done
      exact absurd done opens
    · rwa [patch_nodes_of_ne w same] at done

/-- A node that is not done is given another status that is not. -/
theorem Proven.patch (proven : Proven contract p) {id : ν} (open' : p.status id ≠ .done)
    {change : Integration.NodeSnapshot → Integration.NodeSnapshot} (opens : (change (p.world.nodes id)).status ≠ .done)
    (later : (p.world.nodes id).attempt ≤ (change (p.world.nodes id)).attempt)
    (own : p.inFlight id = true → (change (p.world.nodes id)).attempt = (p.world.nodes id).attempt) :
    Proven contract { p with world := p.world.patch id change } := by
  refine ⟨proven.held.patch open' opens later, proven.running, fun flight flying => ?_, proven.apart, proven.turns⟩
  refine (proven.waits flight flying).patch opens fun same => own ?_
  exact List.any_eq_true.mpr ⟨flight, flying, decide_eq_true same⟩

theorem Proven.commit (proven : Proven contract p) {tree : τ} {parents : List Nat}
    (known : ∀ parent ∈ parents, parent < p.world.graph.size) :
    Proven contract { p with world := { p.world with graph := p.world.graph.extend ⟨tree, parents⟩ known } } := by
  have larger : p.world.graph.size ≤ (p.world.graph.extend ⟨tree, parents⟩ known).size := by simp
  refine ⟨proven.held.commit known, proven.running, fun flight flying => ?_, proven.apart, proven.turns⟩
  have waits := proven.waits flight flying
  exact { waits with known := fun candidate has => Nat.lt_of_lt_of_le (waits.known candidate has) larger }

/-- A world in which nothing is in flight. -/
theorem proven_of_held (held : Held contract world) : Proven contract ⟨world, []⟩ :=
  ⟨held, fun flying => absurd rfl flying, nofun, List.nodup_nil, nofun⟩

theorem Held.halt (held : Held contract w) (halted : Bool) : Held contract { w with halted } := { held with }

/-- What a stretch leaves in flight, unless the controller died in it. -/
theorem proven_continueWith {flights : List (Flight ν)} (held : Held contract world) (waits : ∀ flight ∈ flights, Waits world flight)
    (apart : (flights.map fun flight => flight.transaction.node).Nodup) (turns : ∀ flight ∈ flights.tail, flight.seen = none) :
    Proven contract (continueWith world flights) := by
  rw [continueWith]
  split_ifs with halted
  · exact proven_of_held held
  · exact ⟨held, fun _ => Bool.not_eq_true _ ▸ halted, waits, apart, turns⟩

theorem Proven.verify (proven : Proven contract p) {q : Phase ν τ} (started : p.startVerification = some q) :
    Proven contract q := by
  rw [startVerification] at started
  split at started
  · rename_i transaction rest flights
    obtain rfl := Option.some.inj started
    obtain ⟨held, running, waits, apart, turns⟩ := proven
    rw [flights] at running waits apart turns
    refine ⟨held, fun _ => running (List.cons_ne_nil _ _), fun flight flying => ?_, apart, turns⟩
    rcases List.mem_cons.mp flying with rfl | behind
    · have first := waits ⟨transaction, none⟩ List.mem_cons_self
      refine ⟨first.attempt, first.open', first.known, fun seen saw => ?_⟩
      obtain rfl := Option.some.inj saw
      exact fresh_statuses p.world transaction.node
    · exact waits flight (List.mem_cons_of_mem _ behind)
  · cases started

variable [DecidableEq τ] {cfg : Config ν τ}

/-- The verification at the head answers: its node is completed on a verdict that saw everything that is done. -/
theorem Proven.conclude (proven : Proven contract p) {passed : Bool} {crash : Option Integration.Stage} {q : Phase ν τ}
    (taken : step cfg contract p (.conclude passed crash) = some q) : Proven contract q := by
  simp only [step] at taken
  split at taken
  · rename_i transaction seen rest flights
    obtain rfl := Option.some.inj taken
    obtain ⟨held, running, waits, apart, turns⟩ := proven
    rw [flights] at running waits apart turns
    obtain ⟨alone, apart⟩ := List.nodup_cons.mp apart
    have first := waits ⟨transaction, some seen⟩ List.mem_cons_self
    have serves : (settleCallbacks cfg transaction.node).Serves transaction.key p.world :=
      @settleCallbacks_serves _ _ _ transaction.key p.world cfg first.open'
    obtain ⟨stretch, verified⟩ := @verifyAndAdvance_stretch _ _ _ transaction.key p.world (settleCallbacks cfg transaction.node)
      crash p.world transaction passed seen serves rfl rfl (running (List.cons_ne_nil _ _))
      (fun event => (held.events transaction.key event).2) first.known
    refine proven_continueWith (held.stretch stretch (Nat.le_of_eq first.attempt.symm) ?_) (fun flight behind => ?_) apart
      fun flight behind => turns flight (List.mem_of_mem_tail behind)
    · intro last _ _ _ done open' closed
      obtain ⟨candidate, verdict⟩ := (verified done).resolve_left open'
      refine ⟨candidate, seen, ?_, fun sibling inside differs siblingTerminal => ?_⟩
      · rw [show (p.world.nodes transaction.key.1).attempt = transaction.key.2 from first.attempt]
        exact verdict
      · exact first.fresh seen rfl sibling.id differs (closed sibling inside differs siblingTerminal)
    · refine (waits flight (List.mem_cons_of_mem _ behind)).stretch stretch (fun same => alone ?_) (.inl (turns flight behind))
      show transaction.node ∈ rest.map fun flight => flight.transaction.node
      rw [show transaction.node = flight.transaction.node from same.symm]
      exact List.mem_map_of_mem behind
  · cases taken

theorem Proven.recover (proven : Proven contract p) {passed : Bool} {crash : Option Integration.Stage}
    (allowed : careful contract p (.recover passed crash)) : Proven contract (continueWith
      (recoverIntegrations cfg (recoveryCallbacks cfg) crash passed { p.world with halted := false }) []) := by
  have resumable : Resumable contract { p.world with halted := false } := by
    intro ready node member terminal acceptable
    exact saw_of_sawOthersDone (allowed ready node member terminal acceptable)
  refine proven_continueWith (recoverLoop_held (KeyedLog.nodup_map_latest _) (fun record member => ?_) (proven.held.halt false)
    resumable rfl) nofun List.nodup_nil nofun
  exact mem_latestIntegrationTransactions.mp member

/-- The node is one of the contract's. -/
theorem nodeOf_eq_some {id : ν} {node : ContractNode ν κ} (found : nodeOf contract id = some node) :
    node ∈ contract.nodes ∧ node.id = id := by
  refine ⟨List.mem_of_find?_eq_some found, ?_⟩
  simpa using List.find?_some found

/-- An integration whose attempt has no open transaction opens one. -/
private theorem enterIntegration_opens (held : Held contract p.world) {id : ν} {attemptSha : Nat} {passed : Bool}
    {crash : Option Integration.Stage} (open' : p.status id ≠ .done)
    (allowed : careful contract p (.integrate id attemptSha passed crash)) :
    enterIntegration cfg (settleCallbacks cfg id) crash passed p.world id (p.world.nodes id).attempt attemptSha =
      openTransaction cfg (settleCallbacks cfg id) crash p.world id (p.world.nodes id).attempt attemptSha := by
  have looked : (latestIntegrationTransactions p.world.journal).find?
      (fun record => decide (record.key = (id, (p.world.nodes id).attempt))) =
      p.world.lastRecord (id, (p.world.nodes id).attempt) := KeyedLog.find?_latest _ _
  rw [enterIntegration, looked]
  cases last : p.world.lastRecord (id, (p.world.nodes id).attempt) with
  | none => rfl
  | some existing =>
    have named := key_of_lastRecord last
    have terminal := allowed existing (mem_latestIntegrationTransactions.mpr (named ▸ last)) named
    have unaccepted : existing.status ≠ .accepted := fun accepted => open' (held.accepted _ existing last accepted rfl)
    simp only [if_neg unaccepted, terminal, if_true]

/-- An integration that begins completes nothing. -/
theorem Proven.integrate (proven : Proven contract p) {id : ν} {attemptSha : Nat} {passed : Bool}
    {crash : Option Integration.Stage} {q : Phase ν τ} (allowed : careful contract p (.integrate id attemptSha passed crash))
    (taken : step cfg contract p (.integrate id attemptSha passed crash) = some q) : Proven contract q := by
  simp only [step] at taken
  obtain ⟨node, _, begins⟩ := Option.bind_eq_some_iff.mp taken
  split_ifs at begins with enabled
  obtain ⟨running, _, landed, open', sealed⟩ := enabled
  have others (flight : Flight ν) (flying : flight ∈ p.flights) : flight.transaction.node ≠ id := fun same => by
    have there : p.inFlight id = true := List.any_eq_true.mpr ⟨flight, flying, decide_eq_true same⟩
    cases there.symm.trans landed
  have serves : (settleCallbacks cfg id).Serves (id, (p.world.nodes id).attempt) p.world  :=
    @settleCallbacks_serves _ _ _ (id, (p.world.nodes id).attempt) p.world cfg open'
  have spec := @openTransaction_stretch _ _ _ p.world (settleCallbacks cfg id) crash _ cfg id attemptSha serves running
    proven.held.ref sealed
  rw [enterIntegration_opens proven.held open' allowed] at begins
  rcases enter : openTransaction cfg (settleCallbacks cfg id) crash p.world id (p.world.nodes id).attempt attemptSha
    with ⟨entered, _ | transaction⟩
  · rw [enter] at spec begins
    obtain ⟨stretch, before⟩ := spec
    obtain rfl := Option.some.inj begins
    have held := proven.held.stretch stretch (Nat.le_refl _) fun _ _ _ _ done still _ => absurd (before done) still
    refine proven_continueWith held (fun flight flying => ?_) proven.apart proven.turns
    exact (proven.waits flight flying).stretch stretch (others flight flying) (.inr fun done => open' (before done))
  · rw [enter] at spec begins
    obtain ⟨stretch, nodes, alive, named, known⟩ := spec
    obtain rfl := Option.some.inj begins
    have here : transaction.node = id := congrArg Prod.fst named
    have before (done : (entered.nodes id).status = .done) : p.status id = .done := by
      rw [nodes] at done
      exact done
    have held := proven.held.stretch stretch (Nat.le_refl _) fun _ _ _ _ done still _ => absurd (before done) still
    refine proven_continueWith held (fun flight flying => ?_) ?_ fun flight behind => ?_
    · rcases List.mem_append.mp flying with flying | last
      · exact (proven.waits flight flying).stretch stretch (others flight flying) (.inr fun done => open' (before done))
      · obtain rfl := List.mem_singleton.mp last
        refine ⟨?_, ?_, known, fun _ waiting => by cases waiting⟩
        · rw [nodes, here]
          exact (congrArg Prod.snd named).symm
        · rw [nodes, here]
          exact open'
    · rw [List.map_append, List.nodup_append]
      refine ⟨proven.apart, List.nodup_singleton _, fun one inside other last => ?_⟩
      obtain ⟨flight, flying, rfl⟩ := List.mem_map.mp inside
      rw [List.map_singleton, List.mem_singleton] at last
      rw [last, here]
      exact others flight flying
    · rcases flights : p.flights with _ | ⟨first, rest⟩
      · rw [flights] at behind
        cases behind
      · rw [flights, List.cons_append, List.tail_cons] at behind
        rcases List.mem_append.mp behind with behind | last
        · exact proven.turns flight (by rwa [flights])
        · rw [List.mem_singleton.mp last]

/-- The operator closes a human step that does not close the phase. -/
theorem Proven.answer (proven : Proven contract p) {id : ν} {q : Phase ν τ}
    (allowed : careful contract p (.answer id)) (taken : step cfg contract p (.answer id) = some q) :
    Proven contract q := by
  simp only [step] at taken
  obtain ⟨node, found, taken⟩ := Option.bind_eq_some_iff.mp taken
  obtain ⟨member, rfl⟩ := nodeOf_eq_some found
  split_ifs at taken with enabled
  obtain ⟨_, alone, _, waits⟩ := enabled
  have empty : p.flights = [] := List.isEmpty_iff.mp alone
  obtain rfl := Option.some.inj taken
  have open' : (p.world.nodes node.id).status ≠ .done := by
    intro done
    simp [isHumanStepPending, blockedWith, status, done] at waits
  have answered : Stretch (node.id, (p.world.nodes node.id).attempt) p.world
      (p.world.patch node.id fun state => { state with status := .done, error := none }) := by
    refine ⟨⟨fun _ event => event, fun _ deed => deed, fun other differs => patch_nodes_of_ne p.world differs _, ?_⟩,
      Nat.le_refl _, id, fun _ => ?_, fun _ => .inr rfl, fun _ _ => rfl, fun _ => .inl, fun _ => .inl⟩
    · rw [patch_nodes_self]
    · rw [patch_nodes_self]
  have held := proven.held.stretch answered (Nat.le_refl _) fun last inside own terminal _ _ closed => by
    obtain ⟨sibling, there, differs, siblingTerminal, siblingOpen⟩ := allowed last inside own terminal
    exact absurd (closed sibling there differs siblingTerminal) siblingOpen
  rw [empty]
  exact proven_of_held held

theorem Proven.step (proven : Proven contract p) {label : Label ν τ} {q : Phase ν τ}
    (allowed : careful contract p label) (taken : Phase.step cfg contract p label = some q) :
    Proven contract q := by
  cases label with
  | commit tree parents =>
    simp only [Phase.step] at taken
    split_ifs at taken with known
    obtain rfl := Option.some.inj taken
    exact proven.commit known
  | startAttempt id =>
    simp only [Phase.step] at taken
    obtain ⟨node, _, taken⟩ := Option.bind_eq_some_iff.mp taken
    split_ifs at taken with enabled
    obtain ⟨_, _, _, landed, open'⟩ := enabled
    obtain rfl := Option.some.inj taken
    exact proven.patch open' (fun same => by cases same) (Nat.le_succ _) fun flying => by cases landed.symm.trans flying
  | transition id status =>
    simp only [Phase.step] at taken
    split_ifs at taken with enabled
    obtain ⟨_, open', opens⟩ := enabled
    obtain rfl := Option.some.inj taken
    exact proven.patch open' opens (Nat.le_refl _) fun _ => rfl
  | stop id =>
    simp only [Phase.step] at taken
    obtain ⟨node, _, taken⟩ := Option.bind_eq_some_iff.mp taken
    obtain ⟨humanStep, _, taken⟩ := Option.bind_eq_some_iff.mp taken
    split_ifs at taken with enabled
    obtain ⟨_, pending, _⟩ := enabled
    obtain rfl := Option.some.inj taken
    exact proven.patch (by simp [pending]) (fun same => by cases same) (Nat.le_refl _) fun _ => rfl
  | integrate id attemptSha passed crash => exact proven.integrate allowed taken
  | verify => exact proven.verify taken
  | conclude passed crash => exact proven.conclude taken
  | die =>
    obtain rfl := Option.some.inj taken
    exact proven_of_held (proven.held.halt true)
  | recover passed crash =>
    simp only [Phase.step] at taken
    split_ifs at taken
    obtain rfl := Option.some.inj taken
    exact proven.recover allowed
  | answer id => exact proven.answer allowed taken

omit [DecidableEq τ] in
theorem Initial.proven {initial : Nat} (start : Initial initial contract p) : Proven contract p := by
  obtain ⟨⟨known, _, journal, doneEvents, _, _⟩, flights, pending⟩ := start
  have nothing (key : ν × Nat) : p.world.lastRecord key = none := by
    rw [World.lastRecord, journal]
    rfl
  obtain ⟨node, member, terminal⟩ := exists_phaseTerminalNode contract
  have held : Held contract p.world := by
    refine ⟨known, fun key record last => ?_, fun key record last => ?_, fun key record last => ?_, ?_,
      .inl ⟨node, member, terminal, fun done => ?_⟩⟩
    · cases (nothing key).symm.trans last
    · cases (nothing key).symm.trans last
    · cases (nothing key).symm.trans last
    · rw [doneEvents]
      exact fun _ told => by cases told
    · cases (pending node member).symm.trans done
  obtain ⟨world, _⟩ := p
  obtain rfl : _ = [] := flights
  exact proven_of_held held

end Runs

/-- The three nodes of the phase below are numerals. -/
local instance : NeZero 3 := ⟨by decide⟩

/-- Two tasks, and a human step behind the first of them. -/
def publishing : Contract (Fin 3) String where
  nodes := [⟨0, [], none, ["unit"]⟩, ⟨1, [0], some ⟨"publish", "npm publish"⟩, []⟩, ⟨2, [], none, ["lint"]⟩]
  sharedVerification := none
  finalVerification := some ["suite"]
  nonempty := by decide
  nodup := by decide
  known := by decide
  acyclic := ⟨Fin.val, by decide⟩

/-- A merge always succeeds. -/
def merging : Config (Fin 3) Nat := ⟨fun _ _ _ => .tree 9, fun _ => 1, fun _ => true⟩

/-- One root commit, and three nodes that have not run. -/
def fresh : Phase (Fin 3) Nat where
  world := {
    graph := .root 0
    runRef := 0
    journal := []
    nodes := fun _ => ⟨.pending, 0, 0, none, none⟩
    doneEvents := []
    halted := false
    history := [] }
  flights := []

theorem fresh_initial : Initial 0 publishing fresh := ⟨⟨by decide, rfl, rfl, rfl, rfl, rfl⟩, rfl, by decide⟩

/-- No verdict on a candidate of the last task saw the human step settled. -/
def unseen (p : Phase (Fin 3) Nat) : Bool :=
  p.world.history.all fun deed =>
    match deed with
    | .verdict node _ _ _ seen => decide (node ≠ 1 ∧ (seen 1).settled = false)
    | _ => true

end Faberun.Phase
