import Faberun.Soundness.Integration

/-! # What any integration writes

A stretch of an integration writes about one transaction, whatever else is open beside it: its journal records carry that
key, its node is the only one that changes, and a node that becomes done is at the attempt of the transaction. Nothing here
asks that other transactions are over, so it holds with several integrations in flight and of every record a recovery
comes across.
-/

namespace Faberun.Integration

variable {ν τ : Type} [DecidableEq ν]

/-- What a stretch about the transaction of a key may change. -/
structure Stretch (key : ν × Nat) (w t : World ν τ) : Prop extends Extends key.1 w t where
  size : w.graph.size ≤ t.graph.size
  ref : w.runRef < w.graph.size → t.runRef < t.graph.size
  stays : (w.nodes key.1).status = .done → (t.nodes key.1).status = .done
  current : (t.nodes key.1).status = .done → (w.nodes key.1).status = .done ∨ (w.nodes key.1).attempt = key.2
  journal : ∀ other, other ≠ key → t.lastRecord other = w.lastRecord other
  own : ∀ record, t.lastRecord key = some record → w.lastRecord key = some record ∨
    (∀ candidate, record.candidateSha = some candidate → candidate < t.graph.size) ∧
      (record.status = .accepted → (w.nodes key.1).attempt = key.2 → (t.nodes key.1).status = .done)
  written : ∀ event ∈ t.doneEvents, event ∈ w.doneEvents ∨
    event = (key.1, (w.nodes key.1).attempt) ∧ (t.nodes key.1).status = .done

section Stretches

variable {key : ν × Nat} {w mid t : World ν τ} {record : IntegrationRecord ν}

omit [DecidableEq ν] in
theorem Extends.attempt_eq {node : ν} (grown : Extends node w t) (other : ν) :
    (t.nodes other).attempt = (w.nodes other).attempt := by
  by_cases same : other = node
  · rw [same, grown.attempt]
  · rw [grown.others other same]

theorem Stretch.refl (key : ν × Nat) (w : World ν τ) : Stretch key w w :=
  ⟨.refl key.1 w, Nat.le_refl _, id, id, .inl, fun _ _ => rfl, fun _ => .inl, fun _ => .inl⟩

theorem Stretch.trans (first : Stretch key w mid) (second : Stretch key mid t) : Stretch key w t where
  toExtends := first.toExtends.trans second.toExtends
  size := Nat.le_trans first.size second.size
  ref known := second.ref (first.ref known)
  stays done := second.stays (first.stays done)
  current done := by
    rcases second.current done with before | attempt
    · exact first.current before
    · exact .inr (first.attempt ▸ attempt)
  journal other differs := (second.journal other differs).trans (first.journal other differs)
  own record last := by
    rcases second.own record last with before | ⟨known, done⟩
    · refine (first.own record before).imp_right fun ⟨known, done⟩ => ⟨fun candidate has => ?_, fun accepted attempt => ?_⟩
      · exact Nat.lt_of_lt_of_le (known candidate has) second.size
      · exact second.stays (done accepted attempt)
    · exact .inr ⟨known, fun accepted attempt => done accepted (first.attempt.trans attempt)⟩
  written event member := by
    rcases second.written event member with before | ⟨same, done⟩
    · exact (first.written event before).imp_right fun ⟨same, done⟩ => ⟨same, second.stays done⟩
    · exact .inr ⟨first.attempt ▸ same, done⟩

/-- A stretch leaves a node done that is. -/
theorem Stretch.keeps (stretch : Stretch key w t) {other : ν} (done : (w.nodes other).status = .done) :
    (t.nodes other).status = .done := by
  by_cases same : other = key.1
  · exact same ▸ stretch.stays (same ▸ done)
  · rw [stretch.others other same, done]

theorem stretch_interruptStage (key : ν × Nat) (w : World ν τ) (crash : Option Stage) (stage : Stage) :
    Stretch key w (w.interruptStage crash stage) := by
  rcases interruptStage_cases w crash stage with ⟨_, halted⟩ | same
  · rw [halted]
    exact { Stretch.refl key w with }
  · rw [same]
    exact .refl key w

theorem stretch_judge (key : ν × Nat) (w : World ν τ) (transaction : IntegrationRecord ν) (candidate : Nat) (passed : Bool)
    (seen : ν → NodeStatus) : Stretch key w (w.judge transaction candidate passed seen) :=
  { Stretch.refl key w with toExtends := extends_judge key.1 w transaction candidate passed seen }

theorem stretch_appendRecord (w : World ν τ) (same : record.key = key) (open' : record.status ≠ .accepted)
    (known : ∀ candidate, record.candidateSha = some candidate → candidate < w.graph.size) :
    Stretch key w (w.appendRecord record) where
  toExtends := extends_appendRecord key.1 w record
  size := Nat.le_refl _
  ref := id
  stays := id
  current := .inl
  journal other differs := by rw [lastRecord_appendRecord, if_neg (same ▸ differs.symm)]
  own other last := by
    rw [lastRecord_appendRecord, if_pos same] at last
    obtain rfl := Option.some.inj last
    exact .inr ⟨known, fun accepted => absurd accepted open'⟩
  written _ := .inl

theorem Touches.stretch (touches : Touches w t key.1) (stays : (w.nodes key.1).status = .done → (t.nodes key.1).status = .done) :
    Stretch key w t where
  toExtends := touches.extends
  size := Nat.le_of_eq (by rw [touches.same.1])
  ref known := by rwa [touches.same.1, touches.same.2.1]
  stays := stays
  current done := .inl (touches.status done)
  journal other _ := lastRecord_congr touches.same.2.2.1 other
  own record last := .inl (by rwa [lastRecord_congr touches.same.2.2.1] at last)
  written event member := .inl (by rwa [touches.events.2] at member)

theorem Completes.stretch (completes : Completes w t key.1) (attempt : (w.nodes key.1).attempt = key.2) : Stretch key w t where
  toExtends := completes.extends
  size := Nat.le_of_eq (by rw [completes.same.1])
  ref known := by rwa [completes.same.1, completes.same.2.1]
  stays _ := completes.status
  current _ := .inr attempt
  journal other _ := lastRecord_congr completes.same.2.2.1 other
  own record last := .inl (by rwa [lastRecord_congr completes.same.2.2.1] at last)
  written event member := by
    rcases completes.events with ⟨_, events⟩ | ⟨_, events⟩
    · exact ((events event).mp member).imp_right fun here => ⟨here, completes.status⟩
    · exact .inl (events ▸ member)

/-- An acceptance, journaled and told to the caller: the node is completed, or has gone on to another attempt. -/
theorem stretch_accepted (same : record.key = key) (known : ∀ candidate, record.candidateSha = some candidate → candidate < w.graph.size)
    (told : Completes (w.appendRecord record) t key.1 ∧ (w.nodes key.1).attempt = key.2 ∨
      t = w.appendRecord record ∧ (w.nodes key.1).attempt ≠ key.2) : Stretch key w t := by
  have journal (other : ν × Nat) (differs : other ≠ key) : (w.appendRecord record).lastRecord other = w.lastRecord other := by
    rw [lastRecord_appendRecord, if_neg (same ▸ differs.symm)]
  have own {other : IntegrationRecord ν} (last : (w.appendRecord record).lastRecord key = some other) : record = other := by
    rw [lastRecord_appendRecord, if_pos same] at last
    exact Option.some.inj last
  rcases told with ⟨completes, attempt⟩ | ⟨rfl, attempt⟩
  · have after := completes.stretch attempt
    refine { after with
      toExtends := (extends_appendRecord key.1 w record).trans completes.extends
      journal := fun other differs => (after.journal other differs).trans (journal other differs)
      own := fun other found => .inr ⟨fun candidate has => ?_, fun _ _ => completes.status⟩ }
    rw [lastRecord_congr completes.same.2.2.1] at found
    obtain rfl := own found
    exact Nat.lt_of_lt_of_le (known candidate has) after.size
  · refine ⟨extends_appendRecord key.1 w record, Nat.le_refl _, id, id, .inl, journal, fun other found => ?_, fun _ => .inl⟩
    obtain rfl := own found
    exact .inr ⟨known, fun _ current => absurd current attempt⟩

/-! ## What the callers make of it -/

/-- What a caller makes of a transaction that is rejected. -/
inductive Callbacks.Rejects (cb : Callbacks ν τ) (w : World ν τ) (transaction : IntegrationRecord ν) : World ν τ → Prop
  | verificationFailure : cb.Rejects w transaction (cb.onVerificationFailure w transaction)
  | conflict : cb.Rejects w transaction (cb.onConflict w transaction)
  | concurrentMove (current : Nat) : cb.Rejects w transaction (cb.onConcurrentMove w transaction current)

/-- What a caller does about a transaction while the nodes are as in `w`: it completes the node of an accepted one, unless
the node has gone on to another attempt, and of a rejected one neither completes nor reopens a node. -/
structure Callbacks.Serves (cb : Callbacks ν τ) (key : ν × Nat) (w : World ν τ) : Prop where
  onAccepted : ∀ crash (u : World ν τ) transaction, transaction.key = key → u.nodes = w.nodes → u.halted = false →
    (key ∈ u.doneEvents → (w.nodes key.1).attempt = key.2 → (w.nodes key.1).status = .done) →
      Completes u (cb.onAccepted crash u transaction) key.1 ∧ (w.nodes key.1).attempt = key.2 ∨
        cb.onAccepted crash u transaction = u ∧ (w.nodes key.1).attempt ≠ key.2
  rejected : ∀ (u t : World ν τ) transaction, transaction.key = key → u.nodes = w.nodes → cb.Rejects u transaction t →
    Touches u t key.1 ∧ ((u.nodes key.1).status = .done → (t.nodes key.1).status = .done)

private theorem touches_blockedByMove (w : World ν τ) (transaction : IntegrationRecord ν) (current : Nat) (node : ν) :
    Touches w (blockedByMove w node transaction current) node := by
  rw [blockedByMove]
  exact touches_patch w node rfl nofun

theorem settleCallbacks_serves (cfg : Config ν τ) (open' : (w.nodes key.1).status ≠ .done) :
    (settleCallbacks cfg key.1).Serves key w where
  onAccepted crash u transaction same nodes running _ := by
    have attempt : transaction.attempt = key.2 := congrArg Prod.snd same
    by_cases current : (w.nodes key.1).attempt = key.2
    · refine .inl ⟨(settleCallbacks_completes cfg crash running ?_).1, current⟩
      rw [nodes, current, attempt]
    · refine .inr ⟨?_, current⟩
      simp only [settleCallbacks, nodes, attempt, if_neg current]
  rejected u t transaction _ nodes rejects := by
    rw [nodes]
    refine ⟨?_, fun done => absurd done open'⟩
    cases rejects with
    | verificationFailure => exact touches_applyRejection cfg u key.1 _
    | conflict => exact touches_blockedByConflict u key.1 transaction
    | concurrentMove current => exact touches_blockedByMove u transaction current key.1

theorem recoveryCallbacks_serves (cfg : Config ν τ) (key : ν × Nat) (w : World ν τ) :
    (recoveryCallbacks cfg).Serves key w where
  onAccepted crash u transaction same nodes running settled := by
    subst same
    by_cases current : (w.nodes transaction.node).attempt = transaction.attempt
    · have attempt : (u.nodes transaction.node).attempt = transaction.attempt := by rw [nodes, current]
      refine .inl ⟨((recoveryCallbacks_handles cfg transaction.node).onAccepted crash u transaction rfl running attempt
        fun event => ?_).1, current⟩
      rw [nodes]
      exact settled event current
    · refine .inr ⟨?_, current⟩
      simp only [recoveryCallbacks, nodes, current, false_and, if_false, running, Bool.false_eq_true]
  rejected u t transaction same _ rejects := by
    subst same
    have guarded {rejection : World ν τ} (touches : Touches u rejection transaction.node) :
        Touches u (if (u.nodes transaction.node).status.settled then u else rejection) transaction.node ∧
          ((u.nodes transaction.node).status = .done →
            ((if (u.nodes transaction.node).status.settled then u else rejection).nodes transaction.node).status = .done) := by
      split_ifs with settled
      · exact ⟨touches_refl u _, id⟩
      · exact ⟨touches, fun done => absurd (by rw [done]; rfl) settled⟩
    cases rejects with
    | verificationFailure => exact guarded (touches_applyRejection cfg u _ _)
    | conflict => exact guarded (touches_blockedByConflict u _ transaction)
    | concurrentMove current => exact guarded (touches_blockedByMove u transaction current _)

variable {cb : Callbacks ν τ} {crash : Option Stage} {u : World ν τ} {transaction : IntegrationRecord ν}

/-- A rejection, behind the record it is journaled with. -/
theorem Callbacks.Serves.stretch (serves : cb.Serves key w) (same : transaction.key = key) (nodes : u.nodes = w.nodes)
    (rejects : cb.Rejects u transaction t) : Stretch key u t := by
  obtain ⟨touches, stays⟩ := serves.rejected u t transaction same nodes rejects
  exact touches.stretch stays

/-- What an acceptance leaves of the run ref and of the transaction's own record. -/
structure Settled (key : ν × Nat) (w t : World ν τ) : Prop where
  graph : t.graph = w.graph
  ref : t.runRef = w.runRef
  last : ∀ record, t.lastRecord key = some record → record.status ≠ .verified

theorem accept_stretch (serves : cb.Serves key w) (same : transaction.key = key) (nodes : u.nodes = w.nodes)
    (running : u.halted = false) (settled : key ∈ u.doneEvents → (w.nodes key.1).attempt = key.2 → (w.nodes key.1).status = .done)
    (known : ∀ candidate, transaction.candidateSha = some candidate → candidate < u.graph.size)
    {prior : IntegrationRecord ν} (last : u.lastRecord key = some prior) (open' : prior.status ≠ .accepted) :
    Stretch key u (accept cb crash u transaction) ∧ Settled key u (accept cb crash u transaction) := by
  subst same
  have named : (transaction.withStatus .accepted).key = transaction.key := rfl
  have journaled : (u.appendRecord (transaction.withStatus .accepted)).lastRecord transaction.key =
      some (transaction.withStatus .accepted) := by
    rw [lastRecord_appendRecord, if_pos named]
  simp only [accept, appendAccepted_of_last last open']
  have told := serves.onAccepted crash (u.appendRecord (transaction.withStatus .accepted)) (transaction.withStatus .accepted)
    rfl nodes running settled
  refine ⟨stretch_accepted named known (by rwa [nodes]), ?_⟩
  rcases told with ⟨completes, _⟩ | ⟨stays, _⟩
  · refine ⟨completes.same.1, completes.same.2.1, fun record found => ?_⟩
    rw [lastRecord_congr completes.same.2.2.1, journaled] at found
    obtain rfl := Option.some.inj found
    exact fun same => by cases same
  · rw [stays]
    refine ⟨rfl, rfl, fun record found => ?_⟩
    rw [journaled] at found
    obtain rfl := Option.some.inj found
    exact fun same => by cases same

/-- A verified transaction is accepted, found moved, or moves the run ref itself. -/
theorem advanceVerified_stretch (serves : cb.Serves key w) (same : transaction.key = key) (nodes : u.nodes = w.nodes)
    (running : u.halted = false) (settled : key ∈ u.doneEvents → (w.nodes key.1).attempt = key.2 → (w.nodes key.1).status = .done)
    (known : ∀ candidate, transaction.candidateSha = some candidate → candidate < u.graph.size)
    (last : u.lastRecord key = some transaction) (verified : transaction.status = .verified) :
    Stretch key u (advanceVerified cb crash u transaction) := by
  have open' : transaction.status ≠ .accepted := by simp [verified]
  have accepts : Stretch key u (accept cb crash u transaction) :=
    (accept_stretch serves same nodes running settled known last open').1
  simp only [advanceVerified]
  split_ifs
  · exact accepts
  · exact serves.stretch same nodes (.concurrentMove _)
  · exact accepts
  · cases has : transaction.candidateSha with
    | none => exact .refl key u
    | some candidate =>
      simp only [World.updateRefConditional]
      split_ifs with stands
      · -- the run ref moves, and the controller may die before the acceptance
        obtain ⟨moved, went⟩ : ∃ moved : World ν τ, moved = { u with
            runRef := candidate
            history := u.history ++ [.moved transaction.node transaction.attempt transaction.previousRunRefTip candidate] } :=
          ⟨_, rfl⟩
        have moves : Stretch key u moved := by
          rw [went]
          exact { Stretch.refl key u with
            history := fun _ deed => List.mem_append_left _ deed
            ref := fun _ => known candidate has }
        dsimp only
        rw [← went]
        rcases interruptStage_cases moved crash .afterRef with ⟨_, halted⟩ | stays
        · rw [halted, if_pos rfl]
          exact moves.trans { Stretch.refl key moved with }
        · have alive : moved.halted = false := by rw [went]; exact running
          have accepting : Stretch key moved (accept cb crash moved transaction) := by
            refine (accept_stretch serves same ?_ alive ?_ ?_ ?_ open').1
            all_goals rw [went]
            · exact nodes
            · exact settled
            · exact known
            · exact last
          rw [stays, alive, if_neg Bool.false_ne_true]
          exact moves.trans (accepting.trans (stretch_interruptStage key _ crash .afterState))
      · exact serves.stretch same nodes (.concurrentMove _)

/-- A verification answers, and the transaction is advanced or rejected. What becomes done was verified. -/
theorem verifyAndAdvance_stretch {passed : Bool} {seen : ν → NodeStatus} (serves : cb.Serves key w) (same : transaction.key = key)
    (nodes : u.nodes = w.nodes) (running : u.halted = false)
    (settled : key ∈ u.doneEvents → (w.nodes key.1).attempt = key.2 → (w.nodes key.1).status = .done)
    (known : ∀ candidate, transaction.candidateSha = some candidate → candidate < u.graph.size) :
    Stretch key u (verifyAndAdvance cb crash passed seen u transaction) ∧
      (((verifyAndAdvance cb crash passed seen u transaction).nodes key.1).status = .done →
        (w.nodes key.1).status = .done ∨ ∃ candidate,
          .verdict key.1 key.2 candidate true seen ∈ (verifyAndAdvance cb crash passed seen u transaction).history) := by
  subst same
  rw [verifyAndAdvance]
  cases has : transaction.candidateSha with
  | none => exact ⟨.refl _ u, fun done => .inl (nodes ▸ done)⟩
  | some candidate =>
    have judged := stretch_judge transaction.key u transaction candidate passed seen
    cases passed with
    | false =>
      have named : transaction.failed.key = transaction.key := rfl
      have failed := judged.trans
        (stretch_appendRecord (u.judge transaction candidate false seen) named (fun same => by cases same) known)
      have rejects : cb.Rejects ((u.judge transaction candidate false seen).appendRecord transaction.failed) transaction _ :=
        .verificationFailure
      refine ⟨failed.trans (serves.stretch rfl nodes rejects), fun done => .inl ?_⟩
      have before := (serves.rejected ((u.judge transaction candidate false seen).appendRecord transaction.failed) _ transaction
        rfl nodes rejects).1.status done
      exact nodes ▸ before
    | true =>
      have named : transaction.verified.key = transaction.key := rfl
      have journaled := stretch_appendRecord (u.judge transaction candidate true seen) named (fun same => by cases same) known
      have last : ((u.judge transaction candidate true seen).appendRecord transaction.verified).lastRecord transaction.key =
          some transaction.verified := by
        rw [lastRecord_appendRecord, if_pos named]
      have rest : Stretch transaction.key ((u.judge transaction candidate true seen).appendRecord transaction.verified)
          (if (((u.judge transaction candidate true seen).appendRecord transaction.verified).interruptStage crash
              .beforeRef).halted then
            ((u.judge transaction candidate true seen).appendRecord transaction.verified).interruptStage crash .beforeRef
          else advanceVerified cb crash
            (((u.judge transaction candidate true seen).appendRecord transaction.verified).interruptStage crash .beforeRef)
            transaction.verified) := by
        rcases interruptStage_cases ((u.judge transaction candidate true seen).appendRecord transaction.verified) crash
          .beforeRef with ⟨_, halted⟩ | stays
        · rw [halted, if_pos rfl]
          exact { Stretch.refl _ _ with }
        · have alive : ((u.judge transaction candidate true seen).appendRecord transaction.verified).halted = false := running
          rw [stays, alive, if_neg Bool.false_ne_true]
          exact advanceVerified_stretch serves named nodes running settled known last rfl
      have verdict : Deed.verdict transaction.key.1 transaction.key.2 candidate true seen ∈
          ((u.judge transaction candidate true seen).appendRecord transaction.verified).history :=
        List.mem_append_left _ (List.mem_append_right _ List.mem_cons_self)
      exact ⟨judged.trans (journaled.trans rest), fun _ => .inr ⟨candidate, rest.history _ verdict⟩⟩

/-- A transaction opened for the current attempt of a node: it is prepared, or it is in conflict and over. -/
theorem openTransaction_stretch [DecidableEq τ] {cfg : Config ν τ} {node : ν} {attemptSha : Nat}
    (serves : cb.Serves (node, (w.nodes node).attempt) w) (running : w.halted = false) (known : w.runRef < w.graph.size)
    (sealed : attemptSha < w.graph.size) :
    match openTransaction cfg cb crash w node (w.nodes node).attempt attemptSha with
    | (t, none) => Stretch (node, (w.nodes node).attempt) w t ∧ ((t.nodes node).status = .done → (w.nodes node).status = .done)
    | (t, some transaction) => Stretch (node, (w.nodes node).attempt) w t ∧ t.nodes = w.nodes ∧ t.halted = false ∧
        transaction.key = (node, (w.nodes node).attempt) ∧
        ∀ candidate, transaction.candidateSha = some candidate → candidate < t.graph.size := by
  rw [openTransaction]
  cases prepare : prepareTransaction cfg w.graph node (w.nodes node).attempt attemptSha w.runRef with
  | none => exact ⟨.refl _ w, id⟩
  | some result =>
    obtain ⟨graph, transaction⟩ := result
    have prepared := prepareTransaction_prepared known sealed prepare
    have kept (candidate : Nat) (has : transaction.candidateSha = some candidate) : candidate < graph.size :=
      (prepared.candidate candidate has).2
    have grown : Stretch (node, (w.nodes node).attempt) w { w with graph } :=
      { Stretch.refl _ w with
        size := prepared.larger
        own := fun _ => .inl
        ref := fun known => Nat.lt_of_lt_of_le known prepared.larger }
    have open' : transaction.status ≠ .accepted := by simp [prepared.status]
    have journaled := grown.trans (stretch_appendRecord { w with graph } prepared.key open' kept)
    rcases interruptStage_cases (World.appendRecord { w with graph } transaction) crash .prepared with ⟨_, halted⟩ | same
    · simp only [halted, if_true]
      exact ⟨journaled.trans { Stretch.refl _ _ with }, id⟩
    · have alive : (World.appendRecord { w with graph } transaction).halted = false := running
      simp only [same, alive, Bool.false_eq_true, if_false]
      split_ifs with paths
      · have conflicting : (transaction.withStatus .conflict).key = (node, (w.nodes node).attempt) := prepared.key
        have rejects : cb.Rejects ((World.appendRecord { w with graph } transaction).appendRecord
            (transaction.withStatus .conflict)) transaction _ := .conflict
        have closing := stretch_appendRecord (World.appendRecord { w with graph } transaction) conflicting
          (fun same => by cases same) kept
        refine ⟨journaled.trans (closing.trans (serves.stretch prepared.key rfl rejects)), fun done => ?_⟩
        exact (serves.rejected ((World.appendRecord { w with graph } transaction).appendRecord
          (transaction.withStatus .conflict)) _ transaction prepared.key rfl rejects).1.status done
      · exact ⟨journaled, rfl, running, prepared.key, kept⟩

end Stretches

end Faberun.Integration
