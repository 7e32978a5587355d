import Faberun.Soundness.IntegrationInvariant

/-! # Integration is crash-consistent

Each stretch of an integration ends `Finished`: sound, with nothing open unless the controller died. A
recovery passes over inert records and finishes the one a crash left, so re-running it does nothing.
-/

namespace Faberun.Integration

variable {ν τ : Type} [DecidableEq ν]

/-! ## One transaction -/

/-- A stretch about one node leaves the other nodes alone, and forgets nothing. -/
structure Extends (node : ν) (w t : World ν τ) : Prop where
  events : ∀ key ∈ w.doneEvents, key ∈ t.doneEvents
  history : ∀ deed ∈ w.history, deed ∈ t.history
  others : ∀ other, other ≠ node → t.nodes other = w.nodes other
  attempt : (t.nodes node).attempt = (w.nodes node).attempt

/-- A stretch of an integration is over: it ran to its end, or the controller died where told to. -/
structure Finished (initial : Nat) (crash : Option Stage) (node : ν) (w t : World ν τ) : Prop
    extends Extends node w t where
  sound : Sound initial t
  rest : (t.halted = false ∧ Quiet t) ∨
    t.halted = true ∧ crash ≠ none ∧ (Quiet t ∨ ∃ record, record.node = node ∧ Unfinished t record)

section Transactions

variable {initial : Nat} {crash : Option Stage} {node : ν} {w t : World ν τ} {transaction : IntegrationRecord ν}

omit [DecidableEq ν] in
theorem Extends.refl (node : ν) (w : World ν τ) : Extends node w w :=
  ⟨fun _ event => event, fun _ deed => deed, fun _ _ => rfl, rfl⟩

omit [DecidableEq ν] in
theorem Extends.trans {mid : World ν τ} (first : Extends node w mid) (second : Extends node mid t) :
    Extends node w t :=
  ⟨fun key event => second.events key (first.events key event),
    fun deed there => second.history deed (first.history deed there),
    fun other differs => (second.others other differs).trans (first.others other differs),
    second.attempt.trans first.attempt⟩

omit [DecidableEq ν] in
theorem extends_appendRecord (node : ν) (w : World ν τ) (record : IntegrationRecord ν) :
    Extends node w (w.appendRecord record) :=
  ⟨fun _ event => event, fun _ deed => List.mem_append_left _ deed, fun _ _ => rfl, rfl⟩

omit [DecidableEq ν] in
theorem extends_judge (node : ν) (w : World ν τ) (transaction : IntegrationRecord ν) (candidate : Nat) (passed : Bool)
    (seen : ν → NodeStatus) : Extends node w (w.judge transaction candidate passed seen) :=
  ⟨fun _ event => event, fun _ deed => List.mem_append_left _ deed, fun _ _ => rfl, rfl⟩

omit [DecidableEq ν] in
theorem Completes.extends (completes : Completes w t node) : Extends node w t := by
  refine ⟨fun key event => ?_, fun deed there => by rwa [completes.same.2.2.2], completes.others, completes.attempt⟩
  rcases completes.events with ⟨_, events⟩ | ⟨_, events⟩
  · exact (events key).mpr (.inl event)
  · rwa [events]

omit [DecidableEq ν] in
theorem Touches.extends (touches : Touches w t node) : Extends node w t :=
  ⟨fun key event => by rwa [touches.events.2], fun deed there => by rwa [touches.same.2.2.2], touches.others,
    touches.attempt⟩

theorem Finished.kept (finished : Finished initial crash node w t) : Kept initial t where
  sound := finished.sound
  rest := by
    rcases finished.rest with ⟨_, quiet⟩ | ⟨halted, _, quiet | ⟨record, _, unfinished⟩⟩
    · exact .inl quiet
    · exact .inl quiet
    · exact .inr ⟨halted, record, unfinished⟩

theorem Finished.running (finished : Finished initial none node w t) : t.halted = false ∧ Quiet t := by
  rcases finished.rest with rest | ⟨_, dies, _⟩
  · exact rest
  · exact absurd rfl dies

theorem Finished.interrupt (finished : Finished initial crash node w t) (stage : Stage) :
    Finished initial crash node w (t.interruptStage crash stage) := by
  simp only [World.interruptStage]
  split_ifs with died
  · refine ⟨⟨finished.events, finished.history, finished.others, finished.attempt⟩, finished.sound.halt true,
      .inr ⟨rfl, by simp [died], ?_⟩⟩
    rcases finished.rest with ⟨_, quiet⟩ | ⟨_, _, quiet | ⟨record, own, unfinished⟩⟩
    · exact .inl quiet
    · exact .inl quiet
    · exact .inr ⟨record, own, unfinished.halt true⟩
  · exact finished

omit [DecidableEq ν] in
theorem interruptStage_cases (w : World ν τ) (crash : Option Stage) (stage : Stage) :
    (crash ≠ none ∧ w.interruptStage crash stage = { w with halted := true }) ∨ w.interruptStage crash stage = w := by
  by_cases died : crash = some stage
  · exact .inl ⟨by simp [died], if_pos died⟩
  · exact .inr (if_neg died)

/-- A controller that dies with one transaction open. -/
theorem Finished.of_unfinished (sound : Sound initial t) (unfinished : Unfinished t transaction)
    (died : crash ≠ none) (grown : Extends transaction.node w t) :
    Finished initial crash transaction.node w { t with halted := true } :=
  ⟨⟨grown.events, grown.history, grown.others, grown.attempt⟩, sound.halt true,
    .inr ⟨rfl, died, .inr ⟨transaction, rfl, unfinished.halt true⟩⟩⟩

theorem Finished.of_quiet (sound : Sound initial w) (running : w.halted = false) (quiet : Quiet w) (node : ν) :
    Finished initial crash node w w :=
  ⟨.refl node w, sound, .inl ⟨running, quiet⟩⟩

theorem Finished.after {mid : World ν τ} (finished : Finished initial crash node mid t)
    (grown : Extends node w mid) : Finished initial crash node w t :=
  ⟨grown.trans finished.toExtends, finished.sound, finished.rest⟩

theorem appendAccepted_of_last {prior : IntegrationRecord ν} (last : w.lastRecord transaction.key = some prior)
    (open' : prior.status ≠ .accepted) : w.appendAccepted transaction =
      (w.appendRecord (transaction.withStatus .accepted), transaction.withStatus .accepted) := by
  have missing : (latestIntegrationTransactions w.journal).find?
      (fun record => decide (record.key = transaction.key ∧ record.status = .accepted)) = none := by
    refine List.find?_eq_none.mpr fun record member => ?_
    rw [decide_eq_true_eq]
    rintro ⟨same, accepted⟩
    have found := mem_latestIntegrationTransactions.mp member
    rw [same, last] at found
    exact open' (Option.some.inj found ▸ accepted)
  simp only [World.appendAccepted, missing]

theorem appendConflict_of_last {prior : IntegrationRecord ν} (last : w.lastRecord transaction.key = some prior)
    (open' : prior.status ≠ .conflict) : w.appendConflict transaction =
      (w.appendRecord (transaction.withStatus .conflict), transaction.withStatus .conflict) := by
  have missing : (latestIntegrationTransactions w.journal).find?
      (fun record => decide (record.key = transaction.key ∧ record.status = .conflict)) = none := by
    refine List.find?_eq_none.mpr fun record member => ?_
    rw [decide_eq_true_eq]
    rintro ⟨same, conflict⟩
    have found := mem_latestIntegrationTransactions.mp member
    rw [same, last] at found
    exact open' (Option.some.inj found ▸ conflict)
  simp only [World.appendConflict, missing]

/-- An attempt whose last record is open has no `done` event. -/
theorem Sound.no_event (sound : Sound initial w) {key : ν × Nat} {record : IntegrationRecord ν}
    (last : w.lastRecord key = some record) (open' : record.status ≠ .accepted) (real : ¬ record.Void) :
    key ∉ w.doneEvents := by
  intro event
  obtain ⟨_, other, found, state⟩ := sound.events key event
  obtain rfl := Option.some.inj (last.symm.trans found)
  exact state.elim open' real

/-- The other transactions stay inert when one record of this one is journaled. -/
theorem quietBut_appendRecord (others : QuietBut w transaction.key) {record : IntegrationRecord ν}
    (same : record.key = transaction.key) : QuietBut (w.appendRecord record) transaction.key := by
  intro key other found differs
  rw [lastRecord_appendRecord, if_neg (same ▸ differs.symm)] at found
  exact others key other found differs

/-- The transaction itself is over. -/
theorem quiet_of_last (others : QuietBut w transaction.key) {record : IntegrationRecord ν}
    (last : w.lastRecord transaction.key = some record) (inert : Inert w record) : Quiet w := by
  intro key other found
  by_cases same : key = transaction.key
  · obtain rfl := Option.some.inj (last.symm.trans (same ▸ found))
    exact inert
  · exact others key other found same

theorem quiet_of_touches {node : ν} (touches : Touches w t node) (quiet : Quiet w) : Quiet t := by
  intro key record found
  rw [lastRecord_congr touches.same.2.2.1] at found
  refine (quiet key record found).mono fun event member => ?_
  rwa [touches.events.2]

variable {cb : Callbacks ν τ}

/-- The node of an accepted transaction is completed. -/
theorem completes_finished (sound : Sound initial w) (running : w.halted = false)
    (last : w.lastRecord transaction.key = some transaction) (accepted : transaction.status = .accepted)
    (attempt : (w.nodes transaction.node).attempt = transaction.attempt) (others : QuietBut w transaction.key)
    (completes : Completes w t transaction.node) (survives : crash = none → t.halted = false) :
    Finished initial crash transaction.node w t := by
  have lastNow : t.lastRecord transaction.key = some transaction := by rwa [lastRecord_congr completes.same.2.2.1]
  refine ⟨completes.extends, sound.completes completes ⟨transaction, by rw [attempt]; exact last, .inl accepted⟩, ?_⟩
  · rcases completes.events with ⟨halted, events⟩ | ⟨halted, events⟩
    · refine .inl ⟨halted.trans running, fun key record found => ?_⟩
      rw [lastRecord_congr completes.same.2.2.1] at found
      by_cases same : key = transaction.key
      · obtain rfl := Option.some.inj (last.symm.trans (same ▸ found))
        refine .inl ⟨accepted, (events _).mpr (.inr ?_)⟩
        rw [attempt]
        rfl
      · exact (others key record found same).mono fun event member => (events event).mpr (.inl member)
    · refine .inr ⟨halted, fun none => ?_, .inr ⟨transaction, rfl, lastNow, ?_, ?_, .written accepted completes.status⟩⟩
      · exact absurd (halted.symm.trans (survives none)) nofun
      · exact completes.attempt.trans attempt
      · intro key record found differs
        rw [lastRecord_congr completes.same.2.2.1] at found
        exact (others key record found differs).mono fun event member => by rwa [events]

/-- Journaling the acceptance and completing the node. -/
theorem accept_finished (sound : Sound initial w) (running : w.halted = false)
    (handles : cb.Handles transaction.node) (last : w.lastRecord transaction.key = some transaction)
    (verified : transaction.status = .verified) (attempt : (w.nodes transaction.node).attempt = transaction.attempt)
    (others : QuietBut w transaction.key) {candidate : Nat} (has : transaction.candidateSha = some candidate)
    (moved : Moved w.history transaction.key candidate) :
    Finished initial crash transaction.node w (accept cb crash w transaction) := by
  have open' : transaction.status ≠ .accepted := by simp [verified]
  have real : ¬ transaction.Void := fun void => absurd (verified.symm.trans void.1) nofun
  have accepting : (transaction.withStatus .accepted).key = transaction.key := rfl
  have status : (transaction.withStatus .accepted).status = .accepted := rfl
  simp only [accept, appendAccepted_of_last last open']
  have journaled : Sound initial (w.appendRecord (transaction.withStatus .accepted)) := by
    refine sound.appendRecord (fun other went => ⟨?_, .inl rfl⟩) nofun (fun _ => ⟨attempt, candidate, has, moved⟩)
      (fun event => .inl rfl)
    obtain ⟨record, found, same, _⟩ := sound.moved _ other went
    obtain rfl := Option.some.inj (last.symm.trans found)
    exact same
  have lastNow : (w.appendRecord (transaction.withStatus .accepted)).lastRecord transaction.key =
      some (transaction.withStatus .accepted) := by
    rw [lastRecord_appendRecord, if_pos accepting]
  obtain ⟨completes, survives⟩ := handles.onAccepted crash
    (w.appendRecord (transaction.withStatus .accepted)) (transaction.withStatus .accepted) rfl running attempt
    (fun event => absurd event (sound.no_event last open' real))
  have finished : Finished initial crash (transaction.withStatus .accepted).node _ _ :=
    completes_finished journaled running lastNow status attempt (quietBut_appendRecord others accepting) completes
      survives
  exact finished.after (extends_appendRecord _ w _)

/-- A verified transaction whose tip has not moved is advanced. -/
theorem advanceVerified_finished (sound : Sound initial w) (running : w.halted = false)
    (handles : cb.Handles transaction.node) (last : w.lastRecord transaction.key = some transaction)
    (verified : transaction.status = .verified) (attempt : (w.nodes transaction.node).attempt = transaction.attempt)
    (others : QuietBut w transaction.key) {candidate : Nat} (has : transaction.candidateSha = some candidate)
    (previous : transaction.previousRunRefTip = w.runRef) (line : w.graph.Ancestor w.runRef candidate)
    (known : candidate < w.graph.size) :
    Finished initial crash transaction.node w (advanceVerified cb crash w transaction) := by
  have moved := sound.move last verified has line known others
  simp only [advanceVerified, previous, ne_eq, not_true_eq_false, and_false, false_and, if_false, has,
    World.updateRefConditional, if_true]
  have went : Moved (w.history ++ [.moved transaction.node transaction.attempt w.runRef candidate])
      transaction.key candidate := moved_concat_moved_iff.mpr (.inr ⟨rfl, rfl⟩)
  have grown : Extends transaction.node w { w with
      runRef := candidate
      history := w.history ++ [.moved transaction.node transaction.attempt w.runRef candidate] } :=
    ⟨fun _ event => event, fun _ deed => List.mem_append_left _ deed, fun _ _ => rfl, rfl⟩
  rcases interruptStage_cases { w with
      runRef := candidate
      history := w.history ++ [.moved transaction.node transaction.attempt w.runRef candidate] } crash .afterRef with
    ⟨died, halted⟩ | same
  · rw [halted, if_pos rfl]
    refine Finished.of_unfinished moved ⟨last, attempt, others, ?_⟩ died grown
    by_cases stays : candidate = w.runRef
    · subst stays
      exact .verified w.runRef verified has previous line known
    · exact .moved candidate verified has rfl (by rwa [previous]) went
  · rw [same, if_neg (by simp [running])]
    have finished : Finished initial crash transaction.node _ (accept cb crash _ transaction) :=
      accept_finished moved running handles last verified attempt others has went
    exact (finished.interrupt .afterState).after grown

/-- A transaction journaled as over, its node given another status. -/
theorem rejected_finished (sound : Sound initial w) (running : w.halted = false)
    (attempt : (w.nodes transaction.node).attempt = transaction.attempt) (others : QuietBut w transaction.key)
    (free : transaction.key ∉ w.doneEvents) (unmoved : ∀ other, ¬ Moved w.history transaction.key other)
    {record : IntegrationRecord ν} (same : record.key = transaction.key)
    (beyond : record.status = .failed ∨ record.status = .conflict)
    (touches : Touches (w.appendRecord record) t transaction.node) :
    Finished initial crash transaction.node w t := by
  have journaled : Sound initial (w.appendRecord record) := by
    refine sound.appendRecord (fun other went => absurd (same ▸ went) (unmoved other)) (fun status => ?_)
      (fun status => ?_) fun event => absurd (same ▸ event) free
    · simp [status] at beyond
    · simp [status] at beyond
  have last : (w.appendRecord record).lastRecord transaction.key = some record := by
    rw [lastRecord_appendRecord, if_pos same]
  refine ⟨(extends_appendRecord _ w record).trans touches.extends, journaled.touches touches ?_,
    .inl ⟨touches.events.1.trans running, quiet_of_touches touches ?_⟩⟩
  · show (transaction.node, (w.nodes transaction.node).attempt) ∉ w.doneEvents
    rw [attempt]
    exact free
  · exact quiet_of_last (quietBut_appendRecord others same) last (.inr (beyond.imp_right .inl))

/-- A transaction that is not over when its candidate is verified. -/
structure Ready (w : World ν τ) (transaction : IntegrationRecord ν) (candidate : Nat) : Prop where
  has : transaction.candidateSha = some candidate
  previous : transaction.previousRunRefTip = w.runRef
  line : w.graph.Ancestor w.runRef candidate
  known : candidate < w.graph.size
  attempt : (w.nodes transaction.node).attempt = transaction.attempt
  others : QuietBut w transaction.key
  free : transaction.key ∉ w.doneEvents
  unmoved : ∀ other, ¬ Moved w.history transaction.key other

/-- The candidate is verified, and advanced or rejected. -/
theorem verifyAndAdvance_finished {passed : Bool} {seen : ν → NodeStatus} {candidate : Nat} (sound : Sound initial w)
    (running : w.halted = false) (handles : cb.Handles transaction.node) (ready : Ready w transaction candidate) :
    Finished initial crash transaction.node (w.judge transaction candidate passed seen)
      (verifyAndAdvance cb crash passed seen w transaction) := by
  have judged : Sound initial (w.judge transaction candidate passed seen) := sound.deed nofun
  have unmoved (other : Nat) : ¬ Moved (w.judge transaction candidate passed seen).history transaction.key other := by
    intro went
    have went : Moved (w.history ++ [.verdict transaction.node transaction.attempt candidate passed seen])
      transaction.key other := went
    exact ready.unmoved other ((moved_concat_iff nofun).mp went)
  have others : QuietBut (w.judge transaction candidate passed seen) transaction.key := ready.others
  have free : transaction.key ∉ (w.judge transaction candidate passed seen).doneEvents := ready.free
  rw [verifyAndAdvance, ready.has]
  cases passed with
  | false =>
    simp only [Bool.false_eq_true, if_false]
    have same : transaction.failed.key = transaction.key := rfl
    have touches := handles.onVerificationFailure
      ((w.judge transaction candidate false seen).appendRecord transaction.failed) transaction rfl
    exact rejected_finished judged running ready.attempt others free unmoved same (.inl rfl) touches
  | true =>
    simp only [if_true]
    have verifying : transaction.verified.key = transaction.key := rfl
    have grown : Extends transaction.verified.node (w.judge transaction candidate true seen) _ :=
      extends_appendRecord transaction.node _ transaction.verified
    show Finished initial crash transaction.verified.node _ _
    have journaled : Sound initial ((w.judge transaction candidate true seen).appendRecord transaction.verified) := by
      refine judged.appendRecord (fun other went => absurd went (unmoved other)) (fun _ => ⟨candidate, ready.has, ?_⟩)
        nofun fun event => absurd event free
      refine ⟨w.history.length, w.history.length + 1, transaction.verified, seen, by omega, ?_, ?_, ?_, rfl, rfl, ready.has⟩
      · simp [World.judge]
      · exact getElem?_concat_eq_some_iff.mpr (.inl List.getElem?_concat_length)
      · exact getElem?_concat_eq_some_iff.mpr (.inr ⟨by simp [World.judge], rfl⟩)
    have last : ((w.judge transaction candidate true seen).appendRecord transaction.verified).lastRecord
        transaction.verified.key = some transaction.verified := by
      rw [lastRecord_appendRecord, if_pos rfl]
    have quiet := quietBut_appendRecord others verifying
    rcases interruptStage_cases ((w.judge transaction candidate true seen).appendRecord transaction.verified) crash
      .beforeRef with ⟨died, halted⟩ | same
    · rw [halted, if_pos rfl]
      refine Finished.of_unfinished journaled ⟨last, ready.attempt, quiet, ?_⟩ died grown
      exact .verified candidate rfl ready.has ready.previous ready.line ready.known
    · rw [same, if_neg (by simp [World.judge, World.appendRecord, running])]
      have finished : Finished initial crash transaction.verified.node _
          (advanceVerified cb crash _ transaction.verified) :=
        advanceVerified_finished journaled running handles last rfl ready.attempt quiet ready.has ready.previous
          ready.line ready.known
      exact finished.after grown

variable (crash) in
/-- The same from where the candidate was not verified yet. -/
theorem Ready.advance {candidate : Nat} (ready : Ready w transaction candidate) (passed : Bool)
    (seen : ν → NodeStatus) (sound : Sound initial w) (running : w.halted = false)
    (handles : cb.Handles transaction.node) :
    Finished initial crash transaction.node w (verifyAndAdvance cb crash passed seen w transaction) := by
  have finished : Finished initial crash transaction.node (w.judge transaction candidate passed seen)
      (verifyAndAdvance cb crash passed seen w transaction) := verifyAndAdvance_finished sound running handles ready
  exact finished.after (extends_judge _ w transaction candidate passed seen)

/-! ## One call -/

/-- A transaction prepared on top of the run ref; its candidate, where there is one, descends from it. -/
structure Prepared (g graph : CommitGraph τ) (transaction : IntegrationRecord ν) (key : ν × Nat)
    (tip : Nat) : Prop where
  larger : g.size ≤ graph.size
  grows : ∀ a b, g.Ancestor a b → graph.Ancestor a b
  key : transaction.key = key
  status : transaction.status = .prepared
  previous : transaction.previousRunRefTip = tip
  candidate : ∀ candidate, transaction.candidateSha = some candidate →
    graph.Ancestor tip candidate ∧ candidate < graph.size

omit [DecidableEq ν] in
theorem prepareTransaction_prepared [DecidableEq τ] {cfg : Config ν τ} {g graph : CommitGraph τ} {node : ν}
    {attempt attemptSha previous : Nat} (known : previous < g.size) (sealed : attemptSha < g.size)
    (prepared : prepareTransaction cfg g node attempt attemptSha previous = some (graph, transaction)) :
    Prepared g graph transaction (node, attempt) previous := by
  simp only [prepareTransaction] at prepared
  split_ifs at prepared with empty fast
  · cases prepared
    refine ⟨Nat.le_refl _, fun _ _ line => line, rfl, rfl, rfl, fun candidate has => ?_⟩
    obtain rfl := Option.some.inj has
    exact ⟨.refl g previous, known⟩
  · cases prepared
    refine ⟨Nat.le_refl _, fun _ _ line => line, rfl, rfl, rfl, fun candidate has => ?_⟩
    obtain rfl := Option.some.inj has
    rcases fast with same | ahead
    · exact ⟨same ▸ .refl g attemptSha, sealed⟩
    · exact ⟨(g.isAncestor_iff.mp ahead).2, sealed⟩
  · split at prepared
    · cases prepared
      exact ⟨Nat.le_refl _, fun _ _ line => line, rfl, rfl, rfl, nofun⟩
    · simp only [gitCommitTree] at prepared
      split_ifs at prepared with parents
      · cases prepared
        refine ⟨by simp, fun _ _ line => line.extend _ parents, rfl, rfl, rfl, fun candidate has => ?_⟩
        obtain rfl := Option.some.inj has
        exact ⟨@CommitGraph.ancestor_extend_size _ _ _ parents _ List.mem_cons_self, by simp⟩
      · cases prepared

/-- A transaction journaled as prepared that waits for its verification: it has a candidate, or it is void. -/
structure Awaits (initial : Nat) (w : World ν τ) (transaction : IntegrationRecord ν) : Prop where
  sound : Sound initial w
  running : w.halted = false
  last : w.lastRecord transaction.key = some transaction
  status : transaction.status = .prepared
  attempt : (w.nodes transaction.node).attempt = transaction.attempt
  others : QuietBut w transaction.key
  ready : (∃ candidate, Ready w transaction candidate) ∨ transaction.Void

theorem Awaits.quiet (awaits : Awaits initial w transaction) (void : transaction.Void) : Quiet w :=
  quiet_of_last awaits.others awaits.last (.inr (.inr (.inr void)))

variable (crash) in
/-- A transaction that waits is verified and advanced, or rejected; a void one throws. -/
theorem Awaits.advance (awaits : Awaits initial w transaction) (passed : Bool) (seen : ν → NodeStatus)
    (handles : cb.Handles transaction.node) :
    Finished initial crash transaction.node w (verifyAndAdvance cb crash passed seen w transaction) := by
  rcases awaits.ready with ⟨candidate, ready⟩ | void
  · exact ready.advance crash passed seen awaits.sound awaits.running handles
  · have stays : verifyAndAdvance cb crash passed seen w transaction = w := by
      simp only [verifyAndAdvance, void.2.1]
    rw [stays]
    exact .of_quiet awaits.sound awaits.running (awaits.quiet void) _

/-- A transaction opened while nothing else is. -/
theorem openTransaction_spec [DecidableEq τ] {cfg : Config ν τ} {node : ν} {attemptSha : Nat}
    (sound : Sound initial w) (running : w.halted = false) (quiet : Quiet w) (handles : cb.Handles node)
    (sealed : attemptSha < w.graph.size) (free : (node, (w.nodes node).attempt) ∉ w.doneEvents)
    (unmoved : ∀ other, ¬ Moved w.history (node, (w.nodes node).attempt) other) :
    match openTransaction cfg cb crash w node (w.nodes node).attempt attemptSha with
    | (t, none) => Finished initial crash node w t
    | (t, some transaction) => transaction.node = node ∧ Extends node w t ∧ Awaits initial t transaction := by
  rw [openTransaction]
  cases prepare : prepareTransaction cfg w.graph node (w.nodes node).attempt attemptSha w.runRef with
  | none => exact .of_quiet sound running quiet node
  | some result =>
    obtain ⟨graph, transaction⟩ := result
    have prepared := prepareTransaction_prepared sound.known sealed prepare
    obtain rfl : transaction.node = node := congrArg Prod.fst prepared.key
    have attempt : (w.nodes transaction.node).attempt = transaction.attempt :=
      (congrArg Prod.snd prepared.key).symm
    rw [← prepared.key] at free unmoved
    have grown : Sound initial { w with graph } := sound.grow prepared.larger prepared.grows
    have journaled : Sound initial (World.appendRecord { w with graph } transaction) := by
      refine grown.appendRecord (fun other went => absurd went (unmoved other)) (fun status => ?_) (fun status => ?_)
        fun event => absurd event free
      · exact absurd (prepared.status.symm.trans status) nofun
      · exact absurd (prepared.status.symm.trans status) nofun
    have extends' : Extends transaction.node w (World.appendRecord { w with graph } transaction) :=
      ⟨fun _ event => event, fun _ deed => List.mem_append_left _ deed, fun _ _ => rfl, rfl⟩
    have last : (World.appendRecord { w with graph } transaction).lastRecord transaction.key = some transaction := by
      rw [lastRecord_appendRecord, if_pos rfl]
    have others : QuietBut (World.appendRecord { w with graph } transaction) transaction.key :=
      quietBut_appendRecord (fun key record found _ => quiet key record found) rfl
    have alive : (World.appendRecord { w with graph } transaction).halted = false := running
    have unmovedStill (other : Nat) : ¬ Moved (World.appendRecord { w with graph } transaction).history
        transaction.key other := fun went => unmoved other ((moved_concat_iff nofun).mp went)
    have point : (∃ candidate, Ready (World.appendRecord { w with graph } transaction) transaction candidate) ∨
        transaction.candidateSha = none := by
      cases has : transaction.candidateSha with
      | none => exact .inr rfl
      | some candidate =>
        obtain ⟨line, known⟩ := prepared.candidate candidate has
        exact .inl ⟨candidate, has, prepared.previous, line, known, attempt, others, free, unmovedStill⟩
    rcases interruptStage_cases (World.appendRecord { w with graph } transaction) crash .prepared with
      ⟨died, halted⟩ | same
    · simp only [halted, if_true]
      rcases point with ⟨candidate, ready⟩ | none
      · refine .of_unfinished journaled ⟨last, attempt, others, ?_⟩ died extends'
        exact .prepared candidate prepared.status ready.has ready.previous ready.line ready.known
      · by_cases paths : transaction.conflictingPaths = []
        · have quiet := quiet_of_last others last (.inr (.inr (.inr ⟨prepared.status, none, paths⟩)))
          exact ⟨⟨extends'.events, extends'.history, extends'.others, rfl⟩, journaled.halt true,
            .inr ⟨rfl, died, .inl quiet⟩⟩
        · refine .of_unfinished journaled ⟨last, attempt, others, ?_⟩ died extends'
          exact .conflicting prepared.status none paths
    · simp only [same, alive, Bool.false_eq_true, if_false]
      split_ifs with paths
      · have conflicting : (transaction.withStatus .conflict).key = transaction.key := rfl
        have touches := handles.onConflict ((World.appendRecord { w with graph } transaction).appendRecord
          (transaction.withStatus .conflict)) transaction rfl
        have finished : Finished initial crash transaction.node _ _ :=
          rejected_finished journaled alive attempt others free unmovedStill conflicting (.inr rfl) touches
        exact finished.after extends'
      · refine ⟨rfl, extends', journaled, alive, last, prepared.status, attempt, others, ?_⟩
        exact point.imp_right fun none => ⟨prepared.status, none, not_not.mp paths⟩

/-! ## Recovery -/

section Recovery

variable [DecidableEq τ] {cfg : Config ν τ} {passed : Bool}

/-- A recovery does nothing about an inert record. -/
theorem recoverRecord_inert (sound : Sound initial w) (inert : Inert w transaction) :
    recoverRecord cfg (recoveryCallbacks cfg) crash passed w transaction = (w, true) := by
  rcases inert with ⟨accepted, event⟩ | failed | conflict | ⟨prepared, none, paths⟩
  · have attempt : (w.nodes transaction.node).attempt = transaction.attempt := (sound.events _ event).1.1
    have there : (transaction.node, (w.nodes transaction.node).attempt) ∈ w.doneEvents := by
      rw [attempt]
      exact event
    simp only [recoverRecord, accepted, recoveryCallbacks, if_pos (And.intro attempt there)]
  · simp only [recoverRecord, failed]
  · simp only [recoverRecord, conflict]
  · simp only [recoverRecord, prepared, none, paths, if_true]

/-- A recovery of a run where nothing is open does nothing. -/
theorem recoverLoop_inert (sound : Sound initial w) (running : w.halted = false)
    (records : List (IntegrationRecord ν)) (inert : ∀ record ∈ records, Inert w record) :
    recoverLoop cfg (recoveryCallbacks cfg) crash passed w records = w := by
  induction records with
  | nil => rfl
  | cons record rest ih =>
    simp only [recoverLoop, recoverRecord_inert sound (inert record List.mem_cons_self), running, Bool.false_eq_true,
      reduceCtorEq, or_self, if_false]
    exact ih fun other member => inert other (List.mem_cons_of_mem _ member)

variable (cfg crash passed) in
/-- A recovery finishes the transaction a crash left open. -/
theorem recoverRecord_unfinished (sound : Sound initial w) (running : w.halted = false)
    (unfinished : Unfinished w transaction) :
    Finished initial crash transaction.node w
      (recoverRecord cfg (recoveryCallbacks cfg) crash passed w transaction).1 := by
  obtain ⟨last, attempt, others, point⟩ := unfinished
  have handles := recoveryCallbacks_handles cfg transaction.node
  cases point with
  | prepared candidate status has previous line known =>
    have unmoved (other : Nat) : ¬ Moved w.history transaction.key other := by
      intro went
      obtain ⟨record, found, _, state⟩ := sound.moved _ other went
      obtain rfl := Option.some.inj (last.symm.trans found)
      simp [status] at state
    have free : transaction.key ∉ w.doneEvents :=
      sound.no_event last (by simp [status]) fun void => absurd (has.symm.trans void.2.1) nofun
    have ready : Ready w { transaction with conflictingPaths := [] } candidate :=
      { has, previous, line, known, attempt, others, free, unmoved }
    have verifies : (recoverRecord cfg (recoveryCallbacks cfg) crash passed w transaction).1 =
        verifyAndAdvance (recoveryCallbacks cfg) crash passed w.statuses w
          { transaction with conflictingPaths := [] } := by
      simp only [recoverRecord, status, has, previous, ne_eq, not_true_eq_false, if_true, if_false, known, or_self]
    rw [verifies]
    exact ready.advance crash passed w.statuses sound running handles
  | conflicting status has paths =>
    have unmoved (other : Nat) : ¬ Moved w.history transaction.key other := by
      intro went
      obtain ⟨record, found, _, state⟩ := sound.moved _ other went
      obtain rfl := Option.some.inj (last.symm.trans found)
      simp [status] at state
    have free : transaction.key ∉ w.doneEvents :=
      sound.no_event last (by simp [status]) fun void => paths void.2.2
    have conflicting : (transaction.withStatus .conflict).key = transaction.key := rfl
    simp only [recoverRecord, status, has, if_neg paths, appendConflict_of_last last (by simp [status])]
    have touches := handles.onConflict (w.appendRecord (transaction.withStatus .conflict))
      (transaction.withStatus .conflict) rfl
    exact rejected_finished sound running attempt others free unmoved conflicting (.inr rfl) touches
  | verified candidate status has previous line known =>
    have finished : Finished initial crash transaction.node w
        (advanceVerified (recoveryCallbacks cfg) crash w transaction) :=
      advanceVerified_finished sound running handles last status attempt others has previous line known
    simpa only [recoverRecord, status, has, previous, reduceCtorEq, ne_eq, not_true_eq_false, and_false, false_and,
      if_false] using finished
  | moved candidate status has ref differs went =>
    have ahead : w.runRef ≠ transaction.previousRunRefTip := by rwa [ref]
    simp only [recoverRecord, status, has, reduceCtorEq, if_false, if_pos (And.intro ref ahead)]
    exact accept_finished sound running handles last status attempt others has went
  | written status done =>
    simp only [recoverRecord, status]
    obtain ⟨completes, survives⟩ := handles.onAccepted crash w transaction rfl running attempt
      fun event => (sound.events _ event).1.2
    exact completes_finished sound running last status attempt others completes survives

/-- The loop reaches the open transaction and passes over all others. -/
theorem recoverLoop_unfinished (sound : Sound initial w) (running : w.halted = false)
    (unfinished : Unfinished w transaction) (records : List (IntegrationRecord ν))
    (distinct : (records.map IntegrationRecord.key).Nodup) (member : transaction ∈ records)
    (latest : ∀ record ∈ records, w.lastRecord record.key = some record) :
    recoverLoop cfg (recoveryCallbacks cfg) crash passed w records =
      (recoverRecord cfg (recoveryCallbacks cfg) crash passed w transaction).1 := by
  induction records with
  | nil => cases member
  | cons record rest ih =>
    obtain ⟨fresh, distinct⟩ := List.nodup_cons.mp distinct
    have later (other : IntegrationRecord ν) (inRest : other ∈ rest) : w.lastRecord other.key = some other :=
      latest other (List.mem_cons_of_mem _ inRest)
    rcases List.mem_cons.mp member with rfl | inRest
    · have finished : Finished initial crash transaction.node w
          (recoverRecord cfg (recoveryCallbacks cfg) crash passed w transaction).1 :=
        recoverRecord_unfinished crash cfg passed sound running unfinished
      simp only [recoverLoop]
      split_ifs with stops
      · rfl
      · rw [not_or, Bool.not_eq_true] at stops
        have inert (other : IntegrationRecord ν) (inRest : other ∈ rest) :
            Inert (recoverRecord cfg (recoveryCallbacks cfg) crash passed w transaction).1 other := by
          refine (unfinished.others _ other (later other inRest) fun same => ?_).mono finished.events
          exact fresh (same ▸ List.mem_map_of_mem inRest)
        exact recoverLoop_inert finished.sound stops.1 rest inert
    · have differs : record.key ≠ transaction.key := fun same => fresh (same ▸ List.mem_map_of_mem inRest)
      have inert := unfinished.others _ record (latest record List.mem_cons_self) differs
      simp only [recoverLoop, recoverRecord_inert sound inert, running, Bool.false_eq_true, reduceCtorEq, or_self,
        if_false]
      exact ih distinct inRest later

theorem recoverIntegrations_quiet (sound : Sound initial w) (running : w.halted = false) (quiet : Quiet w) :
    recoverIntegrations cfg (recoveryCallbacks cfg) crash passed w = w :=
  recoverLoop_inert sound running _ fun record member =>
    quiet _ record (mem_latestIntegrationTransactions.mp member)

theorem recoverIntegrations_unfinished (sound : Sound initial w) (running : w.halted = false)
    (unfinished : Unfinished w transaction) :
    recoverIntegrations cfg (recoveryCallbacks cfg) crash passed w =
      (recoverRecord cfg (recoveryCallbacks cfg) crash passed w transaction).1 :=
  recoverLoop_unfinished sound running unfinished _ (KeyedLog.nodup_map_latest _)
    (mem_latestIntegrationTransactions.mpr unfinished.last) fun _ => mem_latestIntegrationTransactions.mp

variable (cfg crash passed) in
/-- Whatever a crash left, a recovery finishes it or dies in it again. -/
theorem recoverIntegrations_kept (sound : Sound initial w) (running : w.halted = false)
    (rest : Quiet w ∨ ∃ record, Unfinished w record) :
    Kept initial (recoverIntegrations cfg (recoveryCallbacks cfg) crash passed w) ∧
      (crash = none → (recoverIntegrations cfg (recoveryCallbacks cfg) crash passed w).halted = false ∧
        Quiet (recoverIntegrations cfg (recoveryCallbacks cfg) crash passed w)) := by
  rcases rest with quiet | ⟨record, unfinished⟩
  · rw [recoverIntegrations_quiet sound running quiet]
    exact ⟨⟨sound, .inl quiet⟩, fun _ => ⟨running, quiet⟩⟩
  · rw [recoverIntegrations_unfinished sound running unfinished]
    have finished := recoverRecord_unfinished crash cfg passed sound running unfinished
    refine ⟨finished.kept, ?_⟩
    rintro rfl
    exact finished.running

/-- The recovery a call of `integrateAttempt` falls into runs with the callbacks of its own node: an accepted
record of any node that carries the same attempt number completes that node. -/
theorem recoverLoop_settle {node : ν} (records : List (IntegrationRecord ν)) {own : IntegrationRecord ν}
    (sound : Sound initial w) (running : w.halted = false) (quiet : Quiet w)
    (last : w.lastRecord (node, (w.nodes node).attempt) = some own) (void : own.Void)
    (inert : ∀ record ∈ records, Inert w record) :
    Finished initial crash node w (recoverLoop cfg (settleCallbacks cfg node) crash passed w records) := by
  induction records generalizing w with
  | nil => exact .of_quiet sound running quiet node
  | cons record rest ih =>
    have passes (stays : recoverRecord cfg (settleCallbacks cfg node) crash passed w record = (w, true)) :
        Finished initial crash node w (recoverLoop cfg (settleCallbacks cfg node) crash passed w (record :: rest)) := by
      simp only [recoverLoop, stays, running, Bool.false_eq_true, reduceCtorEq, or_self, if_false]
      exact ih sound running quiet last fun other member => inert other (List.mem_cons_of_mem _ member)
    rcases inert record List.mem_cons_self with ⟨accepted, _⟩ | failed | conflict | ⟨prepared, none, paths⟩
    · by_cases attempt : (w.nodes node).attempt = record.attempt
      · obtain ⟨completes, survives⟩ := settleCallbacks_completes cfg crash running attempt
        have next := sound.completes completes ⟨own, last, .inr void⟩
        have grown := completes.extends
        have quietNext : Quiet ((settleCallbacks cfg node).onAccepted crash w record) := by
          intro key other found
          rw [lastRecord_congr completes.same.2.2.1] at found
          exact (quiet key other found).mono grown.events
        simp only [recoverLoop, recoverRecord, accepted, reduceCtorEq, or_false]
        split_ifs with halted
        · refine ⟨grown, next, .inr ⟨halted, fun none => ?_, .inl quietNext⟩⟩
          exact absurd (halted.symm.trans (survives none)) nofun
        · refine (ih next (Bool.not_eq_true _ ▸ halted) quietNext ?_ ?_).after grown
          · rw [completes.attempt, lastRecord_congr completes.same.2.2.1]
            exact last
          · exact fun other member => (inert other (List.mem_cons_of_mem _ member)).mono grown.events
      · refine passes ?_
        simp only [recoverRecord, accepted, settleCallbacks, if_neg attempt]
    · exact passes (by simp only [recoverRecord, failed])
    · exact passes (by simp only [recoverRecord, conflict])
    · exact passes (by simp only [recoverRecord, prepared, none, paths, if_true])

/-- The current attempt of the node has no transaction, or one that is over. -/
def Unopened (w : World ν τ) (node : ν) : Prop :=
  ∀ record, w.lastRecord (node, (w.nodes node).attempt) = some record → record.status.terminal = true

variable (cfg crash passed) in
/-- A call for the current attempt of a node, up to its verification. -/
theorem enterIntegration_spec {node : ν} {attemptSha : Nat} (sound : Sound initial w) (running : w.halted = false)
    (quiet : Quiet w) (unopened : Unopened w node) (sealed : attemptSha < w.graph.size) :
    match enterIntegration cfg (settleCallbacks cfg node) crash passed w node (w.nodes node).attempt attemptSha with
    | (t, none) => Finished initial crash node w t
    | (t, some transaction) => transaction.node = node ∧ Extends node w t ∧ Awaits initial t transaction := by
  have handles := settleCallbacks_handles cfg node
  have looked : (latestIntegrationTransactions w.journal).find?
      (fun record => decide (record.key = (node, (w.nodes node).attempt))) =
      w.lastRecord (node, (w.nodes node).attempt) := KeyedLog.find?_latest _ _
  rw [enterIntegration, looked]
  cases last : w.lastRecord (node, (w.nodes node).attempt) with
  | none =>
    refine openTransaction_spec sound running quiet handles sealed (fun event => ?_) fun other went => ?_
    · obtain ⟨_, record, found, _⟩ := sound.events _ event
      exact absurd (last.symm.trans found) nofun
    · obtain ⟨record, found, _⟩ := sound.moved _ other went
      exact absurd (last.symm.trans found) nofun
  | some existing =>
    have named := key_of_lastRecord last
    obtain rfl : existing.node = node := congrArg Prod.fst named
    have attempt : (w.nodes existing.node).attempt = existing.attempt := (congrArg Prod.snd named).symm
    have terminal := unopened existing last
    by_cases accepted : existing.status = .accepted
    · simp only [accepted, if_true]
      have event := (quiet _ existing last).event accepted
      have done := (sound.events _ event).1.2
      obtain ⟨completes, survives⟩ := handles.onAccepted crash w existing rfl running attempt fun _ => done
      have finished : Finished initial crash existing.node w _ :=
        completes_finished sound running (named ▸ last) accepted attempt
          (fun key record found _ => quiet key record found) completes survives
      exact finished
    · simp only [if_neg accepted, terminal, if_true]
      refine openTransaction_spec sound running quiet handles sealed (fun event => ?_) fun other went => ?_
      · obtain ⟨_, record, found, state⟩ := sound.events _ event
        obtain rfl := Option.some.inj (last.symm.trans found)
        rcases state with beyond | void
        · exact accepted beyond
        · simp [void.1, IntegrationStatus.terminal] at terminal
      · obtain ⟨record, found, _, state⟩ := sound.moved _ other went
        obtain rfl := Option.some.inj (last.symm.trans found)
        rcases state with beyond | ⟨verified, _⟩
        · exact accepted beyond
        · simp [verified, IntegrationStatus.terminal] at terminal

/-- One call of `integrateAttempt` for the current attempt of a node. -/
theorem integrateAttempt_finished {node : ν} {attemptSha : Nat} (sound : Sound initial w) (running : w.halted = false)
    (quiet : Quiet w) (sealed : attemptSha < w.graph.size) :
    Finished initial crash node w
      (integrateAttempt cfg (settleCallbacks cfg node) crash passed w node (w.nodes node).attempt attemptSha) := by
  by_cases unopened : Unopened w node
  · have spec := enterIntegration_spec crash cfg passed sound running quiet unopened sealed
    rw [integrateAttempt]
    rcases enter : enterIntegration cfg (settleCallbacks cfg node) crash passed w node (w.nodes node).attempt attemptSha
      with ⟨entered, _ | transaction⟩
    · rw [enter] at spec
      exact spec
    · rw [enter] at spec
      obtain ⟨rfl, grown, awaits⟩ := spec
      exact (awaits.advance crash passed entered.statuses (settleCallbacks_handles cfg transaction.node)).after grown
  · -- The attempt's own record can only be void, and the recovery it falls into passes over everything.
    simp only [Unopened, not_forall] at unopened
    obtain ⟨own, last, open'⟩ := unopened
    have void : own.Void := by
      rcases quiet _ own last with ⟨accepted, _⟩ | failed | conflict | void
      · simp [accepted, IntegrationStatus.terminal] at open'
      · simp [failed, IntegrationStatus.terminal] at open'
      · simp [conflict, IntegrationStatus.terminal] at open'
      · exact void
    have looked : (latestIntegrationTransactions w.journal).find?
        (fun record => decide (record.key = (node, (w.nodes node).attempt))) = some own :=
      (KeyedLog.find?_latest _ _).trans last
    simp only [integrateAttempt, enterIntegration, looked, void.1, reduceCtorEq, if_false, IntegrationStatus.terminal,
      Bool.false_eq_true]
    exact recoverLoop_settle _ sound running quiet last void fun record member =>
      quiet _ record (mem_latestIntegrationTransactions.mp member)

end Recovery

end Transactions

/-! ## Runs -/

section Runs

variable {initial : Nat} {w t : World ν τ}

/-- A status other than `done`, or a new attempt, for a node that is not done. -/
theorem Sound.patch (sound : Sound initial w) {node : ν} (open' : (w.nodes node).status ≠ .done)
    (settled : ∀ key record, w.lastRecord key = some record → record.status = .accepted → key ∈ w.doneEvents)
    (change : NodeSnapshot → NodeSnapshot) : Sound initial (w.patch node change) := by
  have differs (key : ν × Nat) (event : key ∈ w.doneEvents) : key.1 ≠ node :=
    fun same => open' (same ▸ (sound.events key event).1.2)
  refine { sound with accepted := ?_, events := ?_ }
  · intro key record last accepted
    have event := settled key record last accepted
    simpa [World.patch, differs key event] using sound.accepted key record last accepted
  · intro key event
    refine ⟨?_, (sound.events key event).2⟩
    simpa [World.patch, differs key event] using (sound.events key event).1

theorem Kept.quiet (kept : Kept initial w) (running : w.halted = false) : Quiet w := by
  rcases kept.rest with quiet | ⟨halted, _⟩
  · exact quiet
  · exact absurd (halted.symm.trans running) nofun

theorem Kept.patch (kept : Kept initial w) (running : w.halted = false) {node : ν} (open' : (w.nodes node).status ≠ .done)
    (change : NodeSnapshot → NodeSnapshot) : Kept initial (w.patch node change) := by
  have quiet := kept.quiet running
  refine ⟨kept.sound.patch open' (fun key record last accepted => ?_) change, .inl quiet⟩
  exact key_of_lastRecord last ▸ (quiet key record last).event accepted

theorem Kept.commit (kept : Kept initial w) {tree : τ} {parents : List Nat}
    (known : ∀ parent ∈ parents, parent < w.graph.size) :
    Kept initial { w with graph := w.graph.extend ⟨tree, parents⟩ known } := by
  have grown : Sound initial { w with graph := w.graph.extend ⟨tree, parents⟩ known } :=
    kept.sound.grow (by simp) fun _ _ line => line.extend _ known
  refine ⟨grown, kept.rest.imp_right fun ⟨halted, record, unfinished⟩ => ⟨halted, record, ?_⟩⟩
  refine ⟨unfinished.last, unfinished.attempt, unfinished.others, ?_⟩
  have larger : w.graph.size ≤ (w.graph.extend ⟨tree, parents⟩ known).size := by simp
  cases unfinished.point with
  | prepared candidate status has previous line inside =>
    exact .prepared candidate status has previous (line.extend _ known) (Nat.lt_of_lt_of_le inside larger)
  | conflicting status has paths => exact .conflicting status has paths
  | verified candidate status has previous line inside =>
    exact .verified candidate status has previous (line.extend _ known) (Nat.lt_of_lt_of_le inside larger)
  | moved candidate status has ref differs went => exact .moved candidate status has ref differs went
  | written status done => exact .written status done

theorem Initial.kept (start : Initial initial w) : Kept initial w := by
  have none (key : ν × Nat) : w.lastRecord key = none := by
    rw [World.lastRecord, start.journal]
    rfl
  have still (key : ν × Nat) (candidate : Nat) : ¬ Moved w.history key candidate := by
    rintro ⟨source, member⟩
    rw [start.history] at member
    cases member
  refine ⟨⟨?_, ?_, start.known, ?_, ?_, ?_, ?_⟩, .inl ?_⟩
  · rw [start.history]
    exact ⟨by simp, by simp, by simp⟩
  · rw [start.history]
    exact start.runRef
  · exact fun key record last => by cases (none key).symm.trans last
  · exact fun key record last => by cases (none key).symm.trans last
  · exact fun key candidate moved => absurd moved (still key candidate)
  · rw [start.doneEvents]
    simp
  · exact fun key record last => by cases (none key).symm.trans last

variable [DecidableEq τ] {cfg : Config ν τ}

theorem Kept.step (kept : Kept initial w) {label : Label ν τ} (taken : step cfg w label = some t) :
    Kept initial t := by
  cases label with
  | commit tree parents =>
    simp only [Integration.step] at taken
    split_ifs at taken with known
    cases taken
    exact kept.commit known
  | startAttempt node =>
    simp only [Integration.step] at taken
    split_ifs at taken with enabled
    cases taken
    exact kept.patch enabled.1 enabled.2 _
  | transition node status =>
    simp only [Integration.step] at taken
    split_ifs at taken with enabled
    cases taken
    exact kept.patch enabled.1 enabled.2.1 _
  | integrate node attemptSha passed crash =>
    simp only [Integration.step] at taken
    split_ifs at taken with enabled
    cases taken
    exact (integrateAttempt_finished kept.sound enabled.1 (kept.quiet enabled.1) enabled.2).kept
  | recover passed crash =>
    simp only [Integration.step, Option.some.injEq] at taken
    subst taken
    have rest : Quiet { w with halted := false } ∨ ∃ record, Unfinished { w with halted := false } record := by
      rcases kept.rest with quiet | ⟨_, record, unfinished⟩
      · exact .inl quiet
      · exact .inr ⟨record, unfinished.halt false⟩
    exact (recoverIntegrations_kept crash cfg passed (kept.sound.halt false) rfl rest).1

end Runs

end Faberun.Integration
