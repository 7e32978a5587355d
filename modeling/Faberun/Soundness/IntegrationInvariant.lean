import Faberun.Soundness.IntegrationHistory

/-! # The invariant of integration

`Sound` holds at every instant: what the journal, the node snapshots and the `done` events owe the
history of the run ref. When no controller died, every record is `Inert`: a recovery reads it and does
nothing. A crash leaves at most one record that is not, `Unfinished`. The callers of an integration only
complete a node or give it another status, and neither breaks the invariant.
-/

namespace Faberun.Integration

variable {ν τ : Type}

/-- A prepared record with neither a candidate nor a conflicting path: nothing ever finishes it. -/
def IntegrationRecord.Void (record : IntegrationRecord ν) : Prop :=
  record.status = .prepared ∧ record.candidateSha = none ∧ record.conflictingPaths = []

/-- A recovery passes over the record. -/
def Inert (w : World ν τ) (record : IntegrationRecord ν) : Prop :=
  (record.status = .accepted ∧ record.key ∈ w.doneEvents) ∨ record.status = .failed ∨ record.status = .conflict ∨
    record.Void

theorem Inert.mono {w t : World ν τ} {record : IntegrationRecord ν} (inert : Inert w record)
    (kept : ∀ key ∈ w.doneEvents, key ∈ t.doneEvents) : Inert t record := by
  rcases inert with ⟨accepted, event⟩ | rest
  · exact .inl ⟨accepted, kept _ event⟩
  · exact .inr rest

theorem Inert.not_verified {w : World ν τ} {record : IntegrationRecord ν} (inert : Inert w record) : record.status ≠ .verified := by
  rcases inert with ⟨accepted, _⟩ | failed | conflict | ⟨prepared, _⟩
  · simp [accepted]
  · simp [failed]
  · simp [conflict]
  · simp [prepared]

/-- An inert record that is accepted has its event. -/
theorem Inert.event {w : World ν τ} {record : IntegrationRecord ν} (inert : Inert w record) (accepted : record.status = .accepted) :
    record.key ∈ w.doneEvents := by
  rcases inert with ⟨_, event⟩ | failed | conflict | void
  · exact event
  · exact absurd (accepted.symm.trans failed) nofun
  · exact absurd (accepted.symm.trans conflict) nofun
  · exact absurd (accepted.symm.trans void.1) nofun

variable [DecidableEq ν]

/-- The last record of a transaction. -/
def World.lastRecord (w : World ν τ) (key : ν × Nat) : Option (IntegrationRecord ν) :=
  KeyedLog.lastOf IntegrationRecord.key w.journal key

theorem mem_latestIntegrationTransactions {w : World ν τ} {record : IntegrationRecord ν} :
    record ∈ latestIntegrationTransactions w.journal ↔ w.lastRecord record.key = some record :=
  KeyedLog.mem_latest

@[simp] theorem lastRecord_appendRecord (w : World ν τ) (record : IntegrationRecord ν) (key : ν × Nat) :
    (w.appendRecord record).lastRecord key = if record.key = key then some record else w.lastRecord key :=
  KeyedLog.lastOf_concat _ _ _ _

theorem key_of_lastRecord {w : World ν τ} {key : ν × Nat} {record : IntegrationRecord ν}
    (last : w.lastRecord key = some record) : record.key = key :=
  KeyedLog.key_of_lastOf last

/-- What holds of a run at every instant. -/
structure Sound (initial : Nat) (w : World ν τ) : Prop where
  traced : Traced initial w.graph w.history
  runRef : w.runRef = tip initial w.history
  known : w.runRef < w.graph.size
  verified : ∀ key record, w.lastRecord key = some record → record.status = .verified →
    ∃ candidate, record.candidateSha = some candidate ∧ Vouched w.history w.history.length key candidate
  accepted : ∀ key record, w.lastRecord key = some record → record.status = .accepted →
    (w.nodes key.1).attempt = key.2 ∧ ∃ candidate, record.candidateSha = some candidate ∧ Moved w.history key candidate
  moved : ∀ key candidate, Moved w.history key candidate →
    ∃ record, w.lastRecord key = some record ∧ record.candidateSha = some candidate ∧
      (record.status = .accepted ∨ record.status = .verified ∧ w.runRef = candidate)
  events : ∀ key ∈ w.doneEvents, ((w.nodes key.1).attempt = key.2 ∧ (w.nodes key.1).status = .done) ∧
    ∃ record, w.lastRecord key = some record ∧ (record.status = .accepted ∨ record.Void)

/-- Nothing is left for a recovery, but for the transaction under `key`. -/
def QuietBut (w : World ν τ) (key : ν × Nat) : Prop :=
  ∀ other record, w.lastRecord other = some record → other ≠ key → Inert w record

def Quiet (w : World ν τ) : Prop := ∀ key record, w.lastRecord key = some record → Inert w record

/-- Where a crash left the one transaction that is not over. -/
inductive Point (w : World ν τ) (record : IntegrationRecord ν) : Prop
  | prepared (candidate : Nat) : record.status = .prepared → record.candidateSha = some candidate →
      record.previousRunRefTip = w.runRef → w.graph.Ancestor w.runRef candidate → candidate < w.graph.size →
      Point w record
  | conflicting : record.status = .prepared → record.candidateSha = none → record.conflictingPaths ≠ [] →
      Point w record
  | verified (candidate : Nat) : record.status = .verified → record.candidateSha = some candidate →
      record.previousRunRefTip = w.runRef → w.graph.Ancestor w.runRef candidate → candidate < w.graph.size →
      Point w record
  | moved (candidate : Nat) : record.status = .verified → record.candidateSha = some candidate →
      w.runRef = candidate → candidate ≠ record.previousRunRefTip → Moved w.history record.key candidate →
      Point w record
  | written : record.status = .accepted → (w.nodes record.node).status = .done → Point w record

structure Unfinished (w : World ν τ) (record : IntegrationRecord ν) : Prop where
  last : w.lastRecord record.key = some record
  attempt : (w.nodes record.node).attempt = record.attempt
  others : QuietBut w record.key
  point : Point w record

/-- What a run keeps: only a dead controller leaves something to finish. -/
structure Kept (initial : Nat) (w : World ν τ) : Prop where
  sound : Sound initial w
  rest : Quiet w ∨ w.halted = true ∧ ∃ record, Unfinished w record

@[simp] theorem patch_nodes_self (w : World ν τ) (node : ν) (change : NodeSnapshot → NodeSnapshot) :
    (w.patch node change).nodes node = change (w.nodes node) :=
  Function.update_self _ _ _

theorem patch_nodes_of_ne (w : World ν τ) {node other : ν} (differs : other ≠ node)
    (change : NodeSnapshot → NodeSnapshot) : (w.patch node change).nodes other = w.nodes other :=
  Function.update_of_ne differs _ _

section Transport

variable {initial : Nat} {w t : World ν τ} {record transaction : IntegrationRecord ν} {key : ν × Nat}

/-- Stopping the controller changes nothing that is kept. -/
theorem Sound.halt (sound : Sound initial w) (halted : Bool) : Sound initial { w with halted } :=
  { sound with }

theorem Unfinished.halt (unfinished : Unfinished w record) (halted : Bool) :
    Unfinished { w with halted } record where
  last := unfinished.last
  attempt := unfinished.attempt
  others := unfinished.others
  point := by
    cases unfinished.point with
    | prepared candidate status has previous line known => exact .prepared candidate status has previous line known
    | conflicting status has paths => exact .conflicting status has paths
    | verified candidate status has previous line known => exact .verified candidate status has previous line known
    | moved candidate status has ref differs went => exact .moved candidate status has ref differs went
    | written status done => exact .written status done

/-- A deed of the history that is no move. -/
theorem Sound.deed (sound : Sound initial w) {deed : Deed ν}
    (still : ∀ node attempt source target, deed ≠ .moved node attempt source target) :
    Sound initial { w with history := w.history ++ [deed] } where
  traced := sound.traced.concat still
  runRef := by
    show w.runRef = tip initial (w.history ++ [deed])
    rw [tip_concat still]
    exact sound.runRef
  known := sound.known
  verified key record last verified := by
    obtain ⟨candidate, has, vouched⟩ := sound.verified key record last verified
    exact ⟨candidate, has, vouched.mono deed (by simp)⟩
  accepted key record last accepted := by
    obtain ⟨attempt, candidate, has, moved⟩ := sound.accepted key record last accepted
    exact ⟨attempt, candidate, has, moved.concat deed⟩
  moved key candidate moved := sound.moved key candidate ((moved_concat_iff still).mp moved)
  events := sound.events

/-- What a record owes to be journaled. -/
theorem Sound.appendRecord (sound : Sound initial w)
    (unmoved : ∀ candidate, Moved w.history record.key candidate → record.candidateSha = some candidate ∧
      (record.status = .accepted ∨ record.status = .verified ∧ w.runRef = candidate))
    (verified : record.status = .verified → ∃ candidate, record.candidateSha = some candidate ∧
      Vouched (w.history ++ [.journaled record]) (w.history.length + 1) record.key candidate)
    (accepted : record.status = .accepted → (w.nodes record.node).attempt = record.attempt ∧
      ∃ candidate, record.candidateSha = some candidate ∧ Moved w.history record.key candidate)
    (events : record.key ∈ w.doneEvents → record.status = .accepted ∨ record.Void) :
    Sound initial (w.appendRecord record) := by
  have written : Sound initial { w with history := w.history ++ [Deed.journaled record] } := sound.deed nofun
  refine ⟨written.traced, written.runRef, written.known, ?_, ?_, ?_, ?_⟩
  · intro key other last status
    rw [lastRecord_appendRecord] at last
    split_ifs at last with same
    · obtain rfl := Option.some.inj last
      obtain ⟨candidate, has, vouched⟩ := verified status
      refine ⟨candidate, has, ?_⟩
      simpa only [World.appendRecord, List.length_append, List.length_singleton, ← same] using vouched
    · exact written.verified key other last status
  · intro key other last status
    rw [lastRecord_appendRecord] at last
    split_ifs at last with same
    · obtain rfl := Option.some.inj last
      obtain ⟨attempt, candidate, has, moved⟩ := accepted status
      exact same ▸ ⟨attempt, candidate, has, moved.concat _⟩
    · exact written.accepted key other last status
  · intro key candidate moved
    have before : Moved w.history key candidate := (moved_concat_iff nofun).mp moved
    rw [lastRecord_appendRecord]
    split_ifs with same
    · exact ⟨record, rfl, unmoved candidate (same ▸ before)⟩
    · exact sound.moved key candidate before
  · intro key event
    refine ⟨(sound.events key event).1, ?_⟩
    rw [lastRecord_appendRecord]
    split_ifs with same
    · exact ⟨record, rfl, events (same ▸ event)⟩
    · exact (sound.events key event).2

theorem Sound.grow (sound : Sound initial w) {graph : CommitGraph τ} (larger : w.graph.size ≤ graph.size)
    (grows : ∀ a b, w.graph.Ancestor a b → graph.Ancestor a b) : Sound initial { w with graph } :=
  { sound with
    traced := sound.traced.grow grows
    known := Nat.lt_of_lt_of_le sound.known larger }

end Transport

/-! ## What the callers do -/

/-- A caller completed the node's attempt, or died between the snapshot and its event. -/
structure Completes (w t : World ν τ) (node : ν) : Prop where
  same : t.graph = w.graph ∧ t.runRef = w.runRef ∧ t.journal = w.journal ∧ t.history = w.history
  others : ∀ other, other ≠ node → t.nodes other = w.nodes other
  attempt : (t.nodes node).attempt = (w.nodes node).attempt
  status : (t.nodes node).status = .done
  events : (t.halted = w.halted ∧ ∀ key, key ∈ t.doneEvents ↔ key ∈ w.doneEvents ∨ key = (node, (w.nodes node).attempt)) ∨
    t.halted = true ∧ t.doneEvents = w.doneEvents

/-- A caller changed the node, and not its attempt. -/
structure Touches (w t : World ν τ) (node : ν) : Prop where
  same : t.graph = w.graph ∧ t.runRef = w.runRef ∧ t.journal = w.journal ∧ t.history = w.history
  others : ∀ other, other ≠ node → t.nodes other = w.nodes other
  attempt : (t.nodes node).attempt = (w.nodes node).attempt
  status : (t.nodes node).status = .done → (w.nodes node).status = .done
  events : t.halted = w.halted ∧ t.doneEvents = w.doneEvents

omit [DecidableEq ν] in
theorem touches_refl (w : World ν τ) (node : ν) : Touches w w node :=
  ⟨⟨rfl, rfl, rfl, rfl⟩, fun _ _ => rfl, rfl, id, rfl, rfl⟩

/-- The callbacks act on `node` for every transaction of that node, and die only when told to. -/
structure Callbacks.Handles (cb : Callbacks ν τ) (node : ν) : Prop where
  onAccepted : ∀ crash w transaction, transaction.node = node → w.halted = false →
    (w.nodes node).attempt = transaction.attempt →
    ((node, transaction.attempt) ∈ w.doneEvents → (w.nodes node).status = .done) →
    Completes w (cb.onAccepted crash w transaction) node ∧
      (crash = none → (cb.onAccepted crash w transaction).halted = false)
  onVerificationFailure : ∀ w transaction, transaction.node = node →
    Touches w (cb.onVerificationFailure w transaction) node
  onConflict : ∀ w transaction, transaction.node = node → Touches w (cb.onConflict w transaction) node

theorem touches_patch (w : World ν τ) (node : ν) {change : NodeSnapshot → NodeSnapshot}
    (keeps : (change (w.nodes node)).attempt = (w.nodes node).attempt)
    (open' : (change (w.nodes node)).status ≠ .done) : Touches w (w.patch node change) node where
  same := ⟨rfl, rfl, rfl, rfl⟩
  others other differs := by simp [World.patch, differs]
  attempt := by simpa [World.patch] using keeps
  status done := absurd (by simpa [World.patch] using done) open'
  events := ⟨rfl, rfl⟩

theorem touches_applyRejection (cfg : Config ν τ) (w : World ν τ) (node : ν) (summary : String) :
    Touches w (applyRejection cfg w node summary) node := by
  refine touches_patch w node ?_ ?_
  · split_ifs <;> rfl
  · split_ifs <;> nofun

theorem touches_blockedByConflict (w : World ν τ) (node : ν) (transaction : IntegrationRecord ν) :
    Touches w (blockedByConflict w node transaction) node := by
  rw [blockedByConflict]
  exact touches_patch w node rfl nofun

/-- A node that is done, once its event is there. -/
theorem completes_ensureTerminalEvent {w : World ν τ} {node : ν} (done : (w.nodes node).status = .done) :
    Completes w (w.ensureTerminalEvent node) node ∧ (w.ensureTerminalEvent node).halted = w.halted := by
  simp only [World.ensureTerminalEvent]
  split_ifs with there
  · refine ⟨⟨⟨rfl, rfl, rfl, rfl⟩, fun _ _ => rfl, rfl, done, .inl ⟨rfl, fun key => ⟨.inl, ?_⟩⟩⟩, rfl⟩
    rintro (before | rfl)
    · exact before
    · exact there
  · refine ⟨⟨⟨rfl, rfl, rfl, rfl⟩, fun _ _ => rfl, rfl, done, .inl ⟨rfl, fun key => ?_⟩⟩, rfl⟩
    simp only [List.mem_append, List.mem_singleton]

theorem completes_transitionDone (w : World ν τ) (crash : Option Stage) (node : ν) (head : Option Nat) :
    Completes w (w.transitionDone crash node head) node ∧
      (crash = none → (w.transitionDone crash node head).halted = w.halted) := by
  simp only [World.transitionDone, World.patch]
  split_ifs with died
  · refine ⟨⟨⟨rfl, rfl, rfl, rfl⟩, fun other differs => by simp [differs], by simp, by simp, .inr ⟨rfl, rfl⟩⟩, ?_⟩
    rintro rfl
    cases died
  · refine ⟨⟨⟨rfl, rfl, rfl, rfl⟩, fun other differs => by simp [differs], by simp, by simp, .inl ⟨rfl, ?_⟩⟩,
      fun _ => rfl⟩
    intro key
    simp

/-- Once the event is there, writing it again does nothing. -/
theorem ensureTerminalEvent_of_mem {w : World ν τ} {node : ν} (there : (node, (w.nodes node).attempt) ∈ w.doneEvents) :
    w.ensureTerminalEvent node = w := by
  simp only [World.ensureTerminalEvent, if_pos there]

/-- Both callers complete a node in the same two steps. -/
private theorem completes_twice {w : World ν τ} (crash : Option Stage) (node : ν) (head : Option Nat)
    (running : w.halted = false) :
    let done := if (w.nodes node).status = .done then w else w.transitionDone crash node head
    Completes w (if done.halted then done else done.ensureTerminalEvent node) node ∧
      (crash = none → (if done.halted then done else done.ensureTerminalEvent node).halted = false) := by
  intro done
  by_cases already : (w.nodes node).status = .done
  · have here : done = w := if_pos already
    rw [here, if_neg (by simp [running])]
    obtain ⟨completes, halted⟩ := completes_ensureTerminalEvent already
    exact ⟨completes, fun _ => halted.trans running⟩
  · have here : done = w.transitionDone crash node head := if_neg already
    obtain ⟨completes, halted⟩ := completes_transitionDone w crash node head
    rw [← here] at completes halted
    by_cases died : done.halted = true
    · rw [if_pos died]
      exact ⟨completes, fun none => (halted none).trans running⟩
    · rw [if_neg died, ensureTerminalEvent_of_mem]
      · exact ⟨completes, fun none => (halted none).trans running⟩
      · rcases completes.events with ⟨_, events⟩ | ⟨dead, _⟩
        · rw [events, completes.attempt]
          exact .inr rfl
        · exact absurd dead died

/-- The acceptance `settleDone` is told of completes its own node, whoever's transaction it is. -/
theorem settleCallbacks_completes (cfg : Config ν τ) {node : ν} (crash : Option Stage) {w : World ν τ}
    {transaction : IntegrationRecord ν} (running : w.halted = false)
    (attempt : (w.nodes node).attempt = transaction.attempt) :
    Completes w ((settleCallbacks cfg node).onAccepted crash w transaction) node ∧
      (crash = none → ((settleCallbacks cfg node).onAccepted crash w transaction).halted = false) := by
  simp only [settleCallbacks, if_pos attempt]
  exact completes_twice crash node transaction.candidateSha running

theorem settleCallbacks_handles (cfg : Config ν τ) (node : ν) : (settleCallbacks cfg node).Handles node where
  onAccepted crash _ _ _ running attempt _ := settleCallbacks_completes cfg crash running attempt
  onVerificationFailure w _ _ := touches_applyRejection cfg w node _
  onConflict w transaction _ := touches_blockedByConflict w node transaction

theorem recoveryCallbacks_handles (cfg : Config ν τ) (node : ν) : (recoveryCallbacks cfg).Handles node where
  onAccepted crash w transaction here running attempt settled := by
    subst here
    simp only [recoveryCallbacks]
    by_cases there : (transaction.node, (w.nodes transaction.node).attempt) ∈ w.doneEvents
    · rw [if_pos ⟨attempt, there⟩]
      refine ⟨⟨⟨rfl, rfl, rfl, rfl⟩, fun _ _ => rfl, rfl, settled (attempt ▸ there), .inl ⟨rfl, fun key => ⟨.inl, ?_⟩⟩⟩,
        fun _ => running⟩
      rintro (before | rfl)
      · exact before
      · exact there
    · rw [if_neg (fun both => there both.2)]
      have twice := completes_twice (w := w) crash transaction.node transaction.candidateSha running
      by_cases already : (w.nodes transaction.node).status = .done
      · simp only [already, if_true, attempt, ne_eq, not_true_eq_false, and_false, if_false, and_self] at twice ⊢
        exact twice
      · have completes := (completes_transitionDone w crash transaction.node transaction.candidateSha).1
        have both : ((w.transitionDone crash transaction.node transaction.candidateSha).nodes
            transaction.node).attempt = transaction.attempt ∧
            ((w.transitionDone crash transaction.node transaction.candidateSha).nodes
              transaction.node).status = .done := ⟨completes.attempt.trans attempt, completes.status⟩
        simp only [attempt, already, ne_eq, not_false_eq_true, and_self, if_true, if_false, both] at twice ⊢
        exact twice
  onVerificationFailure w transaction here := by
    subst here
    simp only [recoveryCallbacks]
    split_ifs
    · exact touches_refl w _
    · exact touches_applyRejection cfg w _ _
  onConflict w transaction here := by
    subst here
    simp only [recoveryCallbacks]
    split_ifs
    · exact touches_refl w _
    · exact touches_blockedByConflict w _ transaction

section Effects

variable {initial : Nat} {w t : World ν τ} {node : ν}

theorem lastRecord_congr (same : t.journal = w.journal) (key : ν × Nat) : t.lastRecord key = w.lastRecord key := by
  rw [World.lastRecord, same, World.lastRecord]

/-- A node may be completed when its own transaction is accepted, or can never be. -/
theorem Sound.completes (sound : Sound initial w) (completes : Completes w t node)
    (named : ∃ record, w.lastRecord (node, (w.nodes node).attempt) = some record ∧
      (record.status = .accepted ∨ record.Void)) : Sound initial t := by
  obtain ⟨graph, ref, journal, history⟩ := completes.same
  have last := lastRecord_congr journal
  have attempt (other : ν) : (t.nodes other).attempt = (w.nodes other).attempt := by
    by_cases same : other = node
    · exact same ▸ completes.attempt
    · rw [completes.others other same]
  have settled (key : ν × Nat) (event : key ∈ w.doneEvents) :
      ((t.nodes key.1).attempt = key.2 ∧ (t.nodes key.1).status = .done) ∧
        ∃ record, t.lastRecord key = some record ∧ (record.status = .accepted ∨ record.Void) := by
    obtain ⟨⟨current, done⟩, record⟩ := sound.events key event
    refine ⟨⟨(attempt key.1).trans current, ?_⟩, by rwa [last]⟩
    by_cases same : key.1 = node
    · exact same ▸ completes.status
    · rwa [completes.others key.1 same]
  refine ⟨?_, ?_, ?_, ?_, ?_, ?_, ?_⟩
  · rw [graph, history]
    exact sound.traced
  · rw [ref, history]
    exact sound.runRef
  · rw [ref, graph]
    exact sound.known
  · intro key record found status
    rw [history]
    exact sound.verified key record (by rwa [← last]) status
  · intro key record found status
    rw [history, attempt]
    exact sound.accepted key record (by rwa [← last]) status
  · intro key candidate moved
    rw [history] at moved
    rw [last, ref]
    exact sound.moved key candidate moved
  · intro key event
    rcases completes.events with ⟨_, events⟩ | ⟨_, events⟩
    · rcases (events key).mp event with before | rfl
      · exact settled key before
      · refine ⟨⟨completes.attempt, completes.status⟩, ?_⟩
        rwa [last]
    · exact settled key (events ▸ event)

/-- A node whose attempt is not done may be given any other status. -/
theorem Sound.touches (sound : Sound initial w) (touches : Touches w t node)
    (free : (node, (w.nodes node).attempt) ∉ w.doneEvents) : Sound initial t := by
  obtain ⟨graph, ref, journal, history⟩ := touches.same
  have last := lastRecord_congr journal
  refine ⟨?_, ?_, ?_, ?_, ?_, ?_, ?_⟩
  · rw [graph, history]
    exact sound.traced
  · rw [ref, history]
    exact sound.runRef
  · rw [ref, graph]
    exact sound.known
  · intro key record found status
    rw [history]
    exact sound.verified key record (by rwa [← last]) status
  · intro key record found status
    have attempt : (t.nodes key.1).attempt = (w.nodes key.1).attempt := by
      by_cases same : key.1 = node
      · exact same ▸ touches.attempt
      · rw [touches.others key.1 same]
    rw [history, attempt]
    exact sound.accepted key record (by rwa [← last]) status
  · intro key candidate moved
    rw [history] at moved
    rw [last, ref]
    exact sound.moved key candidate moved
  · intro key event
    rw [touches.events.2] at event
    obtain ⟨⟨current, done⟩, record⟩ := sound.events key event
    have differs : key.1 ≠ node := by
      intro same
      refine free ?_
      have equal : (node, (w.nodes node).attempt) = key := by rw [← same, current]
      exact equal ▸ event
    rw [touches.others key.1 differs, last]
    exact ⟨⟨current, done⟩, record⟩

/-- The run ref follows the one verified transaction. -/
theorem Sound.move (sound : Sound initial w) {transaction : IntegrationRecord ν} {candidate : Nat}
    (last : w.lastRecord transaction.key = some transaction) (verified : transaction.status = .verified)
    (has : transaction.candidateSha = some candidate) (line : w.graph.Ancestor w.runRef candidate)
    (known : candidate < w.graph.size) (others : QuietBut w transaction.key) :
    Sound initial { w with
      runRef := candidate
      history := w.history ++ [.moved transaction.node transaction.attempt w.runRef candidate] } := by
  have vouched : Vouched w.history w.history.length transaction.key candidate := by
    obtain ⟨other, same, vouched⟩ := sound.verified _ _ last verified
    obtain rfl := Option.some.inj (has.symm.trans same)
    exact vouched
  refine ⟨?_, ?_, known, ?_, ?_, ?_, sound.events⟩
  · show Traced initial w.graph (w.history ++ [.moved transaction.node transaction.attempt w.runRef candidate])
    rw [sound.runRef] at line ⊢
    exact sound.traced.move vouched line
  · exact (tip_concat_moved initial w.history _ _ _ _).symm
  · intro key record found status
    obtain ⟨other, same, evidence⟩ := sound.verified key record found status
    exact ⟨other, same, evidence.mono _ (by simp)⟩
  · intro key record found status
    obtain ⟨attempt, other, same, moved⟩ := sound.accepted key record found status
    exact ⟨attempt, other, same, moved.concat _⟩
  · intro key other moved
    rcases moved_concat_moved_iff.mp moved with before | ⟨rfl, rfl⟩
    · obtain ⟨record, found, same, status⟩ := sound.moved key other before
      refine ⟨record, found, same, ?_⟩
      rcases status with accepted | ⟨waiting, _⟩
      · exact .inl accepted
      · by_cases own : key = transaction.key
        · obtain rfl := Option.some.inj (last.symm.trans (own ▸ found))
          exact .inr ⟨waiting, Option.some.inj (has.symm.trans same)⟩
        · exact absurd waiting (others key record found own).not_verified
    · exact ⟨transaction, last, has, .inr ⟨verified, rfl⟩⟩

end Effects

end Faberun.Integration
