import Faberun.Soundness.Integration

/-! # What a crash cannot break

In every sequence of integrations, with a crash at any stage of any of them and of the recoveries between
them, the run ref moves only to descendants and only to candidates journaled as verified before the move;
and once a recovery ran to its end, the nodes done with an accepted record are exactly those whose own
transaction moved the run ref, and another recovery changes nothing.
-/

namespace Faberun.Integration

variable {ν τ : Type} [DecidableEq ν]

/-- The node is done under this attempt, and the journal holds its acceptance. -/
def World.DoneAccepted (w : World ν τ) (node : ν) (attempt : Nat) : Prop :=
  ((w.nodes node).attempt = attempt ∧ (w.nodes node).status = .done) ∧
    ∃ record ∈ latestIntegrationTransactions w.journal, record.key = (node, attempt) ∧ record.status = .accepted

/-- The attempt's own transaction moved the run ref to its candidate, and the run ref still contains it. -/
def World.Landed (w : World ν τ) (node : ν) (attempt : Nat) : Prop :=
  ∃ record ∈ latestIntegrationTransactions w.journal, record.key = (node, attempt) ∧
    ∃ candidate, record.candidateSha = some candidate ∧ Moved w.history (node, attempt) candidate ∧
      w.graph.Ancestor candidate w.runRef

theorem doneAccepted_iff_landed {initial : Nat} {w : World ν τ} (sound : Sound initial w) (quiet : Quiet w) (node : ν)
    (attempt : Nat) : w.DoneAccepted node attempt ↔ w.Landed node attempt := by
  constructor
  · rintro ⟨_, record, member, named, accepted⟩
    have last := mem_latestIntegrationTransactions.mp member
    rw [named] at last
    obtain ⟨_, candidate, has, moved⟩ := sound.accepted _ record last accepted
    refine ⟨record, member, named, candidate, has, moved, ?_⟩
    rw [sound.runRef]
    exact sound.traced.ancestor_of_moved moved
  · rintro ⟨_, _, _, candidate, _, moved, _⟩
    obtain ⟨record, last, _, state⟩ := sound.moved _ candidate moved
    have named := key_of_lastRecord last
    have member : record ∈ latestIntegrationTransactions w.journal :=
      mem_latestIntegrationTransactions.mpr (by rw [named, last])
    have inert := quiet _ record last
    have accepted : record.status = .accepted := by
      rcases state with accepted | ⟨verified, _⟩
      · exact accepted
      · exact absurd verified inert.not_verified
    have event : (node, attempt) ∈ w.doneEvents := named ▸ inert.event accepted
    exact ⟨(sound.events _ event).1, record, member, named, accepted⟩

variable [DecidableEq τ]

/-- What integration promises at every instant of a run that started at `initial`. -/
structure CrashConsistent (cfg : Config ν τ) (initial : Nat) (w : World ν τ) : Prop where
  /-- The run ref is where it started or where a transaction moved it. -/
  value : w.runRef = initial ∨ ∃ key, Moved w.history key w.runRef
  /-- Every move was journaled as verified before, and verified before that. -/
  vouched : ∀ (i : Nat) (node : ν) (attempt source target : Nat),
    w.history[i]? = some (.moved node attempt source target) → Vouched w.history i (node, attempt) target
  /-- Every move starts at the tip the moves before it left, and goes to a descendant. -/
  descends : ∀ (i : Nat) (node : ν) (attempt source target : Nat),
    w.history[i]? = some (.moved node attempt source target) →
      source = tip initial (w.history.take i) ∧ w.graph.Ancestor source target
  recovered : ∀ passed t, step cfg w (.recover passed none) = some t →
    ∀ node attempt, t.DoneAccepted node attempt ↔ t.Landed node attempt
  idempotent : ∀ passed t, step cfg w (.recover passed none) = some t →
    ∀ again u, step cfg t (.recover again none) = some u →
      u.runRef = t.runRef ∧ u.journal = t.journal ∧ u.nodes = t.nodes

theorem Kept.crashConsistent {cfg : Config ν τ} {initial : Nat} {w : World ν τ} (kept : Kept initial w) :
    CrashConsistent cfg initial w := by
  have recovers (passed : Bool) (t : World ν τ) (taken : Integration.step cfg w (.recover passed none) = some t) :
      Sound initial t ∧ t.halted = false ∧ Quiet t := by
    obtain rfl := Option.some.inj taken
    have rest : Quiet { w with halted := false } ∨ ∃ record, Unfinished { w with halted := false } record := by
      rcases kept.rest with quiet | ⟨_, record, unfinished⟩
      · exact .inl quiet
      · exact .inr ⟨record, unfinished.halt false⟩
    obtain ⟨after, survives⟩ :=
      recoverIntegrations_kept none cfg passed (kept.sound.halt false) rfl rest
    exact ⟨after.sound, survives rfl⟩
  refine ⟨?_, kept.sound.traced.vouched, kept.sound.traced.chain, ?_, ?_⟩
  · rw [kept.sound.runRef]
    exact tip_eq_or_moved initial w.history
  · intro passed t taken node attempt
    obtain ⟨sound, _, quiet⟩ := recovers passed t taken
    exact doneAccepted_iff_landed sound quiet node attempt
  · intro passed t taken again u repeated
    obtain ⟨sound, running, quiet⟩ := recovers passed t taken
    have alive : { t with halted := false } = t := by rw [← running]
    simp only [Integration.step, alive, recoverIntegrations_quiet sound running quiet, Option.some.injEq] at repeated
    subst repeated
    exact ⟨rfl, rfl, rfl⟩

/-- Integration is crash-consistent. -/
theorem integration_crashConsistent {cfg : Config ν τ} {initial : Nat} {w : World ν τ}
    (reach : (machine cfg).Reach Machine.free (Initial initial) w) : CrashConsistent cfg initial w := by
  have kept : Kept initial w := reach.invariant (Kept initial) (fun _ start => start.kept)
    fun _ _ _ kept _ taken => kept.step taken
  exact kept.crashConsistent

/-- Trees are numbers, and a merge always succeeds. -/
def merging : Config Bool Nat := ⟨fun _ _ _ => .tree 9, fun _ => 1, fun _ => true⟩

/-- One root commit, and two nodes that have not run. -/
def fresh : World Bool Nat where
  graph := .root 0
  runRef := 0
  journal := []
  nodes := fun _ => ⟨.pending, 0, 0, none, none⟩
  doneEvents := []
  halted := false
  history := []

theorem fresh_initial : Initial 0 fresh := ⟨by decide, rfl, rfl, rfl, rfl, rfl⟩

/-- Two attempts sealed on the same root: the controller dies after the first moved the run ref and before
the second, a merge, did. -/
theorem integration_crashConsistent_two : ∃ w, (machine merging).replay? Machine.free fresh
    [.commit 1 [0], .commit 2 [0], .startAttempt false, .startAttempt true, .integrate false 1 true (some .afterRef),
      .recover true none, .integrate true 2 true (some .beforeRef), .recover true none] = some w ∧
      CrashConsistent merging 0 w :=
  Machine.exists_replay (fun w => w.runRef = 3 ∧ (w.nodes true).status = .done)
    (fun _ ran _ => integration_crashConsistent (.of_replay fresh_initial _ ran)) (by decide)

end Faberun.Integration
