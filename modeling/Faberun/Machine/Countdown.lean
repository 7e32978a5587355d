import Faberun.Machine.Core

/-! # What a rank bounds

A rank that no step raises counts down the steps that lower it: after a run, it stands at most at what it was less the
number of these steps. The steps are those of a run that stays in a stable set of states.
-/

universe u v

namespace Machine

variable {σ : Type u} {ℓ : Type v} {m : Machine σ ℓ} {guard : σ → ℓ → Prop} [DecidableRel guard]

/-- A rank that a run never raises, and that the steps `own` lower, is counted down by them. -/
theorem rank_le_of_replay (P : σ → Prop) (own : ℓ → Bool) (rank : σ → Nat)
    (kept : ∀ s label t, P s → m.step s label = some t → P t)
    (raised : ∀ s label t, P s → m.step s label = some t → rank t ≤ rank s)
    (lowered : ∀ s label t, P s → m.step s label = some t → own label = true → rank t ≤ rank s - 1) {s t : σ}
    {labels : List ℓ} (ran : m.replay? guard s labels = some t) (holds : P s) :
    rank t ≤ rank s - labels.countP own := by
  induction labels generalizing s with
  | nil =>
    obtain rfl := Option.some.inj ran
    exact Nat.le_refl _
  | cons label rest ih =>
    simp only [replay?] at ran
    split_ifs at ran
    obtain ⟨mid, taken, tail⟩ := Option.bind_eq_some_iff.mp ran
    have later := ih tail (kept s label mid holds taken)
    cases mine : own label with
    | true =>
      have once := lowered s label mid holds taken mine
      rw [List.countP_cons_of_pos mine]
      omega
    | false =>
      have once := raised s label mid holds taken
      rw [List.countP_cons_of_neg (by simp [mine])]
      omega

end Machine
