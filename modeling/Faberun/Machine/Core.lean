import Mathlib.Data.List.Basic

/-! # Labeled machines and their guarded runs

A machine is deterministic once its label is fixed: the label carries every choice its environment
makes. `Reach` collects the states of all runs whose steps meet a guard, `replay?` executes one
run, and `Reach.invariant` is the induction every safety theorem is proved by. Nothing here names
a program; the guard `free` recovers the unrestricted runs.
-/

universe u v

/-- A machine takes a labeled step or refuses it. -/
structure Machine (σ : Type u) (ℓ : Type v) where
  step : σ → ℓ → Option σ

namespace Machine

variable {σ : Type u} {ℓ : Type v}

/-- The guard every step meets. -/
def free : σ → ℓ → Prop := fun _ _ => True

instance : DecidableRel (@free σ ℓ) := fun _ _ => instDecidableTrue

/-- The states of the runs that start in `init` and whose steps all meet `guard`. -/
inductive Reach (m : Machine σ ℓ) (guard : σ → ℓ → Prop) (init : σ → Prop) : σ → Prop
  | start {s : σ} : init s → Reach m guard init s
  | next {s t : σ} {label : ℓ} :
      Reach m guard init s → guard s label → m.step s label = some t → Reach m guard init t

/-- Execute a list of labels, refusing the first step that is disabled or breaks the guard. -/
def replay? (m : Machine σ ℓ) (guard : σ → ℓ → Prop) [DecidableRel guard] : σ → List ℓ → Option σ
  | s, [] => some s
  | s, label :: rest =>
      if guard s label then (m.step s label).bind fun t => m.replay? guard t rest else none

variable {m : Machine σ ℓ} {guard : σ → ℓ → Prop} {init : σ → Prop}

/-- A property that holds initially and survives every guarded step holds in every state reached. -/
theorem Reach.invariant (Inv : σ → Prop) (base : ∀ s, init s → Inv s)
    (preserved : ∀ s label t, Inv s → guard s label → m.step s label = some t → Inv t)
    {s : σ} (reach : m.Reach guard init s) : Inv s := by
  induction reach with
  | start initial => exact base _ initial
  | next _ allowed taken ih => exact preserved _ _ _ ih allowed taken

/-- A stronger guard reaches fewer states. -/
theorem Reach.mono {strong : σ → ℓ → Prop} (weaker : ∀ s label, strong s label → guard s label)
    {s : σ} (reach : m.Reach strong init s) : m.Reach guard init s := by
  induction reach with
  | start initial => exact .start initial
  | next _ allowed taken ih => exact .next ih (weaker _ _ allowed) taken

/-- An executed run stays inside the reachable states. -/
theorem Reach.replay [DecidableRel guard] {s t : σ} {labels : List ℓ} (reach : m.Reach guard init s)
    (success : m.replay? guard s labels = some t) : m.Reach guard init t := by
  induction labels generalizing s with
  | nil =>
    obtain rfl := Option.some.inj success
    exact reach
  | cons label rest ih =>
    simp only [replay?] at success
    split_ifs at success with allowed
    obtain ⟨mid, taken, tail⟩ := Option.bind_eq_some_iff.mp success
    exact ih (.next reach allowed taken) tail

/-- A concrete execution from an initial state witnesses reachability. -/
theorem Reach.of_replay [DecidableRel guard] {s t : σ} (initial : init s) (labels : List ℓ)
    (success : m.replay? guard s labels = some t) : m.Reach guard init t :=
  Reach.replay (.start initial) success

/-- A property checked at the end of one execution, and what follows from it there. -/
theorem exists_replay [DecidableRel guard] {s : σ} {labels : List ℓ} {Q : σ → Prop} (check : σ → Prop)
    [DecidablePred check] (follows : ∀ t, m.replay? guard s labels = some t → check t → Q t)
    (ran : (m.replay? guard s labels).any (fun t => decide (check t)) = true) :
    ∃ t, m.replay? guard s labels = some t ∧ Q t := by
  obtain ⟨t, success, holds⟩ := (Option.any_eq_true _ _).mp ran
  exact ⟨t, success, follows t success (of_decide_eq_true holds)⟩

/-! ## Histories -/

variable {η : Type*}

/-- The machine with a history beside its state: `note` adds to it what a step did, and no step reads it. -/
def withHistory (m : Machine σ ℓ) (note : σ → ℓ → σ → η → η) : Machine (σ × η) ℓ where
  step := fun (s, past) label => (m.step s label).map fun t => (t, note s label t past)

variable {note : σ → ℓ → σ → η → η} {initial : η}

theorem withHistory_step {s t : σ} {past now : η} {label : ℓ} :
    (m.withHistory note).step (s, past) label = some (t, now) ↔ m.step s label = some t ∧ now = note s label t past := by
  simp only [withHistory, Option.map_eq_some_iff, Prod.mk.injEq]
  exact ⟨fun ⟨_, taken, same, noted⟩ => ⟨same ▸ taken, noted ▸ same ▸ rfl⟩, fun ⟨taken, noted⟩ => ⟨t, taken, rfl, noted.symm⟩⟩

/-- Forgetting the history leaves a run of the machine. -/
theorem Reach.forget {guard : σ × η → ℓ → Prop} {s : σ × η}
    (reach : (m.withHistory note).Reach guard (fun s => init s.1 ∧ s.2 = initial) s) : m.Reach free init s.1 := by
  induction reach with
  | start initial => exact .start initial.1
  | next _ _ taken ih => exact .next ih trivial (withHistory_step.mp taken).1

/-- Every run of the machine has its history. -/
theorem Reach.withHistory {s : σ} (reach : m.Reach free init s) :
    ∃ past, (m.withHistory note).Reach free (fun s => init s.1 ∧ s.2 = initial) (s, past) := by
  induction reach with
  | start start => exact ⟨initial, .start ⟨start, rfl⟩⟩
  | next _ _ taken ih =>
    obtain ⟨past, before⟩ := ih
    exact ⟨_, .next before trivial (withHistory_step.mpr ⟨taken, rfl⟩)⟩

end Machine
