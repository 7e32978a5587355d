import Mathlib.Data.List.Basic

/-! # Loops that run until they are done

`drain` repeats a step as long as there is one. With fuel for every step a measure allows, the loop ends because
nothing is left to do, and what a step preserves holds at its end.
-/

namespace Faberun

variable {σ : Type*}

/-- Repeat a step until it has nothing to do. -/
def drain (step : σ → Option σ) : Nat → σ → σ
  | 0, state => state
  | fuel + 1, state =>
    match step state with
    | none => state
    | some next => drain step fuel next

variable {step : σ → Option σ} {fuel : Nat} {state : σ}

/-- What every step preserves holds at the end. -/
theorem drain_invariant (Inv : σ → Prop) (preserved : ∀ before after, Inv before → step before = some after → Inv after)
    (base : Inv state) : Inv (drain step fuel state) := by
  induction fuel generalizing state with
  | zero => exact base
  | succ fuel ih =>
    simp only [drain]
    cases taken : step state with
    | none => exact base
    | some next => exact ih (preserved state next base taken)

/-- A loop whose steps lower a measure ends with nothing to do. -/
theorem drain_done (measure : σ → Nat) (lowers : ∀ before after, step before = some after → measure after < measure before)
    (enough : measure state ≤ fuel) : step (drain step fuel state) = none := by
  induction fuel generalizing state with
  | zero =>
    cases taken : step state with
    | none => exact taken
    | some next =>
      have less := lowers state next taken
      omega
  | succ fuel ih =>
    simp only [drain]
    cases taken : step state with
    | none => exact taken
    | some next =>
      have less := lowers state next taken
      exact ih (by omega)

end Faberun
