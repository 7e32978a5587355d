import Mathlib.Data.Finset.Basic
import Faberun.Machine.Core

/-! # Proof gate

The embedding of the proof gate of `engine/verify.mjs`: at most `limit` verification passes at a
time, no two in one workspace. A waiter is the key it asked for and the pass whose promise its
`satisfy` resolves. What `resolveSlot` hands out is a one-shot release, so a pass releases its own
key exactly once.
-/

namespace Faberun

/-- The gate of one contract. -/
structure ProofGate (ν κ : Type) where
  limit : Nat
  active : Nat
  held : Finset κ
  waiters : List (ν × κ)
  deriving DecidableEq

namespace ProofGate

variable {ν κ : Type} [DecidableEq κ]

/-- The gate `proofGateFor` creates for a contract. -/
def proofGateFor (maxParallel : Option Nat) : ProofGate ν κ :=
  { limit := max 1 (maxParallel.getD 1), active := 0, held := ∅, waiters := [] }

/-- Count a pass in under its key. -/
def satisfy (gate : ProofGate ν κ) (key : κ) : ProofGate ν κ :=
  { gate with active := gate.active + 1, held := insert key gate.held }

/-- The loop of `drainProofWaiters`: `passed` are the waiters before `index`. The second component is
what the loop satisfies, in order. -/
def drainFrom (gate : ProofGate ν κ) (passed : List (ν × κ)) :
    List (ν × κ) → ProofGate ν κ × List (ν × κ)
  | [] => ({ gate with waiters := passed }, [])
  | waiter :: rest =>
      if gate.active < gate.limit then
        if waiter.2 ∈ gate.held then gate.drainFrom (passed ++ [waiter]) rest
        else
          let (drained, satisfied) := (gate.satisfy waiter.2).drainFrom passed rest
          (drained, waiter :: satisfied)
      else ({ gate with waiters := passed ++ waiter :: rest }, [])

/-- `drainProofWaiters`. -/
def drainProofWaiters (gate : ProofGate ν κ) : ProofGate ν κ × List (ν × κ) :=
  gate.drainFrom [] gate.waiters

/-- `acquireProofSlot`. The flag says whether the promise is resolved at once. -/
def acquireProofSlot (gate : ProofGate ν κ) (pass : ν) (key : κ) : ProofGate ν κ × Bool :=
  if gate.active < gate.limit ∧ key ∉ gate.held then (gate.satisfy key, true)
  else ({ gate with waiters := gate.waiters ++ [(pass, key)] }, false)

/-- The release handed to the pass that holds `key`. -/
def releaseProofSlot (gate : ProofGate ν κ) (key : κ) : ProofGate ν κ × List (ν × κ) :=
  { gate with active := gate.active - 1, held := gate.held.erase key }.drainProofWaiters

end ProofGate

/-! ## Passes through the gate -/

/-- Where a call of `withProofSlot` stands: awaiting its slot, granted one, inside `run`, or past its `finally`. -/
inductive PassPoint (κ : Type) where
  | absent
  | waiting (key : κ)
  | granted (key : κ)
  | running (key : κ)
  | ended (threw : Bool)
  deriving DecidableEq

namespace PassPoint

variable {κ : Type}

/-- The key a pass holds a slot under. -/
def holds : PassPoint κ → Option κ
  | granted key | running key => some key
  | _ => none

/-- The key a pass waits for. -/
def waits : PassPoint κ → Option κ
  | waiting key => some key
  | _ => none

/-- How often a pass has given its slot back. -/
def givenBack : PassPoint κ → Nat
  | ended _ => 1
  | _ => 0

end PassPoint

/-- The passes of one contract; `requested` and `served` are in order, `releases` counts the slots a pass gave back. -/
structure ProofPasses (ν κ : Type) where
  gate : ProofGate ν κ
  point : ν → PassPoint κ
  requested : List (ν × κ)
  served : List (ν × κ)
  releases : ν → Nat

/-- What the passes or the event loop do next. -/
inductive PassLabel (ν κ : Type) where
  | request (pass : ν) (key : κ)
  | begin (pass : ν)
  | finish (pass : ν) (threw : Bool)

namespace ProofPasses

variable {ν κ : Type} [DecidableEq ν] [DecidableEq κ]

/-- The gate of a contract before any pass. -/
def start (maxParallel : Option Nat) : ProofPasses ν κ :=
  ⟨ProofGate.proofGateFor maxParallel, fun _ => .absent, [], [], fun _ => 0⟩

/-- Resolve the promises of some waiters. -/
def grant (point : ν → PassPoint κ) (satisfied : List (ν × κ)) (pass : ν) : PassPoint κ :=
  match satisfied.find? fun waiter => waiter.1 = pass with
  | some waiter => .granted waiter.2
  | none => point pass

/-- One step of `withProofSlot`; whether `run` returned or threw, `finally` gives the slot back. -/
def step? (passes : ProofPasses ν κ) : PassLabel ν κ → Option (ProofPasses ν κ)
  | .request pass key =>
    if passes.point pass matches .absent then
      let (gate, resolved) := passes.gate.acquireProofSlot pass key
      some { passes with
        gate := gate
        point := Function.update passes.point pass (if resolved then .granted key else .waiting key)
        requested := passes.requested ++ [(pass, key)]
        served := if resolved then passes.served ++ [(pass, key)] else passes.served }
    else none
  | .begin pass =>
    match passes.point pass with
    | .granted key => some { passes with point := Function.update passes.point pass (.running key) }
    | _ => none
  | .finish pass threw =>
    match passes.point pass with
    | .running key =>
      let (gate, satisfied) := passes.gate.releaseProofSlot key
      some { passes with
        gate := gate
        point := grant (Function.update passes.point pass (.ended threw)) satisfied
        served := passes.served ++ satisfied
        releases := Function.update passes.releases pass (passes.releases pass + 1) }
    | _ => none

def machine : Machine (ProofPasses ν κ) (PassLabel ν κ) := ⟨step?⟩

end ProofPasses

end Faberun
