import Mathlib.Data.Finset.Basic
import Mathlib.Data.List.AList
import Faberun.Machine.Core

/-! # Settlement overlap

The embedding of `engine/settlement-overlap.mjs`. A settlement is a sequence of serialized sections
separated by parked proofs. `Section` is the one slot with its waiter queue, `Overlap` the state
`createSettlementOverlap` closes over together with the program point of every settlement in
flight, and `Overlap.machine` the interleavings of their synchronous runs: each label is one
stretch of code between two `await`s, so whatever happens inside it is atomic.

`acquires`, `grants` and `rejections` are history: nothing the code computes reads them.
-/

namespace Faberun

/-- What an asynchronous run rejects with; `LockLostError` is told apart from every other error. -/
inductive Rejection (ε : Type) where
  | lockLost
  | error (cause : ε)
  deriving DecidableEq, Repr

/-- How a promise settles: `none` is fulfilment. -/
abbrev Outcome (ε : Type) := Option (Rejection ε)

/-- The error a rejection would leave in `failure`. -/
def Rejection.cause? {ε : Type} : Rejection ε → Option ε
  | .lockLost => none
  | .error cause => some cause

/-- The run's one settlement slot. -/
structure Section (ν : Type) where
  sectionBusy : Bool
  sectionWaiters : List ν
  deriving DecidableEq, Repr

namespace Section

variable {ν : Type}

/-- `acquireSection`. The flag says whether the promise is satisfied at once. -/
def acquireSection (slot : Section ν) (node : ν) : Section ν × Bool :=
  if slot.sectionBusy then ({ slot with sectionWaiters := slot.sectionWaiters ++ [node] }, false)
  else ({ slot with sectionBusy := true }, true)

/-- `releaseSection`: hand-off, not vacancy. The second component is the waiter satisfied. -/
def releaseSection (slot : Section ν) : Section ν × Option ν :=
  match slot.sectionWaiters with
  | next :: rest => ({ slot with sectionWaiters := rest }, some next)
  | [] => ({ slot with sectionBusy := false }, none)

end Section

/-- Where the settlement of one node stands. `raised` is what its last parked proof threw, rethrown
by `park` once the section is re-acquired. -/
inductive Point (ε : Type) where
  | absent
  /-- In `sectionWaiters`. -/
  | queued (raised : Outcome ε)
  /-- The section promise is resolved and its continuation has not run yet. -/
  | granted (raised : Outcome ε)
  | inside (raised : Outcome ε)
  /-- Parked: the proof runs outside the section. -/
  | proving
  /-- The section is released and the `finally` callback has not run yet. -/
  | retiring
  deriving DecidableEq, Repr

namespace Point

variable {ε : Type}

/-- The settlement owns the section slot. -/
def holds : Point ε → Bool
  | .granted _ | .inside _ => true
  | _ => false

/-- The settlement waits for the section slot. -/
def waits : Point ε → Bool
  | .queued _ => true
  | _ => false

/-- Resolve the promise of a waiter. -/
def satisfy : Point ε → Point ε
  | .queued raised => .granted raised
  | point => point

@[simp] theorem holds_absent : (absent : Point ε).holds = false := rfl
@[simp] theorem holds_queued (raised : Outcome ε) : (queued raised).holds = false := rfl
@[simp] theorem holds_granted (raised : Outcome ε) : (granted raised).holds = true := rfl
@[simp] theorem holds_inside (raised : Outcome ε) : (inside raised).holds = true := rfl
@[simp] theorem holds_proving : (proving : Point ε).holds = false := rfl
@[simp] theorem holds_retiring : (retiring : Point ε).holds = false := rfl
@[simp] theorem waits_absent : (absent : Point ε).waits = false := rfl
@[simp] theorem waits_queued (raised : Outcome ε) : (queued raised).waits = true := rfl
@[simp] theorem waits_granted (raised : Outcome ε) : (granted raised).waits = false := rfl
@[simp] theorem waits_inside (raised : Outcome ε) : (inside raised).waits = false := rfl
@[simp] theorem waits_proving : (proving : Point ε).waits = false := rfl
@[simp] theorem waits_retiring : (retiring : Point ε).waits = false := rfl

@[simp] theorem satisfy_eq_absent_iff {point : Point ε} : point.satisfy = .absent ↔ point = .absent := by
  cases point <;> simp [satisfy]

@[simp] theorem satisfy_eq_retiring_iff {point : Point ε} :
    point.satisfy = .retiring ↔ point = .retiring := by
  cases point <;> simp [satisfy]

/-- Satisfying a waiter makes it the holder. -/
theorem satisfy_of_waits {point : Point ε} (waiting : point.waits = true) :
    point.satisfy.holds = true ∧ point.satisfy.waits = false := by
  cases point <;> simp_all [satisfy]

end Point

/-- The two promise callbacks a finished settlement leaves behind, in the order they are chained. -/
inductive Microtask (ν ε : Type) where
  /-- `.finally`: retire the node from `pending` and `settling`. -/
  | retire (node : ν) (outcome : Outcome ε)
  /-- `.catch`: record the first rejection that is not a lost lock. -/
  | record (rejection : Rejection ε)
  deriving DecidableEq, Repr

/-- The overlap of one controller. `ρ` is the runtime of the job whose settle window is reserved. -/
structure Overlap (ν ρ ε : Type) where
  pending : Finset ν
  settling : AList fun _ : ν => ρ
  failure : Option ε
  slot : Section ν
  points : ν → Point ε
  microtasks : List (Microtask ν ε)
  /-- History: the calls of `acquireSection`. -/
  acquires : List ν
  /-- History: the promises of `acquireSection` satisfied. -/
  grants : List ν
  /-- History: what settlements rejected with, in settlement order. -/
  rejections : List (Rejection ε)

namespace Overlap

variable {ν ρ ε : Type} [DecidableEq ν]

/-- `createSettlementOverlap`. -/
def create : Overlap ν ρ ε where
  pending := ∅
  settling := ∅
  failure := none
  slot := ⟨false, []⟩
  points := fun _ => .absent
  microtasks := []
  acquires := []
  grants := []
  rejections := []

/-- A settlement calls `acquireSection`; `raised` is kept for when the section is its own. -/
def acquire (s : Overlap ν ρ ε) (node : ν) (raised : Outcome ε) : Overlap ν ρ ε :=
  let (slot, satisfied) := s.slot.acquireSection node
  { s with
    slot
    points := Function.update s.points node (if satisfied then .granted raised else .queued raised)
    acquires := s.acquires ++ [node]
    grants := if satisfied then s.grants ++ [node] else s.grants }

/-- A settlement calls `releaseSection`, which satisfies the next waiter's promise. -/
def release (s : Overlap ν ρ ε) : Overlap ν ρ ε :=
  match s.slot.releaseSection with
  | (slot, some next) =>
      { s with
        slot
        points := Function.update s.points next (s.points next).satisfy
        grants := s.grants ++ [next] }
  | (slot, none) => { s with slot }

/-- `enqueue`: the settle-window slot is reserved before the section is asked for. -/
def enqueue (s : Overlap ν ρ ε) (node : ν) (job : ρ) : Overlap ν ρ ε :=
  let reserved := { s with settling := s.settling.insert node job }
  { reserved.acquire node none with pending := insert node s.pending }

/-- The synchronous part of `park` before its proof: the slot is handed back. -/
def park (s : Overlap ν ρ ε) (node : ν) : Overlap ν ρ ε :=
  { s with points := Function.update s.points node .proving }.release

/-- The work settles: `releaseSection` runs and the `finally` callback is queued. -/
def leave (s : Overlap ν ρ ε) (node : ν) (outcome : Outcome ε) : Overlap ν ρ ε :=
  { s with
    points := Function.update s.points node .retiring
    microtasks := s.microtasks ++ [Microtask.retire node outcome]
    rejections := s.rejections ++ outcome.toList }.release

/-- Run one promise callback. -/
def callback (s : Overlap ν ρ ε) : Microtask ν ε → Overlap ν ρ ε
  | .retire node outcome =>
      { s with
        pending := s.pending.erase node
        settling := s.settling.erase node
        points := Function.update s.points node .absent
        microtasks := s.microtasks ++ outcome.toList.map .record }
  | .record rejection => { s with failure := s.failure <|> rejection.cause? }

/-- The job queue is first in, first out. -/
def microtask (s : Overlap ν ρ ε) : Option (Overlap ν ρ ε) :=
  match s.microtasks with
  | [] => none
  | task :: rest => some ({ s with microtasks := rest }.callback task)

/-- One synchronous stretch of the program. -/
inductive Label (ν ρ ε : Type) where
  | enqueue (node : ν) (job : ρ)
  | resume (node : ν)
  | park (node : ν)
  /-- The factory passed to `park` settles and `acquireSection` is called again. -/
  | settleProof (node : ν) (outcome : Outcome ε)
  | leave (node : ν) (outcome : Outcome ε)
  | microtask
  deriving DecidableEq, Repr

/-- A label is enabled only at its own program point; `enqueue` only for a node not pending. -/
def step (s : Overlap ν ρ ε) : Label ν ρ ε → Option (Overlap ν ρ ε)
  | .enqueue node job => if node ∈ s.pending then none else some (s.enqueue node job)
  | .resume node =>
      match s.points node with
      | .granted raised => some { s with points := Function.update s.points node (.inside raised) }
      | _ => none
  | .park node =>
      match s.points node with
      | .inside _ => some (s.park node)
      | _ => none
  | .settleProof node outcome =>
      match s.points node with
      | .proving => some (s.acquire node outcome)
      | _ => none
  | .leave node outcome =>
      match s.points node with
      | .inside _ => some (s.leave node outcome)
      | _ => none
  | .microtask => s.microtask

/-- Every interleaving of the settlements of one controller. -/
def machine : Machine (Overlap ν ρ ε) (Label ν ρ ε) := ⟨step⟩

/-- Drain up to `count` promise callbacks. -/
def runMicrotasks : Nat → Overlap ν ρ ε → Overlap ν ρ ε
  | 0, s => s
  | count + 1, s => (s.microtask.map (runMicrotasks count)).getD s

/-- The first rejection that is not a lost lock. -/
def firstFailure (rejections : List (Rejection ε)) : Option ε := rejections.findSome? Rejection.cause?

end Overlap

end Faberun
