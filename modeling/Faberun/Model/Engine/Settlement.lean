import Mathlib.Logic.Function.Basic
import Faberun.Model.Engine.ProofGate
import Faberun.Model.Engine.SettlementOverlap

/-! # Settlements and their three locks

What one settlement does with the section of `engine/settlement-overlap.mjs`, the candidate lock of
`repo/integrate.mjs` and the proof gate of `engine/verify.mjs`, and in which order. The attempt pass
parks the section before it asks for a proof slot and asks for the section again after giving the
slot back; a candidate pass asks for its slot inside the candidate lock, inside the section.

A settlement's work is a list of stages. Everything else the work decides is left free: a throw may
replace what is left by any other list of stages.
-/

namespace Faberun

/-- What a settlement does inside its section, between two decisions. -/
inductive Stage (κ : Type) where
  /-- `parkDuringProof` around one pass in the attempt's workspace. -/
  | park (key : κ)
  /-- `withCandidateLock` around the passes of the candidate: none for a cleanup, a second one for
  the divergent retry. -/
  | integrate (passes : List κ)
  deriving DecidableEq, Repr

/-- Where a settlement stands; `rest` are the stages it has left. -/
inductive Standing (κ : Type) where
  | absent
  | sectionWait (rest : List (Stage κ))
  | sectionGranted (rest : List (Stage κ))
  | inside (rest : List (Stage κ))
  | slotWait (key : κ) (rest : List (Stage κ))
  | proving (key : κ) (rest : List (Stage κ))
  /-- The slot is given back and `park` has not asked for the section yet. -/
  | reentering (rest : List (Stage κ))
  | candidateWait (passes : List κ) (rest : List (Stage κ))
  | candidate (passes : List κ) (rest : List (Stage κ))
  | candidateSlotWait (key : κ) (passes : List κ) (rest : List (Stage κ))
  | candidateProving (key : κ) (passes : List κ) (rest : List (Stage κ))
  deriving DecidableEq, Repr

/-- The promise of `acquireSection` or of `acquireProofSlot` is resolved. -/
def Standing.satisfy {κ : Type} : Standing κ → Standing κ
  | .sectionWait rest => .sectionGranted rest
  | .slotWait key rest => .proving key rest
  | .candidateSlotWait key passes rest => .candidateProving key passes rest
  | standing => standing

/-- The settlements of one run with the locks they share. `chain` is the promise chain of
`candidateLocks`: the works not yet settled, in the order they were chained. -/
structure Settlements (ν κ : Type) where
  slot : Section ν
  chain : List ν
  gate : ProofGate ν κ
  standing : ν → Standing κ

namespace Settlements

variable {ν κ : Type} [DecidableEq ν] [DecidableEq κ]

def create (maxParallel : Option Nat) : Settlements ν κ where
  slot := ⟨false, []⟩
  chain := []
  gate := .proofGateFor maxParallel
  standing := fun _ => .absent

def move (s : Settlements ν κ) (node : ν) (standing : Standing κ) : Settlements ν κ :=
  { s with standing := Function.update s.standing node standing }

/-- Resolve the promises of the given settlements. -/
def satisfyAll (s : Settlements ν κ) (nodes : List ν) : Settlements ν κ :=
  { s with standing := fun node =>
      if node ∈ nodes then (s.standing node).satisfy else s.standing node }

/-- `acquireSection`, awaited. -/
def acquireSection (s : Settlements ν κ) (node : ν) (rest : List (Stage κ)) : Settlements ν κ :=
  let (slot, satisfied) := s.slot.acquireSection node
  { s with slot }.move node (if satisfied then .sectionGranted rest else .sectionWait rest)

/-- `releaseSection` of a settlement that goes on to `standing`. -/
def releaseSection (s : Settlements ν κ) (node : ν) (standing : Standing κ) : Settlements ν κ :=
  let (slot, next) := s.slot.releaseSection
  ({ s with slot }.move node standing).satisfyAll next.toList

/-- `acquireProofSlot`, awaited. -/
def acquireProofSlot (s : Settlements ν κ) (node : ν) (key : κ) (satisfied waiting : Standing κ) :
    Settlements ν κ :=
  let (gate, resolved) := s.gate.acquireProofSlot node key
  { s with gate }.move node (if resolved then satisfied else waiting)

/-- The release of a proof slot by a settlement that goes on to `standing`. -/
def releaseProofSlot (s : Settlements ν κ) (node : ν) (key : κ) (standing : Standing κ) :
    Settlements ν κ :=
  let (gate, satisfied) := s.gate.releaseProofSlot key
  ({ s with gate }.move node standing).satisfyAll (satisfied.map Prod.fst)

/-- What a settlement does next when nothing throws; `none` while it waits for a lock. -/
def advance (s : Settlements ν κ) (node : ν) : Option (Settlements ν κ) :=
  match s.standing node with
  | .absent | .sectionWait _ | .slotWait _ _ | .candidateSlotWait _ _ _ => none
  | .sectionGranted rest => some (s.move node (.inside rest))
  | .inside [] => some (s.releaseSection node .absent)
  | .inside (.park key :: rest) =>
      some ((s.releaseSection node (.reentering rest)).acquireProofSlot node key
        (.proving key rest) (.slotWait key rest))
  | .proving key rest => some (s.releaseProofSlot node key (.reentering rest))
  | .reentering rest => some (s.acquireSection node rest)
  | .inside (.integrate passes :: rest) =>
      some ({ s with chain := s.chain ++ [node] }.move node (.candidateWait passes rest))
  | .candidateWait passes rest =>
      if s.chain.head? = some node then some (s.move node (.candidate passes rest)) else none
  | .candidate [] rest => some ({ s with chain := s.chain.tail }.move node (.inside rest))
  | .candidate (key :: passes) rest =>
      some (s.acquireProofSlot node key (.candidateProving key passes rest)
        (.candidateSlotWait key passes rest))
  | .candidateProving key passes rest => some (s.releaseProofSlot node key (.candidate passes rest))

/-- A throw at the point the settlement stands at; `handler` is what its work does afterwards. Every
`finally` on the way still runs. -/
def throw (s : Settlements ν κ) (node : ν) (handler : List (Stage κ)) : Option (Settlements ν κ) :=
  match s.standing node with
  | .inside _ => some (s.move node (.inside handler))
  | .proving key _ => some (s.releaseProofSlot node key (.reentering handler))
  | .candidate _ _ => some (s.move node (.candidate [] handler))
  | .candidateProving key _ _ => some (s.releaseProofSlot node key (.candidate [] handler))
  | _ => none

inductive Label (ν κ : Type) where
  /-- `enqueue` of a node with no settlement in flight. -/
  | enqueue (node : ν) (work : List (Stage κ))
  | advance (node : ν)
  | throw (node : ν) (handler : List (Stage κ))
  deriving DecidableEq, Repr

def step (s : Settlements ν κ) : Label ν κ → Option (Settlements ν κ)
  | .enqueue node work => if s.standing node = .absent then some (s.acquireSection node work) else none
  | .advance node => s.advance node
  | .throw node handler => s.throw node handler

/-- Every interleaving of any number of settlements. -/
def machine : Machine (Settlements ν κ) (Label ν κ) := ⟨step⟩

end Settlements

end Faberun
