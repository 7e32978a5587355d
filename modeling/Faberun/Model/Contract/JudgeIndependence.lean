import Faberun.Model.Contract.Runtime

/-! # Judge independence in a contract

A judge of its worker's vendor reviews nothing, unless the contract opts into same-vendor review, where the declared
tiers of the two models decide. The contract validator asks this of the worker of every gated node and of every runtime
its fallback chain reaches.
-/

namespace Faberun

/-- `requireRuntime` on the fallback of every runtime. -/
def checkFallbacks (runtimes : Catalogue) : Except Refusal Unit :=
  runtimes.entries.forM fun entry =>
    match entry.2.fallback with
    | none => .ok ()
    | some fallback => do
      check (fallback != entry.1) s!"runtime {entry.1}.fallback cannot name itself"
      check (runtimes.get? fallback).isSome s!"runtime {entry.1}.fallback names an unknown runtime"

/-- `validateRuntime` on every runtime of an object. -/
def validateEntries : List (String × Runtime) → Except Refusal (List (String × Runtime))
  | [] => .ok []
  | (id, runtime) :: rest => do
    let validated ← validateRuntime id runtime
    let others ← validateEntries rest
    return (id, validated) :: others

theorem validateEntries_ids {entries validated : List (String × Runtime)}
    (success : validateEntries entries = .ok validated) : validated.map (·.1) = entries.map (·.1) := by
  induction entries generalizing validated with
  | nil =>
    obtain rfl := Except.ok.inj success
    rfl
  | cons entry rest ih =>
    obtain ⟨id, runtime⟩ := entry
    simp only [validateEntries] at success
    cases here : validateRuntime id runtime with
    | error refusal => simp [here, bind, Except.bind] at success
    | ok first =>
      cases later : validateEntries rest with
      | error refusal => simp [here, later, bind, Except.bind] at success
      | ok others =>
        simp only [here, later, bind, Except.bind, pure, Except.pure, Except.ok.injEq] at success
        subst success
        rw [List.map_cons, List.map_cons, ih later]

/-- The runtimes of a contract. -/
def contractRuntimes (raw : Catalogue) : Except Refusal Catalogue :=
  match validated : validateEntries raw.entries with
  | .error refusal => .error refusal
  | .ok entries =>
    let runtimes : Catalogue := ⟨entries, by
      rw [validateEntries_ids validated]
      exact raw.distinct⟩
    (checkFallbacks runtimes).map fun _ => runtimes

/-! ## The check -/

/-- What the check reads of a node. -/
structure ReviewNode where
  gateEnabled : Bool
  gateRuntime : Option String
  runtime : Option String
  sameProviderReview : Bool
  deriving DecidableEq

/-- `runtimeDefaults`. -/
structure RoleMap where
  worker : Option String
  judge : Option String
  deriving DecidableEq

/-- A text as a message shows it. -/
def shown (text : Option String) : String := text.getD "undefined"

/-- One worker runtime against the judge: whether they share a vendor, when the mode lets them. -/
def reviewPair (sameVendor : Bool) (pair : String) (worker judge : Runtime) : Except Refusal Bool :=
  if worker.vendor = judge.vendor then
    if sameVendor then
      match sameVendorTierRefusal worker judge with
      | some refusal => .error ⟨none, s!"{pair} share vendor {shown worker.vendor}: {refusal.message}"⟩
      | none => .ok true
    else .error ⟨none, s!"{pair} share vendor {shown worker.vendor}"⟩
  else .ok false

/-- The loop over the fallback chain of a worker: whether one of its runtimes shares the judge's vendor. -/
def reviewFallbacks (runtimes : Catalogue) (sameVendor : Bool) (node workerId judgeId : String) (judge : Runtime) :
    Nat → List String → Option String → Except Refusal Bool
  | _, _, none => .ok false
  | 0, _, some _ => .ok false
  | fuel + 1, seen, some id =>
    if seen.contains id then
      .error ⟨none, s!"{node} worker runtime {workerId} fallback chain cycles back to {id}"⟩
    else match runtimes.get? id with
      | none => .error ⟨none, "Cannot read properties of undefined (reading 'vendor')"⟩
      | some fallback => do
        let shared ← reviewPair sameVendor
          s!"{node} worker runtime {workerId} fallback runtime {id} and judge runtime {judgeId}" fallback judge
        let later ← reviewFallbacks runtimes sameVendor node workerId judgeId judge fuel (id :: seen) fallback.fallback
        return shared || later

/-- A gated node with its worker and its judge. -/
def reviewRuntimes (runtimes : Catalogue) (sameVendor : Bool) (node workerId judgeId : String) : Except Refusal Bool :=
  match runtimes.get? workerId, runtimes.get? judgeId with
  | some worker, some judge => do
    let shared ← reviewPair sameVendor s!"{node} worker runtime {workerId} and judge runtime {judgeId}" worker judge
    let later ← reviewFallbacks runtimes sameVendor node workerId judgeId judge runtimes.entries.length [workerId]
      worker.fallback
    return shared || later
  | _, _ => .error ⟨none, "Cannot read properties of undefined (reading 'vendor')"⟩

def markNode (runtimes : Catalogue) (defaults : RoleMap) (sameVendor : Bool) (index : Nat) (node : ReviewNode) :
    Except Refusal ReviewNode :=
  if node.gateEnabled then
    match nonempty? (node.runtime.or defaults.worker), nonempty? (node.gateRuntime.or defaults.judge) with
    | some workerId, some judgeId =>
      (reviewRuntimes runtimes sameVendor s!"nodes[{index}]" workerId judgeId).map fun shared =>
        if shared then { node with sameProviderReview := true } else node
    | _, _ => .ok node
  else .ok node

/-- The loop of `markSameProviderReviewNodes` from an index on. -/
def markNodesFrom (runtimes : Catalogue) (defaults : RoleMap) (sameVendor : Bool) :
    Nat → List ReviewNode → Except Refusal (List ReviewNode)
  | _, [] => .ok []
  | index, node :: rest => do
    let marked ← markNode runtimes defaults sameVendor index node
    let others ← markNodesFrom runtimes defaults sameVendor (index + 1) rest
    return marked :: others

def markSameProviderReviewNodes (nodes : List ReviewNode) (runtimes : Catalogue) (defaults : RoleMap)
    (sameVendor : Bool) : Except Refusal (List ReviewNode) := markNodesFrom runtimes defaults sameVendor 0 nodes

end Faberun
