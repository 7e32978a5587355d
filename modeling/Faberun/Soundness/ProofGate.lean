import Faberun.Machine.KeyedGate
import Faberun.Model.Engine.ProofGate

/-! # The proof gate is a keyed counting gate

`ProofGate.Implements` connects the counter and the key set of the code to the abstract gate, and
`ProofGate.Placed` says who stands at it. `acquireProofSlot` and the release of a slot keep both.
-/

namespace Faberun

namespace ProofGate

variable {ν κ : Type} [DecidableEq κ]

/-- The counter and the key set are those of the gate's holders. -/
structure Implements (gate : ProofGate ν κ) (model : KeyedGate ν κ) : Prop where
  limit : gate.limit = model.limit
  active : gate.active = model.holders.length
  held : ∀ key, key ∈ gate.held ↔ key ∈ model.holders.map Prod.snd
  waiters : gate.waiters = model.waiters

/-- The index loop of the code is the abstract scan. -/
private theorem drainFrom_eq {gate : ProofGate ν κ} {limit : Nat} {holders : List (ν × κ)}
    (waiters : List (ν × κ)) (bound : gate.limit = limit) (active : gate.active = holders.length)
    (held : ∀ key, key ∈ gate.held ↔ key ∈ holders.map Prod.snd) (passed : List (ν × κ)) :
    let scan := KeyedGate.drain limit holders waiters
    let loop := gate.drainFrom passed waiters
    loop.2 = scan.1 ∧ loop.1.limit = limit ∧ loop.1.waiters = passed ++ scan.2 ∧
      loop.1.active = (holders ++ scan.1).length ∧
      ∀ key, key ∈ loop.1.held ↔ key ∈ (holders ++ scan.1).map Prod.snd := by
  induction waiters generalizing gate holders passed with
  | nil => exact ⟨rfl, bound, by simp [drainFrom, KeyedGate.drain], by simpa [drainFrom, KeyedGate.drain] using active,
      by simpa [drainFrom, KeyedGate.drain] using held⟩
  | cons waiter rest ih =>
    simp only [drainFrom, KeyedGate.drain, active, held, bound]
    split_ifs with room clash
    · simpa only [List.append_assoc, List.singleton_append] using ih bound active held (passed ++ [waiter])
    · have counted : (gate.satisfy waiter.2).active = (holders ++ [waiter]).length := by
        simp [satisfy, active]
      have keyed : ∀ key, key ∈ (gate.satisfy waiter.2).held ↔ key ∈ (holders ++ [waiter]).map Prod.snd := by
        intro key
        simp only [satisfy, Finset.mem_insert, held, List.map_append, List.map_singleton, List.mem_append,
          List.mem_singleton]
        exact or_comm
      obtain ⟨satisfied, limit, kept, count, keys⟩ := ih (show (gate.satisfy waiter.2).limit = limit from bound) counted keyed passed
      refine ⟨?_, limit, kept, ?_, ?_⟩
      · exact congrArg (waiter :: ·) satisfied
      · simpa only [List.append_assoc, List.singleton_append] using count
      · simpa only [List.append_assoc, List.singleton_append] using keys
    · refine ⟨rfl, rfl, rfl, ?_, ?_⟩
      · simp
      · simpa using held

omit [DecidableEq κ] in
theorem implements_create (maxParallel : Option Nat) : ∃ model : KeyedGate ν κ,
    (proofGateFor maxParallel : ProofGate ν κ).Implements model ∧ model.holders = [] ∧ model.waiters = [] :=
  ⟨{ limit := max 1 (maxParallel.getD 1), holders := [], waiters := [], positive := by omega,
     bounded := by simp, apart := by simp, agents := by simp, drained := by simp },
    ⟨rfl, rfl, by simp [proofGateFor], rfl⟩, rfl, rfl⟩

/-- `acquireProofSlot` enters the gate, resolved at once exactly when the pass is let in. -/
theorem Implements.acquire {gate : ProofGate ν κ} {model : KeyedGate ν κ} (same : gate.Implements model)
    {pass : ν} (key : κ) (fresh : pass ∉ (model.holders ++ model.waiters).map Prod.fst) :
    (gate.acquireProofSlot pass key).1.Implements (model.acquire pass key fresh) ∧
      ((gate.acquireProofSlot pass key).2 = true →
        (model.acquire pass key fresh).holders = model.holders ++ [(pass, key)] ∧
        (model.acquire pass key fresh).waiters = model.waiters) ∧
      ((gate.acquireProofSlot pass key).2 = false →
        (model.acquire pass key fresh).holders = model.holders ∧
        (model.acquire pass key fresh).waiters = model.waiters ++ [(pass, key)]) := by
  have agree : (gate.active < gate.limit ∧ key ∉ gate.held) ↔
      (model.holders.length < model.limit ∧ key ∉ model.holders.map Prod.snd) := by
    rw [same.active, same.limit, same.held]
  by_cases room : model.holders.length < model.limit ∧ key ∉ model.holders.map Prod.snd
  · simp only [acquireProofSlot, if_pos (agree.mpr room), KeyedGate.acquire, dif_pos room]
    refine ⟨⟨same.limit, ?_, ?_, same.waiters⟩, fun _ => ⟨trivial, trivial⟩, nofun⟩
    · simp [satisfy, same.active]
    · intro other
      simp only [satisfy, Finset.mem_insert, same.held, List.map_append, List.map_singleton,
        List.mem_append, List.mem_singleton]
      exact or_comm
  · simp only [acquireProofSlot, if_neg (agree.not.mpr room), KeyedGate.acquire, dif_neg room]
    exact ⟨⟨same.limit, same.active, same.held, by rw [same.waiters]⟩, nofun, fun _ => ⟨trivial, trivial⟩⟩

omit [DecidableEq κ] in
/-- Among holders with distinct keys and agents, removing the agent removes exactly its key. -/
private theorem others_spec [DecidableEq ν] {model : KeyedGate ν κ} {pass : ν} {key : κ}
    (holds : (pass, key) ∈ model.holders) :
    model.holders.length = (model.others pass).length + 1 ∧
      ∀ other, other ∈ (model.others pass).map Prod.snd ↔
        other ≠ key ∧ other ∈ model.holders.map Prod.snd := by
  have agents : (model.holders.map Prod.fst).Nodup :=
    model.agents.sublist ((List.sublist_append_left _ _).map _)
  have apart := model.apart
  obtain ⟨before, after, shape⟩ := List.append_of_mem holds
  have outside (holder : ν × κ) (member : holder ∈ before ++ after) : holder.1 ≠ pass ∧ holder.2 ≠ key := by
    rw [shape, List.map_append, List.map_cons, List.nodup_middle, List.nodup_cons, ← List.map_append] at agents apart
    constructor
    · intro equal
      exact agents.1 (List.mem_map.mpr ⟨holder, member, equal⟩)
    · intro equal
      exact apart.1 (List.mem_map.mpr ⟨holder, member, equal⟩)
  have kept : model.others pass = before ++ after := by
    have all (part : List (ν × κ)) (inside : part ⊆ before ++ after) :
        part.filter (fun holder => holder.1 ≠ pass) = part :=
      List.filter_eq_self.mpr fun holder member => by simpa using (outside holder (inside member)).1
    rw [KeyedGate.others, shape, List.filter_append, List.filter_cons_of_neg (by simp),
      all before (List.subset_append_left _ _), all after (List.subset_append_right _ _)]
  refine ⟨by rw [kept, shape]; simp; omega, fun other => ?_⟩
  rw [kept, shape]
  constructor
  · intro member
    obtain ⟨holder, inside, rfl⟩ := List.mem_map.mp member
    refine ⟨(outside holder inside).2, List.mem_map_of_mem ?_⟩
    rcases List.mem_append.mp inside with left | right
    · exact List.mem_append_left _ left
    · exact List.mem_append_right _ (List.mem_cons_of_mem _ right)
  · rintro ⟨differs, member⟩
    simp only [List.map_append, List.map_cons, List.mem_append, List.mem_cons] at member ⊢
    tauto

/-- A release lets in exactly the waiters the abstract scan lets in. -/
theorem Implements.release [DecidableEq ν] {gate : ProofGate ν κ} {model : KeyedGate ν κ}
    (same : gate.Implements model) {pass : ν} {key : κ} (holds : (pass, key) ∈ model.holders) :
    (gate.releaseProofSlot key).1.Implements (model.release pass) ∧
      (model.release pass).holders = model.others pass ++ (gate.releaseProofSlot key).2 ∧
      ((gate.releaseProofSlot key).2 ++ (model.release pass).waiters).Perm model.waiters := by
  obtain ⟨count, keys⟩ := others_spec holds
  have active : gate.active - 1 = (model.others pass).length := by rw [same.active]; omega
  have held : ∀ other, other ∈ gate.held.erase key ↔ other ∈ (model.others pass).map Prod.snd := by
    intro other
    rw [Finset.mem_erase, same.held, keys]
  let left : ProofGate ν κ := { gate with active := gate.active - 1, held := gate.held.erase key }
  have bound : left.limit = model.limit := same.limit
  obtain ⟨satisfied, limit, kept, inside, taken⟩ := drainFrom_eq model.waiters bound active held []
  have released : gate.releaseProofSlot key = left.drainFrom [] model.waiters := by
    rw [← same.waiters]
    rfl
  rw [released]
  refine ⟨⟨limit, inside, taken, kept⟩, ?_, ?_⟩
  · rw [satisfied]
    rfl
  · rw [satisfied]
    exact KeyedGate.drain_perm _ _ _

/-- Everybody stands at the abstract gate as `passing` and `queued` say. -/
structure Placed (gate : ProofGate ν κ) (model : KeyedGate ν κ) (passing queued : ν → Option κ) : Prop where
  implements : gate.Implements model
  passing : ∀ node key, passing node = some key ↔ (node, key) ∈ model.holders
  queued : ∀ node key, queued node = some key ↔ (node, key) ∈ model.waiters

section Placement

variable {gate : ProofGate ν κ} {model : KeyedGate ν κ} {passing queued : ν → Option κ} {node : ν} {key : κ}

omit [DecidableEq κ] in
theorem Placed.fresh (placed : gate.Placed model passing queued) (outside : passing node = none)
    (apart : queued node = none) : node ∉ (model.holders ++ model.waiters).map Prod.fst := by
  intro present
  obtain ⟨⟨_, key⟩, member, rfl⟩ := List.mem_map.mp present
  rcases List.mem_append.mp member with inside | waiting
  · exact absurd ((placed.passing _ key).mpr inside) (by simp [outside])
  · exact absurd ((placed.queued _ key).mpr waiting) (by simp [apart])

omit [DecidableEq κ] in
/-- A step that changes nobody's standing. -/
theorem Placed.congr (placed : gate.Placed model passing queued) {passing' queued' : ν → Option κ}
    (same : ∀ node, passing' node = passing node ∧ queued' node = queued node) :
    gate.Placed model passing' queued' :=
  ⟨placed.implements, fun node key => by rw [(same node).1, placed.passing],
    fun node key => by rw [(same node).2, placed.queued]⟩

/-- One more pass asks for a slot. -/
theorem Placed.acquire (placed : gate.Placed model passing queued)
    (fresh : node ∉ (model.holders ++ model.waiters).map Prod.fst) {passing' queued' : ν → Option κ}
    (granted : passing' node = if (gate.acquireProofSlot node key).2 then some key else none)
    (waits : queued' node = if (gate.acquireProofSlot node key).2 then none else some key)
    (frame : ∀ other, other ≠ node → passing' other = passing other ∧ queued' other = queued other) :
    (gate.acquireProofSlot node key).1.Placed (model.acquire node key fresh) passing' queued' := by
  obtain ⟨implements, resolved, unresolved⟩ := placed.implements.acquire key fresh
  rw [List.map_append, List.mem_append, not_or] at fresh
  have stranger (other : κ) : (node, other) ∉ model.holders ∧ (node, other) ∉ model.waiters :=
    ⟨fun inside => fresh.1 (List.mem_map.mpr ⟨_, inside, rfl⟩),
      fun waiting => fresh.2 (List.mem_map.mpr ⟨_, waiting, rfl⟩)⟩
  cases flag : (gate.acquireProofSlot node key).2 with
  | true =>
    obtain ⟨holders, waiters⟩ := resolved flag
    rw [flag] at granted waits
    refine ⟨implements, fun other key' => ?_, fun other key' => ?_⟩
    · rw [holders, List.mem_append, List.mem_singleton, ← placed.passing, Prod.mk.injEq]
      by_cases same : other = node
      · subst other
        simp [granted, placed.passing, stranger, eq_comm]
      · simp [(frame other same).1, same]
    · rw [waiters, ← placed.queued]
      by_cases same : other = node
      · subst other
        simp [waits, placed.queued, stranger]
      · rw [(frame other same).2]
  | false =>
    obtain ⟨holders, waiters⟩ := unresolved flag
    rw [flag] at granted waits
    refine ⟨implements, fun other key' => ?_, fun other key' => ?_⟩
    · rw [holders, ← placed.passing]
      by_cases same : other = node
      · subst other
        simp [granted, placed.passing, stranger]
      · rw [(frame other same).1]
    · rw [waiters, List.mem_append, List.mem_singleton, ← placed.queued, Prod.mk.injEq]
      by_cases same : other = node
      · subst other
        simp [waits, placed.queued, stranger, eq_comm]
      · simp [(frame other same).2, same]

/-- A pass gives its slot back, and every waiter that now fits gets one. -/
theorem Placed.release [DecidableEq ν] (placed : gate.Placed model passing queued)
    (holds : passing node = some key) {passing' queued' : ν → Option κ}
    (gone : passing' node = none ∧ queued' node = none)
    (next : ∀ other key', (other, key') ∈ (gate.releaseProofSlot key).2 →
      passing' other = some key' ∧ queued' other = none)
    (frame : ∀ other, other ≠ node → other ∉ (gate.releaseProofSlot key).2.map Prod.fst →
      passing' other = passing other ∧ queued' other = queued other) :
    (gate.releaseProofSlot key).1.Placed (model.release node) passing' queued' := by
  have inside := (placed.passing node key).mp holds
  obtain ⟨implements, holders, scanned⟩ := placed.implements.release inside
  set satisfied := (gate.releaseProofSlot key).2
  have waited (holder : ν × κ) : holder ∈ satisfied → holder ∈ model.waiters := fun member =>
    scanned.subset (List.mem_append_left _ member)
  have mine (key' : κ) : (node, key') ∉ model.waiters := fun waiting =>
    model.holder_not_waiting inside (List.mem_map.mpr ⟨_, waiting, rfl⟩)
  have others (holder : ν × κ) : holder ∈ model.others node ↔ holder ∈ model.holders ∧ holder.1 ≠ node := by
    simp [KeyedGate.others]
  refine ⟨implements, fun other key' => ?_, fun other key' => ?_⟩
  · rw [holders, List.mem_append, others]
    by_cases promoted : other ∈ satisfied.map Prod.fst
    · obtain ⟨⟨_, current⟩, member, rfl⟩ := List.mem_map.mp promoted
      rw [(next _ _ member).1, Option.some_inj]
      constructor
      · rintro rfl
        exact .inr member
      · rintro (⟨holding, -⟩ | again)
        · have waiting : (_, key').1 ∈ model.waiters.map Prod.fst := List.mem_map.mpr ⟨_, waited _ member, rfl⟩
          exact absurd waiting (model.holder_not_waiting holding)
        · have same := model.agent_unique (List.mem_append_right _ (waited _ member))
            (List.mem_append_right _ (waited _ again)) rfl
          exact (Prod.mk.injEq _ _ _ _ ▸ same).2
    · have unserved : (other, key') ∉ satisfied := fun member =>
        promoted (List.mem_map.mpr ⟨_, member, rfl⟩)
      by_cases same : other = node
      · subst other
        simp [gone.1, unserved]
      · simp [(frame other same promoted).1, placed.passing, same, unserved]
  · have kept (holder : ν × κ) : holder ∈ (model.release node).waiters → holder ∈ model.waiters :=
      fun member => scanned.subset (List.mem_append_right _ member)
    by_cases promoted : other ∈ satisfied.map Prod.fst
    · obtain ⟨⟨_, current⟩, member, rfl⟩ := List.mem_map.mp promoted
      rw [(next _ _ member).2]
      have agents := (scanned.map Prod.fst).nodup_iff.mpr
        (model.agents.sublist ((List.sublist_append_right _ _).map _))
      rw [List.map_append, List.nodup_append] at agents
      have left (again : (_, key') ∈ (model.release node).waiters) : False :=
        agents.2.2 _ promoted _ (List.mem_map.mpr ⟨_, again, rfl⟩) rfl
      simpa using left
    · by_cases same : other = node
      · subst other
        simpa [gone.2] using fun again => mine key' (kept _ again)
      · rw [(frame other same promoted).2, placed.queued]
        rw [← scanned.mem_iff, List.mem_append, or_iff_right]
        exact fun member => promoted (List.mem_map.mpr ⟨_, member, rfl⟩)

end Placement

end ProofGate

end Faberun
