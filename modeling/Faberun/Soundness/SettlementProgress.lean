import Faberun.Model.Engine.Settlement
import Faberun.Soundness.ProofGate
import Faberun.Soundness.SettlementOverlap

/-! # Settlements never deadlock

`Settlements.Ordered` places every settlement at the section, the candidate lock and the proof gate.
Two facts about order rule out a circular wait: whoever is at the candidate lock owns the section, so
that lock is never contended, and whoever holds a proof slot waits for nothing.
-/

namespace Faberun

/-- What a settlement has and wants: the section, the candidate lock, a proof slot. -/
structure Claims (κ : Type) where
  owns : Bool := false
  asks : Bool := false
  chained : Bool := false
  passing : Option κ := none
  queued : Option κ := none

namespace Standing

variable {κ : Type}

def claims : Standing κ → Claims κ
  | .absent | .reentering _ => {}
  | .sectionWait _ => { asks := true }
  | .sectionGranted _ | .inside _ => { owns := true }
  | .slotWait key _ => { queued := some key }
  | .proving key _ => { passing := some key }
  | .candidateWait _ _ | .candidate _ _ => { owns := true, chained := true }
  | .candidateSlotWait key _ _ => { owns := true, chained := true, queued := some key }
  | .candidateProving key _ _ => { owns := true, chained := true, passing := some key }

/-- Only the candidate lock is asked for while something is held: the section. -/
theorem owns_of_chained {standing : Standing κ} (chained : standing.claims.chained = true) :
    standing.claims.owns = true := by
  cases standing <;> simp_all [claims]

theorem satisfy_of_asks {standing : Standing κ} (asks : standing.claims.asks = true) :
    standing.claims = { asks := true } ∧ standing.satisfy.claims = { owns := true } := by
  cases standing <;> simp_all [claims, satisfy]

theorem satisfy_of_queued {standing : Standing κ} {key : κ} (queued : standing.claims.queued = some key) :
    standing.satisfy.claims = { standing.claims with passing := some key, queued := none } := by
  cases standing <;> simp_all [claims, satisfy]

end Standing

namespace Settlements

variable {ν κ : Type}

/-- What one settlement has and wants. -/
def claims (s : Settlements ν κ) (node : ν) : Claims κ := (s.standing node).claims

/-- Every settlement stands at the three locks as its program point says. -/
structure Ordered (s : Settlements ν κ) (lock : HandOff ν) (model : KeyedGate ν κ) : Prop where
  slot : s.slot.Placed lock (fun node => (s.claims node).owns) (fun node => (s.claims node).asks)
  chain : s.chain.Nodup
  chained : ∀ node, (s.claims node).chained = true ↔ node ∈ s.chain
  gate : s.gate.Placed model (fun node => (s.claims node).passing) (fun node => (s.claims node).queued)

section Operations

variable [DecidableEq ν] {s : Settlements ν κ} {lock : HandOff ν} {model : KeyedGate ν κ} {node : ν} {standing : Standing κ}

omit [DecidableEq ν] in
/-- The candidate lock has one party at most: two would both own the section. -/
theorem Ordered.chain_eq (ordered : s.Ordered lock model) (member : node ∈ s.chain) : s.chain = [node] := by
  have holder (other : ν) (inside : other ∈ s.chain) : lock.holder = some other :=
    (ordered.slot.owns other).mp (Standing.owns_of_chained ((ordered.chained other).mpr inside))
  have only (other : ν) (inside : other ∈ s.chain) : other = node :=
    Option.some.inj ((holder other inside).symm.trans (holder node member))
  have nodup := ordered.chain
  cases shape : s.chain with
  | nil => simp [shape] at member
  | cons first rest =>
    rw [shape] at only nodup
    cases rest with
    | nil => rw [only first List.mem_cons_self]
    | cons second rest =>
      have same := (only first List.mem_cons_self).trans
        (only second (List.mem_cons_of_mem _ List.mem_cons_self)).symm
      rw [same] at nodup
      exact absurd List.mem_cons_self (List.nodup_cons.mp nodup).1

/-- A move between two points with the same claims. -/
theorem Ordered.move (ordered : s.Ordered lock model) (same : standing.claims = s.claims node) :
    (s.move node standing).Ordered lock model := by
  have kept : (s.move node standing).claims = s.claims := by
    funext other
    by_cases here : other = node
    · simp [claims, Settlements.move, here, same]
    · simp [claims, Settlements.move, here]
  obtain ⟨slot, chain, chained, gate⟩ := ordered
  exact ⟨by rw [kept]; exact slot, chain, by rw [kept]; exact chained, by rw [kept]; exact gate⟩

theorem Ordered.acquireSection (ordered : s.Ordered lock model) (idle : s.claims node = {})
    (rest : List (Stage κ)) : ∃ next, (s.acquireSection node rest).Ordered next model := by
  have fresh : node ∉ lock.queue := ordered.slot.fresh (by rw [idle]) (by rw [idle])
  have self : (s.acquireSection node rest).claims node =
      { owns := (s.slot.acquireSection node).2, asks := !(s.slot.acquireSection node).2 } := by
    cases flag : (s.slot.acquireSection node).2 <;>
      simp [claims, Settlements.acquireSection, Settlements.move, flag, Standing.claims]
  have frame (other : ν) (differs : other ≠ node) :
      (s.acquireSection node rest).claims other = s.claims other := by
    simp [claims, Settlements.acquireSection, Settlements.move, differs]
  refine ⟨lock.acquire node fresh, ordered.slot.acquire fresh (by rw [self]) (by rw [self])
    fun other differs => by rw [frame other differs]; exact ⟨rfl, rfl⟩, ordered.chain, fun other => ?_,
    ordered.gate.congr fun other => ?_⟩
  · rw [show (s.acquireSection node rest).chain = s.chain from rfl, ← ordered.chained]
    by_cases same : other = node
    · rw [same, self, idle]
    · rw [frame other same]
  · by_cases same : other = node
    · rw [same, self, idle]
      exact ⟨rfl, rfl⟩
    · rw [frame other same]
      exact ⟨rfl, rfl⟩

theorem Ordered.releaseSection (ordered : s.Ordered lock model) (standing : Standing κ)
    (before : s.claims node = { owns := true }) (after : standing.claims = {}) : (s.releaseSection node standing).Ordered lock.release model ∧
      (s.releaseSection node standing).claims node = {} := by
  have holder := (ordered.slot.owns node).mp (by rw [before])
  obtain ⟨-, satisfied⟩ := ordered.slot.implements.releaseSection holder
  have waiting (other : ν) (next : s.slot.releaseSection.2 = some other) : (s.claims other).asks = true := by
    rw [ordered.slot.asks]
    exact List.mem_of_mem_head? (Option.mem_def.mpr (satisfied.symm.trans next))
  have differs (other : ν) (next : s.slot.releaseSection.2 = some other) : other ≠ node := by
    rintro rfl
    have asks := waiting _ next
    rw [before] at asks
    cases asks
  have points (other : ν) : (s.releaseSection node standing).standing other =
      if other ∈ s.slot.releaseSection.2.toList then (Function.update s.standing node standing other).satisfy
      else Function.update s.standing node standing other := rfl
  have self : (s.releaseSection node standing).claims node = {} := by
    have unserved : ¬ node ∈ s.slot.releaseSection.2.toList := fun member =>
      differs node (Option.mem_toList.mp member) rfl
    rw [claims, points, if_neg unserved, Function.update_self, after]
  have promoted (other : ν) (next : s.slot.releaseSection.2 = some other) :
      s.claims other = { asks := true } ∧ (s.releaseSection node standing).claims other = { owns := true } := by
    have member : other ∈ s.slot.releaseSection.2.toList := Option.mem_toList.mpr next
    rw [claims, claims, points, if_pos member, Function.update_of_ne (differs other next)]
    exact Standing.satisfy_of_asks (waiting other next)
  have frame (other : ν) (apart : other ≠ node) (passed : s.slot.releaseSection.2 ≠ some other) :
      (s.releaseSection node standing).claims other = s.claims other := by
    have unserved : ¬ other ∈ s.slot.releaseSection.2.toList := fun member =>
      passed (Option.mem_toList.mp member)
    rw [claims, claims, points, if_neg unserved, Function.update_of_ne apart]
  have others (other : ν) : ((s.releaseSection node standing).claims other).chained = (s.claims other).chained ∧
      ((s.releaseSection node standing).claims other).passing = (s.claims other).passing ∧
      ((s.releaseSection node standing).claims other).queued = (s.claims other).queued := by
    by_cases same : other = node
    · rw [same, self, before]
      exact ⟨rfl, rfl, rfl⟩
    · by_cases next : s.slot.releaseSection.2 = some other
      · rw [(promoted other next).1, (promoted other next).2]
        exact ⟨rfl, rfl, rfl⟩
      · rw [frame other same next]
        exact ⟨rfl, rfl, rfl⟩
  refine ⟨⟨ordered.slot.release (by rw [before]) _ _ (by rw [self]; exact ⟨rfl, rfl⟩)
    (fun other next => by rw [(promoted other next).2]; exact ⟨rfl, rfl⟩)
    fun other apart passed => by rw [frame other apart passed]; exact ⟨rfl, rfl⟩,
    ordered.chain, fun other => ?_, ordered.gate.congr fun other => (others other).2⟩, self⟩
  rw [(others other).1]
  exact ordered.chained other

theorem Ordered.acquireProofSlot [DecidableEq κ] (ordered : s.Ordered lock model) (key : κ)
    (satisfied waiting : Standing κ)
    (outside : (s.claims node).passing = none) (apart : (s.claims node).queued = none)
    (granted : satisfied.claims = { s.claims node with passing := some key })
    (waits : waiting.claims = { s.claims node with queued := some key }) :
    ∃ next, (s.acquireProofSlot node key satisfied waiting).Ordered lock next := by
  have fresh : node ∉ (model.holders ++ model.waiters).map Prod.fst := ordered.gate.fresh outside apart
  have self : (s.acquireProofSlot node key satisfied waiting).claims node =
      if (s.gate.acquireProofSlot node key).2 then { s.claims node with passing := some key }
      else { s.claims node with queued := some key } := by
    cases flag : (s.gate.acquireProofSlot node key).2 with
    | true => simpa [claims, Settlements.acquireProofSlot, Settlements.move, flag] using granted
    | false => simpa [claims, Settlements.acquireProofSlot, Settlements.move, flag] using waits
  have frame (other : ν) (differs : other ≠ node) :
      (s.acquireProofSlot node key satisfied waiting).claims other = s.claims other := by
    simp [claims, Settlements.acquireProofSlot, Settlements.move, differs]
  have others (other : ν) :
      ((s.acquireProofSlot node key satisfied waiting).claims other).owns = (s.claims other).owns ∧
      ((s.acquireProofSlot node key satisfied waiting).claims other).asks = (s.claims other).asks ∧
      ((s.acquireProofSlot node key satisfied waiting).claims other).chained = (s.claims other).chained := by
    by_cases same : other = node
    · rw [same, self]
      split_ifs <;> exact ⟨rfl, rfl, rfl⟩
    · rw [frame other same]
      exact ⟨rfl, rfl, rfl⟩
  refine ⟨model.acquire node key fresh, ordered.slot.congr fun other => ⟨(others other).1, (others other).2.1⟩,
    ordered.chain, fun other => ?_, ordered.gate.acquire fresh ?_ ?_ fun other differs => ?_⟩
  · rw [(others other).2.2]
    exact ordered.chained other
  · rw [self]
    split_ifs <;> simp [outside]
  · rw [self]
    split_ifs <;> simp [apart]
  · rw [frame other differs]
    exact ⟨rfl, rfl⟩

theorem Ordered.releaseProofSlot [DecidableEq κ] {key : κ} (ordered : s.Ordered lock model)
    (inside : (s.claims node).passing = some key) (apart : (s.claims node).queued = none)
    (after : standing.claims = { s.claims node with passing := none }) :
    (s.releaseProofSlot node key standing).Ordered lock (model.release node) := by
  have member := (ordered.gate.passing node key).mp inside
  obtain ⟨-, -, scanned⟩ := ordered.gate.implements.release member
  have waiting (other : ν) (key' : κ) (granted : (other, key') ∈ (s.gate.releaseProofSlot key).2) :
      (s.claims other).queued = some key' := by
    rw [ordered.gate.queued]
    exact scanned.subset (List.mem_append_left _ granted)
  have points (other : ν) : (s.releaseProofSlot node key standing).standing other =
      if other ∈ (s.gate.releaseProofSlot key).2.map Prod.fst then
        (Function.update s.standing node standing other).satisfy
      else Function.update s.standing node standing other := rfl
  have unserved : ¬ node ∈ (s.gate.releaseProofSlot key).2.map Prod.fst := by
    intro served
    obtain ⟨⟨_, key'⟩, granted, rfl⟩ := List.mem_map.mp served
    have queued := waiting _ _ granted
    rw [apart] at queued
    cases queued
  have self : (s.releaseProofSlot node key standing).claims node = { s.claims node with passing := none } := by
    rw [claims, points, if_neg unserved, Function.update_self, after]
  have promoted (other : ν) (key' : κ) (granted : (other, key') ∈ (s.gate.releaseProofSlot key).2) :
      (s.releaseProofSlot node key standing).claims other =
        { s.claims other with passing := some key', queued := none } := by
    have served : other ∈ (s.gate.releaseProofSlot key).2.map Prod.fst := List.mem_map.mpr ⟨_, granted, rfl⟩
    have differs : other ≠ node := fun same => unserved (same ▸ served)
    rw [claims, points, if_pos served, Function.update_of_ne differs]
    exact Standing.satisfy_of_queued (waiting other key' granted)
  have frame (other : ν) (differs : other ≠ node)
      (passed : other ∉ (s.gate.releaseProofSlot key).2.map Prod.fst) :
      (s.releaseProofSlot node key standing).claims other = s.claims other := by
    rw [claims, claims, points, if_neg passed, Function.update_of_ne differs]
  have others (other : ν) : ((s.releaseProofSlot node key standing).claims other).owns = (s.claims other).owns ∧
      ((s.releaseProofSlot node key standing).claims other).asks = (s.claims other).asks ∧
      ((s.releaseProofSlot node key standing).claims other).chained = (s.claims other).chained := by
    by_cases same : other = node
    · rw [same, self]
      exact ⟨rfl, rfl, rfl⟩
    · by_cases served : other ∈ (s.gate.releaseProofSlot key).2.map Prod.fst
      · obtain ⟨⟨_, key'⟩, granted, rfl⟩ := List.mem_map.mp served
        rw [promoted _ key' granted]
        exact ⟨rfl, rfl, rfl⟩
      · rw [frame other same served]
        exact ⟨rfl, rfl, rfl⟩
  refine ⟨ordered.slot.congr fun other => ⟨(others other).1, (others other).2.1⟩, ordered.chain,
    fun other => ?_, ordered.gate.release inside ?_ ?_ ?_⟩
  · rw [(others other).2.2]
    exact ordered.chained other
  · rw [self]
    exact ⟨rfl, apart⟩
  · intro other key' granted
    rw [promoted other key' granted]
    exact ⟨rfl, rfl⟩
  · intro other differs passed
    rw [frame other differs passed]
    exact ⟨rfl, rfl⟩

/-- Joining the promise chain of the candidate lock. -/
theorem Ordered.chainUp (ordered : s.Ordered lock model) (before : s.claims node = { owns := true })
    (after : standing.claims = { owns := true, chained := true }) :
    ({ s with chain := s.chain ++ [node] }.move node standing).Ordered lock model := by
  have outside : node ∉ s.chain := by
    rw [← ordered.chained, before]
    exact Bool.false_ne_true
  set t := { s with chain := s.chain ++ [node] }.move node standing
  have self : t.claims node = { owns := true, chained := true } := by
    simpa [t, claims, Settlements.move] using after
  have frame (other : ν) (differs : other ≠ node) : t.claims other = s.claims other := by
    simp [t, claims, Settlements.move, differs]
  have others (other : ν) : (t.claims other).owns = (s.claims other).owns ∧
      (t.claims other).asks = (s.claims other).asks ∧ (t.claims other).passing = (s.claims other).passing ∧
      (t.claims other).queued = (s.claims other).queued := by
    by_cases same : other = node
    · rw [same, self, before]
      exact ⟨rfl, rfl, rfl, rfl⟩
    · rw [frame other same]
      exact ⟨rfl, rfl, rfl, rfl⟩
  refine ⟨ordered.slot.congr fun other => ⟨(others other).1, (others other).2.1⟩, ?_, fun other => ?_,
    ordered.gate.congr fun other => (others other).2.2⟩
  · rw [show t.chain = s.chain.concat node from (List.concat_eq_append ..).symm]
    exact ordered.chain.concat outside
  · rw [show t.chain = s.chain ++ [node] from rfl, List.mem_append, List.mem_singleton, ← ordered.chained]
    by_cases same : other = node
    · simp [same, self]
    · simp [frame other same, same]

/-- Settling the head of the promise chain. -/
theorem Ordered.chainDown (ordered : s.Ordered lock model)
    (before : s.claims node = { owns := true, chained := true }) (after : standing.claims = { owns := true }) :
    ({ s with chain := s.chain.tail }.move node standing).Ordered lock model := by
  have alone : s.chain = [node] := ordered.chain_eq ((ordered.chained node).mp (by rw [before]))
  set t := { s with chain := s.chain.tail }.move node standing
  have empty : t.chain = [] := by
    show s.chain.tail = []
    rw [alone, List.tail_cons]
  have self : t.claims node = { owns := true } := by
    simpa [t, claims, Settlements.move] using after
  have frame (other : ν) (differs : other ≠ node) : t.claims other = s.claims other := by
    simp [t, claims, Settlements.move, differs]
  have others (other : ν) : (t.claims other).owns = (s.claims other).owns ∧
      (t.claims other).asks = (s.claims other).asks ∧ (t.claims other).passing = (s.claims other).passing ∧
      (t.claims other).queued = (s.claims other).queued := by
    by_cases same : other = node
    · rw [same, self, before]
      exact ⟨rfl, rfl, rfl, rfl⟩
    · rw [frame other same]
      exact ⟨rfl, rfl, rfl, rfl⟩
  refine ⟨ordered.slot.congr fun other => ⟨(others other).1, (others other).2.1⟩, ?_, fun other => ?_,
    ordered.gate.congr fun other => (others other).2.2⟩
  · rw [empty]
    exact List.nodup_nil
  · rw [empty]
    by_cases same : other = node
    · simp [same, self]
    · have outside := (ordered.chained other).not.mpr (by simpa [alone] using same)
      simp [frame other same, outside]

end Operations

/-! ## Runs -/

section Runs

variable [DecidableEq ν] [DecidableEq κ] {s t : Settlements ν κ}

private theorem Ordered.advance {lock : HandOff ν} {model : KeyedGate ν κ} {node : ν}
    (ordered : s.Ordered lock model) (taken : s.advance node = some t) :
    ∃ lock model, t.Ordered lock model := by
  have claims {standing : Standing κ} (point : s.standing node = standing) : s.claims node = standing.claims :=
    congrArg Standing.claims point
  simp only [Settlements.advance] at taken
  split at taken
  · cases taken
  · cases taken
  · cases taken
  · cases taken
  case h_5 rest point =>
    cases taken
    exact ⟨lock, model, ordered.move (claims point).symm⟩
  case h_6 point =>
    cases taken
    exact ⟨_, _, (ordered.releaseSection _ (claims point) rfl).1⟩
  case h_7 key rest point =>
    cases taken
    obtain ⟨released, idle⟩ := ordered.releaseSection (.reentering rest) (claims point) rfl
    obtain ⟨next, granted⟩ := released.acquireProofSlot key (.proving key rest)
      (.slotWait key rest) (by rw [idle]) (by rw [idle]) (by rw [idle]; rfl) (by rw [idle]; rfl)
    exact ⟨_, next, granted⟩
  case h_8 key rest point =>
    cases taken
    have before := claims point
    exact ⟨_, _, ordered.releaseProofSlot (by rw [before]; rfl) (by rw [before]; rfl) (by rw [before]; rfl)⟩
  case h_9 rest point =>
    cases taken
    obtain ⟨next, asked⟩ := ordered.acquireSection (claims point) rest
    exact ⟨next, _, asked⟩
  case h_10 passes rest point =>
    cases taken
    exact ⟨_, _, ordered.chainUp (claims point) rfl⟩
  case h_11 passes rest point =>
    split_ifs at taken
    cases taken
    exact ⟨lock, model, ordered.move (claims point).symm⟩
  case h_12 rest point =>
    cases taken
    exact ⟨_, _, ordered.chainDown (claims point) rfl⟩
  case h_13 key passes rest point =>
    cases taken
    have before := claims point
    obtain ⟨next, granted⟩ := ordered.acquireProofSlot key (.candidateProving key passes rest)
      (.candidateSlotWait key passes rest)
      (by rw [before]; rfl) (by rw [before]; rfl) (by rw [before]; rfl) (by rw [before]; rfl)
    exact ⟨_, next, granted⟩
  case h_14 key passes rest point =>
    cases taken
    have before := claims point
    exact ⟨_, _, ordered.releaseProofSlot (by rw [before]; rfl) (by rw [before]; rfl) (by rw [before]; rfl)⟩

private theorem Ordered.throw {lock : HandOff ν} {model : KeyedGate ν κ} {node : ν}
    {handler : List (Stage κ)} (ordered : s.Ordered lock model) (taken : s.throw node handler = some t) :
    ∃ lock model, t.Ordered lock model := by
  have claims {standing : Standing κ} (point : s.standing node = standing) : s.claims node = standing.claims :=
    congrArg Standing.claims point
  simp only [Settlements.throw] at taken
  split at taken <;> cases taken
  case h_1 rest point => exact ⟨lock, model, ordered.move (claims point).symm⟩
  case h_2 key rest point =>
    have before := claims point
    exact ⟨_, _, ordered.releaseProofSlot (by rw [before]; rfl) (by rw [before]; rfl) (by rw [before]; rfl)⟩
  case h_3 passes rest point => exact ⟨lock, model, ordered.move (claims point).symm⟩
  case h_4 key passes rest point =>
    have before := claims point
    exact ⟨_, _, ordered.releaseProofSlot (by rw [before]; rfl) (by rw [before]; rfl) (by rw [before]; rfl)⟩

theorem Ordered.step {lock : HandOff ν} {model : KeyedGate ν κ} {label : Label ν κ}
    (ordered : s.Ordered lock model) (taken : s.step label = some t) : ∃ lock model, t.Ordered lock model := by
  cases label with
  | enqueue node work =>
    simp only [Settlements.step] at taken
    split_ifs at taken with absent
    cases taken
    obtain ⟨next, asked⟩ := ordered.acquireSection (congrArg Standing.claims absent : s.claims node = {}) work
    exact ⟨next, model, asked⟩
  | advance node => exact ordered.advance taken
  | throw node handler => exact ordered.throw taken

theorem ordered_of_reach {maxParallel : Option Nat}
    (reach : machine.Reach Machine.free (· = create maxParallel) s) : ∃ lock model, s.Ordered lock model := by
  refine reach.invariant (fun s => ∃ lock model, s.Ordered lock model) ?_ ?_
  · rintro _ rfl
    obtain ⟨model, implements, holders, waiters⟩ := @ProofGate.implements_create ν κ maxParallel
    refine ⟨HandOff.vacant, model, ⟨Section.implements_vacant, ?_, ?_⟩, List.nodup_nil, ?_, implements, ?_, ?_⟩
    · exact fun node => by simp [claims, create, Standing.claims, HandOff.vacant, HandOff.holder]
    · exact fun node => by simp [claims, create, Standing.claims, HandOff.vacant, HandOff.waiters]
    · exact fun node => by simp [claims, create, Standing.claims]
    · exact fun node key => by simp [claims, create, Standing.claims, holders]
    · exact fun node key => by simp [claims, create, Standing.claims, waiters]
  · rintro s label t ⟨lock, model, ordered⟩ _ taken
    exact ordered.step taken

/-- A settlement that waits for no section and no slot can go on: the candidate lock never blocks. -/
theorem Ordered.advances {lock : HandOff ν} {model : KeyedGate ν κ} {node : ν} (ordered : s.Ordered lock model)
    (live : s.standing node ≠ .absent) (unasked : (s.claims node).asks = false)
    (slot : (s.claims node).queued = none) : (s.step (.advance node)).isSome = true := by
  simp only [Settlements.step, Settlements.advance]
  rcases point : s.standing node with _ | _ | _ | ⟨_ | ⟨_ | _, _⟩⟩ | _ | _ | _ | _ | ⟨_ | _⟩ | _ | _
  all_goals first
    | rfl
    | exact absurd point live
    | simp [claims, point, Standing.claims] at unasked slot
  -- What remains is the promise chain, whose head this settlement is.
  have alone := ordered.chain_eq ((ordered.chained node).mp (by rw [claims, point]; rfl))
  simp [alone]

/-- Whatever the proof limit, the workspaces and the failures, some settlement in flight can take
its next step. -/
theorem settlements_progress {maxParallel : Option Nat}
    (reach : machine.Reach Machine.free (· = create maxParallel) s) {node : ν}
    (live : s.standing node ≠ .absent) :
    ∃ other, s.standing other ≠ .absent ∧ (s.step (.advance other)).isSome = true := by
  obtain ⟨lock, model, ordered⟩ := ordered_of_reach reach
  have inFlight (other : ν) (busy : s.claims other ≠ {}) : s.standing other ≠ .absent := by
    intro absent
    exact busy (by rw [claims, absent]; rfl)
  cases holders : model.holders with
  | cons holder rest =>
    -- A slot holder waits for nothing.
    obtain ⟨other, key⟩ := holder
    have passing := (ordered.gate.passing other key).mpr (by rw [holders]; exact List.mem_cons_self)
    have claimed : (s.claims other).asks = false ∧ (s.claims other).queued = none := by
      simp only [claims] at passing ⊢
      cases point : s.standing other <;> simp_all [Standing.claims]
    have busy := inFlight other fun idle => by simp [idle] at passing
    exact ⟨other, busy, ordered.advances busy claimed.1 claimed.2⟩
  | nil =>
    have unqueued (other : ν) : (s.claims other).queued = none := by
      rw [Option.eq_none_iff_forall_not_mem]
      intro key queued
      have waiting := (ordered.gate.queued other key).mp queued
      exact KeyedGate.holders_of_waiters (List.ne_nil_of_mem waiting) holders
    cases owner : lock.holder with
    | some other =>
      -- The section's owner waits for no section, and nobody waits for a slot.
      have owns := (ordered.slot.owns other).mpr owner
      have unasked : (s.claims other).asks = false := by
        rw [Bool.eq_false_iff, Ne, ordered.slot.asks]
        exact HandOff.holder_not_mem_waiters owner
      have busy := inFlight other fun idle => by simp [idle] at owns
      exact ⟨other, busy, ordered.advances busy unasked (unqueued other)⟩
    | none =>
      have unasked : (s.claims node).asks = false := by
        rw [Bool.eq_false_iff, Ne, ordered.slot.asks, HandOff.waiters_of_vacant owner]
        exact List.not_mem_nil
      exact ⟨node, live, ordered.advances live unasked (unqueued node)⟩

/-- Under a limit of one, a settlement proves its attempt while a second waits for the slot. -/
theorem settlements_progress_two :
    ∃ s : Settlements Bool Nat,
      machine.replay? Machine.free (create (some 1))
        [.enqueue false [.park 0, .integrate [2]], .enqueue true [.park 1, .integrate [2]], .advance false,
          .advance false, .advance true, .advance true] = some s ∧
        ∃ other, s.standing other ≠ .absent ∧ (s.step (.advance other)).isSome = true :=
  Machine.exists_replay (fun s => s.standing true ≠ .absent)
    (fun _ ran live => settlements_progress (.of_replay rfl _ ran) live) (by decide)

end Runs

end Settlements

end Faberun
