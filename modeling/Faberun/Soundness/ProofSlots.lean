import Faberun.Soundness.ProofGate

/-! # Slots of verification passes

Over every run of verification passes the proof gate is a keyed counting lock: no more passes than its limit, one for
each tree, nobody waiting who could be inside, first come first served under each key, and every slot given back once.
-/

namespace Faberun.ProofPasses

variable {ν κ : Type} [DecidableEq ν] [DecidableEq κ]

/-- The keyed counting lock of a limit. -/
structure Correct (limit : Nat) (passes : ProofPasses ν κ) : Prop where
  /-- At most `limit` passes are active. -/
  bounded : ∀ active : List ν, active.Nodup → (∀ pass ∈ active, (passes.point pass).holds.isSome = true) →
    active.length ≤ limit
  /-- Two passes with one key are never active together. -/
  apart : ∀ first second key, (passes.point first).holds = some key → (passes.point second).holds = some key →
    first = second
  /-- While a pass waits its key is taken or `limit` passes are active. -/
  busy : ∀ pass key, (passes.point pass).waits = some key → (∃ other, (passes.point other).holds = some key) ∨
    ∃ active : List ν, active.Nodup ∧ (∀ other ∈ active, (passes.point other).holds.isSome = true) ∧
      active.length = limit
  /-- Under every key slots are granted in the order of the requests. -/
  ordered : ∀ key, (passes.served.filter fun entry => entry.2 = key) <+: passes.requested.filter fun entry => entry.2 = key
  /-- A pass has given back its slot once, when it has ended. -/
  released : ∀ pass, passes.releases pass = (passes.point pass).givenBack

/-- The passes stand at an abstract gate as they say, and under every key the granted requests come before the waiting. -/
private structure Slots (limit : Nat) (passes : ProofPasses ν κ) (model : KeyedGate ν κ) : Prop where
  placed : passes.gate.Placed model (fun pass => (passes.point pass).holds) (fun pass => (passes.point pass).waits)
  limit : passes.gate.limit = limit
  order : ∀ key, ((passes.served ++ model.waiters).filter fun entry => entry.2 = key) =
    passes.requested.filter fun entry => entry.2 = key
  released : ∀ pass, passes.releases pass = (passes.point pass).givenBack

omit [DecidableEq ν] in
private theorem slots_start (maxParallel : Option Nat) :
    ∃ model, Slots (max 1 (maxParallel.getD 1)) (start maxParallel : ProofPasses ν κ) model := by
  obtain ⟨model, implements, holders, waiters⟩ := ProofGate.implements_create (ν := ν) (κ := κ) maxParallel
  refine ⟨model, ⟨implements, ?_, ?_⟩, rfl, ?_, fun _ => rfl⟩
  · intro pass key
    simp [start, PassPoint.holds, holders]
  · intro pass key
    simp [start, PassPoint.waits, waiters]
  · intro key
    simp [start, waiters]

omit [DecidableEq ν] in
/-- Nobody waits under a key a new pass is let in with. -/
private theorem no_waiter {gate : ProofGate ν κ} {model : KeyedGate ν κ} (same : gate.Implements model) {pass : ν} {key : κ}
    (resolved : (gate.acquireProofSlot pass key).2 = true) : (model.waiters.filter fun entry => entry.2 = key) = [] := by
  have room : gate.active < gate.limit ∧ key ∉ gate.held := by
    rw [ProofGate.acquireProofSlot] at resolved
    split at resolved
    · assumption
    · cases resolved
  rw [same.active, same.limit, same.held] at room
  refine List.filter_eq_nil_iff.mpr fun waiter member mine => ?_
  have named : waiter.2 = key := by simpa using mine
  rcases model.drained waiter member with full | taken
  · omega
  · exact room.2 (named ▸ taken)

private theorem Slots.request {limit : Nat} {passes : ProofPasses ν κ} {model : KeyedGate ν κ} (slots : Slots limit passes model)
    {after : ProofPasses ν κ} {pass : ν} {key : κ} (taken : passes.step? (.request pass key) = some after) :
    ∃ next, Slots limit after next := by
  have absent : passes.point pass = .absent := by
    simp only [step?] at taken
    split at taken
    · rename_i here
      cases place : passes.point pass <;> simp [place] at here ⊢
    · cases taken
  have fresh : pass ∉ (model.holders ++ model.waiters).map Prod.fst :=
    slots.placed.fresh (by simp [absent, PassPoint.holds]) (by simp [absent, PassPoint.waits])
  obtain ⟨implements, resolved, unresolved⟩ := slots.placed.implements.acquire key fresh
  simp only [step?, absent, if_true, Option.some.injEq] at taken
  subst taken
  refine ⟨model.acquire pass key fresh, slots.placed.acquire fresh ?_ ?_ ?_, ?_, ?_, ?_⟩
  · simp only [Function.update_self]
    split <;> rfl
  · simp only [Function.update_self]
    split <;> rfl
  · intro other apart
    simp only [Function.update_of_ne apart, and_self]
  · dsimp only
    rw [← slots.limit, ProofGate.acquireProofSlot]
    split <;> rfl
  · intro name
    have before := slots.order name
    rw [List.filter_append] at before
    cases flag : (passes.gate.acquireProofSlot pass key).2 with
    | true =>
      have alone := no_waiter slots.placed.implements flag
      rw [(resolved flag).2]
      simp only [if_true, List.filter_append, ← before, List.append_assoc]
      by_cases mine : key = name
      · subst mine
        rw [alone, List.nil_append, List.append_nil]
      · simp only [List.filter_cons, mine, decide_false, Bool.false_eq_true, if_false, List.filter_nil, List.nil_append,
          List.append_nil]
    | false =>
      rw [(unresolved flag).2]
      simp only [Bool.false_eq_true, if_false, List.filter_append, ← before, List.append_assoc]
  · intro other
    dsimp only
    rw [slots.released other]
    by_cases same : other = pass
    · subst same
      rw [Function.update_self, absent]
      split <;> rfl
    · rw [Function.update_of_ne same]

/-- A granted pass begins. -/
private theorem Slots.begin {limit : Nat} {passes : ProofPasses ν κ} {model : KeyedGate ν κ} (slots : Slots limit passes model)
    {after : ProofPasses ν κ} {pass : ν} (taken : passes.step? (.begin pass) = some after) : Slots limit after model := by
  simp only [step?] at taken
  split at taken
  · rename_i key here
    obtain rfl := Option.some.inj taken
    have stands (other : ν) : (Function.update passes.point pass (.running key) other).holds = (passes.point other).holds ∧
        (Function.update passes.point pass (.running key) other).waits = (passes.point other).waits := by
      by_cases same : other = pass
      · subst same
        rw [Function.update_self, here]
        exact ⟨rfl, rfl⟩
      · rw [Function.update_of_ne same]
        exact ⟨rfl, rfl⟩
    refine ⟨slots.placed.congr stands, slots.limit, slots.order, fun other => ?_⟩
    dsimp only
    rw [slots.released other]
    by_cases same : other = pass
    · subst same
      rw [Function.update_self, here]
      rfl
    · rw [Function.update_of_ne same]
  · cases taken

omit [DecidableEq κ] in
private theorem find?_of_mem {satisfied : List (ν × κ)} (once : (satisfied.map Prod.fst).Nodup) {waiter : ν × κ}
    (member : waiter ∈ satisfied) : satisfied.find? (fun other => other.1 = waiter.1) = some waiter := by
  cases here : satisfied.find? fun other => other.1 = waiter.1 with
  | none =>
    have absent := List.find?_eq_none.mp here waiter member
    simp at absent
  | some other =>
    have named := List.find?_some here
    rw [decide_eq_true_eq] at named
    rw [List.inj_on_of_nodup_map once (List.mem_of_find?_eq_some here) member named]

omit [DecidableEq κ] in
private theorem grant_of_mem {satisfied : List (ν × κ)} (once : (satisfied.map Prod.fst).Nodup) (point : ν → PassPoint κ)
    {pass : ν} {key : κ} (member : (pass, key) ∈ satisfied) : grant point satisfied pass = .granted key := by
  have found : satisfied.find? (fun other => other.1 = pass) = some (pass, key) := find?_of_mem once member
  rw [grant, found]

omit [DecidableEq κ] in
private theorem grant_of_not_mem {satisfied : List (ν × κ)} (point : ν → PassPoint κ) {pass : ν}
    (outside : pass ∉ satisfied.map Prod.fst) : grant point satisfied pass = point pass := by
  have none : satisfied.find? (fun other => other.1 = pass) = none := by
    refine List.find?_eq_none.mpr fun other member named => outside ?_
    rw [decide_eq_true_eq] at named
    exact named ▸ List.mem_map_of_mem member
  rw [grant, none]

private theorem Slots.finish {limit : Nat} {passes : ProofPasses ν κ} {model : KeyedGate ν κ} (slots : Slots limit passes model)
    {after : ProofPasses ν κ} {pass : ν} {threw : Bool} (taken : passes.step? (.finish pass threw) = some after) :
    ∃ next, Slots limit after next := by
  simp only [step?] at taken
  split at taken
  · rename_i key here
    obtain rfl := Option.some.inj taken
    have holding : (passes.point pass).holds = some key := by rw [here]; rfl
    have inside := (slots.placed.passing pass key).mp holding
    obtain ⟨-, holders, scanned⟩ := slots.placed.implements.release inside
    have satisfied : (passes.gate.releaseProofSlot key).2 = (KeyedGate.drain model.limit (model.others pass) model.waiters).1 :=
      (List.append_cancel_left holders).symm
    have waited (entry : ν × κ) (member : entry ∈ (passes.gate.releaseProofSlot key).2) : entry ∈ model.waiters :=
      scanned.subset (List.mem_append_left _ member)
    have once : ((passes.gate.releaseProofSlot key).2.map Prod.fst).Nodup := by
      have whole := (scanned.map Prod.fst).nodup_iff.mpr (model.agents.sublist ((List.sublist_append_right _ _).map _))
      rw [List.map_append] at whole
      exact whole.sublist (List.sublist_append_left _ _)
    have outside : pass ∉ (passes.gate.releaseProofSlot key).2.map Prod.fst := by
      intro present
      obtain ⟨entry, member, named⟩ := List.mem_map.mp present
      refine model.holder_not_waiting inside (List.mem_map.mpr ⟨entry, waited entry member, named⟩)
    refine ⟨model.release pass, slots.placed.release holding ?_ ?_ ?_, ?_, ?_, ?_⟩
    · dsimp only
      rw [grant_of_not_mem _ outside, Function.update_self]
      exact ⟨rfl, rfl⟩
    · intro other name member
      dsimp only
      rw [grant_of_mem once _ member]
      exact ⟨rfl, rfl⟩
    · intro other apart away
      dsimp only
      rw [grant_of_not_mem _ away, Function.update_of_ne apart]
      exact ⟨rfl, rfl⟩
    · have kept := (slots.placed.implements.release inside).1.limit
      exact kept.trans (slots.placed.implements.limit.symm.trans slots.limit)
    · intro name
      have before := slots.order name
      have drained := KeyedGate.drain_order model.limit (model.others pass) model.waiters name
      rw [List.filter_append, ← drained, ← satisfied] at before
      rw [← before]
      simp only [List.filter_append, List.append_assoc, KeyedGate.release]
    · intro other
      dsimp only
      by_cases same : other = pass
      · subst same
        rw [grant_of_not_mem _ outside, Function.update_self, Function.update_self, slots.released, here]
        rfl
      · rw [Function.update_of_ne same, slots.released]
        by_cases promoted : other ∈ (passes.gate.releaseProofSlot key).2.map Prod.fst
        · obtain ⟨⟨_, name⟩, member, rfl⟩ := List.mem_map.mp promoted
          have waiting := (slots.placed.queued _ name).mpr (waited _ member)
          rw [grant_of_mem once _ member]
          cases place : passes.point _ <;> simp [place, PassPoint.waits, PassPoint.givenBack] at waiting ⊢
        · rw [grant_of_not_mem _ promoted, Function.update_of_ne same]
  · cases taken

/-! ## Every run -/

private theorem Slots.step {limit : Nat} {passes after : ProofPasses ν κ} (label : PassLabel ν κ)
    (slots : ∃ model, Slots limit passes model) (taken : passes.step? label = some after) : ∃ model, Slots limit after model := by
  obtain ⟨model, here⟩ := slots
  cases label with
  | request pass key => exact here.request taken
  | begin pass => exact ⟨model, here.begin taken⟩
  | finish pass threw => exact here.finish taken

omit [DecidableEq ν] in
private theorem Slots.correct {limit : Nat} {passes : ProofPasses ν κ} {model : KeyedGate ν κ} (slots : Slots limit passes model) :
    Correct limit passes := by
  have bound : model.limit = limit := slots.placed.implements.limit.symm.trans slots.limit
  have agents : (model.holders.map Prod.fst).Nodup := model.agents.sublist ((List.sublist_append_left _ _).map _)
  constructor
  · intro active once holds
    have inside : active ⊆ model.holders.map Prod.fst := by
      intro pass member
      obtain ⟨key, here⟩ := Option.isSome_iff_exists.mp (holds pass member)
      exact List.mem_map.mpr ⟨(pass, key), (slots.placed.passing pass key).mp here, rfl⟩
    have few := (once.subperm inside).length_le
    rw [List.length_map] at few
    exact bound ▸ few.trans model.bounded
  · intro first second key here there
    have same := List.inj_on_of_nodup_map model.apart ((slots.placed.passing first key).mp here)
      ((slots.placed.passing second key).mp there) rfl
    exact congrArg Prod.fst same
  · intro pass key waits
    have waiting := (slots.placed.queued pass key).mp waits
    rcases model.drained _ waiting with full | taken
    · refine .inr ⟨model.holders.map Prod.fst, agents, ?_, ?_⟩
      · intro other member
        obtain ⟨⟨_, name⟩, inside, rfl⟩ := List.mem_map.mp member
        rw [(slots.placed.passing _ name).mpr inside]
        rfl
      · rw [List.length_map, ← bound]
        exact Nat.le_antisymm model.bounded full
    · obtain ⟨⟨other, _⟩, inside, rfl⟩ := List.mem_map.mp taken
      exact .inl ⟨other, (slots.placed.passing other _).mpr inside⟩
  · intro key
    rw [← slots.order key, List.filter_append]
    exact List.prefix_append _ _
  · exact slots.released

/-- Every run of passes, however they interleave and end, keeps the lock correct. -/
theorem withProofSlot_correct (maxParallel : Option Nat) {passes : ProofPasses ν κ}
    (reach : machine.Reach Machine.free (· = start maxParallel) passes) : Correct (max 1 (maxParallel.getD 1)) passes := by
  have slots : ∃ model, Slots (max 1 (maxParallel.getD 1)) passes model := by
    refine reach.invariant (fun passes => ∃ model, Slots (max 1 (maxParallel.getD 1)) passes model) ?_ ?_
    · rintro _ rfl
      exact slots_start maxParallel
    · intro before label after holds _ taken
      exact Slots.step label holds taken
  obtain ⟨model, here⟩ := slots
  exact here.correct

/-- Two passes in one tree and a third elsewhere, one at a time: the first throws, and both others are served. -/
theorem withProofSlot_correct_three : ∃ passes : ProofPasses Nat Bool,
    machine.Reach Machine.free (· = start (some 1)) passes ∧ passes.served = [(0, true), (1, true), (2, false)] ∧
      Correct 1 passes := by
  let labels : List (PassLabel Nat Bool) := [.request 0 true, .request 1 true, .begin 0, .request 2 false, .finish 0 true,
    .begin 1, .finish 1 false]
  have ran : (machine.replay? Machine.free (start (some 1)) labels).isSome = true := rfl
  obtain ⟨passes, success⟩ := Option.isSome_iff_exists.mp ran
  have reach : machine.Reach Machine.free (· = start (some 1)) passes := Machine.Reach.of_replay rfl labels success
  refine ⟨passes, reach, ?_, withProofSlot_correct (some 1) reach⟩
  have same := congrArg (Option.map ProofPasses.served) success
  exact (Option.some.inj same).symm

end Faberun.ProofPasses
