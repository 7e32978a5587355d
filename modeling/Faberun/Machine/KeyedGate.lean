import Mathlib.Data.List.Nodup

/-! # Keyed counting gates

A gate admits at most `limit` holders at once and no two under one key. A release lets in, from the
front, every waiter that now fits; one blocked only by its key is passed over. The point of the scan
is `KeyedGate.drained`: nobody waits who could be inside, so a gate somebody waits at is never empty.
-/

universe u v

/-- A gate with its holders and waiters in arrival order. -/
structure KeyedGate (α : Type u) (κ : Type v) where
  limit : Nat
  holders : List (α × κ)
  waiters : List (α × κ)
  positive : 0 < limit
  bounded : holders.length ≤ limit
  apart : (holders.map Prod.snd).Nodup
  agents : ((holders ++ waiters).map Prod.fst).Nodup
  drained : ∀ waiter ∈ waiters, limit ≤ holders.length ∨ waiter.2 ∈ holders.map Prod.snd

namespace KeyedGate

variable {α : Type u} {κ : Type v} [DecidableEq κ]

/-- Scan the waiters once: who is let in beside `holders`, and who stays. -/
def drain (limit : Nat) (holders : List (α × κ)) : List (α × κ) → List (α × κ) × List (α × κ)
  | [] => ([], [])
  | waiter :: rest =>
      if holders.length < limit then
        if waiter.2 ∈ holders.map Prod.snd then
          let (granted, kept) := drain limit holders rest
          (granted, waiter :: kept)
        else
          let (granted, kept) := drain limit (holders ++ [waiter]) rest
          (waiter :: granted, kept)
      else ([], waiter :: rest)

theorem drain_perm (limit : Nat) (holders waiters : List (α × κ)) :
    ((drain limit holders waiters).1 ++ (drain limit holders waiters).2).Perm waiters := by
  induction waiters generalizing holders with
  | nil => exact .refl _
  | cons waiter rest ih =>
    simp only [drain]
    split_ifs with room clash
    · exact List.perm_middle.trans ((ih holders).cons _)
    · exact (ih (holders ++ [waiter])).cons _
    · exact .refl _

/-- The scan keeps within the limit. -/
theorem drain_bounded {limit : Nat} {holders : List (α × κ)} (waiters : List (α × κ))
    (bounded : holders.length ≤ limit) :
    (holders ++ (drain limit holders waiters).1).length ≤ limit := by
  induction waiters generalizing holders with
  | nil => simpa [drain] using bounded
  | cons waiter rest ih =>
    simp only [drain]
    split_ifs with room clash
    · exact ih bounded
    · have next := @ih (holders ++ [waiter])
      simp only [List.length_append, List.length_cons, List.length_nil] at next ⊢
      have := next (by omega)
      omega
    · simpa using bounded

/-- The scan lets nobody in under a key that is taken. -/
theorem drain_apart (limit : Nat) {holders : List (α × κ)} (waiters : List (α × κ))
    (apart : (holders.map Prod.snd).Nodup) :
    ((holders ++ (drain limit holders waiters).1).map Prod.snd).Nodup := by
  induction waiters generalizing holders with
  | nil => simpa [drain] using apart
  | cons waiter rest ih =>
    simp only [drain]
    split_ifs with room clash
    · exact ih apart
    · have joined : ((holders ++ [waiter]).map Prod.snd).Nodup := by
        rw [List.map_append, List.map_singleton, ← List.concat_eq_append]
        exact apart.concat clash
      simpa only [List.append_assoc, List.singleton_append] using ih joined
    · simpa using apart

/-- After the scan nobody waits who could be inside. -/
theorem drain_drained (limit : Nat) (holders waiters : List (α × κ)) :
    ∀ waiter ∈ (drain limit holders waiters).2,
      limit ≤ (holders ++ (drain limit holders waiters).1).length ∨
        waiter.2 ∈ (holders ++ (drain limit holders waiters).1).map Prod.snd := by
  induction waiters generalizing holders with
  | nil => exact fun _ member => absurd member List.not_mem_nil
  | cons first rest ih =>
    intro waiter member
    simp only [drain] at member ⊢
    split_ifs at member ⊢ with room clash
    · rcases List.mem_cons.mp member with rfl | later
      · right
        rw [List.map_append]
        exact List.mem_append_left _ clash
      · exact ih holders waiter later
    · simpa only [List.append_assoc, List.singleton_append] using ih (holders ++ [first]) waiter member
    · left
      simp only [List.append_nil]
      omega

/-- The scan lets nobody in under a key that is taken already. -/
theorem drain_taken {limit : Nat} {holders : List (α × κ)} (waiters : List (α × κ)) {key : κ}
    (taken : key ∈ holders.map Prod.snd) : ((drain limit holders waiters).1.filter fun waiter => waiter.2 = key) = [] := by
  induction waiters generalizing holders with
  | nil => rfl
  | cons waiter rest ih =>
    simp only [drain]
    split_ifs with room clash
    · exact ih taken
    · have apart : waiter.2 ≠ key := fun same => clash (same ▸ taken)
      rw [List.filter_cons_of_neg (by simpa using apart)]
      exact ih (by rw [List.map_append]; exact List.mem_append_left _ taken)
    · rfl

/-- Under each key the scan lets in the first and leaves the others in order. -/
theorem drain_order (limit : Nat) (holders waiters : List (α × κ)) (key : κ) :
    ((drain limit holders waiters).1.filter fun waiter => waiter.2 = key) ++
      ((drain limit holders waiters).2.filter fun waiter => waiter.2 = key) =
        waiters.filter fun waiter => waiter.2 = key := by
  induction waiters generalizing holders with
  | nil => rfl
  | cons waiter rest ih =>
    simp only [drain]
    split_ifs with room clash
    · by_cases mine : waiter.2 = key
      · have none := @drain_taken α κ _ limit holders rest key (mine ▸ clash)
        have later := ih holders
        rw [none, List.nil_append] at later
        simp only [none, List.nil_append, List.filter_cons, mine, decide_true, if_true, later]
      · simpa only [List.filter_cons, mine, decide_false, Bool.false_eq_true, if_false] using ih holders
    · by_cases mine : waiter.2 = key
      · simpa only [List.filter_cons, mine, decide_true, if_true, List.cons_append, List.cons.injEq, true_and] using
          ih (holders ++ [waiter])
      · simpa only [List.filter_cons, mine, decide_false, Bool.false_eq_true, if_false] using ih (holders ++ [waiter])
    · rfl

/-- Enter at once if there is room and the key is free, else wait. -/
def acquire (gate : KeyedGate α κ) (a : α) (key : κ)
    (fresh : a ∉ (gate.holders ++ gate.waiters).map Prod.fst) : KeyedGate α κ :=
  if room : gate.holders.length < gate.limit ∧ key ∉ gate.holders.map Prod.snd then
    { gate with
      holders := gate.holders ++ [(a, key)]
      bounded := by
        rw [List.length_append, List.length_singleton]
        exact room.1
      apart := by
        rw [List.map_append, List.map_singleton, ← List.concat_eq_append]
        exact gate.apart.concat room.2
      agents := by
        have moved : ((gate.holders ++ [(a, key)] ++ gate.waiters).map Prod.fst).Perm
            (a :: (gate.holders ++ gate.waiters).map Prod.fst) := by
          simp only [List.append_assoc, List.singleton_append, List.map_append, List.map_cons]
          exact List.perm_middle
        exact moved.nodup_iff.mpr (List.nodup_cons.mpr ⟨fresh, gate.agents⟩)
      drained := fun waiter member => by
        rcases gate.drained waiter member with full | taken
        · exact .inl (Nat.le_trans full (by simp))
        · exact .inr (by rw [List.map_append]; exact List.mem_append_left _ taken) }
  else
    { gate with
      waiters := gate.waiters ++ [(a, key)]
      agents := by
        rw [← List.append_assoc, List.map_append, List.map_singleton, ← List.concat_eq_append]
        exact gate.agents.concat fresh
      drained := fun waiter member => by
        rcases List.mem_append.mp member with before | last
        · exact gate.drained waiter before
        · obtain rfl := List.mem_singleton.mp last
          by_cases taken : key ∈ gate.holders.map Prod.snd
          · exact .inr taken
          · exact .inl (by by_contra less; exact room ⟨by omega, taken⟩) }

/-- Everyone a release leaves inside. -/
def others [DecidableEq α] (gate : KeyedGate α κ) (a : α) : List (α × κ) :=
  gate.holders.filter fun holder => holder.1 ≠ a

/-- Leave the gate, then let in whoever now fits. -/
def release [DecidableEq α] (gate : KeyedGate α κ) (a : α) : KeyedGate α κ where
  limit := gate.limit
  holders := gate.others a ++ (drain gate.limit (gate.others a) gate.waiters).1
  waiters := (drain gate.limit (gate.others a) gate.waiters).2
  positive := gate.positive
  bounded := drain_bounded _ (Nat.le_trans (List.length_filter_le _ _) gate.bounded)
  apart := drain_apart _ _ (gate.apart.sublist (List.filter_sublist.map _))
  agents := by
    rw [List.append_assoc]
    have same := ((drain_perm gate.limit (gate.others a) gate.waiters).append_left (gate.others a)).map Prod.fst
    refine same.nodup_iff.mpr (gate.agents.sublist ?_)
    exact (List.filter_sublist.append_right _).map _
  drained := drain_drained _ _ _

omit [DecidableEq κ] in
/-- An agent is at the gate once, under one key. -/
theorem agent_unique (gate : KeyedGate α κ) {first second : α × κ}
    (here : first ∈ gate.holders ++ gate.waiters) (there : second ∈ gate.holders ++ gate.waiters)
    (same : first.1 = second.1) : first = second :=
  List.inj_on_of_nodup_map gate.agents here there same

omit [DecidableEq κ] in
/-- Whoever is inside does not wait. -/
theorem holder_not_waiting (gate : KeyedGate α κ) {holder : α × κ} (inside : holder ∈ gate.holders) :
    holder.1 ∉ gate.waiters.map Prod.fst := by
  intro waiting
  have agents := gate.agents
  rw [List.map_append, List.nodup_append] at agents
  exact agents.2.2 _ (List.mem_map_of_mem inside) _ waiting rfl

omit [DecidableEq κ] in
/-- A gate somebody waits at has a holder. -/
theorem holders_of_waiters {gate : KeyedGate α κ} (waiting : gate.waiters ≠ []) : gate.holders ≠ [] := by
  intro empty
  obtain ⟨waiter, member⟩ := List.exists_mem_of_ne_nil _ waiting
  have positive := gate.positive
  rcases gate.drained waiter member with full | taken
  · rw [empty, List.length_nil] at full
    omega
  · rw [empty] at taken
    exact List.not_mem_nil taken

end KeyedGate
