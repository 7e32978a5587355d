import Faberun.Model.Repo.Integrate

/-! # What the history of a run ref shows

`tip` reads the run ref back from the moves. A history is `Traced` when every move starts at the tip it
found, goes to a descendant, and was journaled as verified after its verification passed.
-/

namespace Faberun.Integration

variable {ν τ : Type}

/-- The run ref after the moves of a history. -/
def tip (initial : Nat) (history : List (Deed ν)) : Nat :=
  history.foldl (fun ref deed => match deed with
    | .moved _ _ _ target => target
    | _ => ref) initial

/-- The run ref was moved to the candidate by the transaction of this node and attempt. -/
def Moved (history : List (Deed ν)) (key : ν × Nat) (candidate : Nat) : Prop :=
  ∃ source, Deed.moved key.1 key.2 source candidate ∈ history

/-- Before `bound` the candidate passed its verification, and after that it was journaled as verified. -/
def Vouched (history : List (Deed ν)) (bound : Nat) (key : ν × Nat) (candidate : Nat) : Prop :=
  ∃ passed journaled record seen, passed < journaled ∧ journaled < bound ∧
    history[passed]? = some (.verdict key.1 key.2 candidate true seen) ∧
    history[journaled]? = some (.journaled record) ∧
    record.status = .verified ∧ record.key = key ∧ record.candidateSha = some candidate

structure Traced (initial : Nat) (g : CommitGraph τ) (history : List (Deed ν)) : Prop where
  vouched : ∀ (i : Nat) (node : ν) (attempt source target : Nat), history[i]? = some (.moved node attempt source target) →
    Vouched history i (node, attempt) target
  chain : ∀ (i : Nat) (node : ν) (attempt source target : Nat), history[i]? = some (.moved node attempt source target) →
    source = tip initial (history.take i) ∧ g.Ancestor source target
  onward : ∀ (i : Nat) (node : ν) (attempt source target : Nat), history[i]? = some (.moved node attempt source target) →
    g.Ancestor target (tip initial history)

theorem tip_concat_moved (initial : Nat) (history : List (Deed ν)) (node : ν) (attempt source target : Nat) :
    tip initial (history ++ [.moved node attempt source target]) = target := by
  simp only [tip, List.foldl_append, List.foldl_cons, List.foldl_nil]

/-- A deed that moves nothing leaves the tip. -/
theorem tip_concat {initial : Nat} {history : List (Deed ν)} {deed : Deed ν}
    (still : ∀ node attempt source target, deed ≠ .moved node attempt source target) :
    tip initial (history ++ [deed]) = tip initial history := by
  cases deed with
  | moved node attempt source target => exact absurd rfl (still node attempt source target)
  | _ => simp only [tip, List.foldl_append, List.foldl_cons, List.foldl_nil]

/-- The tip is where the run started or where some transaction moved it. -/
theorem tip_eq_or_moved (initial : Nat) (history : List (Deed ν)) :
    tip initial history = initial ∨ ∃ key, Moved history key (tip initial history) := by
  induction history using List.reverseRecOn with
  | nil => exact .inl rfl
  | append_singleton history deed ih =>
    cases deed with
    | moved node attempt source target =>
      rw [tip_concat_moved]
      exact .inr ⟨(node, attempt), source, by simp⟩
    | verdict node attempt candidate passed seen =>
      rw [tip_concat nofun]
      refine ih.imp_right ?_
      rintro ⟨key, source, member⟩
      exact ⟨key, source, List.mem_append_left _ member⟩
    | journaled record =>
      rw [tip_concat nofun]
      refine ih.imp_right ?_
      rintro ⟨key, source, member⟩
      exact ⟨key, source, List.mem_append_left _ member⟩

theorem Moved.concat {history : List (Deed ν)} {key : ν × Nat} {candidate : Nat}
    (moved : Moved history key candidate) (deed : Deed ν) : Moved (history ++ [deed]) key candidate := by
  obtain ⟨source, member⟩ := moved
  exact ⟨source, List.mem_append_left _ member⟩

theorem moved_concat_iff {history : List (Deed ν)} {deed : Deed ν} {key : ν × Nat} {candidate : Nat}
    (still : ∀ node attempt source target, deed ≠ .moved node attempt source target) :
    Moved (history ++ [deed]) key candidate ↔ Moved history key candidate := by
  constructor
  · rintro ⟨source, member⟩
    rcases List.mem_append.mp member with before | last
    · exact ⟨source, before⟩
    · exact absurd (List.mem_singleton.mp last).symm (still _ _ _ _)
  · exact fun moved => moved.concat deed

theorem moved_concat_moved_iff {history : List (Deed ν)} {node : ν} {attempt source target : Nat}
    {key : ν × Nat} {candidate : Nat} :
    Moved (history ++ [.moved node attempt source target]) key candidate ↔
      Moved history key candidate ∨ key = (node, attempt) ∧ candidate = target := by
  constructor
  · rintro ⟨other, member⟩
    rcases List.mem_append.mp member with before | last
    · exact .inl ⟨other, before⟩
    · obtain ⟨node', attempt'⟩ := key
      obtain ⟨rfl, rfl, rfl, rfl⟩ := Deed.moved.inj (List.mem_singleton.mp last)
      exact .inr ⟨rfl, rfl⟩
  · rintro (before | ⟨rfl, rfl⟩)
    · exact before.concat _
    · exact ⟨source, by simp⟩

/-- Evidence stays evidence, for every later bound. -/
theorem Vouched.mono {history : List (Deed ν)} {bound later : Nat} {key : ν × Nat} {candidate : Nat}
    (vouched : Vouched history bound key candidate) (deed : Deed ν) (le : bound ≤ later) :
    Vouched (history ++ [deed]) later key candidate := by
  obtain ⟨passed, journaled, record, seen, ordered, within, verdict, written, rest⟩ := vouched
  refine ⟨passed, journaled, record, seen, ordered, by omega, ?_, ?_, rest⟩
  · exact getElem?_concat_eq_some_iff.mpr (.inl verdict)
  · exact getElem?_concat_eq_some_iff.mpr (.inl written)

namespace Traced

variable {initial : Nat} {g : CommitGraph τ} {history : List (Deed ν)}

private theorem take_concat {i : Nat} (inside : i < history.length) (deed : Deed ν) :
    (history ++ [deed]).take i = history.take i :=
  List.take_append_of_le_length (Nat.le_of_lt inside)

theorem concat (traced : Traced initial g history) {deed : Deed ν}
    (still : ∀ node attempt source target, deed ≠ .moved node attempt source target) :
    Traced initial g (history ++ [deed]) := by
  have earlier {i : Nat} {node : ν} {attempt source target : Nat}
      (found : (history ++ [deed])[i]? = some (.moved node attempt source target)) :
      history[i]? = some (.moved node attempt source target) := by
    rcases getElem?_concat_eq_some_iff.mp found with before | ⟨_, last⟩
    · exact before
    · exact absurd last (still node attempt source target)
  refine ⟨fun i node attempt source target found => ?_, fun i node attempt source target found => ?_,
    fun i node attempt source target found => ?_⟩
  · exact (traced.vouched i node attempt source target (earlier found)).mono deed (Nat.le_refl _)
  · have before := earlier found
    rw [take_concat (List.getElem?_eq_some_iff.mp before).1]
    exact traced.chain i node attempt source target before
  · rw [tip_concat still]
    exact traced.onward i node attempt source target (earlier found)

/-- A verified transaction moves the run ref to a descendant. -/
theorem move (traced : Traced initial g history) {node : ν} {attempt target : Nat}
    (vouched : Vouched history history.length (node, attempt) target)
    (descends : g.Ancestor (tip initial history) target) :
    Traced initial g (history ++ [.moved node attempt (tip initial history) target]) := by
  refine ⟨fun i node' attempt' source' target' found => ?_, fun i node' attempt' source' target' found => ?_,
    fun i node' attempt' source' target' found => ?_⟩
  · rcases getElem?_concat_eq_some_iff.mp found with before | ⟨rfl, last⟩
    · exact (traced.vouched i node' attempt' source' target' before).mono _ (Nat.le_refl _)
    · obtain ⟨rfl, rfl, rfl, rfl⟩ := Deed.moved.inj last
      exact vouched.mono _ (Nat.le_refl _)
  · rcases getElem?_concat_eq_some_iff.mp found with before | ⟨rfl, last⟩
    · rw [take_concat (List.getElem?_eq_some_iff.mp before).1]
      exact traced.chain i node' attempt' source' target' before
    · obtain ⟨rfl, rfl, rfl, rfl⟩ := Deed.moved.inj last
      rw [List.take_left]
      exact ⟨rfl, descends⟩
  · rw [tip_concat_moved]
    rcases getElem?_concat_eq_some_iff.mp found with before | ⟨rfl, last⟩
    · exact (traced.onward i node' attempt' source' target' before).trans descends
    · obtain ⟨rfl, rfl, rfl, rfl⟩ := Deed.moved.inj last
      exact .refl g target

/-- The graph may grow. -/
theorem grow (traced : Traced initial g history) {grown : CommitGraph τ}
    (grows : ∀ a b, g.Ancestor a b → grown.Ancestor a b) : Traced initial grown history where
  vouched := traced.vouched
  chain i node attempt source target found := by
    obtain ⟨same, line⟩ := traced.chain i node attempt source target found
    exact ⟨same, grows _ _ line⟩
  onward i node attempt source target found := grows _ _ (traced.onward i node attempt source target found)

theorem ancestor_of_moved (traced : Traced initial g history) {key : ν × Nat} {candidate : Nat}
    (moved : Moved history key candidate) : g.Ancestor candidate (tip initial history) := by
  obtain ⟨source, member⟩ := moved
  obtain ⟨i, found⟩ := List.mem_iff_getElem?.mp member
  exact traced.onward i key.1 key.2 source candidate found

end Traced

end Faberun.Integration
