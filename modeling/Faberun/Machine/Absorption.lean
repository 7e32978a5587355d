import Faberun.Machine.Digraph

/-! # Names that are absorbed

A list of merges takes names away one at a time: each hands a present name over to another present one. `owner` applies
the merges in order; `follow` only knows who absorbed whom and walks from name to name. Both agree as long as no name
is handed over to itself.
-/

namespace Faberun.Absorption

open Digraph

variable {α : Type*} [DecidableEq α]

/-- The names left by some merges. -/
def remaining (names : List α) (merges : List (α × α)) : List α :=
  merges.foldl (fun names merge => names.filter fun name => name ≠ merge.1) names

/-- Both names of every merge are there when it is made. -/
def Absorbs : List α → List (α × α) → Prop
  | _, [] => True
  | names, (child, parent) :: rest =>
    child ∈ names ∧ parent ∈ names ∧ Absorbs (names.filter fun name => name ≠ child) rest

/-- Where a name ends when every merge hands it on. -/
def owner (merges : List (α × α)) (name : α) : α :=
  merges.foldl (fun current merge => rename merge.1 merge.2 current) name

/-- Who absorbed a name last. -/
def absorber (merges : List (α × α)) (name : α) : Option α :=
  (merges.reverse.find? fun merge => merge.1 = name).map (·.2)

/-- Walk from a name to the next one until there is none or the walk comes back. -/
def follow (next : α → Option α) : Nat → List α → α → α
  | 0, _, current => current
  | fuel + 1, seen, current =>
    match next current with
    | none => current
    | some parent => if current ∈ seen then current else follow next fuel (current :: seen) parent

/-- No merge hands a name over to itself. -/
def Proper (merges : List (α × α)) : Prop := ∀ merge ∈ merges, merge.1 ≠ merge.2

variable {names : List α} {merges : List (α × α)} {name child parent : α}

@[simp] theorem owner_cons (rest : List (α × α)) :
    owner ((child, parent) :: rest) name = owner rest (rename child parent name) := rfl

theorem absorbs_concat : Absorbs names (merges ++ [(child, parent)]) ↔
    Absorbs names merges ∧ child ∈ remaining names merges ∧ parent ∈ remaining names merges := by
  induction merges generalizing names with
  | nil => simp [Absorbs, remaining]
  | cons merge rest ih =>
    simp only [List.cons_append, Absorbs, ih, and_assoc]
    rfl

/-- The names of a merge were there from the start. -/
theorem Absorbs.mem (absorbs : Absorbs names merges) (member : (child, parent) ∈ merges) : child ∈ names ∧ parent ∈ names := by
  induction merges generalizing names with
  | nil => cases member
  | cons merge rest ih =>
    obtain ⟨childMember, parentMember, later⟩ := absorbs
    rcases List.mem_cons.mp member with rfl | member
    · exact ⟨childMember, parentMember⟩
    · obtain ⟨first, second⟩ := ih later member
      exact ⟨(List.mem_filter.mp first).1, (List.mem_filter.mp second).1⟩

theorem mem_remaining : name ∈ remaining names merges ↔ name ∈ names ∧ ∀ merge ∈ merges, name ≠ merge.1 := by
  induction merges generalizing names with
  | nil => simp [remaining]
  | cons merge rest ih =>
    have step : remaining names (merge :: rest) = remaining (names.filter fun name => name ≠ merge.1) rest := rfl
    rw [step, ih, List.mem_filter, decide_eq_true_eq, List.forall_mem_cons, and_assoc]

/-- A name that is nobody's child keeps itself. -/
theorem owner_of_survivor (survives : ∀ merge ∈ merges, name ≠ merge.1) : owner merges name = name := by
  induction merges with
  | nil => rfl
  | cons merge rest ih =>
    obtain ⟨child, parent⟩ := merge
    rw [owner_cons, rename_of_ne (survives _ List.mem_cons_self)]
    exact ih fun other member => survives other (List.mem_cons_of_mem _ member)

/-- A merge that hands a name on hands it to a name that stays. -/
private theorem rename_mem (parentMember : parent ∈ names) (apart : child ≠ parent)
    (member : name ∈ names) : rename child parent name ∈ names.filter fun name => name ≠ child := by
  rw [List.mem_filter, decide_eq_true_eq]
  by_cases same : name = child
  · rw [same, rename_child]
    exact ⟨parentMember, apart.symm⟩
  · rw [rename_of_ne same]
    exact ⟨member, same⟩

/-- Every name ends in one that is left. -/
theorem owner_mem (absorbs : Absorbs names merges) (proper : Proper merges) (member : name ∈ names) :
    owner merges name ∈ remaining names merges := by
  induction merges generalizing names name with
  | nil => exact member
  | cons merge rest ih =>
    obtain ⟨child, parent⟩ := merge
    obtain ⟨-, parentMember, later⟩ := absorbs
    exact ih later (fun other inside => proper other (List.mem_cons_of_mem _ inside))
      (rename_mem parentMember (proper _ List.mem_cons_self) member)

/-- What merges within one class keeps its class. -/
theorem owner_class {δ : Type*} {classOf : α → δ} (within : ∀ merge ∈ merges, classOf merge.1 = classOf merge.2) (name : α) :
    classOf (owner merges name) = classOf name := by
  induction merges generalizing name with
  | nil => rfl
  | cons merge rest ih =>
    obtain ⟨child, parent⟩ := merge
    rw [owner_cons, ih (fun other inside => within other (List.mem_cons_of_mem _ inside))]
    by_cases same : name = child
    · rw [same, rename_child]
      exact (within _ List.mem_cons_self).symm
    · rw [rename_of_ne same]

/-! ## Following who absorbed whom -/

private theorem absorber_cons (absorbs : Absorbs names ((child, parent) :: merges)) :
    absorber ((child, parent) :: merges) name = if name = child then some parent else absorber merges name := by
  obtain ⟨-, -, later⟩ := absorbs
  have fresh (other : α) (member : (child, other) ∈ merges) : False := by
    have inside := (later.mem member).1
    simp at inside
  unfold absorber
  rw [List.reverse_cons, List.find?_append]
  by_cases same : name = child
  · subst same
    have none : merges.reverse.find? (fun merge => decide (merge.1 = name)) = none := by
      rw [List.find?_eq_none]
      rintro ⟨first, second⟩ member here
      obtain rfl : first = name := of_decide_eq_true here
      exact fresh second (List.mem_reverse.mp member)
    rw [none, if_pos rfl]
    simp
  · rw [if_neg same]
    have apart : ¬ child = name := fun other => same other.symm
    cases merges.reverse.find? (fun merge => decide (merge.1 = name)) <;> simp [apart]

/-- A name ends where its absorber ends. -/
theorem owner_absorber (absorbs : Absorbs names merges) (absorbed : absorber merges name = some parent) :
    owner merges name = owner merges parent := by
  induction merges generalizing names name parent with
  | nil => cases absorbed
  | cons merge rest ih =>
    obtain ⟨child, other⟩ := merge
    rw [absorber_cons absorbs] at absorbed
    split at absorbed
    · rename_i same
      obtain rfl := Option.some.inj absorbed
      rw [owner_cons, owner_cons, same, rename_child, rename_parent]
    · rename_i differs
      obtain ⟨-, -, later⟩ := absorbs
      obtain ⟨merge, found, same⟩ := Option.map_eq_some_iff.mp absorbed
      have inside := List.mem_reverse.mp (List.mem_of_find?_eq_some found)
      obtain ⟨-, parentMember⟩ := later.mem inside
      rw [same, List.mem_filter, decide_eq_true_eq] at parentMember
      rw [owner_cons, owner_cons, rename_of_ne differs, rename_of_ne parentMember.2]
      exact ih later absorbed

theorem mem_of_absorber (absorbed : absorber merges name = some parent) : (name, parent) ∈ merges := by
  obtain ⟨⟨first, second⟩, found, rfl⟩ := Option.map_eq_some_iff.mp absorbed
  have same := List.find?_some found
  obtain rfl : first = name := of_decide_eq_true same
  exact List.mem_reverse.mp (List.mem_of_find?_eq_some found)

theorem survives_of_absorber_none (absorbed : absorber merges name = none) : ∀ merge ∈ merges, name ≠ merge.1 := by
  rintro ⟨child, parent⟩ member rfl
  have none := Option.map_eq_none_iff.mp absorbed
  have missed := List.find?_eq_none.mp none _ (List.mem_reverse.mpr member)
  simp at missed

/-- The moment a name is absorbed; those that stay come last. -/
private def moment (merges : List (α × α)) (name : α) : Nat := (merges.map (·.1)).idxOf name

private theorem moment_lt (absorbs : Absorbs names merges) (proper : Proper merges)
    (absorbed : absorber merges name = some parent) : moment merges name < moment merges parent := by
  induction merges generalizing names name parent with
  | nil => cases absorbed
  | cons merge rest ih =>
    obtain ⟨child, other⟩ := merge
    rw [absorber_cons absorbs] at absorbed
    unfold moment
    split at absorbed
    · rename_i same
      obtain rfl := Option.some.inj absorbed
      have apart : child ≠ other := proper _ List.mem_cons_self
      rw [List.map_cons, same, List.idxOf_cons_self, List.idxOf_cons_ne _ apart]
      exact Nat.succ_pos _
    · rename_i differs
      obtain ⟨-, -, later⟩ := absorbs
      obtain ⟨-, parentMember⟩ := later.mem (mem_of_absorber absorbed)
      rw [List.mem_filter, decide_eq_true_eq] at parentMember
      rw [List.map_cons, List.idxOf_cons_ne _ (fun same => differs same.symm),
        List.idxOf_cons_ne _ (fun same => parentMember.2 same.symm)]
      have sooner := ih later (fun merge inside => proper merge (List.mem_cons_of_mem _ inside)) absorbed
      exact Nat.succ_lt_succ sooner

private theorem follow_from (absorbs : Absorbs names merges) (proper : Proper merges) {fuel : Nat} {seen : List α}
    (behind : ∀ other ∈ seen, moment merges other < moment merges name) (enough : merges.length < fuel + moment merges name) :
    follow (absorber merges) fuel seen name = owner merges name := by
  induction fuel generalizing seen name with
  | zero =>
    have atMost : moment merges name ≤ (merges.map (·.1)).length := List.idxOf_le_length
    rw [List.length_map] at atMost
    omega
  | succ fuel ih =>
    unfold follow
    cases absorbed : absorber merges name with
    | none => exact (owner_of_survivor (survives_of_absorber_none absorbed)).symm
    | some parent =>
      have sooner := moment_lt absorbs proper absorbed
      have fresh : name ∉ seen := fun member => Nat.lt_irrefl _ (behind name member)
      dsimp only
      rw [if_neg fresh, owner_absorber absorbs absorbed]
      refine ih (fun other member => ?_) (by omega)
      rcases List.mem_cons.mp member with rfl | member
      · exact sooner
      · exact Nat.lt_trans (behind other member) sooner

/-- Following the absorbers ends where the merges hand a name. -/
theorem follow_eq_owner (absorbs : Absorbs names merges) (proper : Proper merges) :
    follow (absorber merges) (merges.length + 1) [] name = owner merges name :=
  follow_from absorbs proper (by simp) (by omega)

/-- A name handed over to itself is where the walk from it ends. -/
theorem follow_self {next : α → Option α} {fuel : Nat} (loop : next name = some name) : follow next fuel [] name = name := by
  cases fuel with
  | zero => rfl
  | succ fuel =>
    simp only [follow, loop, List.not_mem_nil, if_false]
    cases fuel with
    | zero => rfl
    | succ fuel => simp only [follow, loop, List.mem_singleton, if_true]

/-- In a list of merges a name is absorbed once. -/
theorem absorber_of_mem (absorbs : Absorbs names merges) (member : (child, parent) ∈ merges) :
    absorber merges child = some parent := by
  induction merges generalizing names with
  | nil => cases member
  | cons merge rest ih =>
    obtain ⟨first, second⟩ := merge
    rw [absorber_cons absorbs]
    obtain ⟨-, -, later⟩ := absorbs
    rcases List.mem_cons.mp member with same | member
    · obtain ⟨rfl, rfl⟩ := Prod.mk.inj same
      exact if_pos rfl
    · have inside := (later.mem member).1
      rw [List.mem_filter, decide_eq_true_eq] at inside
      rw [if_neg inside.2]
      exact ih later member

end Faberun.Absorption
