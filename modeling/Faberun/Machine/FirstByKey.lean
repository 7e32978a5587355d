import Mathlib.Data.List.Basic
import Mathlib.Data.List.Nodup

/-! # The first entry of every key

`firsts` goes through a list and keeps an entry unless an earlier one has its key.
-/

namespace Faberun.FirstByKey

variable {α κ : Type*} [DecidableEq κ] (key : α → κ)

/-- The entries whose key no earlier entry has. -/
def firsts : List α → List α
  | [] => []
  | entry :: rest => entry :: (firsts rest).filter fun other => key other ≠ key entry

variable {key} {entries more : List α} {entry other : α}

theorem mem_of_mem_firsts (member : entry ∈ firsts key entries) : entry ∈ entries := by
  induction entries with
  | nil => cases member
  | cons first rest ih =>
    rcases List.mem_cons.mp member with rfl | later
    · exact List.mem_cons_self
    · exact List.mem_cons_of_mem _ (ih (List.mem_filter.mp later).1)

/-- Every key keeps an entry. -/
theorem exists_first (member : entry ∈ entries) : ∃ other ∈ firsts key entries, key other = key entry := by
  induction entries with
  | nil => cases member
  | cons first rest ih =>
    by_cases same : key entry = key first
    · exact ⟨first, List.mem_cons_self, same.symm⟩
    · have later : entry ∈ rest := by
        rcases List.mem_cons.mp member with rfl | later
        · exact absurd rfl same
        · exact later
      obtain ⟨other, kept, named⟩ := ih later
      refine ⟨other, List.mem_cons_of_mem _ (List.mem_filter.mpr ⟨kept, ?_⟩), named⟩
      simp [named, same]

/-- No two kept entries have one key. -/
theorem nodup_firsts : ((firsts key entries).map key).Nodup := by
  induction entries with
  | nil => exact List.nodup_nil
  | cons first rest ih =>
    rw [firsts, List.map_cons, List.nodup_cons]
    constructor
    · intro member
      obtain ⟨other, kept, named⟩ := List.mem_map.mp member
      simp [named] at kept
    · exact ih.sublist (List.Sublist.map key List.filter_sublist)

/-- Entries with different keys are all kept. -/
theorem firsts_of_nodup (distinct : (entries.map key).Nodup) : firsts key entries = entries := by
  induction entries with
  | nil => rfl
  | cons first rest ih =>
    obtain ⟨fresh, rest'⟩ := List.nodup_cons.mp distinct
    rw [firsts, ih rest', List.filter_eq_self.mpr]
    intro other member
    have apart : key other ≠ key first := fun same => fresh (same ▸ List.mem_map_of_mem member)
    simp [apart]

/-- An entry is kept when it is the first of its key. -/
theorem mem_firsts_iff : entry ∈ firsts key entries ↔ entries.find? (fun other => key other = key entry) = some entry := by
  induction entries with
  | nil => exact ⟨nofun, nofun⟩
  | cons first rest ih =>
    rw [firsts, List.mem_cons, List.mem_filter, List.find?_cons]
    by_cases same : key first = key entry
    · simp only [same, decide_true, Option.some.injEq, ne_eq, not_true_eq_false, decide_false, Bool.false_eq_true,
        and_false, or_false]
      exact eq_comm
    · have apart : entry ≠ first := fun equal => same (equal ▸ rfl)
      simp only [apart, same, false_or, decide_false, ih, ne_eq, Ne.symm same, not_false_eq_true, decide_true, and_true]

theorem mem_keys_firsts {name : κ} : name ∈ (firsts key entries).map key ↔ name ∈ entries.map key := by
  simp only [List.mem_map]
  constructor
  · rintro ⟨entry, kept, named⟩
    exact ⟨entry, mem_of_mem_firsts kept, named⟩
  · rintro ⟨entry, member, rfl⟩
    exact exists_first member

/-- Of a list that follows another, only the entries of new keys are kept. -/
theorem firsts_append (entries more : List α) : firsts key (entries ++ more) =
    firsts key entries ++ (firsts key more).filter fun other => key other ∉ entries.map key := by
  induction entries with
  | nil => simp [firsts]
  | cons first rest ih =>
    rw [List.cons_append, firsts, firsts, ih, List.filter_append, List.filter_filter, List.cons_append]
    refine congrArg _ (congrArg _ (List.filter_congr fun other _ => ?_))
    rw [← Bool.decide_and, decide_eq_decide, List.map_cons, List.mem_cons, not_or]

theorem firsts_firsts (entries : List α) : firsts key (firsts key entries) = firsts key entries :=
  firsts_of_nodup nodup_firsts

/-- Going on from what was kept of a list is going on from the list. -/
theorem firsts_append_left (entries more : List α) : firsts key (firsts key entries ++ more) = firsts key (entries ++ more) := by
  rw [firsts_append, firsts_append, firsts_firsts]
  simp only [mem_keys_firsts]

/-- An entry stands behind the first of every key that comes before its own. -/
theorem getElem?_firsts {position : Nat} : (firsts key entries)[position]? = some entry ↔
    entries.find? (fun other => key other = key entry) = some entry ∧
      position = (firsts key (entries.takeWhile fun other => key other ≠ key entry)).length := by
  have placed (found : entries.find? (fun other => key other = key entry) = some entry) : (firsts key entries)[
      (firsts key (entries.takeWhile fun other => key other ≠ key entry)).length]? = some entry := by
    obtain ⟨-, before, behind, rfl, apart⟩ := List.find?_eq_some_iff_append.mp found
    have front : (before ++ entry :: behind).takeWhile (fun other => decide (key other ≠ key entry)) = before := by
      rw [List.takeWhile_append_of_pos (by simpa using apart), List.takeWhile_cons_of_neg (by simp), List.append_nil]
    have fresh : key entry ∉ before.map key := by
      intro member
      obtain ⟨other, inside, same⟩ := List.mem_map.mp member
      simpa [same] using apart other inside
    rw [front, firsts_append, firsts, List.filter_cons_of_pos (by simpa using fresh), List.getElem?_append_right (Nat.le_refl _),
      Nat.sub_self, List.getElem?_cons_zero]
  constructor
  · intro here
    have found := mem_firsts_iff.mp (List.mem_of_getElem? here)
    refine ⟨found, ?_⟩
    have bound := (List.getElem?_eq_some_iff.mp here).1
    have once : (firsts key entries).Nodup := List.Nodup.of_map _ (@nodup_firsts α κ _ key entries)
    exact (List.getElem?_inj bound once).mp (here.trans (placed found).symm)
  · rintro ⟨found, rfl⟩
    exact placed found

/-- Without its repetitions a list names everything once. -/
theorem nodup_eraseDups (names : List κ) : names.eraseDups.Nodup := by
  match names with
  | [] => exact List.nodup_nil
  | name :: rest =>
    rw [List.eraseDups_cons, List.nodup_cons, List.mem_eraseDups]
    refine ⟨by simp, nodup_eraseDups _⟩
termination_by names.length
decreasing_by exact Nat.lt_succ_of_le (List.length_filter_le _ _)

theorem eraseDups_of_nodup {names : List κ} (once : names.Nodup) : names.eraseDups = names := by
  induction names with
  | nil => rfl
  | cons name rest ih =>
    obtain ⟨fresh, later⟩ := List.nodup_cons.mp once
    rw [List.eraseDups_cons, List.filter_eq_self.mpr, ih later]
    intro other member
    rw [Bool.not_eq_true', beq_eq_false_iff_ne]
    rintro rfl
    exact fresh member

end Faberun.FirstByKey
