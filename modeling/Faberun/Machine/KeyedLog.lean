import Mathlib.Data.List.Induction

/-! # Logs whose last entry under a key wins

A log is only appended to. `latest` folds it into one entry a key, as a map does that is written in log
order and read in insertion order; `lastOf` reads one key. The two agree (`mem_latest`, `find?_latest`),
so a proof about the folded view is a proof about the last entry of a key.
-/

namespace Faberun

/-- A position of a log with one entry appended. -/
theorem getElem?_concat_eq_some_iff {α : Type*} {log : List α} {last entry : α} {position : Nat} :
    (log ++ [last])[position]? = some entry ↔
      log[position]? = some entry ∨ position = log.length ∧ last = entry := by
  constructor
  · intro found
    rcases Nat.lt_or_ge position log.length with inside | outside
    · exact .inl (by rwa [List.getElem?_append_left inside] at found)
    · rw [List.getElem?_append_right outside, List.getElem?_singleton] at found
      split_ifs at found with zero
      exact .inr ⟨by omega, Option.some.inj found⟩
  · rintro (before | ⟨rfl, rfl⟩)
    · rwa [List.getElem?_append_left (List.getElem?_eq_some_iff.mp before).1]
    · exact List.getElem?_concat_length

namespace KeyedLog

variable {α κ : Type*} [DecidableEq κ] (key : α → κ)

/-- Write one entry: in place where its key is present, else at the end. -/
def put (entries : List α) (entry : α) : List α :=
  if entries.any fun other => decide (key other = key entry) then
    entries.map fun other => if key other = key entry then entry else other
  else entries ++ [entry]

/-- One entry a key, in the order the keys first appeared. -/
def latest (log : List α) : List α := log.foldl (put key) []

/-- The last entry under a key. -/
def lastOf (log : List α) (k : κ) : Option α :=
  log.foldl (fun last entry => if key entry = k then some entry else last) none

@[simp] theorem lastOf_nil (k : κ) : lastOf key [] k = none := rfl

@[simp] theorem lastOf_concat (log : List α) (entry : α) (k : κ) :
    lastOf key (log ++ [entry]) k = if key entry = k then some entry else lastOf key log k := by
  simp only [lastOf, List.foldl_append, List.foldl_cons, List.foldl_nil]

@[simp] theorem latest_concat (log : List α) (entry : α) :
    latest key (log ++ [entry]) = put key (latest key log) entry := by
  simp only [latest, List.foldl_append, List.foldl_cons, List.foldl_nil]

variable {key}

theorem mem_put {entries : List α} {entry other : α} :
    other ∈ put key entries entry ↔ other = entry ∨ other ∈ entries ∧ key other ≠ key entry := by
  by_cases present : entries.any (fun other => decide (key other = key entry)) = true
  · obtain ⟨match', member, same⟩ := List.any_eq_true.mp present
    have same := of_decide_eq_true same
    rw [put, if_pos present, List.mem_map]
    constructor
    · rintro ⟨old, oldMember, rfl⟩
      split_ifs with replaced
      · exact .inl rfl
      · exact .inr ⟨oldMember, replaced⟩
    · rintro (rfl | ⟨kept, differs⟩)
      · exact ⟨match', member, if_pos same⟩
      · exact ⟨other, kept, if_neg differs⟩
  · rw [put, if_neg present, List.mem_append, List.mem_singleton]
    have absent (old : α) (member : old ∈ entries) : key old ≠ key entry := by
      intro same
      exact present (List.any_eq_true.mpr ⟨old, member, decide_eq_true same⟩)
    constructor
    · rintro (member | rfl)
      · exact .inr ⟨member, absent other member⟩
      · exact .inl rfl
    · rintro (rfl | ⟨member, _⟩)
      · exact .inr rfl
      · exact .inl member

theorem key_of_lastOf {log : List α} {k : κ} {entry : α} (found : lastOf key log k = some entry) :
    key entry = k := by
  induction log using List.reverseRecOn with
  | nil => simp at found
  | append_singleton log last ih =>
    rw [lastOf_concat] at found
    split_ifs at found with same
    · exact Option.some.inj found ▸ same
    · exact ih found

theorem mem_latest {log : List α} {entry : α} :
    entry ∈ latest key log ↔ lastOf key log (key entry) = some entry := by
  induction log using List.reverseRecOn with
  | nil => simp [latest]
  | append_singleton log last ih =>
    rw [latest_concat, mem_put, lastOf_concat, ih]
    split_ifs with same
    · constructor
      · rintro (rfl | ⟨_, differs⟩)
        · rfl
        · exact absurd same.symm differs
      · intro found
        exact .inl (Option.some.inj found).symm
    · constructor
      · rintro (rfl | ⟨before, _⟩)
        · exact absurd rfl same
        · exact before
      · intro found
        exact .inr ⟨found, fun equal => same equal.symm⟩

theorem find?_latest (log : List α) (k : κ) :
    (latest key log).find? (fun entry => decide (key entry = k)) = lastOf key log k := by
  cases found : (latest key log).find? (fun entry => decide (key entry = k)) with
  | some entry =>
    have member := mem_latest.mp (List.mem_of_find?_eq_some found)
    have same : key entry = k := by simpa using List.find?_some found
    rw [← member, same]
  | none =>
    cases last : lastOf key log k with
    | none => rfl
    | some entry =>
      have same := key_of_lastOf last
      have member : entry ∈ latest key log := mem_latest.mpr (by rw [same, last])
      have missed := List.find?_eq_none.mp found entry member
      exact absurd (decide_eq_true same) missed

/-- Writing one entry keeps one entry a key. -/
theorem nodup_map_put {entries : List α} (distinct : (entries.map key).Nodup) (entry : α) :
    ((put key entries entry).map key).Nodup := by
  rw [put]
  split_ifs with present
  · have unchanged : (entries.map fun other => if key other = key entry then entry else other).map key =
        entries.map key := by
      rw [List.map_map]
      refine List.map_congr_left fun other _ => ?_
      simp only [Function.comp_apply]
      split_ifs with same
      · exact same.symm
      · rfl
    rwa [unchanged]
  · rw [List.map_append, List.map_singleton]
    refine List.nodup_append.mpr ⟨distinct, List.pairwise_singleton _ _, ?_⟩
    rintro _ member _ single rfl
    obtain ⟨other, there, same⟩ := List.mem_map.mp member
    exact present (List.any_eq_true.mpr ⟨other, there, decide_eq_true (same.trans (List.mem_singleton.mp single))⟩)

/-- The folded log has one entry a key. -/
theorem nodup_map_latest (log : List α) : ((latest key log).map key).Nodup := by
  induction log using List.reverseRecOn with
  | nil => exact List.nodup_nil
  | append_singleton log last ih =>
    rw [latest_concat]
    exact nodup_map_put ih last

theorem lastOf_append (log more : List α) (k : κ) :
    lastOf key (log ++ more) k = (lastOf key more k).or (lastOf key log k) := by
  induction more using List.reverseRecOn with
  | nil => simp
  | append_singleton more last ih =>
    rw [← List.append_assoc, lastOf_concat, lastOf_concat, ih]
    split_ifs <;> rfl

theorem mem_of_lastOf {log : List α} {k : κ} {entry : α} (found : lastOf key log k = some entry) : entry ∈ log := by
  induction log using List.reverseRecOn with
  | nil => exact nomatch found
  | append_singleton log last ih =>
    rw [lastOf_concat] at found
    split_ifs at found with same
    · exact List.mem_append_right _ (List.mem_singleton.mpr (Option.some.inj found).symm)
    · exact List.mem_append_left _ (ih found)

theorem lastOf_isSome (key : α → κ) {log : List α} {entry : α} (member : entry ∈ log) :
    (lastOf key log (key entry)).isSome := by
  induction log using List.reverseRecOn with
  | nil => exact nomatch member
  | append_singleton log last ih =>
    rw [lastOf_concat]
    split_ifs with same
    · rfl
    · refine ih ((List.mem_append.mp member).resolve_right fun single => same ?_)
      rw [List.mem_singleton.mp single]

/-- Folding a log changes no last entry. -/
theorem lastOf_latest (log : List α) (k : κ) : lastOf key (latest key log) k = lastOf key log k := by
  cases folded : lastOf key (latest key log) k with
  | some entry =>
    obtain rfl := key_of_lastOf folded
    exact (mem_latest.mp (mem_of_lastOf folded)).symm
  | none =>
    cases last : lastOf key log k with
    | none => rfl
    | some entry =>
      obtain rfl := key_of_lastOf last
      have there := lastOf_isSome key (mem_latest.mpr last)
      rw [folded] at there
      exact nomatch there

end KeyedLog

end Faberun
