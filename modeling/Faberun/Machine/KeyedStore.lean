import Mathlib.Data.List.Nodup
import Faberun.Machine.KeyedLog

/-! # Stores with one value a key

A `KeyedStore` lists its entries in the order their keys were first written and carries the proof that no key is
written twice. It is read with `get?` and changed with `set` and `erase`; a key reads what was last set under it.
-/

namespace Faberun

structure KeyedStore (κ α : Type*) where
  entries : List (κ × α)
  distinct : (entries.map Prod.fst).Nodup

namespace KeyedStore

variable {κ α β : Type*}

def empty : KeyedStore κ α := ⟨[], List.nodup_nil⟩

def keys (store : KeyedStore κ α) : List κ := store.entries.map Prod.fst

/-- Every value changed on its own. -/
def map (change : α → β) (store : KeyedStore κ α) : KeyedStore κ β where
  entries := store.entries.map fun entry => (entry.1, change entry.2)
  distinct := by
    rw [List.map_map]
    exact store.distinct

variable [DecidableEq κ]

instance [DecidableEq α] : DecidableEq (KeyedStore κ α) := fun first second =>
  decidable_of_iff (first.entries = second.entries) <| by
    obtain ⟨entries, _⟩ := first
    obtain ⟨others, _⟩ := second
    simp

def get? (store : KeyedStore κ α) (key : κ) : Option α :=
  (store.entries.find? fun entry => decide (entry.1 = key)).map Prod.snd

def set (store : KeyedStore κ α) (key : κ) (value : α) : KeyedStore κ α :=
  ⟨KeyedLog.put Prod.fst store.entries (key, value), KeyedLog.nodup_map_put store.distinct _⟩

def erase (store : KeyedStore κ α) (key : κ) : KeyedStore κ α :=
  ⟨store.entries.filter fun entry => decide (entry.1 ≠ key), store.distinct.sublist (List.filter_sublist.map _)⟩

/-- The entries whose keys are kept. -/
def filter (keep : κ → Bool) (store : KeyedStore κ α) : KeyedStore κ α :=
  ⟨store.entries.filter fun entry => keep entry.1, store.distinct.sublist (List.filter_sublist.map _)⟩

variable {store : KeyedStore κ α} {key other : κ} {value : α}

theorem mem_entries : (key, value) ∈ store.entries ↔ store.get? key = some value := by
  simp only [get?, Option.map_eq_some_iff]
  constructor
  · intro member
    cases found : store.entries.find? (fun entry => decide (entry.1 = key)) with
    | none => exact absurd (decide_eq_true rfl) (List.find?_eq_none.mp found (key, value) member)
    | some entry =>
      have same : entry.1 = key := by simpa using List.find?_some found
      refine ⟨entry, rfl, ?_⟩
      rw [List.inj_on_of_nodup_map store.distinct (List.mem_of_find?_eq_some found) member same]
  · rintro ⟨entry, found, rfl⟩
    have same : entry.1 = key := by simpa using List.find?_some found
    rw [← same]
    exact List.mem_of_find?_eq_some found

theorem mem_keys : key ∈ store.keys ↔ ∃ value, store.get? key = some value := by
  simp only [keys, List.mem_map]
  constructor
  · rintro ⟨entry, member, rfl⟩
    exact ⟨entry.2, mem_entries.mp member⟩
  · rintro ⟨value, found⟩
    exact ⟨(key, value), mem_entries.mpr found, rfl⟩

@[simp] theorem get?_empty : (empty : KeyedStore κ α).get? key = none := rfl

theorem get?_set : (store.set key value).get? other = if other = key then some value else store.get? other := by
  ext found
  rw [← mem_entries, set, KeyedLog.mem_put, Prod.mk.injEq, mem_entries]
  split_ifs with same
  · simp [same, eq_comm]
  · simp [same]

/-- After many writes a key reads the last one under it. -/
theorem get?_foldl_set {ι : Type*} (keyOf : ι → κ) (valueOf : ι → α) (items : List ι) (store : KeyedStore κ α) (key : κ) :
    (items.foldl (fun store item => store.set (keyOf item) (valueOf item)) store).get? key =
      ((items.filter fun item => decide (keyOf item = key)).getLast?.map valueOf).or (store.get? key) := by
  induction items generalizing store with
  | nil => rfl
  | cons item items ih =>
    rw [List.foldl_cons, ih, get?_set, List.filter_cons]
    by_cases same : keyOf item = key
    · rw [if_pos same.symm, if_pos (decide_eq_true same), List.getLast?_cons]
      cases (items.filter fun item => decide (keyOf item = key)).getLast? <;> rfl
    · rw [if_neg (Ne.symm same), if_neg (by simpa using same)]

theorem get?_erase : (store.erase key).get? other = if other = key then none else store.get? other := by
  ext found
  rw [← mem_entries, erase, List.mem_filter, mem_entries, decide_eq_true_eq]
  split_ifs with same
  · simp [same]
  · simp [same]

theorem get?_filter {keep : κ → Bool} : (store.filter keep).get? key = if keep key then store.get? key else none := by
  ext found
  rw [← mem_entries, filter, List.mem_filter, mem_entries]
  split_ifs with kept
  · simp [kept]
  · simp [kept]

theorem get?_map (change : α → β) : (store.map change).get? key = (store.get? key).map change := by
  ext found
  rw [← mem_entries, map, List.mem_map, Option.map_eq_some_iff]
  constructor
  · rintro ⟨entry, member, same⟩
    obtain ⟨rfl, rfl⟩ := Prod.mk.inj same
    exact ⟨entry.2, mem_entries.mp member, rfl⟩
  · rintro ⟨value, here, rfl⟩
    exact ⟨(key, value), mem_entries.mpr here, rfl⟩

end KeyedStore

end Faberun
