import Mathlib.Order.Lattice
import Mathlib.Data.List.Basic

/-! # Reading a growing list past a mark

A reader remembers the last key it has seen and takes what lies beyond it. Over a list sorted by its keys what lies
up to a mark comes before what lies beyond it, so what two readings take adds up to the list itself.
-/

universe u v

namespace Watermark

variable {α : Type u} {κ : Type v} [LinearOrder κ] (key : α → κ)

/-- The keys never decrease. -/
def Sorted (items : List α) : Prop := items.Pairwise fun first later => key first ≤ key later

/-- The items up to a mark. -/
def upTo (mark : κ) (items : List α) : List α := items.filter fun item => decide (key item ≤ mark)

/-- The items past a mark. -/
def past (mark : κ) (items : List α) : List α := items.filter fun item => decide (mark < key item)

variable {key} {mark : κ} {items more : List α}

/-- Over a sorted list the items up to a mark come first. -/
theorem upTo_append_past (sorted : Sorted key items) : upTo key mark items ++ past key mark items = items := by
  induction items with
  | nil => rfl
  | cons first rest ih =>
    obtain ⟨least, tail⟩ := List.pairwise_cons.mp sorted
    rcases le_or_gt (key first) mark with before | beyond
    · have split := ih tail
      simp only [upTo, past, List.filter_cons, decide_eq_true before, decide_eq_false (not_lt.mpr before),
        Bool.false_eq_true, ↓reduceIte] at split ⊢
      exact congrArg (first :: ·) split
    · have all : ∀ item ∈ first :: rest, mark < key item := by
        intro item member
        rcases List.mem_cons.mp member with rfl | later
        · exact beyond
        · exact beyond.trans_le (least item later)
      rw [upTo, past, List.filter_eq_nil_iff.mpr, List.filter_eq_self.mpr, List.nil_append]
      · exact fun item member => decide_eq_true (all item member)
      · intro item member
        simpa using all item member

theorem upTo_eq_self (bound : ∀ item ∈ items, key item ≤ mark) : upTo key mark items = items :=
  List.filter_eq_self.mpr fun item member => decide_eq_true (bound item member)

theorem upTo_eq_nil (bound : ∀ item ∈ items, mark < key item) : upTo key mark items = [] := by
  refine List.filter_eq_nil_iff.mpr fun item member => ?_
  simpa using bound item member

theorem upTo_append : upTo key mark (items ++ more) = upTo key mark items ++ upTo key mark more := List.filter_append _ _

/-- What is up to a mark is where a sorted list starts. -/
theorem upTo_prefix (sorted : Sorted key items) : upTo key mark items <+: items :=
  ⟨past key mark items, upTo_append_past sorted⟩

theorem mem_past {item : α} : item ∈ past key mark items ↔ item ∈ items ∧ mark < key item := by
  simp [past]

/-- A list sorted up to its last item is sorted when the last is not before any other. -/
theorem Sorted.snoc {last : α} (sorted : Sorted key items) (later : ∀ item ∈ items, key item ≤ key last) :
    Sorted key (items ++ [last]) := by
  refine List.pairwise_append.mpr ⟨sorted, List.pairwise_singleton _ _, ?_⟩
  intro item member other same
  rw [List.mem_singleton.mp same]
  exact later item member

theorem Sorted.left (sorted : Sorted key (items ++ more)) : Sorted key items := (List.pairwise_append.mp sorted).1

/-- The last item of a sorted list bounds it. -/
theorem Sorted.le_getLast (sorted : Sorted key items) (some : items ≠ []) :
    ∀ item ∈ items, key item ≤ key (items.getLast some) := by
  induction items with
  | nil => exact absurd rfl some
  | cons first rest ih =>
    obtain ⟨least, tail⟩ := List.pairwise_cons.mp sorted
    cases rest with
    | nil => simp
    | cons next rest =>
      have last := List.getLast_mem (List.cons_ne_nil next rest)
      intro item member
      rw [List.getLast_cons_cons]
      rcases List.mem_cons.mp member with rfl | later
      · exact least _ last
      · exact ih tail (List.cons_ne_nil _ _) item later

/-- Taking what is past a mark adds up: the reader has everything and marks the last item. -/
theorem upTo_append_taken {taken : List α} (sorted : Sorted key (items ++ more)) (takes : taken = past key mark items)
    (some : taken ≠ []) (beyond : ∀ item ∈ items, ∀ later ∈ more, key item < key later) :
    upTo key mark (items ++ more) ++ taken = items ∧
      upTo key (key (taken.getLast some)) (items ++ more) = items := by
  have inside : ∀ item ∈ taken, item ∈ items ∧ mark < key item := by
    rw [takes]
    exact fun _ => mem_past.mp
  have member := inside _ (List.getLast_mem some)
  have rest : ∀ later ∈ more, key (taken.getLast some) < key later := beyond _ member.1
  have bound : ∀ item ∈ items, key item ≤ key (taken.getLast some) := by
    intro item here
    rcases le_or_gt (key item) mark with before | past
    · exact before.trans member.2.le
    · have tail : Sorted key taken := by
        rw [takes]
        exact sorted.left.sublist List.filter_sublist
      refine tail.le_getLast some item ?_
      rw [takes]
      exact mem_past.mpr ⟨here, past⟩
  constructor
  · rw [upTo_append, upTo_eq_nil fun later here => member.2.trans (rest later here), List.append_nil, takes]
    exact upTo_append_past sorted.left
  · rw [upTo_append, upTo_eq_self bound, upTo_eq_nil rest, List.append_nil]

end Watermark
