import Mathlib.Data.List.Forall2

/-! # Bounded histories

`lastOf size` keeps the end of a list. A history that keeps only the end of what was recorded, entry by entry, is the end of
all that was recorded.
-/

namespace Faberun.Window

variable {α β : Type*} {size : Nat}

/-- The last entries of a list. -/
def lastOf (size : Nat) (entries : List α) : List α := entries.drop (entries.length - size)

/-- The entries before them. -/
def before (size : Nat) (entries : List α) : List α := entries.take (entries.length - size)

theorem before_append_lastOf (entries : List α) : before size entries ++ lastOf size entries = entries :=
  List.take_append_drop _ _

/-- Recording one entry more after some were dropped is recording it after all of them. -/
theorem lastOf_record (entries : List α) (entry : α) :
    lastOf size (lastOf size entries ++ [entry]) = lastOf size (entries ++ [entry]) := by
  have whole : (entries ++ [entry]).drop (entries.length - size) = entries.drop (entries.length - size) ++ [entry] :=
    List.drop_append_of_le_length (Nat.sub_le _ _)
  simp only [lastOf]
  rw [← whole, List.drop_drop]
  congr 1
  simp only [List.length_drop, List.length_append, List.length_singleton]
  omega

/-- Lists that match entry by entry have ends that do. -/
theorem forall₂_lastOf {R : α → β → Prop} {first : List α} {second : List β} (matched : List.Forall₂ R first second) :
    List.Forall₂ R (lastOf size first) (lastOf size second) := by
  rw [lastOf, lastOf, matched.length_eq]
  exact List.forall₂_drop _ matched

/-- A history that matches the end of a list still does after one entry more was recorded in both. -/
theorem forall₂_record {R : α → β → Prop} {history : List α} {entries : List β} {first : α} {second : β}
    (matched : List.Forall₂ R history (lastOf size entries)) (same : R first second) :
    List.Forall₂ R (lastOf size (history ++ [first])) (lastOf size (entries ++ [second])) := by
  rw [← lastOf_record entries second]
  exact forall₂_lastOf (List.rel_append matched (.cons same .nil))

end Faberun.Window
