import Mathlib.Data.List.DropRight
import Mathlib.Data.List.Infix

/-! # Breaking a text at a marker, and trimming it

`breakOn` finds the first occurrence of a marker and gives what stands before it and after it. Trimming takes blanks off
an end; what is not blank stays, in order.
-/

namespace Faberun.BreakOn

variable {α : Type*} [DecidableEq α]

/-- What stands before the first occurrence of a marker and after it. -/
def breakOn (marker : List α) : List α → Option (List α × List α)
  | [] => if marker = [] then some ([], []) else none
  | c :: rest =>
    if marker.isPrefixOf (c :: rest) then some ([], (c :: rest).drop marker.length)
    else (breakOn marker rest).map fun parts => (c :: parts.1, parts.2)

/-- What follows a marker a text begins with. -/
def behind (marker text : List α) : Option (List α) := if marker.isPrefixOf text then some (text.drop marker.length) else none

variable {marker text before after more : List α}

private theorem prefix_iff {text : List α} : marker.isPrefixOf text = true ↔ marker <+: text := List.isPrefixOf_iff_prefix

theorem behind_eq_some_iff : behind marker text = some after ↔ text = marker ++ after := by
  rw [behind]
  split_ifs with begins
  · obtain ⟨rest, rfl⟩ := prefix_iff.mp begins
    rw [List.drop_left, Option.some.injEq, List.append_cancel_left_eq]
  · refine ⟨nofun, ?_⟩
    rintro rfl
    exact absurd (prefix_iff.mpr (List.prefix_append marker after)) begins

theorem eq_of_breakOn (found : breakOn marker text = some (before, after)) : text = before ++ marker ++ after := by
  induction text generalizing before with
  | nil =>
    unfold breakOn at found
    split at found
    · rename_i empty
      obtain ⟨rfl, rfl⟩ := Prod.mk.inj (Option.some.inj found)
      rw [empty]
      rfl
    · cases found
  | cons c rest ih =>
    unfold breakOn at found
    split at found
    · rename_i here
      obtain ⟨rfl, rfl⟩ := Prod.mk.inj (Option.some.inj found)
      obtain ⟨tail, same⟩ := prefix_iff.mp here
      rw [← same, List.drop_left, List.nil_append]
    · obtain ⟨⟨first, last⟩, inside, same⟩ := Option.map_eq_some_iff.mp found
      obtain ⟨rfl, rfl⟩ := Prod.mk.inj same
      exact congrArg (c :: ·) (ih inside)

/-- A text that starts with the marker is broken there. -/
theorem breakOn_marker (some : marker ≠ []) (after : List α) : breakOn marker (marker ++ after) = .some ([], after) := by
  cases whole : marker ++ after with
  | nil => exact absurd (List.append_eq_nil_iff.mp whole).1 some
  | cons c rest =>
    rw [breakOn, if_pos (prefix_iff.mpr ⟨after, whole⟩), ← whole, List.drop_left]

/-- Nothing is found exactly where the marker does not occur. -/
theorem breakOn_eq_none_iff : breakOn marker text = none ↔ ¬ marker <:+: text := by
  induction text with
  | nil =>
    rw [breakOn, List.infix_nil]
    split <;> simp_all
  | cons c rest ih =>
    rw [breakOn, List.infix_cons_iff, ← prefix_iff]
    split
    · rename_i here
      simp [here]
    · rename_i other
      rw [Option.map_eq_none_iff, ih]
      simp [other]

/-- Before the first occurrence there is none. -/
theorem notInfix_before (some : marker ≠ []) (found : breakOn marker text = .some (before, after)) : ¬ marker <:+: before := by
  induction text generalizing before with
  | nil =>
    rw [breakOn, if_neg some] at found
    cases found
  | cons c rest ih =>
    unfold breakOn at found
    split at found
    · obtain ⟨rfl, rfl⟩ := Prod.mk.inj (Option.some.inj found)
      rw [List.infix_nil]
      exact some
    · rename_i other
      obtain ⟨⟨first, last⟩, inside, same⟩ := Option.map_eq_some_iff.mp found
      obtain ⟨rfl, rfl⟩ := Prod.mk.inj same
      rw [List.infix_cons_iff, not_or]
      refine ⟨fun here => other (prefix_iff.mpr ?_), ih inside⟩
      rw [eq_of_breakOn inside, ← List.cons_append, ← List.cons_append, List.append_assoc]
      exact here.trans (List.prefix_append _ _)

/-- What follows a text does not change where it is broken. -/
theorem breakOn_append (found : breakOn marker text = some (before, after)) :
    breakOn marker (text ++ more) = some (before, after ++ more) := by
  induction text generalizing before with
  | nil =>
    unfold breakOn at found
    split at found
    · rename_i empty
      obtain ⟨rfl, rfl⟩ := Prod.mk.inj (Option.some.inj found)
      subst empty
      cases more with
      | nil => rfl
      | cons c rest => rfl
    · cases found
  | cons c rest ih =>
    unfold breakOn at found
    rw [List.cons_append, breakOn]
    split at found
    · rename_i here
      obtain ⟨rfl, rfl⟩ := Prod.mk.inj (Option.some.inj found)
      obtain ⟨tail, same⟩ := prefix_iff.mp here
      have starts : marker <+: c :: (rest ++ more) := ⟨tail ++ more, by rw [← List.append_assoc, same, List.cons_append]⟩
      rw [if_pos (prefix_iff.mpr starts), ← List.cons_append, ← same, List.append_assoc, List.drop_left, List.drop_left]
    · rename_i other
      obtain ⟨⟨first, last⟩, inside, same⟩ := Option.map_eq_some_iff.mp found
      obtain ⟨rfl, rfl⟩ := Prod.mk.inj same
      have long : marker.length ≤ (c :: rest).length := by
        rw [eq_of_breakOn inside]
        simp only [List.length_cons, List.length_append]
        omega
      have still : ¬ marker <+: c :: (rest ++ more) := by
        intro starts
        exact other (prefix_iff.mpr (List.prefix_of_prefix_length_le starts (List.prefix_append (c :: rest) more) long))
      rw [if_neg (mt prefix_iff.mp still), ih inside]
      rfl

omit [DecidableEq α] in
private theorem prefix_of_separated {c : α} (apart : c ∉ marker) {rest : List α} (starts : marker <+: text ++ c :: rest) :
    marker <+: text := by
  rcases Nat.lt_or_ge text.length marker.length with long | short
  · rw [List.append_cons] at starts
    have sizes : (text ++ [c]).length ≤ marker.length := by
      rw [List.length_append, List.length_singleton]
      exact long
    have inside : text ++ [c] <+: marker := List.prefix_of_prefix_length_le (List.prefix_append _ _) starts sizes
    exact absurd (inside.subset (List.mem_append_right _ List.mem_cons_self)) apart
  · exact List.prefix_of_prefix_length_le starts (List.prefix_append _ _) short

/-- A character that is not in the marker separates what stands before it. -/
theorem breakOn_separated {c : α} (apart : c ∉ marker) (some : marker ≠ []) (none : ¬ marker <:+: before) (rest : List α) :
    breakOn marker (before ++ c :: rest) = (breakOn marker rest).map fun parts => (before ++ c :: parts.1, parts.2) := by
  induction before with
  | nil =>
    have other : ¬ marker <+: c :: rest := fun starts =>
      some (List.prefix_nil.mp (@prefix_of_separated _ marker [] c apart rest starts))
    rw [List.nil_append, breakOn, if_neg (mt prefix_iff.mp other)]
    rfl
  | cons d before ih =>
    rw [List.infix_cons_iff, not_or] at none
    have other : ¬ marker <+: d :: (before ++ c :: rest) := fun starts =>
      none.1 (@prefix_of_separated _ marker (d :: before) c apart rest starts)
    rw [List.cons_append, breakOn, if_neg (mt prefix_iff.mp other), ih none.2, Option.map_map]
    rfl

/-! ## Trimming -/

section Trim

omit [DecidableEq α]

variable {blank : α → Bool}

/-- What is not blank, in order. -/
def visible (blank : α → Bool) (text : List α) : List α := text.filter fun c => !blank c

@[simp] theorem visible_append (first second : List α) :
    visible blank (first ++ second) = visible blank first ++ visible blank second := List.filter_append ..

theorem visible_eq_nil_iff : visible blank text = [] ↔ ∀ c ∈ text, blank c = true := by
  simp [visible]

@[simp] theorem visible_dropWhile : visible blank (text.dropWhile blank) = visible blank text := by
  induction text with
  | nil => rfl
  | cons c rest ih =>
    cases here : blank c with
    | true => simpa [List.dropWhile, visible, here] using ih
    | false => simp [List.dropWhile, here]

@[simp] theorem visible_rdropWhile : visible blank (text.rdropWhile blank) = visible blank text := by
  have reversed := @visible_dropWhile α text.reverse blank
  simp only [visible, List.rdropWhile, List.filter_reverse] at reversed ⊢
  rw [reversed, List.reverse_reverse]

/-- A text that was trimmed and then goes on with blanks is trimmed to itself. -/
theorem rdropWhile_append_blank (blanks : ∀ c ∈ more, blank c = true) :
    (text.rdropWhile blank ++ more).rdropWhile blank = text.rdropWhile blank := by
  rw [List.rdropWhile, List.reverse_append, List.dropWhile_append_of_pos (fun c member => blanks c (List.mem_reverse.mp member))]
  simp [List.rdropWhile, List.dropWhile_idempotent]

theorem dropWhile_blank_append (blanks : ∀ c ∈ more, blank c = true) : (more ++ text).dropWhile blank = text.dropWhile blank :=
  List.dropWhile_append_of_pos blanks

/-- Trimming leaves nothing exactly of blanks. -/
theorem dropWhile_eq_nil_iff_visible : text.dropWhile blank = [] ↔ visible blank text = [] := by
  rw [List.dropWhile_eq_nil_iff, visible_eq_nil_iff]

/-- What is added behind a text that was not all blank stays behind it. -/
theorem dropWhile_append (some : text.dropWhile blank ≠ []) (more : List α) :
    (text ++ more).dropWhile blank = text.dropWhile blank ++ more := by
  induction text with
  | nil => exact absurd rfl some
  | cons c rest ih =>
    rw [List.cons_append, List.dropWhile_cons, List.dropWhile_cons] at *
    split
    · rename_i here
      rw [if_pos here] at some
      exact ih some
    · rfl

end Trim

end Faberun.BreakOn
