import Mathlib.Data.List.Infix
import Mathlib.Data.List.TakeDrop

/-! # Occurrences of a needle

The places a needle stands at, the count of a search that goes on behind each match, and counting piece by piece with a carry.
Where no
two occurrences overlap the search finds every one of them, and the pieces give what the whole gives.
-/

namespace Faberun

universe u

variable {α : Type u} [DecidableEq α]

/-- How many places the needle stands at. -/
def occurrences (needle : List α) : List α → Nat
  | [] => 0
  | a :: rest => (if needle.isPrefixOf (a :: rest) then 1 else 0) + occurrences needle rest

/-- The matches of a search that goes on behind each match; so many elements belong to the last one still. -/
def searchFrom (needle : List α) : Nat → List α → Nat
  | _, [] => 0
  | taken + 1, _ :: rest => searchFrom needle taken rest
  | 0, a :: rest => if needle.isPrefixOf (a :: rest) then searchFrom needle (needle.length - 1) rest + 1
    else searchFrom needle 0 rest

/-- No two occurrences overlap. -/
def Apart (needle text : List α) : Prop :=
  ∀ back, back <:+ text → needle <+: back → ∀ shift, 0 < shift → shift < needle.length → ¬ needle <+: back.drop shift

/-- The end of a text that could begin a needle. -/
def carried (needle text : List α) : List α := text.drop (text.length - (needle.length - 1))

variable {needle text first second : List α}

/-! ## Counting -/

theorem occurrences_of_short (short : text.length < needle.length) : occurrences needle text = 0 := by
  induction text with
  | nil => rfl
  | cons a rest ih =>
    have absent : needle.isPrefixOf (a :: rest) = false := by
      by_contra here
      have fits := (List.isPrefixOf_iff_prefix.mp (Bool.not_eq_false _ ▸ here)).length_le
      omega
    rw [List.length_cons] at short
    rw [occurrences, absent, ih (by omega)]
    rfl

omit [DecidableEq α] in
theorem carried_of_short (short : text.length < needle.length) : carried needle text = text := by
  rw [carried, Nat.sub_eq_zero_of_le (by omega), List.drop_zero]

omit [DecidableEq α] in
theorem length_carried_le (needle text : List α) : (carried needle text).length ≤ needle.length - 1 := by
  rw [carried, List.length_drop]
  omega

omit [DecidableEq α] in
private theorem carried_cons {a : α} (long : needle.length ≤ (a :: text).length) :
    carried needle (a :: text) = carried needle text := by
  cases needle with
  | nil => simp [carried]
  | cons b needle =>
    simp only [List.length_cons] at long
    have offset : (a :: text).length - ((b :: needle).length - 1) = text.length - ((b :: needle).length - 1) + 1 := by
      simp only [List.length_cons]
      omega
    rw [carried, offset, List.drop_succ_cons, carried]

/-- The occurrences of two pieces: those of the first, and those that end in the second. -/
theorem occurrences_append (needle first second : List α) :
    occurrences needle (first ++ second) = occurrences needle first + occurrences needle (carried needle first ++ second) := by
  induction first with
  | nil => simp [carried, occurrences]
  | cons a rest ih =>
    by_cases short : (a :: rest).length < needle.length
    · rw [carried_of_short short, occurrences_of_short short, Nat.zero_add]
    · have long : needle.length ≤ (a :: rest).length := Nat.le_of_not_lt short
      have same : needle.isPrefixOf (a :: (rest ++ second)) = needle.isPrefixOf (a :: rest) := by
        rw [Bool.eq_iff_iff, List.isPrefixOf_iff_prefix, List.isPrefixOf_iff_prefix, ← List.cons_append]
        exact ⟨fun here => List.prefix_of_prefix_length_le here (List.prefix_append ..) long,
          fun here => here.trans (List.prefix_append ..)⟩
      rw [List.cons_append, occurrences, same, ih, carried_cons long, occurrences, Nat.add_assoc]

omit [DecidableEq α] in
/-- The end of a long text has the same carry. -/
theorem carried_behind (first : List α) (long : needle.length - 1 ≤ second.length) :
    carried needle (first ++ second) = carried needle second := by
  have past : (first ++ second).length - (needle.length - 1) = first.length + (second.length - (needle.length - 1)) := by
    rw [List.length_append]
    omega
  rw [carried, past, List.drop_append, List.drop_eq_nil_of_le (Nat.le_add_right ..), Nat.add_sub_cancel_left]
  rfl

omit [DecidableEq α] in
theorem carried_append (needle first second : List α) :
    carried needle (carried needle first ++ second) = carried needle (first ++ second) := by
  have split : first ++ second = first.take (first.length - (needle.length - 1)) ++ (carried needle first ++ second) := by
    rw [carried, ← List.append_assoc, List.take_append_drop]
  by_cases short : first.length < needle.length - 1
  · have all : carried needle first = first := by rw [carried, Nat.sub_eq_zero_of_le (Nat.le_of_lt short), List.drop_zero]
    rw [all]
  · conv_rhs => rw [split]
    refine (carried_behind _ ?_).symm
    rw [carried, List.length_append, List.length_drop]
    omega

/-- Where the needle stands at none of the first places, they are passed over. -/
private theorem occurrences_drop {count : Nat} (absent : ∀ shift < count, ¬ needle <+: text.drop shift) :
    occurrences needle text = occurrences needle (text.drop count) := by
  induction count generalizing text with
  | zero => rfl
  | succ count ih =>
    cases text with
    | nil => rfl
    | cons a rest =>
      have here : needle.isPrefixOf (a :: rest) = false := by
        by_contra found
        exact absent 0 (Nat.succ_pos count) (List.isPrefixOf_iff_prefix.mp (Bool.not_eq_false _ ▸ found))
      have later : ∀ shift < count, ¬ needle <+: rest.drop shift := fun shift small => absent (shift + 1) (Nat.succ_lt_succ small)
      rw [occurrences, here, List.drop_succ_cons, ← ih later]
      exact Nat.zero_add _

theorem searchFrom_drop (needle : List α) (taken : Nat) (text : List α) :
    searchFrom needle taken text = searchFrom needle 0 (text.drop taken) := by
  induction taken generalizing text with
  | zero => rfl
  | succ taken ih =>
    cases text with
    | nil => rfl
    | cons a rest => rw [searchFrom, List.drop_succ_cons, ih rest]

/-! ## Needles that do not overlap -/

omit [DecidableEq α] in
theorem Apart.nil (needle : List α) : Apart needle [] := by
  intro back ends begins shift some small
  rw [List.suffix_nil.mp ends, List.prefix_nil] at begins
  rw [begins] at small
  exact absurd small (Nat.not_lt_zero shift)

omit [DecidableEq α] in
theorem Apart.within (apart : Apart needle text) (inside : first <:+: text) : Apart needle first := by
  obtain ⟨before, after, rfl⟩ := inside
  intro back ends begins shift some small again
  obtain ⟨front, rfl⟩ := ends
  refine apart (back ++ after) ⟨before ++ front, by simp⟩ (begins.trans (List.prefix_append ..)) shift some small ?_
  rw [List.drop_append_of_le_length (by have := begins.length_le; omega)]
  exact again.trans (List.prefix_append ..)

omit [DecidableEq α] in
/-- A needle does not reach over an element it does not hold. -/
private theorem prefix_of_foreign {a : α} (foreign : a ∉ needle) (begins : needle <+: first ++ a :: second) :
    needle <+: first := by
  rcases List.prefix_or_prefix_of_prefix begins (List.prefix_append first (a :: second)) with inside | ⟨rest, rfl⟩
  · exact inside
  · rw [List.prefix_append_right_inj] at begins
    cases rest with
    | nil => rw [List.append_nil]
    | cons b rest =>
      rw [List.cons_prefix_cons] at begins
      refine absurd ?_ foreign
      rw [← begins.1]
      simp

omit [DecidableEq α] in
theorem Apart.append_cons {a : α} (foreign : a ∉ needle) (before : Apart needle first) (after : Apart needle second) :
    Apart needle (first ++ a :: second) := by
  intro back ends begins shift some small again
  obtain ⟨front, same⟩ := ends
  rcases List.append_eq_append_iff.mp same with ⟨inner, rfl, rfl⟩ | ⟨inner, rfl, inside⟩
  rotate_left
  · rcases List.suffix_cons_iff.mp ⟨inner, inside.symm⟩ with rfl | inside
    · have none : needle <+: [] := prefix_of_foreign foreign begins
      rw [List.prefix_nil.mp none] at small
      exact absurd small (Nat.not_lt_zero shift)
    · exact after back inside begins shift some small again
  · have whole := prefix_of_foreign foreign begins
    have again : needle <+: inner.drop shift ++ a :: second := by
      rwa [List.drop_append_of_le_length (by have := whole.length_le; omega)] at again
    exact before inner ⟨front, rfl⟩ whole shift some small (prefix_of_foreign foreign again)

/-- Where no two occurrences overlap the search finds all of them. -/
theorem searchFrom_eq (apart : Apart needle text) : searchFrom needle 0 text = occurrences needle text := by
  induction size : text.length using Nat.strongRecOn generalizing text with
  | ind size ih =>
    cases text with
    | nil => rfl
    | cons a rest =>
      rw [List.length_cons] at size
      rw [searchFrom, occurrences]
      by_cases here : needle.isPrefixOf (a :: rest) = true
      · have begins := List.isPrefixOf_iff_prefix.mp here
        have absent : ∀ shift < needle.length - 1, ¬ needle <+: rest.drop shift := by
          intro shift small
          have overlap := apart (a :: rest) (List.suffix_refl _) begins (shift + 1) (Nat.succ_pos shift) (by omega)
          rwa [List.drop_succ_cons] at overlap
        have inside : rest.drop (needle.length - 1) <:+: a :: rest :=
          ((List.drop_suffix ..).trans (List.suffix_cons a rest)).isInfix
        rw [if_pos here, if_pos here, searchFrom_drop, ih _ (by rw [List.length_drop]; omega) (apart.within inside) rfl,
          ← occurrences_drop absent, Nat.add_comm]
      · rw [if_neg here, if_neg here, ih _ (by omega) (apart.within (List.suffix_cons a rest).isInfix) rfl, Nat.zero_add]

/-! ## A foreign element -/

private theorem isPrefixOf_foreign {a : α} (foreign : a ∉ needle) (first second : List α) :
    needle.isPrefixOf (first ++ a :: second) = needle.isPrefixOf first := by
  rw [Bool.eq_iff_iff, List.isPrefixOf_iff_prefix, List.isPrefixOf_iff_prefix]
  exact ⟨prefix_of_foreign foreign, fun begins => begins.trans (List.prefix_append ..)⟩

/-- An element the needle does not hold splits a search. -/
theorem searchFrom_foreign {a : α} (some : needle ≠ []) (foreign : a ∉ needle) (first second : List α) :
    searchFrom needle 0 (first ++ a :: second) = searchFrom needle 0 first + searchFrom needle 0 second := by
  induction size : first.length using Nat.strongRecOn generalizing first with
  | ind size ih =>
    cases first with
    | nil =>
      have absent : needle.isPrefixOf (a :: second) = false := by
        rw [← List.nil_append (a :: second), isPrefixOf_foreign foreign]
        cases needle with
        | nil => exact absurd rfl some
        | cons b needle => rfl
      simp only [List.nil_append, searchFrom, absent, Bool.false_eq_true, if_false, Nat.zero_add]
    | cons b rest =>
      rw [List.length_cons] at size
      rw [List.cons_append, searchFrom, searchFrom, ← List.cons_append, isPrefixOf_foreign foreign]
      split_ifs with here
      · have fits := (List.isPrefixOf_iff_prefix.mp here).length_le
        rw [List.length_cons] at fits
        have split := ih (rest.drop (needle.length - 1)).length (by rw [List.length_drop]; omega) _ rfl
        rw [searchFrom_drop, List.drop_append_of_le_length (by omega), split, searchFrom_drop needle (needle.length - 1) rest]
        omega
      · exact ih _ (by omega) _ rfl

end Faberun
