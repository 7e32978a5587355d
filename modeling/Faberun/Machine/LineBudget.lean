import Mathlib.Algebra.GroupWithZero.Nat
import Mathlib.Algebra.BigOperators.Group.List.Basic

/-! # Lines within a budget

A budget takes a line where it still fits, and carries the proof that what it took does. The latest lines that fit are the
longest end of a list that does; giving some of them back makes room for one line more. What is counted in a budget adds up
over its lines.
-/

namespace Faberun

universe u

variable {α : Type u}

/-- What some lines weigh. -/
def tally (weight : α → Nat) (lines : List α) : Nat := (lines.map weight).sum

@[simp] theorem tally_nil (weight : α → Nat) : tally weight [] = 0 := rfl

@[simp] theorem tally_cons (weight : α → Nat) (line : α) (rest : List α) :
    tally weight (line :: rest) = weight line + tally weight rest := rfl

@[simp] theorem tally_append (weight : α → Nat) (first second : List α) :
    tally weight (first ++ second) = tally weight first + tally weight second := by simp [tally]

theorem tally_eq_zero {weight : α → Nat} {lines : List α} (none : ∀ line ∈ lines, weight line = 0) : tally weight lines = 0 := by
  induction lines with
  | nil => rfl
  | cons line rest ih =>
    obtain ⟨here, later⟩ := List.forall_mem_cons.mp none
    rw [tally_cons, here, ih later]

/-- Lines of a size each, within a limit. -/
structure LineBudget (size : α → Nat) where
  limit : Nat
  lines : List α
  bounded : tally size lines ≤ limit

namespace LineBudget

variable {size : α → Nat}

def empty (size : α → Nat) (limit : Nat) : LineBudget size := ⟨limit, [], Nat.zero_le _⟩

def used (budget : LineBudget size) : Nat := tally size budget.lines

def fits (budget : LineBudget size) (line : α) : Bool := decide (budget.used + size line ≤ budget.limit)

/-- Take a line that fits. -/
def add (budget : LineBudget size) (line : α) : LineBudget size :=
  if fits : budget.used + size line ≤ budget.limit then
    ⟨budget.limit, budget.lines ++ [line], by rw [tally_append, tally_cons, tally_nil]; exact fits⟩
  else budget

/-- Take the lines that fit, one after the other. -/
def addEach (budget : LineBudget size) (lines : List α) : LineBudget size := lines.foldl add budget

/-- Take lines until one does not fit, and tell how many did. -/
def addAll (budget : LineBudget size) : List α → LineBudget size × Nat
  | [] => (budget, 0)
  | line :: rest =>
    if budget.fits line then
      let after := (budget.add line).addAll rest
      (after.1, after.2 + 1)
    else (budget, 0)

/-- Take all the lines or none. -/
def addSection (budget : LineBudget size) (lines : List α) : LineBudget size × Bool :=
  if budget.used + tally size lines ≤ budget.limit then (budget.addEach lines, true) else (budget, false)

/-- The budget gained some lines of a kind, and kept its limit. -/
def Grows (kind : α → Prop) (before after : LineBudget size) : Prop :=
  after.limit = before.limit ∧ ∃ more, after.lines = before.lines ++ more ∧ ∀ line ∈ more, kind line

section

variable {kind : α → Prop} {before middle after : LineBudget size}

theorem Grows.refl (budget : LineBudget size) : Grows kind budget budget := ⟨rfl, [], (List.append_nil _).symm, nofun⟩

theorem Grows.trans (first : Grows kind before middle) (second : Grows kind middle after) : Grows kind before after := by
  obtain ⟨limit, more, lines, all⟩ := first
  obtain ⟨limit', more', lines', all'⟩ := second
  refine ⟨limit'.trans limit, more ++ more', by rw [lines', lines, List.append_assoc], fun line member => ?_⟩
  exact (List.mem_append.mp member).elim (all line) (all' line)

theorem Grows.mono {other : α → Prop} (grows : Grows kind before after) (weaker : ∀ line, kind line → other line) :
    Grows other before after := by
  obtain ⟨limit, more, lines, all⟩ := grows
  exact ⟨limit, more, lines, fun line member => weaker line (all line member)⟩

/-- A weight the lines gained do not have stays as it is. -/
theorem Grows.tally_eq {weight : α → Nat} (grows : Grows (fun line => weight line = 0) before after) :
    tally weight after.lines = tally weight before.lines := by
  obtain ⟨-, more, lines, none⟩ := grows
  rw [lines, tally_append, tally_eq_zero none, Nat.add_zero]

end

/-- How many of the newest lines fit, when they come newest first. -/
def fitting (size : α → Nat) (limit : Nat) : Nat → List α → Nat
  | _, [] => 0
  | used, line :: older => if limit < used + size line then 0 else fitting size limit (used + size line) older + 1

/-- Give back lines, the oldest first, until there is room for one more. -/
def takeBack (size : α → Nat) (limit used more : Nat) (newest : List α) : Nat → Nat
  | 0 => 0
  | kept + 1 => if limit < used + tally size (newest.take (kept + 1)) + more then takeBack size limit used more newest kept
    else kept + 1

theorem fitting_le_length (limit used : Nat) (newest : List α) : fitting size limit used newest ≤ newest.length := by
  induction newest generalizing used with
  | nil => exact Nat.le_refl _
  | cons line older ih =>
    rw [fitting]
    split_ifs
    · exact Nat.zero_le _
    · exact Nat.succ_le_succ (ih _)

/-- The newest line fits, or none does. -/
theorem fitting_pos_iff {limit used : Nat} {newest : List α} :
    0 < fitting size limit used newest ↔ ∃ line ∈ newest.head?, used + size line ≤ limit := by
  cases newest with
  | nil => simp [fitting]
  | cons line older =>
    rw [fitting]
    split_ifs with tooBig
    · simpa using tooBig
    · simpa using tooBig

theorem takeBack_le (limit used more : Nat) (newest : List α) (kept : Nat) :
    takeBack size limit used more newest kept ≤ kept := by
  induction kept with
  | zero => exact Nat.le_refl _
  | succ kept ih =>
    rw [takeBack]
    split_ifs
    · exact Nat.le_succ_of_le ih
    · exact Nat.le_refl _

/-- Nothing is given back where there is room. -/
theorem takeBack_eq_iff {limit used more : Nat} {newest : List α} {kept : Nat} :
    takeBack size limit used more newest kept = kept ↔ kept = 0 ∨ used + tally size (newest.take kept) + more ≤ limit := by
  cases kept with
  | zero => simp [takeBack]
  | succ kept =>
    have less := @takeBack_le _ size limit used more newest kept
    rw [takeBack]
    constructor
    · intro same
      split_ifs at same with tooBig
      · omega
      · exact .inr (Nat.le_of_not_lt tooBig)
    · rintro (none | room)
      · cases none
      · rw [if_neg (Nat.not_lt.mpr room)]

/-- Some line is left exactly where the newest one has room beside what is to be added. -/
theorem takeBack_pos_iff {limit used more kept : Nat} {newest : List α} (within : kept ≤ newest.length) :
    0 < takeBack size limit used more newest kept ↔ 0 < kept ∧ ∃ line ∈ newest.head?, used + size line + more ≤ limit := by
  cases newest with
  | nil =>
    obtain rfl : kept = 0 := Nat.le_zero.mp within
    simp [takeBack]
  | cons line older =>
    simp only [List.head?_cons, Option.mem_some_iff, exists_eq_left']
    induction kept with
    | zero => simp [takeBack]
    | succ kept ih =>
      have at_ := ih (Nat.le_of_succ_le within)
      rw [takeBack, List.take_succ_cons, tally_cons]
      split_ifs with tooBig
      · rw [at_]
        rcases Nat.eq_zero_or_pos kept with rfl | some
        · simp only [List.take_zero, tally_nil] at tooBig
          omega
        · simp [some]
      · refine iff_of_true (Nat.succ_pos _) ⟨Nat.succ_pos _, ?_⟩
        omega

end LineBudget

end Faberun
