import Mathlib.Data.List.TakeWhile

/-! # Lines under headings

A scan over lines that finds headings: each heading with its place and the lines under it, up to the next line that opens a
block. A block
is where its heading stands, so two of them that hold the same place are one.
-/

namespace Faberun.Headings

universe u v

variable {α : Type u} {τ : Type v}

/-- The lines up to the next one that opens a block. -/
def under (opens : α → Bool) (lines : List α) : List α := lines.takeWhile fun line => !opens line

/-- The blocks of some lines: the place of the heading, what it says, and the lines under it. -/
def blocks (heading : α → Option τ) (opens : α → Bool) : Nat → List α → List (Nat × τ × List α)
  | _, [] => []
  | place, line :: rest =>
    match heading line with
    | some title => (place, title, under opens rest) :: blocks heading opens (place + 1) rest
    | none => blocks heading opens (place + 1) rest

variable {heading : α → Option τ} {opens : α → Bool} {lines : List α} {place start : Nat} {title : τ} {body : List α}

/-- A block of the lines is a place where a heading stands. -/
theorem mem_blocks : (place, title, body) ∈ blocks heading opens start lines ↔
    ∃ before line after, lines = before ++ line :: after ∧ heading line = some title ∧ place = start + before.length ∧
      body = under opens after := by
  induction lines generalizing start with
  | nil => simp [blocks]
  | cons first rest ih =>
    have later : (place, title, body) ∈ blocks heading opens (start + 1) rest ↔
        ∃ before line after, first :: rest = (first :: before) ++ line :: after ∧ heading line = some title ∧
          place = start + (first :: before).length ∧ body = under opens after := by
      rw [ih]
      simp only [List.cons_append, List.cons.injEq, true_and, List.length_cons]
      simp only [Nat.add_assoc, Nat.add_comm 1]
    have cases : (∃ before line after, first :: rest = before ++ line :: after ∧ heading line = some title ∧
          place = start + before.length ∧ body = under opens after) ↔
        (heading first = some title ∧ place = start ∧ body = under opens rest) ∨
          ∃ before line after, first :: rest = (first :: before) ++ line :: after ∧ heading line = some title ∧
            place = start + (first :: before).length ∧ body = under opens after := by
      constructor
      · rintro ⟨before, line, after, split, reads, here, same⟩
        cases before with
        | nil =>
          obtain ⟨rfl, rfl⟩ := List.cons.inj split
          exact .inl ⟨reads, here, same⟩
        | cons head before =>
          obtain ⟨rfl, -⟩ := List.cons.inj split
          exact .inr ⟨before, line, after, split, reads, here, same⟩
      · rintro (⟨reads, here, same⟩ | ⟨before, line, after, split, reads, here, same⟩)
        · exact ⟨[], first, rest, rfl, reads, here, same⟩
        · exact ⟨first :: before, line, after, split, reads, here, same⟩
    rw [cases, ← later, blocks]
    cases reads : heading first with
    | none => simp
    | some own =>
      simp only [List.mem_cons, Prod.mk.injEq, Option.some.injEq]
      constructor
      · rintro (⟨rfl, rfl, rfl⟩ | member)
        · exact .inl ⟨rfl, rfl, rfl⟩
        · exact .inr member
      · rintro (⟨rfl, rfl, rfl⟩ | member)
        · exact .inl ⟨rfl, rfl, rfl⟩
        · exact .inr member

/-- No block is wanted where no heading is. -/
private theorem filter_blocks_eq_nil_iff (wanted : τ → Bool) :
    (blocks heading opens start lines).filter (fun block => wanted block.2.1) = [] ↔
    ∀ line ∈ lines, ∀ other, heading line = some other → wanted other = false := by
  rw [List.filter_eq_nil_iff]
  constructor
  · intro none line member other reads
    obtain ⟨before, after, split⟩ := List.append_of_mem member
    have found : (start + before.length, other, under opens after) ∈ blocks heading opens start lines :=
      mem_blocks.mpr ⟨before, line, after, split, reads, rfl, rfl⟩
    exact Bool.eq_false_iff.mpr (none _ found)
  · rintro none ⟨place, other, body⟩ found
    obtain ⟨before, line, after, rfl, reads, -⟩ := mem_blocks.mp found
    exact Bool.eq_false_iff.mp (none line (List.mem_append_right before List.mem_cons_self) other reads)

/-- The last block whose heading says one of some things. -/
theorem getLast?_blocks (wanted : τ → Bool) : ((blocks heading opens start lines).filter fun block => wanted block.2.1).getLast? =
      some (place, title, body) ↔
    ∃ before line after, lines = before ++ line :: after ∧ heading line = some title ∧ place = start + before.length ∧
      body = under opens after ∧ wanted title = true ∧ ∀ later ∈ after, ∀ other, heading later = some other → wanted other =
        false := by
  induction lines generalizing start with
  | nil => simp [blocks]
  | cons first rest ih =>
    have own : ((blocks heading opens start (first :: rest)).filter fun block => wanted block.2.1).getLast? =
      some (place, title, body) ↔
        ((blocks heading opens (start + 1) rest).filter fun block => wanted block.2.1).getLast? = some (place, title, body) ∨
        ((blocks heading opens (start + 1) rest).filter fun block => wanted block.2.1) = [] ∧ heading first = some title ∧
          wanted title = true ∧ place = start ∧ body = under opens rest := by
      generalize later : (blocks heading opens (start + 1) rest).filter (fun block => wanted block.2.1) = others
      rw [blocks]
      cases reads : heading first with
      | none => simp [later]
      | some said =>
        cases here : wanted said with
        | false =>
          simp only [List.filter_cons, here, Bool.false_eq_true, if_false, later, Option.some.injEq]
          refine ⟨.inl, ?_⟩
          rintro (found | ⟨-, rfl, hit, -⟩)
          · exact found
          · rw [here] at hit
            contradiction
        | true =>
          simp only [List.filter_cons, here, if_true, later, List.getLast?_cons, Option.some.injEq]
          cases last : others.getLast? with
          | some block =>
            have some : others ≠ [] := by
              rintro rfl
              contradiction
            simp [some]
          | none =>
            have none : others = [] := List.getLast?_eq_none_iff.mp last
            simp only [none, Option.getD_none, Prod.mk.injEq, reduceCtorEq, false_or, true_and]
            constructor
            · rintro ⟨rfl, rfl, rfl⟩
              exact ⟨rfl, here, rfl, rfl⟩
            · rintro ⟨rfl, -, rfl, rfl⟩
              exact ⟨rfl, rfl, rfl⟩
    rw [own, ih, filter_blocks_eq_nil_iff]
    constructor
    · rintro (⟨before, line, after, rfl, reads, rfl, same, here, later⟩ | ⟨later, reads, here, rfl, same⟩)
      · refine ⟨first :: before, line, after, rfl, reads, ?_, same, here, later⟩
        rw [List.length_cons]
        omega
      · exact ⟨[], first, rest, rfl, reads, rfl, same, here, later⟩
    · rintro ⟨before, line, after, split, reads, rfl, same, here, later⟩
      cases before with
      | nil =>
        obtain ⟨rfl, rfl⟩ := List.cons.inj split
        exact .inr ⟨later, reads, here, rfl, same⟩
      | cons head before =>
        obtain ⟨rfl, rfl⟩ := List.cons.inj split
        refine .inl ⟨before, line, after, rfl, reads, ?_, same, here, later⟩
        rw [List.length_cons]
        omega

/-! ## Places -/

/-- A line that opens a block stands under none before it. -/
private theorem not_under {before before' after after' : List α} {line line' : α}
    (split : before ++ line :: after = before' ++ line' :: after') (opened : opens line' =
      true) (earlier : before.length < before'.length) :
    before.length + (under opens after).length < before'.length := by
  rcases List.append_eq_append_iff.mp split with ⟨inner, rfl, rest⟩ | ⟨inner, rfl, -⟩
  · cases inner with
    | nil => simp at earlier
    | cons head inner =>
      have rest : after = inner ++ line' :: after' := (List.cons.inj rest).2
      have stops : (line' :: after').takeWhile (fun line => !opens line) = [] :=
        List.takeWhile_cons_of_neg (by rw [opened]; decide)
      have fits : (under opens (inner ++ line' :: after')).length ≤ inner.length := by
        rw [under, List.takeWhile_append]
        split_ifs
        · rw [stops, List.append_nil]
        · exact (List.takeWhile_prefix _).length_le
      rw [rest, List.length_append, List.length_cons]
      omega
  · rw [List.length_append] at earlier
    omega

/-- Two places that open a block and hold the same line are one. -/
theorem enclosing_unique {before before' after after' : List α} {line line' : α} (held : Nat)
    (split : before ++ line :: after = before' ++ line' :: after') (opened : opens line = true) (opened' : opens line' = true)
    (first : before.length ≤ held) (last : held ≤ before.length + (under opens after).length)
    (first' : before'.length ≤ held) (last' : held ≤ before'.length + (under opens after').length) :
    before = before' ∧ line = line' ∧ after = after' := by
  have same : before.length = before'.length := by
    rcases Nat.lt_trichotomy before.length before'.length with earlier | same | later
    · have := not_under split opened' earlier
      omega
    · exact same
    · have := not_under split.symm opened later
      omega
  obtain ⟨rfl, rest⟩ := List.append_inj split same
  exact ⟨rfl, List.cons.inj rest⟩

end Faberun.Headings
