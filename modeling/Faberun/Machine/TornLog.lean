import Mathlib.Data.List.Count

/-! # Append-only logs whose writes may stop short

A log lists what its writers left in it, the last write first. A record is read when it stands alone on its line: a write
that stopped short joins the line of the write after it, and then neither is read. A log that is only appended to never
gains a record but the one appended, and every short write costs it at most two.
-/

namespace Faberun

/-- How much of a record and its line break a write left. -/
inductive Written where
  | whole
  /-- The record without its line break. -/
  | unended
  /-- A part of the record. -/
  | torn
  deriving DecidableEq, Repr

structure Chunk (α : Type*) where
  record : α
  written : Written
  deriving DecidableEq, Repr

abbrev TornLog (α : Type*) := List (Chunk α)

namespace TornLog

variable {α : Type*} {log : TornLog α} {chunk : Chunk α}

/-- The next write begins a line. -/
def endsLine : TornLog α → Bool
  | [] => true
  | chunk :: _ => decide (chunk.written = .whole)

/-- The records on ended lines. -/
def ended : TornLog α → List α
  | [] => []
  | chunk :: before => if chunk.written = .whole ∧ endsLine before = true then chunk.record :: ended before else ended before

/-- The records a reader finds. -/
def committed : TornLog α → List α
  | [] => []
  | chunk :: before => if chunk.written ≠ .torn ∧ endsLine before = true then chunk.record :: ended before else ended before

def records (log : TornLog α) : List α := log.map Chunk.record

/-- The writes that stopped short. -/
def short (log : TornLog α) : Nat := log.countP fun chunk => decide (chunk.written ≠ .whole)

@[simp] theorem endsLine_cons : endsLine (chunk :: log) = decide (chunk.written = .whole) := rfl

theorem ended_sublist_committed : (ended log).Sublist (committed log) := by
  cases log with
  | nil => exact .slnil
  | cons chunk before =>
    rw [ended, committed]
    split_ifs with whole readable readable
    · exact List.Sublist.refl _
    · exact absurd ⟨by simp [whole.1], whole.2⟩ readable
    · exact List.sublist_cons_self _ _
    · exact List.Sublist.refl _

/-- A write adds no record but its own. -/
theorem committed_cons_sublist : (committed (chunk :: log)).Sublist (chunk.record :: committed log) := by
  rw [committed]
  split_ifs
  · exact ended_sublist_committed.cons_cons _
  · exact ended_sublist_committed.cons _

theorem countP_committed_cons_le (p : α → Bool) (chunk : Chunk α) (log : TornLog α) :
    (committed (chunk :: log)).countP p ≤ (committed log).countP p + if p chunk.record then 1 else 0 := by
  rw [← List.countP_cons]
  exact committed_cons_sublist.countP_le

/-- Every short write costs at most two records. -/
theorem countP_records_le (p : α → Bool) (log : TornLog α) :
    (records log).countP p ≤ (committed log).countP p + 2 * short log := by
  have kept : (records log).countP p + (if endsLine log then 0 else 1) ≤ (ended log).countP p + 2 * short log := by
    induction log with
    | nil => simp [records, endsLine]
    | cons chunk before ih =>
      obtain ⟨record, written⟩ := chunk
      simp only [records, short, List.map_cons, List.countP_cons, endsLine_cons, ended] at ih ⊢
      by_cases line : endsLine before = true <;> cases written <;> simp [line, List.countP_cons] at ih ⊢ <;> split_ifs <;> omega
  have read : (ended log).countP p ≤ (committed log).countP p := ended_sublist_committed.countP_le
  omega

end TornLog

end Faberun
