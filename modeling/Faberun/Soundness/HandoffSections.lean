import Faberun.Soundness.HandoffLines

/-! # What a section of the handoff accounts for

A section shows the newest of its lines that fit and states how many it omits. The number it states counts what did not fit, so it
is right exactly when no line is given back to make room for the note; the groups of the linked runs recount.
-/

namespace Faberun.CampaignHandoff

open LineBudget

variable {budget after : Budget} {part : Part} {lines : List Line} {omittedCount limit : Nat}

/-! ## What a section accounts for -/

theorem keptLines_le (budget : Budget) (lines : List Line) (part : Part) (omittedCount limit : Nat) :
    keptLines budget lines part omittedCount limit ≤ fittingLines budget lines limit := by
  rw [keptLines]
  split_ifs
  · exact takeBack_le ..
  · exact Nat.le_refl _

/-- Some entry is kept exactly where the newest one has room, with the note where one is due. -/
theorem keptLines_pos_iff : 0 < keptLines budget lines part omittedCount limit ↔
    ∃ newest ∈ lines.getLast?, budget.used + lineBytes newest +
      (if 0 < droppedLines budget lines omittedCount limit then
        lineBytes (omissionNote part (droppedLines budget lines omittedCount limit)) else 0) ≤ limit := by
  rw [keptLines, List.getLast?_eq_head?_reverse, fittingLines]
  split_ifs
  · rw [takeBack_pos_iff (fitting_le_length ..), fitting_pos_iff]
    refine and_iff_right_of_imp fun ⟨newest, last, room⟩ => ⟨newest, last, by omega⟩
  · exact fitting_pos_iff

/-- Nothing is given back exactly where nothing is omitted, nothing fits, or the note has room beside what fits. -/
theorem keptLines_eq_iff : keptLines budget lines part omittedCount limit = fittingLines budget lines limit ↔
    droppedLines budget lines omittedCount limit = 0 ∨ fittingLines budget lines limit = 0 ∨
      budget.used + totalLineBytes (lines.reverse.take (fittingLines budget lines limit)) +
        lineBytes (omissionNote part (droppedLines budget lines omittedCount limit)) ≤ limit := by
  rw [keptLines]
  split_ifs with due
  · exact takeBack_eq_iff.trans (or_iff_right (Nat.ne_of_gt due)).symm
  · exact iff_of_true rfl (.inl (Nat.eq_zero_of_not_pos due))

variable {weight : Mark → Nat}

/-- The lines show and state nothing of a part. -/
def Untouched (part : Part) (lines : List Line) : Prop :=
  ∀ weight, OnlyOf part weight → tally (fun line => weight line.mark) lines = 0

section

variable (within : limit ≤ budget.limit)

include within

variable {groups : List Group}

end

end Faberun.CampaignHandoff
