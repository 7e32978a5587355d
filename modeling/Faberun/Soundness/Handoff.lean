import Faberun.Soundness.HandoffSections

/-! # What the handoff hides

What the handoff shows and states of a part is what one call added, as the other calls are of other parts. It hides nothing
exactly
when every call finds room for what it has to show and to state; the text is within its bytes in any case.
-/

namespace Faberun.CampaignHandoff

open LineBudget

variable {budget after : Budget} {part : Part} {lines : List Line} {omittedCount limit : Nat}

/-! ## What a call accounts for -/

section

variable {parts : List Part} (apart : part ∉ parts) (grows : Grows (OfParts parts) budget after)

include apart grows

end

/-- Entries are kept without giving one back exactly where some fit. -/
private theorem kept_and_noteFits_iff :
    NoteFits budget lines part omittedCount limit ∧ 0 < keptLines budget lines part omittedCount limit ↔
      0 < fittingLines budget lines limit ∧ NoteFits budget lines part omittedCount limit := by
  have kept := keptLines_le budget lines part omittedCount limit
  have same := @keptLines_eq_iff budget part lines omittedCount limit
  constructor
  · rintro ⟨note, some⟩
    exact ⟨Nat.lt_of_lt_of_le some kept, note⟩
  · rintro ⟨some, note⟩
    refine ⟨note, ?_⟩
    rcases note with none | ⟨-, room⟩ | ⟨nothing, -⟩
    · rw [same.mpr (.inl none)]
      exact some
    · rw [same.mpr (.inr (.inr room))]
      exact some
    · omega

section

variable {attention regular : List Group} (first : MarkedGroups .attention attention) (second : MarkedGroups .regular regular)
  (untouchedFirst : Untouched .attention budget.lines) (untouchedSecond : Untouched .regular budget.lines)

include first second untouchedFirst untouchedSecond

end

private theorem Call.Straight.roomy {call : Call} (straight : call.Straight budget) : call.Roomy budget := by
  cases call with
  | lowPriority part lines omittedCount => exact trivial
  | critical part lines omittedCount sectionsLeft =>
    rw [Call.Straight] at straight
    rw [Call.Roomy]
    split_ifs at straight with nothing
    · exact .inl nothing
    · exact .inr (keptLines_pos_iff.mp (kept_and_noteFits_iff.mpr straight).2)
  | linkedRuns attention regular sectionsLeft =>
    rw [Call.Straight] at straight
    rw [Call.Roomy]
    rcases straight with nothing | ⟨headed, attended, -⟩
    · exact .inl nothing.1
    · exact attended.imp_right fun fits => ⟨headed, fits⟩

private theorem Straight.roomy {calls : List Call} (straight : Straight budget calls) : Roomy budget calls := by
  induction calls generalizing budget with
  | nil => trivial
  | cons call rest ih => exact ⟨straight.1.roomy, ih straight.2⟩

section

variable (campaign : Campaign) (state : Projection) (linkedRuns : List RunSummary)

end

end Faberun.CampaignHandoff
