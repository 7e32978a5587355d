import Mathlib.Data.List.TakeDrop
import Faberun.Model.Campaign.Handoff

/-! # The lines of the handoff

Every call adds lines of its own parts only, to a budget whose text is within its bytes. Of the groups of the linked runs the
newest
are kept, and what is given back is counted.
-/

namespace Faberun.CampaignHandoff

open LineBudget

variable {budget after : Budget} {part : Part} {lines : List Line} {omittedCount limit : Nat}

/-! ## Bytes -/

/-- A line of some parts, or of none. -/
def OfParts (parts : List Part) (line : Line) : Prop :=
  match line.mark with
  | .entry part _ | .omitted part _ => part ∈ parts
  | .plain => True

theorem OfParts.mono {parts others : List Part} (subset : parts ⊆ others) {line : Line} (own : OfParts parts line) :
    OfParts others line := by
  obtain ⟨text, mark⟩ := line
  cases mark with
  | entry => exact subset own
  | omitted => exact subset own
  | plain => trivial

/-- A weight on marks that only a part has. -/
def OnlyOf (part : Part) (weight : Mark → Nat) : Prop :=
  weight .plain = 0 ∧ ∀ other, other ≠ part → (∀ index, weight (.entry other index) = 0) ∧
    ∀ count, weight (.omitted other count) = 0

/-- One for an entry of a part. -/
def shown (part : Part) (keep : Nat → Bool) : Mark → Nat
  | .entry of index => if of = part ∧ keep index = true then 1 else 0
  | _ => 0

/-- The parts a call renders. -/
def Call.parts : Call → List Part
  | .critical part _ _ _ | .lowPriority part _ _ => [part]
  | .linkedRuns _ _ _ => [.attention, .regular]

/-- The lines are marked by their places. -/
def MarkedLines (part : Part) (lines : List Line) :
    Prop := ∀ (index : Nat) (line : Line), lines[index]? = some line → line.mark = .entry part index

/-- The lines of a group are marked by its place. -/
def MarkedGroups (part : Part) (groups : List Group) : Prop :=
  ∀ (index : Nat) (group : Group), groups[index]? = some group → ∀ line ∈ group.lines, line.mark = .entry part index

def Call.Marked : Call → Prop
  | .critical part lines _ _ | .lowPriority part lines _ => MarkedLines part lines
  | .linkedRuns attention regular _ => MarkedGroups .attention attention ∧ MarkedGroups .regular regular

/-- The lines are entries of a part. -/
def EntriesOf (part : Part) (lines : List Line) : Prop := ∀ line ∈ lines, ∃ index, line.mark = .entry part index

private theorem EntriesOf.ofParts (entries : EntriesOf part lines) {parts : List Part} (member : part ∈ parts) :
    ∀ line ∈ lines, OfParts parts line := by
  intro line here
  obtain ⟨index, mark⟩ := entries line here
  rw [OfParts, mark]
  exact member

/-- What of some groups, the newest first, is rendered: nothing is miscounted, what there is has room, and the newest is in it. -/
structure Fitted (limit projected : Nat) (groups : List Group) (rendered : List (List Line)) (omitted : Nat) : Prop where
  counted : rendered.flatten.length + omitted = (groups.map (·.lines.length)).sum
  subset : ∀ some ∈ rendered, ∃ group ∈ groups, some ⊆ group.lines
  room : rendered ≠ [] → projected + totalLineBytes rendered.flatten ≤ limit
  latest : ∀ last ∈ rendered.getLast?, ∃ newest ∈ groups.head?, newest.summary ∈ last

private theorem Fitted.cons {limit projected : Nat} {group : Group} {older : List Group}
    {rendered : List (List Line)} {omitted : Nat} {kept : List Line}
    (fitted : Fitted limit (projected + totalLineBytes kept) older rendered omitted) (subset : kept ⊆ group.lines)
    (fewer : kept.length ≤ group.lines.length) (room : projected + totalLineBytes kept ≤ limit) (summary : group.summary ∈ kept) :
    Fitted limit projected (group :: older) (rendered ++ [kept]) (omitted + (group.lines.length - kept.length)) where
  counted := by
    have counted := fitted.counted
    simp only [List.flatten_append, List.flatten_singleton, List.length_append, List.map_cons, List.sum_cons]
    omega
  subset some member := by
    rcases List.mem_append.mp member with before | here
    · obtain ⟨other, member', subset'⟩ := fitted.subset some before
      exact ⟨other, List.mem_cons_of_mem _ member', subset'⟩
    · exact ⟨group, List.mem_cons_self .., List.mem_singleton.mp here ▸ subset⟩
  room _ := by
    rw [List.flatten_append, List.flatten_singleton, totalLineBytes, tally_append]
    by_cases nothing : rendered = []
    · rw [nothing, List.flatten_nil, tally_nil]
      exact (Nat.zero_add (tally lineBytes kept)).symm ▸ room
    · have before := fitted.room nothing
      rw [totalLineBytes, totalLineBytes] at before
      omega
  latest last member := by
    rw [List.getLast?_concat, Option.mem_some_iff] at member
    exact ⟨group, rfl, member ▸ summary⟩

/-- Giving back the oldest group states it as omitted. -/
private theorem Fitted.tail {limit projected : Nat} {groups : List Group} {oldest : List Line}
    {rest : List (List Line)} {omitted : Nat} (fitted : Fitted limit projected groups (oldest :: rest) omitted) :
    Fitted limit projected groups rest (omitted + oldest.length) where
  counted := by
    have counted := fitted.counted
    rw [List.flatten_cons, List.length_append] at counted
    omega
  subset some member := fitted.subset some (List.mem_cons_of_mem _ member)
  room _ := by
    have room := fitted.room nofun
    rw [List.flatten_cons, totalLineBytes, tally_append] at room
    exact Nat.le_trans (Nat.add_le_add_left (Nat.le_add_left ..) _) room
  latest last member := by
    cases rest with
    | nil => cases member
    | cons next later => exact fitted.latest last (by rw [List.getLast?_cons_cons]; exact member)

end Faberun.CampaignHandoff
