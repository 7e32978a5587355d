import Faberun.Machine.Core
import Faberun.Machine.Watermark
import Faberun.Model.Campaign.Watch

/-! # What a watch cursor delivers

When the entries are written in the order of their positions, sorting them changes nothing, and what the calls on a
cursor have returned is what the journal has up to the cursor (`Feed.Ordered`). An entry written later with an earlier
position is behind the cursor already: no call on the cursor returns it.
-/

namespace Faberun.Journal

open Watermark

variable {ν : Type} {cursorId : String} {feed next : Feed ν}

/-! ## One call -/

private theorem not_pos_iff {left right : Position} : compareJournalPositions left right ≤ 0 ↔ left ≤ right := by
  rw [← not_lt, compareJournalPositions_pos_iff, not_lt]

/-- The unseen entries of a sorted journal are those past the cursor. -/
theorem unseen_sortEntries {journal : List (Entry ν)} (sorted : Sorted positionOf (narrative journal))
    (position : Position) : unseen (sortEntries journal) position = past positionOf position (narrative journal) := by
  have ordered : (narrative journal).Pairwise fun left right =>
      compareJournalPositions (positionOf left) (positionOf right) ≤ 0 := sorted.imp not_pos_iff.mpr
  rw [sortEntries, ordered.insertionSort_eq, unseen, past]
  exact List.filter_congr fun entry _ => decide_eq_decide.mpr compareJournalPositions_pos_iff

private theorem readJournalCursor_eq_ok {cursors : Cursors} {position : Position}
    (success : readJournalCursor cursors cursorId = .ok position) : position = (cursors cursorId).getD .start := by
  rw [readJournalCursor] at success
  cases stored : cursors cursorId with
  | none =>
    rw [stored] at success
    exact (Except.ok.inj success).symm
  | some stored' =>
    rw [stored] at success
    simp only [bind, Except.bind, pure, Except.pure] at success
    split at success
    · cases success
    · exact (Except.ok.inj success).symm

private theorem start_le (position : Position) : Position.start ≤ position := by
  refine le_of_not_gt fun before => ?_
  rcases Position.lt_iff.mp before with less | ⟨-, less⟩ <;> exact absurd less (List.not_lt_nil _)

/-- Acknowledging an event never moves a cursor back. -/
theorem acknowledgeJournalEvent_forward (journal : List (Entry ν)) {cursors : Cursors} (cursorId eventId : String)
    (named : ∀ position ∈ cursors cursorId, position.eventId ≠ "") :
    (cursors cursorId).getD .start ≤
      ((acknowledgeJournalEvent journal cursors cursorId eventId).2 cursorId).getD .start := by
  simp only [acknowledgeJournalEvent]
  split_ifs
  · exact le_rfl
  · exact le_rfl
  split
  · exact le_rfl
  rename_i current read
  have same := readJournalCursor_eq_ok read
  split
  · exact le_rfl
  rename_i position _
  split_ifs with behind
  · exact le_rfl
  simp only [writeJournalCursor, ↓reduceIte, Option.getD_some]
  rw [not_and_or, not_pos_iff, not_not, not_le] at behind
  rcases behind with fresh | ahead
  · cases stored : cursors cursorId with
    | none => exact start_le position
    | some kept =>
      rw [stored] at same
      obtain rfl : current = kept := same
      exact absurd fresh (named current stored)
  · rw [← same]
    exact ahead.le

namespace Feed

/-- A call answers with the sorted unseen entries, as the function does when nothing comes between its reads. -/
theorem deliver_eq_watchJournal (feed : Feed ν) (safe : isSafeIdentifier cursorId = true) {position : Position}
    (read : readJournalCursor feed.cursors cursorId = .ok position) (readOnly : Bool) (index : Nat) :
    (feed.deliver index ⟨cursorId, readOnly, feed.journal, some position⟩ position).cursors =
        (Journal.watchJournal feed.journal feed.cursors ⟨none, some cursorId, readOnly⟩).2 ∧
      ∃ answer, (Journal.watchJournal feed.journal feed.cursors ⟨none, some cursorId, readOnly⟩).1 = .ok answer ∧
        (feed.deliver index ⟨cursorId, readOnly, feed.journal, some position⟩ position).deliveries =
          feed.deliveries ++ [⟨cursorId, readOnly, feed.journal, answer.events⟩] := by
  simp only [Journal.watchJournal, safe, read, deliver, Watch.events, Bool.not_true, Bool.false_eq_true, ↓reduceIte]
  by_cases quiet : (readOnly || (unseen (sortEntries feed.journal) position).isEmpty) = true
  · simp only [if_pos quiet]
    exact ⟨if_pos quiet, _, rfl, rfl⟩
  · simp only [if_neg quiet]
    exact ⟨if_neg quiet, _, rfl, rfl⟩

/-! ## The invariant -/

/-- A journal in order, and a cursor that has passed what its calls returned. -/
structure Ordered (feed : Feed ν) (cursorId : String) : Prop where
  sorted : Sorted positionOf (narrative feed.journal)
  passed : feed.delivered cursorId = upTo positionOf (feed.stands cursorId) (narrative feed.journal)
  reads : ∀ watch ∈ feed.watches, onCursor cursorId watch = true → ∃ rest,
    narrative feed.journal = narrative watch.journal ++ rest ∧
      ∀ existing ∈ narrative watch.journal, ∀ later ∈ rest, positionOf existing < positionOf later
  stood : ∀ watch ∈ feed.watches, onCursor cursorId watch = true → ∀ position ∈ watch.position,
    position ≤ feed.stands cursorId
  all : ∀ delivery ∈ feed.deliveries, ofCursor cursorId delivery = true →
    narrative delivery.journal <+: feed.delivered cursorId

theorem Ordered.delivers (ordered : feed.Ordered cursorId) : feed.Delivers cursorId := by
  refine ⟨?_, ordered.all⟩
  rw [ordered.passed]
  exact upTo_prefix ordered.sorted

theorem Initial.ordered (initial : feed.Initial) : feed.Ordered cursorId := by
  obtain rfl := initial
  exact ⟨.nil, rfl, nofun, nofun, nofun⟩

private theorem narrative_append (journal : List (Entry ν)) (entry : Entry ν) :
    narrative (journal ++ [entry]) = narrative journal ++ if isLiveness entry then [] else [entry] := by
  rw [narrative, List.filter_append, ← narrative, List.filter_singleton]
  cases isLiveness entry <;> rfl

/-- A heartbeat is shown to nobody; any other entry comes after what the cursor and its calls have passed. -/
theorem Ordered.write (ordered : feed.Ordered cursorId) (writer : Nat) {entry : Entry ν}
    (follows : isLiveness entry = false → feed.Follows cursorId entry) :
    (feed.write writer entry).Ordered cursorId := by
  cases live : isLiveness entry with
  | true =>
    have same : narrative (feed.write writer entry).journal = narrative feed.journal := by
      simp [Feed.write, narrative_append, live]
    exact ⟨by rw [same]; exact ordered.sorted, by rw [same]; exact ordered.passed,
      by rw [same]; exact ordered.reads, ordered.stood, ordered.all⟩
  | false =>
    obtain ⟨beyond, later, watched⟩ := follows live
    have grows : narrative (feed.write writer entry).journal = narrative feed.journal ++ [entry] := by
      simp [Feed.write, narrative_append, live]
    refine ⟨?_, ?_, ?_, ordered.stood, ordered.all⟩
    · rw [grows]
      exact ordered.sorted.snoc later
    · have ahead : upTo positionOf (feed.stands cursorId) [entry] = [] := by
        apply upTo_eq_nil
        intro item member
        rw [List.mem_singleton.mp member]
        exact beyond
      rw [grows]
      change feed.delivered cursorId = upTo positionOf (feed.stands cursorId) _
      rw [upTo_append, ahead, List.append_nil]
      exact ordered.passed
    · intro watch member acknowledges
      obtain ⟨rest, split, apart⟩ := ordered.reads watch member acknowledges
      refine ⟨rest ++ [entry], by rw [grows, split, List.append_assoc], ?_⟩
      intro existing here item there
      rcases List.mem_append.mp there with old | new
      · exact apart existing here item old
      · rw [List.mem_singleton.mp new]
        exact watched watch member acknowledges existing here

theorem Ordered.watch (ordered : feed.Ordered cursorId) (watched : String) (readOnly : Bool) :
    (feed.watch watched readOnly).Ordered cursorId := by
  refine ⟨ordered.sorted, ordered.passed, ?_, ?_, ordered.all⟩
  · intro watch member acknowledges
    rcases List.mem_append.mp member with old | new
    · exact ordered.reads watch old acknowledges
    · rw [List.mem_singleton.mp new]
      exact ⟨[], (List.append_nil _).symm, nofun⟩
  · intro watch member acknowledges
    rcases List.mem_append.mp member with old | new
    · exact ordered.stood watch old acknowledges
    · rw [List.mem_singleton.mp new]
      exact nofun

theorem Ordered.readCursor (ordered : feed.Ordered cursorId) {index : Nat} {watch : Watch ν}
    (here : feed.watches[index]? = some watch) : (feed.readCursor index watch).Ordered cursorId := by
  have member := List.mem_of_getElem? here
  rw [Feed.readCursor]
  split
  · rename_i position _ read
    refine ⟨ordered.sorted, ordered.passed, ?_, ?_, ordered.all⟩
    · intro other among acknowledges
      rcases List.mem_or_eq_of_mem_set among with old | rfl
      · exact ordered.reads other old acknowledges
      · exact ordered.reads watch member acknowledges
    · intro other among acknowledges
      rcases List.mem_or_eq_of_mem_set among with old | rfl
      · exact ordered.stood other old acknowledges
      · rintro _ ⟨⟩
        obtain ⟨same, -⟩ := Bool.and_eq_true_iff.mp acknowledges
        obtain rfl : watch.cursorId = cursorId := beq_iff_eq.mp same
        exact (readJournalCursor_eq_ok read).le
  · have kept : ∀ other ∈ feed.watches.eraseIdx index, other ∈ feed.watches :=
      fun other => List.mem_of_mem_eraseIdx
    exact ⟨ordered.sorted, ordered.passed, fun other among => ordered.reads other (kept other among),
      fun other among => ordered.stood other (kept other among), ordered.all⟩

/-! ## A delivery -/

private theorem delivered_deliver (feed : Feed ν) (index : Nat) (watch : Watch ν) (position : Position) :
    (feed.deliver index watch position).delivered cursorId =
      feed.delivered cursorId ++ if onCursor cursorId watch then Watch.events watch position else [] := by
  have same : ofCursor cursorId ⟨watch.cursorId, watch.readOnly, watch.journal, Watch.events watch position⟩ =
      onCursor cursorId watch := rfl
  simp only [delivered, deliver, List.filter_append, List.flatMap_append, List.filter_singleton, same]
  cases onCursor cursorId watch <;> simp

private theorem stands_deliver_other {index : Nat} {watch : Watch ν} {position : Position}
    (other : onCursor cursorId watch = false) :
    (feed.deliver index watch position).stands cursorId = feed.stands cursorId := by
  simp only [stands, deliver]
  split_ifs with quiet
  · rfl
  · have readOnly : watch.readOnly = false := by
      cases mode : watch.readOnly with
      | false => rfl
      | true => simp [mode] at quiet
    have apart : cursorId ≠ watch.cursorId := by
      rintro rfl
      simp [onCursor, readOnly] at other
    simp [writeJournalCursor, apart]

private theorem stands_deliver_events {index : Nat} {watch : Watch ν} {position : Position}
    (acknowledges : onCursor cursorId watch = true) (some : Watch.events watch position ≠ []) :
    (feed.deliver index watch position).stands cursorId = positionOf ((Watch.events watch position).getLast some) := by
  simp only [onCursor, Bool.and_eq_true, beq_iff_eq, Bool.not_eq_true'] at acknowledges
  obtain ⟨rfl, readOnly⟩ := acknowledges
  simp [stands, deliver, readOnly, some, writeJournalCursor, lastPosition, List.getLast?_eq_getLast_of_ne_nil some]

private theorem stands_deliver_nil {index : Nat} {watch : Watch ν} {position : Position}
    (none : Watch.events watch position = []) :
    (feed.deliver index watch position).stands cursorId = feed.stands cursorId := by
  simp [stands, deliver, none]

private theorem Ordered.watches_deliver (ordered : feed.Ordered cursorId) {index : Nat} {watch : Watch ν}
    {position : Position} (forward : feed.stands cursorId ≤ (feed.deliver index watch position).stands cursorId) :
    (∀ other ∈ (feed.deliver index watch position).watches, onCursor cursorId other = true → ∃ rest,
      narrative feed.journal = narrative other.journal ++ rest ∧
        ∀ existing ∈ narrative other.journal, ∀ later ∈ rest, positionOf existing < positionOf later) ∧
    ∀ other ∈ (feed.deliver index watch position).watches, onCursor cursorId other = true →
      ∀ place ∈ other.position, place ≤ (feed.deliver index watch position).stands cursorId := by
  have kept : ∀ other ∈ (feed.deliver index watch position).watches, other ∈ feed.watches :=
    fun other => List.mem_of_mem_eraseIdx
  exact ⟨fun other among => ordered.reads other (kept other among),
    fun other among acknowledges place read => (ordered.stood other (kept other among) acknowledges place read).trans forward⟩

private theorem mem_deliveries {index : Nat} {watch : Watch ν} {position : Position} {delivery : Delivery ν}
    (member : delivery ∈ (feed.deliver index watch position).deliveries) : delivery ∈ feed.deliveries ∨
      delivery = ⟨watch.cursorId, watch.readOnly, watch.journal, Watch.events watch position⟩ :=
  (List.mem_append.mp member).imp_right List.mem_singleton.mp

/-- A call on another cursor, or one that does not acknowledge, moves nothing. -/
private theorem Ordered.deliver_other (ordered : feed.Ordered cursorId) {index : Nat} {watch : Watch ν}
    {position : Position} (other : onCursor cursorId watch = false) :
    (feed.deliver index watch position).Ordered cursorId := by
  have same : (feed.deliver index watch position).stands cursorId = feed.stands cursorId := stands_deliver_other other
  have kept : (feed.deliver index watch position).delivered cursorId = feed.delivered cursorId := by
    simp [delivered_deliver, other]
  obtain ⟨reads, stood⟩ := ordered.watches_deliver same.ge
  refine ⟨ordered.sorted, ?_, reads, stood, ?_⟩
  · rw [kept, same]
    exact ordered.passed
  · intro delivery member acknowledges
    rw [kept]
    rcases mem_deliveries member with old | rfl
    · exact ordered.all delivery old acknowledges
    · exact absurd acknowledges (Bool.eq_false_iff.mp other)

/-- A call that finds nothing new has found what the cursor has passed. -/
private theorem Ordered.deliver_nil (ordered : feed.Ordered cursorId) {index : Nat} {watch : Watch ν}
    {position : Position} (member : watch ∈ feed.watches) (acknowledges : onCursor cursorId watch = true)
    (read : position ∈ watch.position) (none : Watch.events watch position = []) :
    (feed.deliver index watch position).Ordered cursorId := by
  have same : (feed.deliver index watch position).stands cursorId = feed.stands cursorId := stands_deliver_nil none
  have kept : (feed.deliver index watch position).delivered cursorId = feed.delivered cursorId := by
    simp [delivered_deliver, none]
  obtain ⟨reads, stood⟩ := ordered.watches_deliver same.ge
  refine ⟨ordered.sorted, ?_, reads, stood, ?_⟩
  · rw [kept, same]
    exact ordered.passed
  · intro delivery among mine
    rw [kept]
    rcases mem_deliveries among with old | rfl
    · exact ordered.all delivery old mine
    · obtain ⟨rest, split, -⟩ := ordered.reads watch member acknowledges
      have sorted : Sorted positionOf (narrative watch.journal) := by
        have whole := ordered.sorted
        rw [split] at whole
        exact whole.left
      have bound : ∀ entry ∈ narrative watch.journal, positionOf entry ≤ feed.stands cursorId := by
        intro entry here
        refine le_trans (le_of_not_gt fun beyond => ?_) (ordered.stood watch member acknowledges position read)
        have event : entry ∈ Watch.events watch position := by
          rw [Watch.events, unseen_sortEntries sorted]
          exact mem_past.mpr ⟨here, beyond⟩
        rw [none] at event
        cases event
      rw [ordered.passed, split, upTo_append, upTo_eq_self bound]
      exact List.prefix_append _ _

/-- A call that finds new entries, and the cursor where it read it, completes what its journal had. -/
private theorem Ordered.deliver_events (ordered : feed.Ordered cursorId) {index : Nat} {watch : Watch ν}
    {position : Position} (member : watch ∈ feed.watches) (acknowledges : onCursor cursorId watch = true)
    (here : feed.stands cursorId = position) (some : Watch.events watch position ≠ []) :
    (feed.deliver index watch position).Ordered cursorId ∧
      feed.stands cursorId ≤ (feed.deliver index watch position).stands cursorId := by
  obtain ⟨rest, split, apart⟩ := ordered.reads watch member acknowledges
  have sorted := ordered.sorted
  rw [split] at sorted
  have takes : Watch.events watch position = past positionOf position (narrative watch.journal) :=
    unseen_sortEntries sorted.left position
  obtain ⟨whole, passed⟩ := upTo_append_taken sorted takes some apart
  have stands : (feed.deliver index watch position).stands cursorId =
      positionOf ((Watch.events watch position).getLast some) := stands_deliver_events acknowledges some
  have complete : (feed.deliver index watch position).delivered cursorId = narrative watch.journal := by
    rw [delivered_deliver, if_pos acknowledges, ordered.passed, split, here]
    exact whole
  have forward : feed.stands cursorId ≤ (feed.deliver index watch position).stands cursorId := by
    have last := List.getLast_mem some
    have beyond : ∀ entry ∈ Watch.events watch position, position < positionOf entry := by
      rw [takes]
      exact fun entry among => (mem_past.mp among).2
    rw [stands, here]
    exact (beyond _ last).le
  obtain ⟨reads, stood⟩ := ordered.watches_deliver forward
  refine ⟨⟨ordered.sorted, ?_, reads, stood, ?_⟩, forward⟩
  · rw [complete, stands]
    change _ = upTo positionOf _ (narrative feed.journal)
    rw [split, passed]
  · intro delivery among mine
    rw [complete]
    rcases mem_deliveries among with old | rfl
    · refine (ordered.all delivery old mine).trans ?_
      rw [← complete, delivered_deliver]
      exact List.prefix_append _ _
    · exact List.prefix_rfl

/-! ## Runs -/

/-- One step keeps the order and moves no cursor back. -/
theorem Ordered.step (ordered : feed.Ordered cursorId) {label : Label ν} (inOrder : InOrder cursorId feed label)
    (taken : feed.step label = some next) :
    next.Ordered cursorId ∧ feed.stands cursorId ≤ next.stands cursorId := by
  cases label with
  | appendJournal entry =>
    obtain rfl := Option.some.inj taken
    rw [Feed.appendJournal]
    split_ifs
    · exact ⟨ordered, le_rfl⟩
    · exact ⟨⟨ordered.sorted, ordered.passed, ordered.reads, ordered.stood, ordered.all⟩, le_rfl⟩
  | write writer =>
    obtain ⟨entry, pending, rfl⟩ := Option.map_eq_some_iff.mp taken
    exact ⟨ordered.write writer (inOrder entry pending), le_rfl⟩
  | watchJournal watched readOnly =>
    obtain rfl := Option.some.inj taken
    exact ⟨ordered.watch watched readOnly, le_rfl⟩
  | readCursor index =>
    simp only [Feed.step] at taken
    split at taken
    · rename_i watch here
      split_ifs at taken
      obtain rfl := Option.some.inj taken
      refine ⟨ordered.readCursor here, ?_⟩
      rw [Feed.readCursor]
      split <;> exact le_rfl
    · cases taken
  | deliver index =>
    simp only [Feed.step] at taken
    split at taken
    · rename_i watch here
      obtain ⟨position, read, rfl⟩ := Option.map_eq_some_iff.mp taken
      have member := List.mem_of_getElem? here
      cases acknowledges : onCursor cursorId watch with
      | false => exact ⟨ordered.deliver_other acknowledges, (stands_deliver_other acknowledges).ge⟩
      | true =>
        rcases List.eq_nil_or_concat (Watch.events watch position) with none | ⟨before, last, some⟩
        · exact ⟨ordered.deliver_nil member acknowledges read none, (stands_deliver_nil none).ge⟩
        · have some : Watch.events watch position ≠ [] := by simp [some]
          have still := inOrder watch here acknowledges position read (by simpa using some)
          exact ordered.deliver_events member acknowledges still some
    · cases taken

/-- In every run in order, the acknowledging calls on a cursor deliver the entries once each and in file order, and
the cursor never moves back. -/
theorem watchJournal_delivers (reach : machine.Reach (InOrder cursorId) Initial feed) :
    feed.Delivers cursorId ∧ ∀ label next, InOrder cursorId feed label → feed.step label = some next →
      feed.stands cursorId ≤ next.stands cursorId := by
  have ordered : feed.Ordered cursorId := by
    refine reach.invariant (fun feed => feed.Ordered cursorId) ?_ ?_
    · exact fun _ initial => initial.ordered
    · exact fun _ _ _ ordered inOrder taken => (ordered.step inOrder taken).1
  exact ⟨ordered.delivers, fun label next inOrder taken => (ordered.step inOrder taken).2⟩

/-! ## A late entry -/

/-- An entry of some time. -/
def closed (writtenAt eventId : String) : Entry Nat :=
  [("at", .string writtenAt), ("type", .string "campaign.closed"), ("eventId", .string eventId)]

/-- An entry is written and delivered, then another one is written and watched for. -/
def lateRun (first second : Entry Nat) : List (Label Nat) :=
  [.appendJournal first, .write 0, .watchJournal "seat" false, .readCursor 0, .deliver 0,
    .appendJournal second, .write 0, .watchJournal "seat" false, .readCursor 0, .deliver 0]

/-- A later call found more entries than were ever returned. -/
private theorem not_delivers (missing : ∃ delivery ∈ feed.deliveries, ofCursor cursorId delivery = true ∧
    (feed.delivered cursorId).length < (narrative delivery.journal).length) : ¬ feed.Delivers cursorId := by
  intro delivers
  obtain ⟨delivery, member, acknowledges, fewer⟩ := missing
  have bound := (delivers.all delivery member acknowledges).length_le
  omega

/-- An entry written with an earlier timestamp than one already delivered is never delivered. -/
theorem watchJournal_skips : ∃ feed : Feed Nat, machine.Reach Machine.free Initial feed ∧ ¬ feed.Delivers "seat" := by
  have ran : ∃ feed, machine.replay? Machine.free ⟨[], [], fun _ => none, [], []⟩
      (lateRun (closed "2026-09-02" "b") (closed "2026-09-01" "a")) = some feed ∧
        ∃ delivery ∈ feed.deliveries, ofCursor "seat" delivery = true ∧
          (feed.delivered "seat").length < (narrative delivery.journal).length :=
    Machine.exists_replay (fun feed => ∃ delivery ∈ feed.deliveries, ofCursor "seat" delivery = true ∧
      (feed.delivered "seat").length < (narrative delivery.journal).length) (fun _ _ held => held) (by decide)
  obtain ⟨feed, ran, missing⟩ := ran
  exact ⟨feed, .of_replay rfl _ ran, not_delivers missing⟩

/-- Two entries in order are delivered by two calls. -/
theorem watchJournal_delivers_two :
    ∃ feed, machine.replay? (InOrder "seat") ⟨[], [], fun _ => none, [], []⟩
        (lateRun (closed "2026-09-01" "a") (closed "2026-09-02" "b")) = some feed ∧
      feed.Delivers "seat" ∧ ∀ label next, InOrder "seat" feed label → feed.step label = some next →
        feed.stands "seat" ≤ next.stands "seat" :=
  Machine.exists_replay (fun feed => (feed.delivered "seat").length = 2)
    (fun _ ran _ => watchJournal_delivers (.of_replay rfl _ ran)) (by decide)

end Feed

end Faberun.Journal
