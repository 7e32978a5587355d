import Mathlib.Data.List.TakeWhile
import Mathlib.Data.Nat.Digits.Defs
import Faberun.Model.Engine.PreviousAttempt

/-! # Finding the section of a prompt

A section begins at its heading's line with a record's line as the next one that is not blank. Text added behind a prompt takes
no section
away, and brings one in only where it begins with the heading itself; so behind instructions without a section the newest one
is found
just where it was put.
-/

namespace Faberun.PreviousAttempt

open Utf8

/-! ## The record's line -/

/-- `Attempt N failed; this is attempt M.` -/
def IsMark (mark : List Char) : Prop :=
  ∃ one other, mark = "Attempt ".toList ++ one ++ " failed; this is attempt ".toList ++ other ++ ".".toList ∧
    one ≠ [] ∧ (∀ c ∈ one, c.isDigit = true) ∧ other ≠ [] ∧ ∀ c ∈ other, c.isDigit = true

theorem behind_eq_some_iff {text line rest : List Char} : behind text line = some rest ↔ line = text ++ rest := by
  unfold behind
  constructor
  · intro found
    split at found
    · rename_i starts
      obtain ⟨tail, rfl⟩ := List.isPrefixOf_iff_prefix.mp starts
      rw [List.drop_left] at found
      rw [Option.some.inj found]
    · contradiction
  · rintro rfl
    rw [if_pos (List.isPrefixOf_iff_prefix.mpr ⟨rest, rfl⟩), List.drop_left]

private theorem digits_of_behindDigits {line rest : List Char} (found : behindDigits line = some rest) :
    ∃ digits, line = digits ++ rest ∧ digits ≠ [] ∧ ∀ c ∈ digits, c.isDigit = true := by
  unfold behindDigits at found
  split at found
  · contradiction
  · rename_i some
    obtain rfl := Option.some.inj found
    exact ⟨line.takeWhile Char.isDigit, List.takeWhile_append_dropWhile.symm, some, fun c member => List.mem_takeWhile_imp member⟩

private theorem behindDigits_append {digits : List Char} (some : digits ≠ []) (all : ∀ c ∈ digits, c.isDigit = true) {c : Char}
    (other : c.isDigit = false) (rest : List Char) : behindDigits (digits ++ c :: rest) = .some (c :: rest) := by
  have taken : (digits ++ c :: rest).takeWhile Char.isDigit = digits := by
    rw [List.takeWhile_append_of_pos all, List.takeWhile_cons, other]
    exact List.append_nil digits
  have dropped : (digits ++ c :: rest).dropWhile Char.isDigit = c :: rest := by
    rw [List.dropWhile_append_of_pos all, List.dropWhile_cons, other]
    rfl
  rw [behindDigits, taken, dropped, if_neg some]

/-- A record's line begins with such a mark. -/
theorem isRecordLine_iff {line : List Char} : isRecordLine line = true ↔ ∃ mark rest, line = mark ++ rest ∧ IsMark mark := by
  unfold isRecordLine behindAttempt
  constructor
  · intro accepted
    obtain ⟨last, found, dot⟩ := (Option.any_eq_true ..).mp accepted
    obtain ⟨second, found, counted⟩ := Option.bind_eq_some_iff.mp found
    obtain ⟨third, found, this⟩ := Option.bind_eq_some_iff.mp found
    obtain ⟨fourth, found, failed⟩ := Option.bind_eq_some_iff.mp found
    obtain ⟨fifth, attempt, first⟩ := Option.bind_eq_some_iff.mp found
    obtain ⟨one, shape, some, all⟩ := digits_of_behindDigits first
    obtain ⟨other, shape', some', all'⟩ := digits_of_behindDigits counted
    obtain ⟨rest, rfl⟩ : ∃ rest, last = '.' :: rest := by
      cases last with
      | nil => contradiction
      | cons c rest => exact ⟨rest, by rw [Option.some.inj (beq_iff_eq.mp dot)]⟩
    refine ⟨_, rest, ?_, one, other, rfl, some, all, some', all'⟩
    rw [behind_eq_some_iff.mp attempt, shape, behind_eq_some_iff.mp failed, behind_eq_some_iff.mp this, shape']
    simp
  · rintro ⟨_, rest, rfl, one, other, rfl, some, all, some', all'⟩
    have attempt : behind "Attempt ".toList
      ("Attempt ".toList ++ one ++ " failed; this is attempt ".toList ++ other ++ ".".toList ++ rest) =
        .some (one ++ ' ' :: ("failed; this is attempt ".toList ++ (other ++ '.' :: rest))) := behind_eq_some_iff.mpr (by simp)
    have failed : behind " failed".toList (' ' :: ("failed; this is attempt ".toList ++ (other ++ '.' :: rest))) =
        .some ("; this is attempt ".toList ++ (other ++ '.' :: rest)) := behind_eq_some_iff.mpr (by simp)
    have this : behind "; this is attempt ".toList ("; this is attempt ".toList ++ (other ++ '.' :: rest)) =
        .some (other ++ '.' :: rest) := behind_eq_some_iff.mpr rfl
    rw [attempt, Option.bind_some, behindDigits_append some all (by decide), Option.bind_some, failed, Option.bind_some, this,
      Option.bind_some, behindDigits_append some' all' (by decide)]
    rfl

private theorem newline_notMem_mark {mark : List Char} (marks : IsMark mark) : '\n' ∉ mark := by
  obtain ⟨one, other, rfl, -, all, -, all'⟩ := marks
  have digit {digits : List Char} (all : ∀ c ∈ digits, c.isDigit = true) : '\n' ∉ digits := fun member =>
    absurd (all '\n' member) (by decide)
  simp [digit all, digit all']

/-- Text without a character that stands before it in a longer text is part of what stands before it. -/
private theorem within {c : Char} {first second front back : List Char} (apart : c ∉ first)
    (same : first ++ second = front ++ c :: back) : ∃ rest, front = first ++ rest ∧ second = rest ++ c :: back := by
  rcases List.append_eq_append_iff.mp same with ⟨rest, split, tail⟩ | ⟨rest, split, tail⟩
  · exact ⟨rest, split, tail⟩
  · cases rest with
    | nil => exact ⟨[], by simpa using split.symm, by simpa using tail.symm⟩
    | cons d rest =>
      obtain ⟨rfl, -⟩ := List.cons.inj tail
      exact absurd (by simp [split]) apart

theorem isRecordLine_append {line : List Char} (accepted : isRecordLine line = true) (more : List Char) :
    isRecordLine (line ++ more) = true := by
  obtain ⟨mark, rest, rfl, marks⟩ := isRecordLine_iff.mp accepted
  exact isRecordLine_iff.mpr ⟨mark, rest ++ more, List.append_assoc .., marks⟩

private theorem visible_of_isRecordLine {line : List Char} (accepted : isRecordLine line = true) : trimText line ≠ [] := by
  obtain ⟨_, rest, rfl, one, other, rfl, -⟩ := isRecordLine_iff.mp accepted
  intro blank
  have all : BreakOn.visible isJsWhitespace
    ("Attempt ".toList ++ one ++ " failed; this is attempt ".toList ++ other ++ ".".toList ++ rest) = [] := by
    rw [← visible_trimText, blank]
    rfl
  have first := BreakOn.visible_eq_nil_iff.mp all 'A' (by simp)
  exact absurd first (by decide)

/-! ## The first line that is not blank -/

private theorem opensRecord_cons (text more : List Char) : opensRecord (text ++ '\n' :: more) =
    (((text.splitOnP (· == '\n')).find? fun line => decide (trimText line ≠ [])).any isRecordLine ||
      (((text.splitOnP (· == '\n')).find? fun line => decide (trimText line ≠ [])).isNone && opensRecord more)) := by
  rw [opensRecord, List.splitOnP_append_cons text more (by decide), List.find?_append]
  cases (text.splitOnP (· == '\n')).find? fun line => decide (trimText line ≠ []) with
  | none => simp [opensRecord]
  | some line => simp

/-- Lines behind a line break are read only where nothing stands before it. -/
theorem opensRecord_of_append {text more : List Char} (quiet : opensRecord more = false)
    (opens : opensRecord (text ++ '\n' :: more) = true) : opensRecord text = true := by
  rw [opensRecord_cons, quiet, Bool.and_false, Bool.or_false] at opens
  exact opens

private theorem splitOnP_append (p : Char → Bool) (text : List Char) :
    ∃ lines last, text.splitOnP p = lines ++ [last] ∧
      ∀ more, (text ++ more).splitOnP p = lines ++ (more.splitOnP p).modifyHead (last ++ ·) := by
  induction text with
  | nil =>
    refine ⟨[], [], rfl, fun more => ?_⟩
    obtain ⟨first, rest, shape⟩ := List.exists_cons_of_ne_nil (List.splitOnP_ne_nil p more)
    simp [shape]
  | cons c text ih =>
    obtain ⟨lines, last, shape, further⟩ := ih
    by_cases breaks : p c = true
    · refine ⟨[] :: lines, last, by rw [List.splitOnP_cons_eq_if_modifyHead, if_pos breaks, shape, List.cons_append],
        fun more => ?_⟩
      rw [List.cons_append, List.splitOnP_cons_eq_if_modifyHead, if_pos breaks, further, List.cons_append]
    · cases lines with
      | nil =>
        refine ⟨[], c :: last, by rw [List.splitOnP_cons_eq_if_modifyHead, if_neg breaks, shape]; rfl, fun more => ?_⟩
        obtain ⟨first, rest, split⟩ := List.exists_cons_of_ne_nil (List.splitOnP_ne_nil p more)
        rw [List.cons_append, List.splitOnP_cons_eq_if_modifyHead, if_neg breaks, further, split]
        rfl
      | cons line lines =>
        refine ⟨(c :: line) :: lines, last, by rw [List.splitOnP_cons_eq_if_modifyHead, if_neg breaks, shape]; rfl,
          fun more => ?_⟩
        rw [List.cons_append, List.splitOnP_cons_eq_if_modifyHead, if_neg breaks, further]
        rfl

/-- A record goes on being one. -/
theorem opensRecord_append {text : List Char} (opens : opensRecord text = true) (more : List Char) :
    opensRecord (text ++ more) = true := by
  obtain ⟨lines, last, shape, further⟩ := splitOnP_append (· == '\n') text
  obtain ⟨first, rest, split⟩ := List.exists_cons_of_ne_nil (List.splitOnP_ne_nil (· == '\n') more)
  rw [opensRecord, shape, List.find?_append] at opens
  rw [opensRecord, further, split, List.modifyHead_cons, List.find?_append]
  cases found : lines.find? fun line => decide (trimText line ≠ []) with
  | some line =>
    rw [found] at opens
    exact opens
  | none =>
    rw [found, Option.none_or] at opens
    obtain ⟨line, here, accepted⟩ := (Option.any_eq_true ..).mp opens
    obtain rfl : last = line := List.mem_singleton.mp (List.mem_of_find?_eq_some here) |>.symm
    have longer := isRecordLine_append accepted first
    rw [Option.none_or, List.find?_cons_of_pos (by simpa using visible_of_isRecordLine longer)]
    exact longer

/-! ## Sections -/

private theorem newline_notMem_headingLine : '\n' ∉ headingLine := by decide

theorem opensSection_iff {text : List Char} :
    opensSection text = true ↔ ∃ rest, text = headingLine ++ rest ∧ rest.head?.all isLineEnd = true ∧ opensRecord rest = true :=
      by
  rw [opensSection, Option.any_eq_true]
  simp only [behind_eq_some_iff, Bool.and_eq_true]

private theorem ne_nil_of_opensRecord {text : List Char} (opens : opensRecord text = true) : text ≠ [] := by
  rintro rfl
  contradiction

private theorem opensSection_append {text : List Char} (opens : opensSection text = true) (more : List Char) :
    opensSection (text ++ more) = true := by
  obtain ⟨rest, rfl, ends, record⟩ := opensSection_iff.mp opens
  refine opensSection_iff.mpr ⟨rest ++ more, List.append_assoc .., ?_, opensRecord_append record more⟩
  rw [List.head?_append_of_ne_nil _ (ne_nil_of_opensRecord record)]
  exact ends

private theorem opensSection_of_append {text more : List Char} (quiet : opensRecord more = false)
    (opens : opensSection (text ++ '\n' :: more) = true) : opensSection text = true := by
  obtain ⟨rest, same, ends, record⟩ := opensSection_iff.mp opens
  obtain ⟨inner, rfl, rfl⟩ := within newline_notMem_headingLine same.symm
  have record := opensRecord_of_append quiet record
  refine opensSection_iff.mpr ⟨inner, rfl, ?_, record⟩
  rwa [List.head?_append_of_ne_nil _ (ne_nil_of_opensRecord record)] at ends

/-- A section of a text stays the first one when text is added behind it. -/
theorem findSection_append {starts : Bool} {text : List Char} {parts : List Char × List Char}
    (found : findSection starts text = some parts) {more : List Char} (quiet : opensRecord more = false) :
    findSection starts (text ++ '\n' :: more) = some (parts.1, parts.2 ++ '\n' :: more) := by
  induction text generalizing starts parts with
  | nil => contradiction
  | cons c text ih =>
    rw [findSection] at found
    rw [List.cons_append, findSection]
    split at found
    · rename_i here
      obtain rfl := Option.some.inj found
      obtain ⟨begins, opens⟩ := Bool.and_eq_true_iff.mp here
      have still := opensSection_append opens ('\n' :: more)
      rw [List.cons_append] at still
      rw [begins, still]
      rfl
    · rename_i other
      have silent : ¬ (starts && opensSection (c :: (text ++ '\n' :: more))) = true := by
        intro both
        obtain ⟨begins, opens⟩ := Bool.and_eq_true_iff.mp both
        exact other (Bool.and_eq_true_iff.mpr ⟨begins, @opensSection_of_append (c :: text) more quiet opens⟩)
      obtain ⟨inner, later, rfl⟩ := Option.map_eq_some_iff.mp found
      rw [if_neg silent, ih later]
      rfl

/-- Behind a text without a section the first one is that of what is added. -/
theorem findSection_append_of_none {starts : Bool} {text : List Char} (absent : findSection starts text = none) {more : List Char}
    (quiet : opensRecord more = false) :
    findSection starts (text ++ '\n' :: more) =
      (findSection true more).map fun parts => (text ++ '\n' :: parts.1, parts.2) := by
  induction text generalizing starts with
  | nil =>
    have silent : ¬ (starts && opensSection ('\n' :: more)) = true := by
      intro both
      have opens := (Bool.and_eq_true_iff.mp both).2
      have nothing := @opensSection_of_append [] more quiet opens
      contradiction
    rw [List.nil_append, findSection, if_neg silent]
    rfl
  | cons c text ih =>
    rw [findSection] at absent
    rw [List.cons_append, findSection]
    split at absent
    · contradiction
    · rename_i other
      have silent : ¬ (starts && opensSection (c :: (text ++ '\n' :: more))) = true := by
        intro both
        obtain ⟨begins, opens⟩ := Bool.and_eq_true_iff.mp both
        exact other (Bool.and_eq_true_iff.mpr ⟨begins, @opensSection_of_append (c :: text) more quiet opens⟩)
      rw [if_neg silent, ih (Option.map_eq_none_iff.mp absent), Option.map_map]
      rfl

/-- A text without a section has none at its beginning. -/
theorem findSection_of_append {starts : Bool} {text : List Char} (more : List Char) (absent :
    findSection starts (text ++ more) = none) :
    findSection starts text = none := by
  induction text generalizing starts with
  | nil => rfl
  | cons c text ih =>
    rw [List.cons_append, findSection] at absent
    split at absent
    · contradiction
    · rename_i other
      have silent : ¬ (starts && opensSection (c :: text)) = true := by
        intro both
        obtain ⟨begins, opens⟩ := Bool.and_eq_true_iff.mp both
        have still := opensSection_append opens more
        exact other (Bool.and_eq_true_iff.mpr ⟨begins, still⟩)
      rw [findSection, if_neg silent, ih (Option.map_eq_none_iff.mp absent)]
      rfl

theorem eq_of_findSection {starts : Bool} {text : List Char} {parts : List Char × List Char} (found :
    findSection starts text = some parts) :
    text = parts.1 ++ parts.2 ∧ opensSection parts.2 = true := by
  induction text generalizing starts parts with
  | nil => contradiction
  | cons c text ih =>
    rw [findSection] at found
    split at found
    · rename_i here
      obtain rfl := Option.some.inj found
      exact ⟨rfl, (Bool.and_eq_true_iff.mp here).2⟩
    · obtain ⟨inner, later, rfl⟩ := Option.map_eq_some_iff.mp found
      obtain ⟨split, opens⟩ := ih later
      exact ⟨congrArg (c :: ·) split, opens⟩

/-- No section begins in a text: what follows a line's end, or stands at the beginning, never is one. -/
def SectionFree (text : List Char) : Prop :=
  ∀ before rest, text = before ++ rest → before.getLast?.all isLineEnd = true → opensSection rest = false

private theorem findSection_eq_none_iff_from {starts : Bool} {text : List Char} :
    findSection starts text = none ↔
      ∀ before rest, text = before ++ rest → (before.getLast?.map isLineEnd).getD starts = true → opensSection rest = false := by
  induction text generalizing starts with
  | nil =>
    refine iff_of_true rfl fun before rest split _ => ?_
    rw [(List.append_eq_nil_iff.mp split.symm).2]
    rfl
  | cons c text ih =>
    rw [findSection]
    constructor
    · intro absent before rest split begins
      split at absent
      · contradiction
      · rename_i other
        cases before with
        | nil =>
          by_contra opens
          rw [List.nil_append] at split
          exact other (Bool.and_eq_true_iff.mpr ⟨begins, by rw [split]; simpa using opens⟩)
        | cons d before =>
          obtain ⟨rfl, rfl⟩ := List.cons.inj split
          refine ih.mp (Option.map_eq_none_iff.mp absent) before rest rfl ?_
          cases before with
          | nil => exact begins
          | cons e before =>
            rw [List.getLast?_cons_cons, List.getLast?_eq_some_getLast (List.cons_ne_nil _ _)] at begins
            rw [List.getLast?_eq_some_getLast (List.cons_ne_nil _ _)]
            exact begins
    · intro free
      split
      · rename_i here
        obtain ⟨begins, opens⟩ := Bool.and_eq_true_iff.mp here
        rw [free [] (c :: text) rfl begins] at opens
        contradiction
      · refine Option.map_eq_none_iff.mpr (ih.mpr fun before rest split begins => free (c :: before) rest (by rw [split]; rfl) ?_)
        cases before with
        | nil => exact begins
        | cons e before =>
          rw [List.getLast?_eq_some_getLast (List.cons_ne_nil _ _)] at begins
          rw [List.getLast?_cons_cons, List.getLast?_eq_some_getLast (List.cons_ne_nil _ _)]
          exact begins

theorem findSection_eq_none_iff {text : List Char} : findSection true text = none ↔ SectionFree text := by
  rw [findSection_eq_none_iff_from, SectionFree]
  refine forall_congr' fun before => forall_congr' fun rest => forall_congr' fun _ => ?_
  cases before.getLast? <;> rfl

/-! ## What a section begins with -/

/-- The heading, an empty line and the mark of a record. -/
def Opening (text : List Char) : Prop := ∃ mark rest, text = headingLine ++ '\n' :: '\n' :: (mark ++ rest) ∧ IsMark mark

theorem opensRecord_newline (text : List Char) : opensRecord ('\n' :: text) = opensRecord text := opensRecord_cons [] text

private theorem opensRecord_mark {mark : List Char} (marks : IsMark mark) : opensRecord mark = true := by
  have line : isRecordLine mark = true := isRecordLine_iff.mpr ⟨mark, [], (List.append_nil mark).symm, marks⟩
  have whole : mark.splitOnP (· == '\n') = [mark] :=
    List.splitOnP_eq_singleton fun c member => beq_eq_false_iff_ne.mpr fun same => newline_notMem_mark marks (same ▸ member)
  rw [opensRecord, whole, List.find?_cons_of_pos (by simpa using visible_of_isRecordLine line)]
  exact line

theorem Opening.opens {text : List Char} (opening : Opening text) : opensSection text = true := by
  obtain ⟨mark, rest, rfl, marks⟩ := opening
  refine opensSection_iff.mpr ⟨_, rfl, rfl, ?_⟩
  rw [opensRecord_newline, opensRecord_newline]
  exact opensRecord_append (opensRecord_mark marks) rest

theorem Opening.findSection {text : List Char} (opening : Opening text) : findSection true text = some ([], text) := by
  have opens := opening.opens
  cases text with
  | nil => contradiction
  | cons c rest =>
    rw [PreviousAttempt.findSection, opens]
    rfl

/-- A section's first line is its heading, which opens no record. -/
theorem Opening.quiet {text : List Char} (opening : Opening text) : opensRecord ('\n' :: text) = false := by
  obtain ⟨mark, rest, rfl, -⟩ := opening
  have whole : headingLine.splitOnP (· == '\n') = [headingLine] :=
    List.splitOnP_eq_singleton fun c member => beq_eq_false_iff_ne.mpr fun same => newline_notMem_headingLine (same ▸ member)
  have shown : trimText headingLine ≠ [] := by decide
  have other : isRecordLine headingLine = false := by decide
  rw [opensRecord_newline, opensRecord_cons, whole, List.find?_cons_of_pos (by simpa using shown), Option.any_some, other]
  rfl

/-! ## Newlines at the end -/

/-- A text and the newlines behind it. -/
theorem withoutNewlines_split (text : List Char) : ∃ count, text = withoutNewlines text ++ List.replicate count '\n' := by
  have newline : ∀ c ∈ text.rtakeWhile (· == '\n'), c = '\n' := by
    intro c member
    exact beq_iff_eq.mp (@List.mem_rtakeWhile_imp _ (· == '\n') text c member)
  refine ⟨(text.rtakeWhile (· == '\n')).length, ?_⟩
  rw [withoutNewlines, ← List.eq_replicate_iff.mpr ⟨rfl, newline⟩, List.rdropWhile_append_rtakeWhile]

theorem withoutNewlines_idem (text : List Char) : withoutNewlines (withoutNewlines text) = withoutNewlines text :=
  List.rdropWhile_idempotent ..

theorem withoutNewlines_append_newlines (text : List Char) : withoutNewlines (text ++ ['\n', '\n']) = withoutNewlines text := by
  have one (text : List Char) : withoutNewlines (text ++ ['\n']) = withoutNewlines text := List.rdropWhile_concat_pos _ _ _ rfl
  have two : text ++ ['\n', '\n'] = (text ++ ['\n']) ++ ['\n'] := by simp
  rw [two, one, one]

private theorem withoutNewlines_append_withoutNewlines (text more : List Char) :
    withoutNewlines (text ++ more) = withoutNewlines (text ++ withoutNewlines more) := by
  obtain ⟨count, split⟩ := withoutNewlines_split (text ++ withoutNewlines more)
  obtain ⟨further, rest⟩ := withoutNewlines_split more
  have blank : ∀ c ∈ List.replicate (count + further) '\n', (c == '\n') = true := by
    intro c member
    rw [List.eq_of_mem_replicate member]
    rfl
  have whole : text ++ more = withoutNewlines (text ++ withoutNewlines more) ++ List.replicate (count + further) '\n' := by
    rw [List.replicate_add, ← List.append_assoc, ← split, List.append_assoc, ← rest]
  have dropped : withoutNewlines (withoutNewlines (text ++ withoutNewlines more) ++ List.replicate (count + further) '\n') =
      withoutNewlines (text ++ withoutNewlines more) := BreakOn.rdropWhile_append_blank blank
  rw [whole, dropped]

/-- What is not only newlines keeps what stands before it. -/
theorem withoutNewlines_append_of_ne_nil (text : List Char) {more : List Char} (some : withoutNewlines more ≠ []) :
    withoutNewlines (text ++ more) = text ++ withoutNewlines more := by
  rw [withoutNewlines_append_withoutNewlines]
  refine List.rdropWhile_eq_self_iff.mpr fun shown => ?_
  rw [List.getLast_append_of_ne_nil _ some]
  exact List.rdropWhile_last_not _ _ some

/-- What ends in another character stays whole before what follows it. -/
theorem withoutNewlines_append {text : List Char} (kept : withoutNewlines text = text) (more : List Char) :
    withoutNewlines (text ++ more) = text ++ withoutNewlines more := by
  by_cases nothing : withoutNewlines more = []
  · rw [withoutNewlines_append_withoutNewlines, nothing, List.append_nil, kept]
  · exact withoutNewlines_append_of_ne_nil text nothing

private theorem opensRecord_replicate (count : Nat) : opensRecord (List.replicate count '\n') = false := by
  induction count with
  | zero => rfl
  | succ count ih => rw [List.replicate_succ, opensRecord_newline, ih]

private theorem findSection_replicate (starts : Bool) (count : Nat) : findSection starts (List.replicate count '\n') = none := by
  induction count generalizing starts with
  | zero => rfl
  | succ count ih =>
    have silent : ¬ (starts && opensSection ('\n' :: List.replicate count '\n')) = true := by
      intro both
      have nothing := @opensSection_of_append [] _ (opensRecord_replicate count) (Bool.and_eq_true_iff.mp both).2
      contradiction
    rw [List.replicate_succ, findSection, if_neg silent, ih]
    rfl

/-- Newlines at the end of a text bring no section in. -/
theorem findSection_of_withoutNewlines {text : List Char} (absent : findSection true (withoutNewlines text) = none) :
    findSection true text = none := by
  obtain ⟨count, split⟩ := withoutNewlines_split text
  cases count with
  | zero =>
    rw [List.replicate_zero, List.append_nil] at split
    rwa [← split] at absent
  | succ count =>
    rw [split, List.replicate_succ, findSection_append_of_none absent (opensRecord_replicate count), findSection_replicate]
    rfl

theorem Opening.withoutNewlines {text : List Char} (opening : Opening text) : Opening (withoutNewlines text) := by
  obtain ⟨mark, rest, rfl, marks⟩ := opening
  refine ⟨mark, PreviousAttempt.withoutNewlines rest, ?_, marks⟩
  obtain ⟨one, other, rfl, -⟩ := marks
  have shape (rest : List Char) : headingLine ++ '\n' :: '\n' ::
        ("Attempt ".toList ++ one ++ " failed; this is attempt ".toList ++ other ++ ".".toList ++ rest) =
      (headingLine ++ '\n' :: '\n' ::
        ("Attempt ".toList ++ one ++ " failed; this is attempt ".toList ++ other) ++ ['.']) ++ rest := by
    simp
  rw [shape, shape, withoutNewlines_append (List.rdropWhile_concat_neg _ _ _ (by decide))]

end Faberun.PreviousAttempt
