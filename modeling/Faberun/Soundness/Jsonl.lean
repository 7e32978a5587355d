import Mathlib.Data.List.Induction
import Faberun.Model.Run.Jsonl
import Faberun.Text.JsonRoundTrip

/-! # Recovery of JSON lines

A file is right after an append when it holds the lines of the complete records and what reached it of the last one. The
recovery keeps it right as long as the position it finds in the decoded text is the position of the byte.
-/

namespace Faberun.Jsonl

open Utf8

/-- What a crash left can be cut off: nothing, exactly the bytes that are read, or fewer of them behind text in which no
character beyond ASCII begins. -/
def Recoverable (complete torn : List UInt8) : Prop :=
  torn = [] ∨ torn.length = recoveryTailBytes ∨
    (torn.length < recoveryTailBytes ∧
      ∀ byte ∈ complete.drop (complete.length + torn.length - recoveryTailBytes), byte.toNat < 0xC0)

instance (complete torn : List UInt8) : Decidable (Recoverable complete torn) :=
  inferInstanceAs (Decidable (_ ∨ _ ∨ (_ ∧ ∀ byte ∈ complete.drop _, _)))

/-! ## Line breaks among code units -/

private theorem lineBreak_notMem {text : List Char} (plain : '\n' ∉ text) : lineBreak ∉ codeUnits text := by
  intro member
  obtain ⟨c, inside, here⟩ := List.mem_flatMap.mp member
  rw [charUnits, lineBreak] at here
  split at here
  · have same : c = '\n' := by
      rw [← Char.ofNat_toNat c, ← List.mem_singleton.mp here]
    exact plain (same ▸ inside)
  · simp only [List.mem_cons, List.not_mem_nil, or_false] at here
    omega

private theorem lastIndexOf_none {unit : Nat} {units : List Nat} (plain : unit ∉ units) : lastIndexOf unit units = none := by
  induction units with
  | nil => rfl
  | cons first rest ih =>
    rw [List.mem_cons, not_or] at plain
    rw [lastIndexOf, ih plain.2]
    exact if_neg (Ne.symm plain.1)

private theorem lastIndexOf_append {unit : Nat} (before : List Nat) {rest : List Nat} (plain : unit ∉ rest) :
    lastIndexOf unit (before ++ unit :: rest) = some before.length := by
  induction before with
  | nil =>
    rw [List.nil_append, lastIndexOf, lastIndexOf_none plain]
    exact if_pos rfl
  | cons first before ih => rw [List.cons_append, lastIndexOf, ih, List.length_cons]

private theorem codeUnits_line (before rest : List Char) :
    codeUnits (before ++ '\n' :: rest) = codeUnits before ++ lineBreak :: codeUnits rest := List.flatMap_append

private theorem codeUnits_ne_nil {text : List Char} (some : text ≠ []) : codeUnits text ≠ [] := by
  obtain ⟨c, rest, rfl⟩ := List.exists_cons_of_ne_nil some
  have first : charUnits c ≠ [] := by
    unfold charUnits
    split <;> simp
  exact List.append_ne_nil_of_left_ne_nil first _

/-- Bytes behind the last line break leave none at the end of the text. -/
private theorem getLast?_ne {before : List Nat} {torn : List UInt8} (some : torn ≠ []) (plain : 10 ∉ torn) :
    (before ++ codeUnits (decode torn)).getLast? ≠ .some lineBreak := by
  intro last
  rw [List.getLast?_append_of_ne_nil _ (codeUnits_ne_nil (decode_ne_nil some))] at last
  exact lineBreak_notMem (newline_notMem_decode plain) (List.mem_of_getLast? last)

/-! ## One recovery -/

section Recover

private theorem recoveryTailBytes_pos : 0 < recoveryTailBytes := by
  unfold recoveryTailBytes
  omega

variable {text : List Char} {torn : List UInt8}

private theorem take_eq_iff {complete : List UInt8} (some : torn ≠ []) (kept : Nat) :
    (complete ++ torn).take kept = complete ↔ kept = complete.length := by
  constructor
  · intro same
    have sizes := congrArg List.length same
    have more := List.length_pos_iff.mpr some
    rw [List.length_take, List.length_append] at sizes
    omega
  · rintro rfl
    exact List.take_left

/-- The part that is read lies behind the last line break. -/
private theorem recover_far {complete : List UInt8} (some : torn ≠ []) (plain : 10 ∉ torn)
    (far : complete = [] ∨ recoveryTailBytes ≤ torn.length) :
    recoverPartialJsonl (complete ++ torn) = complete ↔ complete = [] ∧ torn.length ≤ recoveryTailBytes ∨
      torn.length = recoveryTailBytes := by
  have window := recoveryTailBytes_pos
  unfold recoverPartialJsonl
  generalize recoveryTailBytes = recoveryTailBytes at *
  have more := List.length_pos_iff.mpr some
  have size : (complete ++ torn).length = complete.length + torn.length := List.length_append
  have empty : complete = [] ↔ complete.length = 0 := List.length_eq_zero_iff.symm
  rw [empty] at far ⊢
  have far : complete.length ≤ complete.length + torn.length - min (complete.length + torn.length) recoveryTailBytes := by omega
  have inside : complete.length + torn.length - min (complete.length + torn.length) recoveryTailBytes < complete.length + torn.length := by
    omega
  have shape : complete.length + torn.length - min (complete.length + torn.length) recoveryTailBytes =
      complete.length + torn.length - recoveryTailBytes := by omega
  rw [shape] at far inside
  generalize cut : complete.length + torn.length - recoveryTailBytes = start at far inside
  have tail : (complete ++ torn).drop start = torn.drop (start - complete.length) := by
    rw [List.drop_append, List.drop_eq_nil_of_le far, List.nil_append]
  have someLeft : torn.drop (start - complete.length) ≠ [] := by
    rw [List.ne_nil_iff_length_pos, List.length_drop]
    omega
  have plainLeft : 10 ∉ torn.drop (start - complete.length) := fun member => plain (List.mem_of_mem_drop member)
  have unended : ¬ ((complete.length + torn.length = 0) ∨
      (codeUnits (decode (torn.drop (start - complete.length)))).getLast? = .some lineBreak) := by
    rintro (none | last)
    · omega
    · rw [← List.nil_append (codeUnits _)] at last
      exact getLast?_ne someLeft plainLeft last
  have behind : lastIndexOf lineBreak (codeUnits (decode (torn.drop (start - complete.length)))) = none :=
    lastIndexOf_none (lineBreak_notMem (newline_notMem_decode plainLeft))
  simp only [size, shape, cut, tail, if_neg unended, behind]
  rw [take_eq_iff some]
  split <;> omega

/-- The part that is read holds the last line break. -/
private theorem recover_near {before : List UInt8} (some : torn ≠ []) (plain : 10 ∉ torn)
    (near : torn.length < recoveryTailBytes) :
    recoverPartialJsonl (before ++ 10 :: torn) = before ++ [10] ↔
      (codeUnits (decode (before.drop (before.length + 1 + torn.length - recoveryTailBytes)))).length =
        (before.drop (before.length + 1 + torn.length - recoveryTailBytes)).length := by
  have more := List.length_pos_iff.mpr some
  have size : (before ++ 10 :: torn).length = before.length + 1 + torn.length := by
    rw [List.length_append, List.length_cons]
    omega
  have start : before.length + 1 + torn.length - min (before.length + 1 + torn.length) recoveryTailBytes =
      before.length + 1 + torn.length - recoveryTailBytes := by omega
  have inside : before.length + 1 + torn.length - recoveryTailBytes ≤ before.length := by omega
  generalize before.length + 1 + torn.length - recoveryTailBytes = cut at start inside ⊢
  have tail : codeUnits (decode ((before ++ 10 :: torn).drop cut)) =
      codeUnits (decode (before.drop cut)) ++ lineBreak :: codeUnits (decode torn) := by
    rw [List.drop_append_of_le_length inside, decode_ascii _ _ (by decide)]
    exact codeUnits_line _ _
  have unended : ¬ ((before.length + 1 + torn.length = 0) ∨
      (codeUnits (decode (before.drop cut)) ++ lineBreak :: codeUnits (decode torn)).getLast? = .some lineBreak) := by
    rintro (empty | last)
    · omega
    · rw [List.append_cons] at last
      exact getLast?_ne some plain last
  have behind : lineBreak ∉ codeUnits (decode torn) := lineBreak_notMem (newline_notMem_decode plain)
  have length : (before.drop cut).length = before.length - cut := List.length_drop
  simp only [recoverPartialJsonl, size, start, tail, if_neg unended, lastIndexOf_append _ behind, length]
  rw [List.append_cons, take_eq_iff some, List.length_append, List.length_singleton]
  omega

/-- A file that ends with its last line stays as it is. -/
private theorem recover_ended (before : List UInt8) : recoverPartialJsonl (before ++ [10]) = before ++ [10] := by
  have size : (before ++ [10]).length = before.length + 1 := by rw [List.length_append, List.length_singleton]
  have inside : before.length + 1 - min (before.length + 1) recoveryTailBytes ≤ before.length := by
    have window := recoveryTailBytes_pos
    omega
  generalize cut : before.length + 1 - min (before.length + 1) recoveryTailBytes = start at inside
  have tail : codeUnits (decode ((before ++ [10]).drop start)) = codeUnits (decode (before.drop start)) ++ [lineBreak] := by
    rw [List.drop_append_of_le_length inside, decode_ascii _ _ (by decide)]
    exact codeUnits_line _ _
  have ended : (codeUnits (decode (before.drop start)) ++ [lineBreak]).getLast? = some lineBreak := List.getLast?_concat
  simp only [recoverPartialJsonl, size, cut, tail, ended, or_true, if_true]

/-- The recovery leaves the complete lines exactly when what a crash left can be cut off. -/
theorem recoverPartialJsonl_iff (ended : text = [] ∨ ∃ before, text = before ++ ['\n']) (plain : 10 ∉ torn) :
    recoverPartialJsonl (encode text ++ torn) = encode text ↔ Recoverable (encode text) torn := by
  by_cases none : torn = []
  · subst none
    refine iff_of_true ?_ (.inl rfl)
    rw [List.append_nil]
    rcases ended with rfl | ⟨before, rfl⟩
    · rfl
    · rw [encode_append]
      exact recover_ended _
  unfold Recoverable
  rcases ended with rfl | ⟨before, rfl⟩
  · rw [encode_nil, recover_far none plain (.inl rfl)]
    simp only [none, false_or, List.drop_nil, List.not_mem_nil, false_implies, implies_true, and_true, true_and]
    omega
  · have line : encode (before ++ ['\n']) = encode before ++ [10] := encode_append _ _
    have size : (encode before ++ [10]).length = (encode before).length + 1 := by rw [List.length_append, List.length_singleton]
    rcases Nat.lt_or_ge torn.length recoveryTailBytes with near | far
    · have inside : (encode before).length + 1 + torn.length - recoveryTailBytes ≤ (encode before).length := by omega
      have joined : encode before ++ [10] ++ torn = encode before ++ 10 :: torn := (List.append_cons _ _ _).symm
      have last : ∀ byte ∈ [(10 : UInt8)], byte.toNat < 0xC0 := List.forall_mem_singleton.mpr (by decide)
      rw [line, joined, recover_near none plain near, length_units_iff, size, List.drop_append_of_le_length inside,
        List.forall_mem_append]
      constructor
      · intro ascii
        exact .inr (.inr ⟨near, ascii, last⟩)
      · rintro (empty | exactly | ⟨-, ascii, -⟩)
        · exact absurd empty none
        · exact absurd exactly (Nat.ne_of_lt near)
        · exact ascii
    · have shown : encode before ++ [10] ≠ [] := List.append_ne_nil_of_right_ne_nil _ (List.cons_ne_nil _ _)
      rw [line, recover_far none plain (.inr far)]
      constructor
      · rintro (⟨empty, -⟩ | exactly)
        · exact absurd empty shown
        · exact .inr (.inl exactly)
      · rintro (empty | exactly | ⟨near, -⟩)
        · exact absurd empty none
        · exact .inr exactly
        · exact absurd near (Nat.not_lt.mpr far)

end Recover

/-! ## Runs -/

section Runs

variable {ν : Type} [Numerals ν]

/-- The lines of the records that were written completely. -/
def linesOf (appends : List (Append ν)) : List UInt8 := (appends.filter Append.whole).flatMap fun append => lineOf append.value

/-- What the last append left of an incomplete line. -/
def tornOf (appends : List (Append ν)) : List UInt8 :=
  ((appends.getLast?.filter fun append => !append.whole).map fun append => (lineOf append.value).take append.kept).getD []

private theorem newline_notMem_recordText (value : JsValue ν) : '\n' ∉ recordText value := by
  cases value with
  | undefined =>
    have plain : '\n' ∉ "undefined".toList := by decide
    exact plain
  | _ => exact JsonText.newline_notMem_render _

private theorem linesOf_encode (appends : List (Append ν)) :
    ∃ text, linesOf appends = encode text ∧ (text = [] ∨ ∃ before, text = before ++ ['\n']) := by
  unfold linesOf
  induction appends.filter Append.whole with
  | nil => exact ⟨[], rfl, .inl rfl⟩
  | cons append rest ih =>
    obtain ⟨text, same, ended⟩ := ih
    refine ⟨recordText append.value ++ ['\n'] ++ text, ?_, .inr ?_⟩
    · rw [List.flatMap_cons, same, lineOf, ← encode_append]
    · rcases ended with rfl | ⟨before, rfl⟩
      · exact ⟨recordText append.value, List.append_nil _⟩
      · exact ⟨recordText append.value ++ ['\n'] ++ before, (List.append_assoc _ _ _).symm⟩

private theorem take_of_whole {append : Append ν} (whole : append.whole = true) :
    (lineOf append.value).take append.kept = lineOf append.value :=
  List.take_of_length_le (of_decide_eq_true whole)

private theorem newline_notMem_torn {append : Append ν} (cut : append.whole = false) :
    10 ∉ (lineOf append.value).take append.kept := by
  have few := of_decide_eq_false cut
  have line : lineOf append.value = encode (recordText append.value) ++ [10] := encode_append _ _
  rw [line, List.length_append, List.length_singleton] at few
  rw [line, List.take_append_of_le_length (by omega)]
  exact fun member => newline_notMem_encode (newline_notMem_recordText append.value) (List.mem_of_mem_take member)

private theorem newline_notMem_tornOf (appends : List (Append ν)) : 10 ∉ tornOf appends := by
  unfold tornOf
  cases last : appends.getLast? with
  | none => exact List.not_mem_nil
  | some append =>
    cases whole : append.whole with
    | true => simp [Option.filter, whole]
    | false =>
      simp only [Option.filter, whole, Bool.not_false, if_true, Option.map_some, Option.getD_some]
      exact newline_notMem_torn whole

/-- After an append the file holds what was there, recovered, and what reached it of the line. -/
private theorem expected_concat (prior : List (Append ν)) (next : Append ν) :
    linesOf (prior ++ [next]) ++ tornOf (prior ++ [next]) = linesOf prior ++ (lineOf next.value).take next.kept := by
  unfold linesOf tornOf
  rw [List.getLast?_concat, List.filter_append, List.flatMap_append]
  cases whole : next.whole with
  | true => simp [Option.filter, whole, take_of_whole whole]
  | false => simp [Option.filter, whole]

/-- A file is right after each append of a run exactly when each append finds what it can cut off. -/
theorem appendJsonl_recovers_iff (appends : List (Append ν)) :
    (∀ prior, prior <+: appends → fileAfter prior = linesOf prior ++ tornOf prior) ↔
      ∀ prior next, prior ++ [next] <+: appends → Recoverable (linesOf prior) (tornOf prior) := by
  induction appends using List.reverseRecOn with
  | nil =>
    refine iff_of_true (fun prior inside => ?_) fun prior next inside => ?_
    · rw [List.prefix_nil.mp inside]
      rfl
    · exact absurd (List.prefix_nil.mp inside) (List.append_ne_nil_of_right_ne_nil _ (List.cons_ne_nil _ _))
  | append_singleton earlier last ih =>
    have step (right : fileAfter earlier = linesOf earlier ++ tornOf earlier) :
        fileAfter (earlier ++ [last]) = linesOf (earlier ++ [last]) ++ tornOf (earlier ++ [last]) ↔
          Recoverable (linesOf earlier) (tornOf earlier) := by
      have after : fileAfter (earlier ++ [last]) = appendJsonl (fileAfter earlier) last := List.foldl_append
      obtain ⟨text, same, ended⟩ := linesOf_encode earlier
      rw [after, expected_concat, appendJsonl, right, List.append_cancel_right_eq, same]
      exact recoverPartialJsonl_iff ended (newline_notMem_tornOf earlier)
    constructor
    · intro right prior next inside
      rcases List.prefix_concat_iff.mp inside with same | inside
      · obtain ⟨rfl, rfl⟩ := List.append_singleton_inj.mp same
        exact (step (right prior (List.prefix_append _ _))).mp (right _ (List.prefix_refl _))
      · exact ih.mp (fun prior shorter => right prior (shorter.trans (List.prefix_append _ _))) prior next inside
    · intro recoverable prior inside
      have earlierRight := ih.mpr fun prior next shorter => recoverable prior next (shorter.trans (List.prefix_append _ _))
      rcases List.prefix_concat_iff.mp inside with rfl | inside
      · exact (step (earlierRight earlier (List.prefix_refl _))).mpr (recoverable earlier last (List.prefix_refl _))
      · exact earlierRight prior inside

/-- A record with a character beyond ASCII loses its line break when the next one is torn. -/
def accentedAppends : List (Append Nat) := [⟨.string "é", 5⟩, ⟨.string "a", 2⟩, ⟨.string "b", 4⟩]

/-- The record written last is joined to the one before. -/
theorem appendJsonl_joins : fileAfter accentedAppends ≠ linesOf accentedAppends ++ tornOf accentedAppends := by
  decide

end Runs

end Faberun.Jsonl
