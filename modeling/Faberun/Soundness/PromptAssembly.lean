import Mathlib.Data.List.Induction
import Faberun.Soundness.PromptSection

/-! # Assembling a prompt again and again

A packet's prompt through every assembly: each one takes the section it finds out and puts the newest one last. Nothing of the
packet is
lost exactly where the instructions hold no section of their own, and an assembly with the same section changes nothing exactly
where they
do not end in a newline as well.
-/

namespace Faberun.PreviousAttempt

open Utf8

/-! ## Rendered sections -/

/-- A section as it is rendered; the number of the attempt is printed in digits. -/
def Rendered (text : List Char) : Prop :=
  ∃ state : NodeRecord, state.attempt + 1 < 10 ^ 21 ∧ renderPreviousAttemptSection state = some text

private theorem numeral_digits (number : Nat) : numeral number ≠ [] ∧ ∀ c ∈ numeral number, c.isDigit = true := by
  have digits : numeral number = Nat.toDigits 10 number := Nat.toList_repr
  rw [digits]
  exact ⟨Nat.toDigits_ne_nil, fun c member => Nat.isDigit_of_mem_toDigits (by decide) (by decide) member⟩

private theorem charBytes_numeral {number : Nat} (small : number < 10 ^ 21) : charBytes (numeral number) ≤ 21 := by
  have digits : numeral number = Nat.toDigits 10 number := Nat.toList_repr
  rw [charBytes_digits (numeral_digits number).2, digits]
  exact (Nat.length_toDigits_le_iff (by decide) (by decide)).mpr small

private theorem isMark_recordOpening (attempt : Nat) : IsMark (recordOpening attempt) :=
  ⟨numeral attempt, numeral (attempt + 1), rfl, (numeral_digits attempt).1, (numeral_digits attempt).2,
    (numeral_digits (attempt + 1)).1,
    (numeral_digits (attempt + 1)).2⟩

/-- Bytes that hold the beginning of a text keep it. -/
private theorem cutBytes_keeps {first rest : List Char} {bytes : Nat} (fits : charBytes first ≤ bytes) :
    ∃ more, cutBytes (first ++ rest) bytes = first ++ more := by
  obtain ⟨before, after, mark, split, same, -, -, next⟩ := decode_take_encode (first ++ rest) bytes
  rw [cutBytes, same]
  rcases List.append_eq_append_iff.mp split with ⟨inner, rfl, -⟩ | ⟨inner, rfl, tail⟩
  · exact ⟨inner ++ mark, List.append_assoc ..⟩
  · cases inner with
    | nil => exact ⟨mark, by rw [List.append_nil]⟩
    | cons c inner =>
      have beyond := next c (by rw [tail]; rfl)
      have size : (encode before).length = charBytes before := length_encode before
      rw [size, String.length_utf8EncodeChar] at beyond
      rw [charBytes_append, charBytes_cons] at fits
      omega

private theorem charBytes_framed (front word one words other stop : List Char) :
    charBytes (front ++ '\n' :: '\n' :: (word ++ one ++ words ++ other ++ stop)) =
      charBytes front + charBytes word + charBytes words + charBytes stop + 2 + (charBytes one + charBytes other) := by
  have newline : Char.utf8Size '\n' = 1 := by decide
  simp only [charBytes_append, charBytes_cons, newline]
  omega

/-- What a section begins with fits in it however long the evidence is. -/
private theorem charBytes_opening {attempt : Nat} (small : attempt + 1 < 10 ^ 21) :
    charBytes (headingLine ++ '\n' :: '\n' :: recordOpening attempt) ≤
      previousAttemptEvidenceMaxBytes - charBytes truncationMarker - 1 := by
  have first := charBytes_numeral (Nat.lt_of_succ_lt small)
  have second := charBytes_numeral small
  have total := charBytes_framed headingLine "Attempt ".toList (numeral attempt) " failed; this is attempt ".toList
    (numeral (attempt + 1))
    ".".toList
  have fixed : charBytes headingLine + charBytes "Attempt ".toList + charBytes " failed; this is attempt ".toList +
      charBytes ".".toList + 2 ≤ 55 := by decide
  have room : 55 + (21 + 21) ≤ previousAttemptEvidenceMaxBytes - charBytes truncationMarker - 1 := by decide
  exact le_trans (le_of_eq_of_le total (Nat.add_le_add fixed (Nat.add_le_add first second))) room

private theorem opening_evidence {state : NodeRecord} (small : state.attempt + 1 < 10 ^ 21) : Opening (evidence state) := by
  obtain ⟨tail, joined⟩ : ∃ tail, List.intercalate ['\n']
      (headingLine :: [] :: (recordOpening state.attempt ++ " The packet is unchanged.".toList) :: failureParts state) =
        (headingLine ++ '\n' :: '\n' :: recordOpening state.attempt) ++ tail := by
    cases failureParts state with
    | nil => exact ⟨" The packet is unchanged.".toList, by simp [List.intercalate]⟩
    | cons part parts =>
      exact ⟨" The packet is unchanged.".toList ++ '\n' :: List.intercalate ['\n'] (part :: parts), by simp [List.intercalate]⟩
  have opening (more : List Char) : Opening ((headingLine ++ '\n' :: '\n' :: recordOpening state.attempt) ++ more) :=
    ⟨recordOpening state.attempt, more, by simp, isMark_recordOpening state.attempt⟩
  rw [evidence, joined, boundSection]
  split
  · exact opening tail
  · obtain ⟨more, kept⟩ := @cutBytes_keeps (headingLine ++ '\n' :: '\n' :: recordOpening state.attempt) tail
      (previousAttemptEvidenceMaxBytes - charBytes truncationMarker - 1) (charBytes_opening small)
    rw [kept, List.append_assoc]
    exact opening _

theorem opening_of_rendered {text : List Char} (rendered : Rendered text) : Opening text := by
  obtain ⟨state, small, rendered⟩ := rendered
  unfold renderPreviousAttemptSection at rendered
  split_ifs at rendered
  cases given : mostRecentOperatorAnswer state with
  | none =>
    rw [given] at rendered
    obtain rfl := Option.some.inj rendered
    exact opening_evidence small
  | some answer =>
    rw [given] at rendered
    obtain rfl := Option.some.inj rendered
    obtain ⟨mark, rest, same, marks⟩ := opening_evidence small
    exact ⟨mark, rest ++ answerPart answer, by rw [same]; simp, marks⟩

/-! ## Splitting an assembled prompt -/

private theorem splitPreviousAttemptSection_free {text : List Char} (absent : findSection true text = none) :
    splitPreviousAttemptSection text = (text, none) := by
  rw [splitPreviousAttemptSection, absent]

private theorem findSection_newline {text : List Char} (opening : Opening text) :
    findSection true ('\n' :: text) = some (['\n'], text) := by
  have quiet : opensRecord text = false := by rw [← opensRecord_newline]; exact opening.quiet
  have behind := @findSection_append_of_none true [] rfl text quiet
  rw [List.nil_append, opening.findSection] at behind
  exact behind

/-- Behind instructions without a section the one that was put there is found. -/
private theorem split_section {front text : List Char} (absent : findSection true front = none) (opening : Opening text) :
    splitPreviousAttemptSection (front ++ '\n' :: '\n' :: text) = (withoutNewlines front, some (withoutNewlines text)) := by
  rw [splitPreviousAttemptSection, findSection_append_of_none absent opening.quiet, findSection_newline opening, Option.map_some]
  simp only [withoutNewlines_append_newlines]

/-- Behind instructions with a section of their own it is that one that is found. -/
private theorem split_own {front text : List Char} {parts : List Char × List Char} (found : findSection true front = some parts)
    (opening : Opening text) : (splitPreviousAttemptSection (front ++ '\n' :: '\n' :: text)).1 = withoutNewlines parts.1 := by
  rw [splitPreviousAttemptSection, findSection_append found opening.quiet]

/-- What stands before a section is less than the whole. -/
private theorem withoutNewlines_before {front : List Char} {parts : List Char × List Char} (found :
    findSection true front = some parts) :
    withoutNewlines parts.1 ≠ withoutNewlines front := by
  obtain ⟨split, opens⟩ := eq_of_findSection found
  obtain ⟨rest, shape, -⟩ := opensSection_iff.mp opens
  have heading : withoutNewlines headingLine = headingLine := by decide
  have kept : withoutNewlines parts.2 = headingLine ++ withoutNewlines rest := by rw [shape, withoutNewlines_append heading]
  have some : withoutNewlines parts.2 ≠ [] := by
    rw [kept]
    exact List.append_ne_nil_of_left_ne_nil (by decide) _
  have short : (withoutNewlines parts.1).length ≤ parts.1.length := List.IsPrefix.length_le (List.rdropWhile_prefix _ _)
  intro same
  have lengths := congrArg List.length same
  rw [split, withoutNewlines_append_of_ne_nil parts.1 some, List.length_append] at lengths
  have long := List.length_pos_of_ne_nil some
  omega

/-! ## The run of assemblies -/

/-- The prompt after the packet's was assembled with each of the sections, one after the other. -/
def reassembled (packet : List Char) (sections : List (List Char)) : List Char :=
  sections.foldl (fun base text => assembleDispatchPrompt base { sectionText := some text }) packet

/-- The packet's prompt, without the newlines at its end once a section was put behind it. -/
def instructions (packet : List Char) (sections : List (List Char)) : List Char :=
  if sections = [] then packet else withoutNewlines packet

/-- The newest section: the one of the last assembly, or else the one found in the prompt. -/
def newest (sections : List (List Char)) (assembly : Assembly) : Option (List Char) :=
  assembly.sectionText.or (sections.getLast?.map withoutNewlines)

/-- A section behind the instructions, with an empty line between. -/
def behindInstructions : Option (List Char) → List Char
  | none => []
  | some text => '\n' :: '\n' :: text

/-- Each transformer of the assembly only appends text. -/
structure OnlyAppends (assembly : Assembly) : Prop where
  sandbox : ∀ change ∈ assembly.sandbox, ∀ text, ∃ added, change text = text ++ added
  protocol : ∀ change ∈ assembly.protocol, ∀ text, ∃ added, change text = text ++ added
  stable : ∀ change ∈ assembly.stable, ∀ text, ∃ added, change text = text ++ added

private theorem appends_getD {change : Option (List Char → List Char)} (appends :
    ∀ f ∈ change, ∀ text, ∃ added, f text = text ++ added)
    (text : List Char) : ∃ added, change.getD id text = text ++ added := by
  cases change with
  | none => exact ⟨[], (List.append_nil text).symm⟩
  | some f => exact appends f rfl text

theorem OnlyAppends.apply {assembly : Assembly} (appends : OnlyAppends assembly) (text : List Char) :
    ∃ added, assembly.apply text = text ++ added := by
  obtain ⟨first, one⟩ := appends_getD appends.sandbox text
  obtain ⟨second, two⟩ := appends_getD appends.protocol (text ++ first)
  obtain ⟨third, three⟩ := appends_getD appends.stable (text ++ first ++ second)
  exact ⟨first ++ second ++ third, by rw [Assembly.apply, one, two, three]; simp⟩

private theorem findSection_instructions {packet : List Char} (absent : findSection true packet = none) (sections :
    List (List Char)) :
    findSection true (instructions packet sections) = none := by
  rw [instructions]
  split
  · exact absent
  · obtain ⟨count, split⟩ := withoutNewlines_split packet
    rw [split] at absent
    exact findSection_of_append _ absent

private theorem findSection_packet {packet : List Char} {sections : List (List Char)}
    (absent : findSection true (instructions packet sections) = none) : findSection true packet = none := by
  rw [instructions] at absent
  split at absent
  · exact absent
  · exact findSection_of_withoutNewlines absent

private theorem nonempty?_opening {text : List Char} (opening : Opening text) : nonempty? text = some text := by
  obtain ⟨mark, rest, rfl, -⟩ := opening
  exact if_neg (by simp)

/-- Every re-assembly finds the packet's prompt again, and the section before it. -/
private theorem split_reassembled {packet : List Char} (absent : findSection true packet = none) {sections : List (List Char)}
    (rendered : ∀ text ∈ sections, Opening text) :
    splitPreviousAttemptSection (reassembled packet sections) =
      (instructions packet sections, sections.getLast?.map withoutNewlines) := by
  induction sections using List.reverseRecOn with
  | nil => exact splitPreviousAttemptSection_free absent
  | append_singleton sections text ih =>
    have earlier := ih fun other member => rendered other (List.mem_append_left _ member)
    have opening := rendered text List.mem_concat_self
    have once : reassembled packet (sections ++ [text]) = instructions packet sections ++ '\n' :: '\n' :: text := by
      rw [reassembled, List.foldl_concat]
      change assembleDispatchPrompt (reassembled packet sections) { sectionText := some text } = _
      simp only [assembleDispatchPrompt, earlier, Assembly.apply, Option.some_or, Option.bind_some, nonempty?_opening opening,
        Option.getD_none, id]
    have same : withoutNewlines (instructions packet sections) = withoutNewlines packet := by
      rw [instructions]
      split
      · rfl
      · exact withoutNewlines_idem packet
    have some : sections ++ [text] ≠ [] := by simp
    rw [once, split_section (findSection_instructions absent sections) opening, same, List.getLast?_concat, instructions,
      if_neg some]
    rfl

/-! ## What the last assembly gives -/

/-- The packet's prompt, what the transformers append, and the newest section; that section alone is found in it, and the same
assembly
without transformers gives it again. -/
structure NothingLost (packet : List Char) (sections : List (List Char)) (assembly : Assembly) : Prop where
  contains : ∃ added, assembly.apply (instructions packet sections) = instructions packet sections ++ added ∧
    assembleDispatchPrompt (reassembled packet sections) assembly =
      instructions packet sections ++ added ++ behindInstructions (newest sections assembly)
  once : splitPreviousAttemptSection (assembleDispatchPrompt (reassembled packet sections) assembly) =
    match newest sections assembly with
    | none => (assembly.apply (instructions packet sections), none)
    | some text => (withoutNewlines (assembly.apply (instructions packet sections)), some (withoutNewlines text))
  again : assembleDispatchPrompt (assembleDispatchPrompt (reassembled packet sections) assembly) { sectionText :=
    assembly.sectionText } =
    assembleDispatchPrompt (reassembled packet sections) assembly

/-- The instructions hold no section, and do not end in a newline when one is put behind them. -/
structure Separate (packet : List Char) (sections : List (List Char)) (assembly : Assembly) : Prop where
  free : SectionFree (assembly.apply (instructions packet sections))
  ends : newest sections assembly ≠ none →
    withoutNewlines (assembly.apply (instructions packet sections)) = assembly.apply (instructions packet sections)

section

variable {packet : List Char} {sections : List (List Char)} {assembly : Assembly}

private theorem opening_newest (rendered : ∀ text ∈ sections, Opening text) (last : ∀ text ∈ assembly.sectionText, Opening text)
    {text : List Char} (carried : newest sections assembly = some text) : Opening text := by
  rw [newest] at carried
  cases given : assembly.sectionText with
  | some other =>
    rw [given, Option.some_or] at carried
    exact last text (given.trans carried)
  | none =>
    rw [given, Option.none_or] at carried
    obtain ⟨other, final, rfl⟩ := Option.map_eq_some_iff.mp carried
    exact (rendered other (List.mem_of_getLast? final)).withoutNewlines

/-- The section an assembly of the result takes: the one it is given, or the one it finds. -/
private theorem taken_again {text : List Char} (carried : newest sections assembly = some text) :
    assembly.sectionText.or (some (withoutNewlines text)) = some text := by
  rw [newest] at carried
  cases given : assembly.sectionText with
  | some other =>
    rw [given, Option.some_or] at carried
    rw [Option.some_or, carried]
  | none =>
    rw [given, Option.none_or] at carried
    obtain ⟨other, -, rfl⟩ := Option.map_eq_some_iff.mp carried
    rw [Option.none_or, withoutNewlines_idem]

/-- An assembly without transformers of a prompt that was split. -/
private theorem assemble_plain {base front : List Char} {found sectionText : Option (List Char)} (split :
    splitPreviousAttemptSection base =
    (front, found)) {taken : Option (List Char)} (same : sectionText.or found = taken) (opening : ∀ text ∈ taken, Opening text) :
    assembleDispatchPrompt base { sectionText := sectionText } = front ++ behindInstructions taken := by
  simp only [assembleDispatchPrompt, split, Assembly.apply, Option.getD_none, id, same]
  cases taken with
  | none => exact (List.append_nil front).symm
  | some text =>
    rw [Option.bind_some, nonempty?_opening (opening text rfl)]
    rfl

private theorem nothingLost_of_separate (appends : OnlyAppends assembly) (rendered : ∀ text ∈ sections, Opening text)
    (last : ∀ text ∈ assembly.sectionText, Opening text) (separate : Separate packet sections assembly) :
    NothingLost packet sections assembly := by
  have absent := findSection_eq_none_iff.mpr separate.free
  obtain ⟨added, shape⟩ := appends.apply (instructions packet sections)
  have kept : findSection true (instructions packet sections) = none := by
    rw [shape] at absent
    exact findSection_of_append added absent
  have split := split_reassembled (findSection_packet kept) rendered
  have result : assembleDispatchPrompt (reassembled packet sections) assembly =
      assembly.apply (instructions packet sections) ++ behindInstructions (newest sections assembly) := by
    simp only [assembleDispatchPrompt, split]
    change (match (newest sections assembly).bind nonempty? with | none => _ | some carried => _) = _
    cases carried : newest sections assembly with
    | none => exact (List.append_nil _).symm
    | some text =>
      rw [Option.bind_some, nonempty?_opening (opening_newest rendered last carried)]
      rfl
  cases carried : newest sections assembly with
  | none =>
    have ends : behindInstructions (newest sections assembly) = [] := by rw [carried]; rfl
    rw [ends, List.append_nil] at result
    have plain := splitPreviousAttemptSection_free absent
    have unnamed : assembly.sectionText.or none = none := by
      rw [newest, Option.or_eq_none_iff] at carried
      rw [carried.1]
      rfl
    refine ⟨⟨added, shape, by rw [result, ends, List.append_nil, shape]⟩, by rw [result, plain, carried], ?_⟩
    rw [result, assemble_plain plain unnamed nofun]
    exact List.append_nil _
  | some text =>
    have opening := opening_newest rendered last carried
    have found := split_section absent opening
    rw [carried] at result
    refine ⟨⟨added, shape, by rw [result, carried, shape]⟩, by rw [result, carried]; exact found, ?_⟩
    have ends := separate.ends (by rw [carried]; exact Option.some_ne_none text)
    rw [result, behindInstructions, assemble_plain found (taken_again carried), ends]
    · rfl
    · rintro other ⟨⟩
      exact opening

private theorem separate_of_nothingLost (rendered : ∀ text ∈ sections, Opening text)
    (last : ∀ text ∈ assembly.sectionText, Opening text) (whole : NothingLost packet sections assembly) :
    Separate packet sections assembly := by
  cases carried : newest sections assembly with
  | none =>
    have once := whole.once
    obtain ⟨added, shape, contains⟩ := whole.contains
    rw [← shape] at contains
    rw [carried] at once contains
    refine ⟨findSection_eq_none_iff.mp ?_, fun some => absurd carried some⟩
    rw [contains, behindInstructions, List.append_nil, splitPreviousAttemptSection] at once
    cases found : findSection true (assembly.apply (instructions packet sections)) with
    | none => rfl
    | some parts =>
      rw [found] at once
      cases congrArg Prod.snd once
  | some text =>
    have opening := opening_newest rendered last carried
    have once := whole.once
    obtain ⟨added, shape, contains⟩ := whole.contains
    have again := whole.again
    rw [← shape] at contains
    rw [carried] at once contains
    rw [contains] at once again
    refine ⟨findSection_eq_none_iff.mp ?_, fun _ => ?_⟩
    · cases found : findSection true (assembly.apply (instructions packet sections)) with
      | none => rfl
      | some parts =>
        have own := split_own found opening
        rw [behindInstructions] at once
        rw [once] at own
        exact absurd own.symm (withoutNewlines_before found)
    · rw [assemble_plain once (taken_again carried)] at again
      · exact List.append_cancel_right again
      · rintro other ⟨⟩
        exact opening

/-- Prompt assembly loses nothing, and is repeated without a change, exactly where the instructions are separate from the
section. -/
theorem assembleDispatchPrompt_keeps_iff (appends : OnlyAppends assembly) (rendered : ∀ text ∈ sections, Rendered text)
    (last : ∀ text ∈ assembly.sectionText, Rendered text) :
    NothingLost packet sections assembly ↔ Separate packet sections assembly := by
  have opening := fun text member => opening_of_rendered (rendered text member)
  have final := fun text member => opening_of_rendered (last text member)
  exact ⟨separate_of_nothingLost opening final, nothingLost_of_separate appends opening final⟩

end

/-! ## Two packets -/

/-- A node that failed once. -/
def failedOnce : NodeRecord where
  attempt := 1
  error := some ⟨none, some "timed out".toList⟩
  gate := none
  unexpectedPaths := []
  commands := []
  executionOverrides := []

private theorem rendered_failedOnce : Rendered (evidence failedOnce) := ⟨failedOnce, by decide, by decide⟩

private theorem onlyAppends_sandbox {notice : List Char} {carried : Option (List Char)} :
    OnlyAppends { sandbox := some (· ++ notice), sectionText := carried } := by
  refine ⟨?_, nofun, nofun⟩
  rintro change ⟨⟩ text
  exact ⟨notice, rfl⟩

/-- A plain packet with the section of its node, assembled again with a notice. -/
theorem failedOnce_kept : NothingLost "Fix it.".toList [evidence failedOnce] { sandbox := some (· ++ " Stay inside.".toList) } :=
  (assembleDispatchPrompt_keeps_iff onlyAppends_sandbox (List.forall_mem_singleton.mpr rendered_failedOnce)
    (fun _ member => by cases member)).mpr
    ⟨findSection_eq_none_iff.mp (by decide), fun _ => by decide⟩

/-- A packet that quotes such a section loses what it says from the quotation on. -/
theorem quoted_lost : OnlyAppends { sectionText := some (evidence failedOnce) } ∧ Rendered (evidence failedOnce) ∧
    ¬ NothingLost "Quote:\n\n## Previous attempt\n\nAttempt 1 failed; this is attempt 2.\nThen fix it.".toList []
      { sectionText := some (evidence failedOnce) } := by
  refine ⟨⟨nofun, nofun, nofun⟩, rendered_failedOnce, fun whole => ?_⟩
  have last : ∀ text ∈ some (evidence failedOnce), Opening text := by
    intro text member
    rw [← Option.some.inj member]
    exact opening_of_rendered rendered_failedOnce
  have separate := separate_of_nothingLost (fun _ member => absurd member List.not_mem_nil) last whole
  have absent := findSection_eq_none_iff.mpr separate.free
  exact absurd absent (by decide)

end Faberun.PreviousAttempt
