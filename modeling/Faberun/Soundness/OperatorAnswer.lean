import Faberun.Model.Engine.PreviousAttempt

/-! # The operator's answer, read back

What the judge reads of a rendered section. Writer and reader share the answer's heading only: an answer arrives whole when the evidence
before it has no heading of its own and no line of it begins with one of the words that open the other parts. The section always fits the
bytes a snapshot holds of it.
-/

namespace Faberun.PreviousAttempt

open BreakOn Utf8

/-- The facts about the words of the section that are computed. -/
private theorem words_facts : charBytes truncationMarker + 1 ≤ previousAttemptEvidenceMaxBytes ∧ charBytes operatorAnswerHeading = 16 ∧
    '\n' ∉ operatorAnswerHeading ∧ operatorAnswerHeading ≠ [] ∧ visible isJsWhitespace operatorAnswerHeading ≠ [] ∧
      upToStop true operatorAnswerHeading = operatorAnswerHeading := by decide

/-! ## Bytes -/

private theorem charBytes_cutBytes_le (text : List Char) (bytes : Nat) : charBytes (cutBytes text bytes) ≤ bytes + 2 := by
  obtain ⟨before, after, mark, -, same, marked, fits, -⟩ := decode_take_encode text bytes
  have size : (encode before).length = charBytes before := length_encode before
  rw [cutBytes, same, charBytes_append]
  rcases marked with rfl | rfl
  · rw [charBytes_nil]
    omega
  · have replacement : charBytes ['\uFFFD'] = 3 := by decide
    rw [List.length_singleton] at fits
    omega

private theorem charBytes_boundSection_le (text : List Char) : charBytes (boundSection text) ≤ previousAttemptEvidenceMaxBytes + 1 := by
  rw [boundSection]
  split
  · omega
  · have cut := charBytes_cutBytes_le text (previousAttemptEvidenceMaxBytes - charBytes truncationMarker - 1)
    have short := words_facts.1
    rw [charBytes_append]
    omega

/-- The evidence and an accepted answer fit the bytes of a section. -/
private theorem charBytes_section_le (state : NodeRecord) {answer : List Char} (fits : charBytes answer ≤ operatorAnswerMaxBytes) :
    charBytes (evidence state ++ answerPart answer) ≤ previousAttemptMaxBytes := by
  have heading : charBytes operatorAnswerHeading = 16 := words_facts.2.1
  have newline : Char.utf8Size '\n' = 1 := by decide
  have bound := charBytes_boundSection_le (List.intercalate ['\n']
    (headingLine :: [] :: (recordOpening state.attempt ++ " The packet is unchanged.".toList) :: failureParts state))
  rw [charBytes_append, answerPart, List.cons_append, charBytes_cons, charBytes_append, charBytes_cons, previousAttemptMaxBytes, evidence]
  omega

/-! ## Where an answer ends -/

private theorem head_of_behind (c : Char) (text : List Char) {line : List Char} (found : (behind (c :: text) line).isSome = true) :
    ∃ rest, line = c :: rest := by
  unfold behind at found
  split at found
  · rename_i starts
    obtain ⟨rest, same⟩ := List.isPrefixOf_iff_prefix.mp starts
    exact ⟨text ++ rest, same.symm⟩
  · contradiction

/-- A word that ends an answer begins with a visible character. -/
private theorem visible_of_isStop {line : List Char} (stops : isStop line = true) :
    ∃ c rest, line = c :: rest ∧ isJsWhitespace c = false := by
  simp only [isStop, Bool.or_eq_true] at stops
  rcases stops with (((attempt | error) | judge) | scope) | failing
  · obtain ⟨after, found⟩ := Option.isSome_iff_exists.mp attempt
    obtain ⟨_, found, -⟩ := Option.bind_eq_some_iff.mp found
    obtain ⟨_, found, -⟩ := Option.bind_eq_some_iff.mp found
    obtain ⟨rest, rfl⟩ := head_of_behind 'A' "ttempt ".toList (Option.isSome_iff_exists.mpr ⟨_, found⟩)
    exact ⟨'A', rest, rfl, by decide⟩
  · obtain ⟨rest, rfl⟩ := head_of_behind 'E' "rror:".toList error
    exact ⟨'E', rest, rfl, by decide⟩
  · obtain ⟨rest, rfl⟩ := head_of_behind 'J' "udge findings".toList judge
    exact ⟨'J', rest, rfl, by decide⟩
  · obtain ⟨rest, rfl⟩ := head_of_behind 'S' "cope findings".toList scope
    exact ⟨'S', rest, rfl, by decide⟩
  · obtain ⟨rest, rfl⟩ := head_of_behind 'F' "ailing verification:".toList failing
    exact ⟨'F', rest, rfl, by decide⟩

private theorem upToStop_split (starts : Bool) (text : List Char) :
    ∃ after, text = upToStop starts text ++ after ∧ (after = [] ∨ isStop after = true) := by
  induction text generalizing starts with
  | nil => exact ⟨[], rfl, .inl rfl⟩
  | cons c rest ih =>
    rw [upToStop]
    split
    · rename_i here
      exact ⟨c :: rest, rfl, .inr (Bool.and_eq_true_iff.mp here).2⟩
    · obtain ⟨after, split, ends⟩ := ih (isLineEnd c)
      exact ⟨after, congrArg (c :: ·) split, ends⟩

/-- What is cut off an answer is missed: trimmed, the rest is not the answer. -/
private theorem upToStop_of_trim {answer : List Char} (same : trimText (upToStop true answer) = trimText answer) :
    upToStop true answer = answer := by
  obtain ⟨after, split, ends⟩ := upToStop_split true answer
  rcases ends with rfl | stops
  · rw [List.append_nil] at split
    exact split.symm
  · obtain ⟨c, rest, rfl, shown⟩ := visible_of_isStop stops
    have all : visible isJsWhitespace (upToStop true answer) = visible isJsWhitespace answer := by
      rw [← visible_trimText, same, visible_trimText]
    have kept : visible isJsWhitespace answer =
        visible isJsWhitespace (upToStop true answer) ++ visible isJsWhitespace (c :: rest) := by
      rw [← visible_append, ← split]
    rw [all, List.self_eq_append_right, visible_eq_nil_iff] at kept
    rw [kept c List.mem_cons_self] at shown
    contradiction

/-! ## Reading -/

private theorem newline_notMem_heading : '\n' ∉ operatorAnswerHeading := words_facts.2.2.1

private theorem heading_ne_nil : operatorAnswerHeading ≠ [] := words_facts.2.2.2.1

/-- A line that begins with a word that ends an answer does so before its end. -/
private theorem isStop_append_newline (line rest : List Char) : isStop (line ++ '\n' :: rest) = isStop line := by
  have within {word : List Char} (one : '\n' ∉ word) (line : List Char) :
      behind word (line ++ '\n' :: rest) = (behind word line).map (· ++ '\n' :: rest) := by
    unfold behind
    by_cases starts : word.isPrefixOf line = true
    · obtain ⟨more, rfl⟩ := List.isPrefixOf_iff_prefix.mp starts
      simp [starts]
    · have longer : ¬ word.isPrefixOf (line ++ '\n' :: rest) = true := by
        intro starts'
        obtain ⟨more, same⟩ := List.isPrefixOf_iff_prefix.mp starts'
        rcases List.append_eq_append_iff.mp same with ⟨inner, rfl, -⟩ | ⟨inner, rfl, tail⟩
        · exact starts (List.isPrefixOf_iff_prefix.mpr ⟨inner, rfl⟩)
        · cases inner with
          | nil => exact starts (List.isPrefixOf_iff_prefix.mpr ⟨[], by simp⟩)
          | cons c inner =>
            obtain ⟨rfl, -⟩ := List.cons.inj tail
            exact one (by simp)
      rw [if_neg starts, if_neg longer]
      rfl
  have digits (line : List Char) : behindDigits (line ++ '\n' :: rest) = (behindDigits line).map (· ++ '\n' :: rest) := by
    have taken : (line ++ '\n' :: rest).takeWhile Char.isDigit = line.takeWhile Char.isDigit := by
      rw [List.takeWhile_append]
      split_ifs with all
      · rw [List.takeWhile_cons_of_neg (by decide), List.append_nil]
        exact ((List.takeWhile_prefix _).eq_of_length all).symm
      · rfl
    have dropped : (line ++ '\n' :: rest).dropWhile Char.isDigit = line.dropWhile Char.isDigit ++ '\n' :: rest := by
      rw [List.dropWhile_append]
      split_ifs with none
      · rw [List.isEmpty_iff.mp none]
        exact List.dropWhile_cons_of_neg (by decide)
      · rfl
    rw [behindDigits, behindDigits, taken, dropped]
    split_ifs <;> rfl
  have attempt : behindAttempt (line ++ '\n' :: rest) = (behindAttempt line).map (· ++ '\n' :: rest) := by
    rw [behindAttempt, behindAttempt, within (by decide)]
    cases behind "Attempt ".toList line with
    | none => rfl
    | some numbered =>
      simp only [Option.map_some, Option.bind_some, digits]
      cases behindDigits numbered with
      | none => rfl
      | some failed => exact within (by decide) failed
  rw [isStop, isStop, attempt, within (by decide), within (by decide), within (by decide), within (by decide)]
  simp only [Option.isSome_map]

/-- No line of a text begins with a word that ends an answer. -/
def Unstopped (text : List Char) : Prop := upToStop true text = text

instance (text : List Char) : Decidable (Unstopped text) := inferInstanceAs (Decidable (_ = _))

private theorem upToStop_append (starts : Bool) (line rest : List Char) :
    upToStop starts (line ++ '\n' :: rest) =
      if upToStop starts line = line then line ++ '\n' :: upToStop true rest else upToStop starts line := by
  induction line generalizing starts with
  | nil =>
    have other : isStop ('\n' :: rest) = false := isStop_append_newline [] rest
    have newline : isLineEnd '\n' = true := rfl
    rw [List.nil_append, upToStop.eq_2, other, Bool.and_false, if_neg Bool.false_ne_true, newline]
    rfl
  | cons c line ih =>
    rw [List.cons_append, upToStop, upToStop, ← List.cons_append, isStop_append_newline]
    split_ifs with stops none whole
    · cases none
    · rfl
    · rw [ih, if_pos (List.cons.inj whole).2]
      rfl
    · rw [ih, if_neg fun same => whole (congrArg (c :: ·) same)]

/-- Behind evidence without a heading the answer is read up to the first word that ends it. -/
private theorem read_behind {text answer : List Char} (plain : ¬ operatorAnswerHeading <:+: text) :
    previousAttemptOperatorAnswer (some (text ++ answerPart answer)) = nonempty? (trimText (upToStop true answer)) := by
  have found : breakOn operatorAnswerHeading (text ++ answerPart answer) = some (text ++ ['\n'], '\n' :: answer) := by
    rw [answerPart, List.cons_append, breakOn_separated newline_notMem_heading heading_ne_nil plain,
      breakOn_marker heading_ne_nil]
    rfl
  have step : upToStop true ('\n' :: answer) = '\n' :: upToStop true answer := upToStop_append true [] answer
  have blank : trimText ('\n' :: upToStop true answer) = trimText (upToStop true answer) := by
    rw [trimText, List.dropWhile_cons_of_pos (by decide)]
    rfl
  simp only [previousAttemptOperatorAnswer, Option.bind_some, found, step, blank]

/-- Behind a heading of the evidence, the evidence is read up to a word that ends an answer; without one, the heading and the
answer's own lines up to such a word are read as well. -/
private theorem read_within {text answer : List Char} {parts : List Char × List Char}
    (found : breakOn operatorAnswerHeading text = some parts) :
    previousAttemptOperatorAnswer (some (text ++ answerPart answer)) = nonempty? (trimText
      (if Unstopped parts.2 then parts.2 ++ answerPart (upToStop true answer) else upToStop true parts.2)) := by
  have further : breakOn operatorAnswerHeading (text ++ answerPart answer) = some (parts.1, parts.2 ++ answerPart answer) :=
    breakOn_append found
  have heading : upToStop true (operatorAnswerHeading ++ '\n' :: answer) = operatorAnswerHeading ++ '\n' :: upToStop true answer := by
    rw [upToStop_append, if_pos words_facts.2.2.2.2.2]
  have split : upToStop true (parts.2 ++ answerPart answer) =
      if Unstopped parts.2 then parts.2 ++ answerPart (upToStop true answer) else upToStop true parts.2 := by
    rw [answerPart, List.cons_append, upToStop_append, heading]
    rfl
  simp only [previousAttemptOperatorAnswer, Option.bind_some, further, split]

/-! ## The round trip -/

/-- Every recorded operator answer was accepted: it says something, within its bytes. -/
structure Accepted (state : NodeRecord) : Prop where
  answers : ∀ override ∈ state.executionOverrides, override.kind = "operator-answer" →
    ∃ text, override.text = some text ∧ trimText text ≠ [] ∧ charBytes text ≤ operatorAnswerMaxBytes

/-- The texts of the recorded operator answers, the newest last. -/
def recordedAnswers (state : NodeRecord) : List (List Char) :=
  (state.executionOverrides.filter fun override => override.kind == "operator-answer").filterMap (·.text)

/-- The judge reads the newest recorded answer, trimmed, or nothing where none is recorded; and a snapshot takes the section. -/
def ReachesJudge (state : NodeRecord) : Prop :=
  previousAttemptOperatorAnswer (renderPreviousAttemptSection state) = (recordedAnswers state).getLast?.map trimText ∧
    ∀ text ∈ renderPreviousAttemptSection state, charBytes text ≤ previousAttemptMaxBytes

/-- A heading of the evidence does no harm: what stands behind it says the answer, up to a line that begins with a word that ends one;
or no line of it does, a line of the answer does, and the answer says what stands there with the heading and its own lines up to that
one. -/
def Quotes (behind answer : List Char) : Prop :=
  (¬ Unstopped behind ∧ trimText (upToStop true behind) = trimText answer) ∨
    (Unstopped behind ∧ ¬ Unstopped answer ∧ trimText (behind ++ answerPart (upToStop true answer)) = trimText answer)

/-- No word of the section is mistaken: the evidence has no heading of an answer and no line of the answer begins with a word that ends
it, or the evidence has a heading and quotes the answer there. -/
def Unmistaken (state : NodeRecord) : Prop :=
  match (recordedAnswers state).getLast? with
  | none =>
    failureParts state = [] ∨
      ∀ parts, breakOn operatorAnswerHeading (evidence state) = some parts → trimText (upToStop true parts.2) = []
  | some answer =>
    (¬ operatorAnswerHeading <:+: evidence state ∧ Unstopped answer) ∨
      ∃ parts, breakOn operatorAnswerHeading (evidence state) = some parts ∧ Quotes parts.2 answer

private theorem getLast?_recordedAnswers {state : NodeRecord} (accepted : Accepted state) :
    (recordedAnswers state).getLast? = mostRecentOperatorAnswer state := by
  have newest : (state.executionOverrides.filter fun override => override.kind == "operator-answer").getLast? =
      state.executionOverrides.reverse.find? fun override => override.kind == "operator-answer" := List.getLast?_filter
  rw [mostRecentOperatorAnswer, ← newest, recordedAnswers]
  cases last : (state.executionOverrides.filter fun override => override.kind == "operator-answer").getLast? with
  | none => rw [List.getLast?_eq_none_iff.mp last]; rfl
  | some override =>
    obtain ⟨earlier, shape⟩ := List.getLast?_eq_some_iff.mp last
    have member : override ∈ state.executionOverrides.filter fun override => override.kind == "operator-answer" := by
      rw [shape]
      exact List.mem_concat_self
    obtain ⟨there, kind⟩ := List.mem_filter.mp member
    obtain ⟨text, given, -⟩ := accepted.answers override there (beq_iff_eq.mp kind)
    rw [shape, List.filterMap_append, List.filterMap_cons_some given, List.filterMap_nil, List.getLast?_concat, Option.bind_some, given]

private theorem nonempty?_eq_some_iff {text other : List Char} (some : other ≠ []) : nonempty? text = .some other ↔ text = other := by
  unfold nonempty?
  constructor
  · intro same
    split at same
    · contradiction
    · exact Option.some.inj same
  · rintro rfl
    exact if_neg some

private theorem nonempty?_eq_none_iff {text : List Char} : nonempty? text = none ↔ text = [] := by
  unfold nonempty?
  split <;> simp_all

/-- Without a recorded answer the reader finds something only under a heading of the evidence. -/
private theorem reaches_unanswered {state : NodeRecord} (started : state.attempt ≠ 0) (given : mostRecentOperatorAnswer state = none) :
    previousAttemptOperatorAnswer (renderPreviousAttemptSection state) = none ↔
      failureParts state = [] ∨
        ∀ parts, breakOn operatorAnswerHeading (evidence state) = some parts → trimText (upToStop true parts.2) = [] := by
  by_cases nothing : failureParts state = []
  · have silent : renderPreviousAttemptSection state = none := by
      rw [renderPreviousAttemptSection, if_neg started, if_pos ⟨nothing, given⟩]
    rw [silent]
    exact iff_of_true rfl (.inl nothing)
  · have rendered : renderPreviousAttemptSection state = some (evidence state) := by
      rw [renderPreviousAttemptSection, if_neg started, if_neg (fun both => nothing both.1), given]
    simp only [rendered, nothing, false_or, previousAttemptOperatorAnswer, Option.bind_some, Option.bind_eq_none_iff,
      nonempty?_eq_none_iff]

/-- What is read behind a heading of the evidence is the answer exactly where the evidence quotes it. -/
private theorem quotes_iff {behind answer : List Char} :
    trimText (if Unstopped behind then behind ++ answerPart (upToStop true answer) else upToStop true behind) = trimText answer ↔
      Quotes behind answer := by
  unfold Quotes
  split_ifs with whole
  · simp only [whole, not_true_eq_false, false_and, false_or, true_and, iff_and_self]
    -- with the whole answer behind it, the heading's own letters are too many
    rintro same said
    have all : visible isJsWhitespace (behind ++ answerPart answer) = visible isJsWhitespace answer := by
      rw [← visible_trimText, ← said, same, visible_trimText, said]
    have some := List.length_pos_iff.mpr words_facts.2.2.2.2.1
    have newline (text : List Char) : visible isJsWhitespace ('\n' :: text) = visible isJsWhitespace text :=
      List.filter_cons_of_neg (by decide)
    have longer := congrArg List.length all
    rw [answerPart, List.cons_append, visible_append, newline, visible_append, newline, List.length_append, List.length_append] at longer
    omega
  · simp only [whole, not_false_eq_true, true_and, false_and, or_false]

/-- With one it finds that answer, unless a heading of the evidence or a word of the answer is mistaken. -/
private theorem reaches_answered {state : NodeRecord} (started : state.attempt ≠ 0) {answer : List Char}
    (given : mostRecentOperatorAnswer state = some answer) (shown : trimText answer ≠ []) :
    previousAttemptOperatorAnswer (renderPreviousAttemptSection state) = some (trimText answer) ↔
      (¬ operatorAnswerHeading <:+: evidence state ∧ Unstopped answer) ∨
        ∃ parts, breakOn operatorAnswerHeading (evidence state) = some parts ∧ Quotes parts.2 answer := by
  have rendered : renderPreviousAttemptSection state = some (evidence state ++ answerPart answer) := by
    have other : ¬ (failureParts state = [] ∧ mostRecentOperatorAnswer state = none) := by simp [given]
    rw [renderPreviousAttemptSection, if_neg started, if_neg other, given]
  rw [rendered]
  cases found : breakOn operatorAnswerHeading (evidence state) with
  | none =>
    have plain := breakOn_eq_none_iff.mp found
    rw [read_behind plain, nonempty?_eq_some_iff shown]
    constructor
    · exact fun same => .inl ⟨plain, upToStop_of_trim same⟩
    · rintro (⟨-, whole⟩ | ⟨_, impossible, -⟩)
      · exact congrArg trimText whole
      · cases impossible
  | some parts =>
    have headed : operatorAnswerHeading <:+: evidence state := by
      by_contra plain
      rw [breakOn_eq_none_iff.mpr plain] at found
      cases found
    rw [read_within found, nonempty?_eq_some_iff shown, quotes_iff]
    constructor
    · exact fun same => .inr ⟨parts, rfl, same⟩
    · rintro (⟨plain, -⟩ | ⟨_, ⟨⟩, same⟩)
      · exact absurd headed plain
      · exact same

private theorem fits_rendered {state : NodeRecord} (accepted : Accepted state) :
    ∀ text ∈ renderPreviousAttemptSection state, charBytes text ≤ previousAttemptMaxBytes := by
  intro text member
  unfold renderPreviousAttemptSection at member
  split_ifs at member
  · contradiction
  · contradiction
  · cases given : mostRecentOperatorAnswer state with
    | none =>
      rw [given] at member
      obtain rfl := Option.some.inj member
      have bound := @charBytes_section_le state [] (Nat.zero_le _)
      rw [charBytes_append] at bound
      omega
    | some answer =>
      rw [given] at member
      obtain rfl := Option.some.inj member
      obtain ⟨override, found, text⟩ := Option.bind_eq_some_iff.mp given
      obtain ⟨kind, there⟩ := And.intro (List.find?_some found) (List.mem_of_find?_eq_some found)
      obtain ⟨_, same, -, fits⟩ := accepted.answers override (List.mem_reverse.mp there) (beq_iff_eq.mp kind)
      obtain rfl := Option.some.inj (text.symm.trans same)
      exact charBytes_section_le state fits

/-- The operator's answer reaches the judge exactly where no word of the section is mistaken. -/
theorem operatorAnswer_reaches_iff {state : NodeRecord} (started : state.attempt ≠ 0) (accepted : Accepted state) :
    ReachesJudge state ↔ Unmistaken state := by
  rw [ReachesJudge, and_iff_left (fits_rendered accepted), Unmistaken, getLast?_recordedAnswers accepted]
  cases given : mostRecentOperatorAnswer state with
  | none => exact reaches_unanswered started given
  | some answer =>
    obtain ⟨override, found, text⟩ := Option.bind_eq_some_iff.mp given
    have kind := List.find?_some found
    have there := List.mem_of_find?_eq_some found
    obtain ⟨_, same, shown, -⟩ := accepted.answers override (List.mem_reverse.mp there) (beq_iff_eq.mp kind)
    obtain rfl := Option.some.inj (text.symm.trans same)
    exact reaches_answered started given shown

/-! ## Two nodes -/

/-- A node that failed once, with an error's text and an operator's answer. -/
def answeredOnce (message answer : List Char) : NodeRecord where
  attempt := 1
  error := some ⟨none, some message⟩
  gate := none
  unexpectedPaths := []
  commands := []
  executionOverrides := [⟨"operator-answer", some answer⟩]

private theorem accepted_answeredOnce {message answer : List Char} (shown : trimText answer ≠ [])
    (fits : charBytes answer ≤ operatorAnswerMaxBytes) : Accepted (answeredOnce message answer) := by
  refine ⟨fun override member _ => ?_⟩
  obtain rfl := List.mem_singleton.mp member
  exact ⟨answer, rfl, shown, fits⟩

/-- A plain answer arrives. -/
theorem answered_plain :
    ReachesJudge (answeredOnce "timed out".toList " Use port 80.\n".toList) :=
  (operatorAnswer_reaches_iff (by decide) (accepted_answeredOnce (by decide) (by decide))).mpr
    (.inl ⟨by decide +kernel, by decide⟩)

/-- A line of the answer that begins with `Error:` is cut off, and the lines behind it. -/
theorem answered_cut : Accepted (answeredOnce "timed out".toList "Print\nError: none".toList) ∧
    previousAttemptOperatorAnswer (renderPreviousAttemptSection (answeredOnce "timed out".toList "Print\nError: none".toList)) =
      some "Print".toList ∧
    ¬ ReachesJudge (answeredOnce "timed out".toList "Print\nError: none".toList) := by
  have read : previousAttemptOperatorAnswer
      (renderPreviousAttemptSection (answeredOnce "timed out".toList "Print\nError: none".toList)) = some "Print".toList := by
    decide +kernel
  refine ⟨accepted_answeredOnce (by decide) (by decide), read, fun reaches => ?_⟩
  have same := read.symm.trans reaches.1
  exact absurd same (by decide)

end Faberun.PreviousAttempt
