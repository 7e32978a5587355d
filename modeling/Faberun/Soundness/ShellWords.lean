import Faberun.Model.UtilWords

/-! # Words spelled in segments

A word is spelled as bare, single-quoted and double-quoted segments, one after the other. The scan of `shellWords` is outside quotes
behind each of them and has taken the text the segment stands for, so it gives back the words however they are spelled.
-/

namespace Faberun

/-- A piece of a word on a command line. -/
inductive Segment where
  | bare (text : List Char) (plain : ∀ c ∈ text, isJsWhitespace c = false ∧ c ≠ '"' ∧ c ≠ '\'' ∧ c ≠ '\\')
  | single (text : List Char) (free : '\'' ∉ text)
  | double (text : List Char)

namespace Segment

/-- What a segment stands for. -/
def text : Segment → List Char
  | bare text _ | single text _ | double text => text

/-- How a segment is written. -/
def spelled : Segment → List Char
  | bare text _ => text
  | single text _ => '\'' :: text ++ ['\'']
  | double text => quoteWord text

end Segment

/-- A word with a way to write it. -/
structure Spelling where
  segments : List Segment
  written : segments.flatMap Segment.spelled ≠ []

namespace Spelling

def word (spelling : Spelling) : List Char := spelling.segments.flatMap Segment.text

def spelled (spelling : Spelling) : List Char := spelling.segments.flatMap Segment.spelled

end Spelling

/-- What stands between two words. -/
structure Gap where
  text : List Char
  blank : ∀ c ∈ text, isJsWhitespace c = true
  wide : text ≠ []

/-- Words on one line, a gap between any two. -/
def joinWords (gaps : Nat → Gap) : List Spelling → List Char
  | [] => []
  | [last] => last.spelled
  | word :: next :: rest => word.spelled ++ (gaps rest.length).text ++ joinWords gaps (next :: rest)

/-! ## The scan of a segment -/

private theorem read_bare {text : List Char} (plain : ∀ c ∈ text, isJsWhitespace c = false ∧ c ≠ '"' ∧ c ≠ '\'' ∧ c ≠ '\\')
    (words : List (List Char)) (current : Option (List Char)) :
    text.foldl WordScan.read ⟨words, current, none, false⟩ =
      ⟨words, if text = [] then current else some (current.getD [] ++ text), none, false⟩ := by
  induction text generalizing current with
  | nil => rfl
  | cons c rest ih =>
    obtain ⟨⟨visible, notDouble, notSingle, -⟩, later⟩ := List.forall_mem_cons.mp plain
    have taken : WordScan.read ⟨words, current, none, false⟩ c = ⟨words, some (current.getD [] ++ [c]), none, false⟩ := by
      simp [WordScan.read, WordScan.extend, visible, notDouble, notSingle]
    rw [List.foldl_cons, taken, ih later, if_neg (List.cons_ne_nil c rest)]
    by_cases last : rest = []
    · rw [if_pos last, last]
    · rw [if_neg last, Option.getD_some, List.append_assoc, List.singleton_append]

private theorem read_single {text : List Char} (free : '\'' ∉ text) (words : List (List Char)) (current : List Char) :
    text.foldl WordScan.read ⟨words, some current, some '\'', false⟩ = ⟨words, some (current ++ text), some '\'', false⟩ := by
  induction text generalizing current with
  | nil => rw [List.append_nil]; rfl
  | cons c rest ih =>
    obtain ⟨other, later⟩ := not_or.mp (mt List.mem_cons.mpr free)
    have taken : WordScan.read ⟨words, some current, some '\'', false⟩ c = ⟨words, some (current ++ [c]), some '\'', false⟩ := by
      simp [WordScan.read, WordScan.extend, other]
    rw [List.foldl_cons, taken, ih later, List.append_assoc, List.singleton_append]

private theorem read_open {quote : Char} (mark : quote = '"' ∨ quote = '\'') (words : List (List Char)) (current : Option (List Char)) :
    WordScan.read ⟨words, current, none, false⟩ quote = ⟨words, some (current.getD []), some quote, false⟩ := by
  rcases mark with rfl | rfl
  · have visible : isJsWhitespace '"' = false := by decide
    simp [WordScan.read, WordScan.extend, visible]
  · have visible : isJsWhitespace '\'' = false := by decide
    simp [WordScan.read, WordScan.extend, visible]

private theorem read_close (quote : Char) (mark : quote = '"' ∨ quote = '\'') (words : List (List Char)) (current : List Char) :
    WordScan.read ⟨words, some current, some quote, false⟩ quote = ⟨words, some current, none, false⟩ := by
  rcases mark with rfl | rfl <;> simp [WordScan.read]

/-- Behind a segment the scan is outside quotes, and has the text of it. -/
private theorem read_segment (segment : Segment) (words : List (List Char)) (current : Option (List Char)) :
    segment.spelled.foldl WordScan.read ⟨words, current, none, false⟩ =
      ⟨words, if segment.spelled = [] then current else some (current.getD [] ++ segment.text), none, false⟩ := by
  cases segment with
  | bare text plain => exact read_bare plain words current
  | single text free =>
    rw [Segment.spelled, List.cons_append, List.foldl_cons, read_open (.inr rfl), List.foldl_append, read_single free, List.foldl_cons,
      read_close '\'' (.inr rfl), if_neg (List.cons_ne_nil _ _)]
    rfl
  | double text =>
    rw [Segment.spelled, quoteWord, List.cons_append, List.foldl_cons, read_open (.inl rfl), List.foldl_append, read_quoted,
      List.foldl_cons, read_close '"' (.inl rfl), if_neg (List.cons_ne_nil _ _)]
    rfl

/-- Behind the segments of a word the scan has the word. -/
private theorem read_segments (segments : List Segment) (words : List (List Char)) (current : Option (List Char)) :
    (segments.flatMap Segment.spelled).foldl WordScan.read ⟨words, current, none, false⟩ =
      ⟨words, if segments.flatMap Segment.spelled = [] then current else
        some (current.getD [] ++ segments.flatMap Segment.text), none, false⟩ := by
  induction segments generalizing current with
  | nil => rfl
  | cons segment rest ih =>
    have bare : segment.spelled = [] → segment.text = [] := by
      cases segment <;> simp [Segment.spelled, Segment.text, quoteWord]
    rw [List.flatMap_cons, List.foldl_append, read_segment, ih]
    by_cases here : segment.spelled = []
    · simp [here, bare here]
    · by_cases later : rest.flatMap Segment.spelled = []
      · have empty : rest.flatMap Segment.text = [] := by
          rw [List.flatMap_eq_nil_iff] at later ⊢
          intro other member
          have unwritten := later other member
          cases other <;> simp_all [Segment.spelled, Segment.text, quoteWord]
        simp [here, later, empty]
      · simp [here, later]

private theorem read_gap {text : List Char} (blank : ∀ c ∈ text, isJsWhitespace c = true) (words : List (List Char))
    (current : Option (List Char)) (wide : text ≠ []) :
    text.foldl WordScan.read ⟨words, current, none, false⟩ = ⟨words ++ current.toList, none, none, false⟩ := by
  induction text generalizing words current with
  | nil => exact absurd rfl wide
  | cons c rest ih =>
    obtain ⟨here, later⟩ := List.forall_mem_cons.mp blank
    have taken : WordScan.read ⟨words, current, none, false⟩ c = ⟨words ++ current.toList, none, none, false⟩ := by
      simp [WordScan.read, here]
    rw [List.foldl_cons, taken]
    cases rest with
    | nil => rfl
    | cons next others => rw [ih later _ _ (List.cons_ne_nil _ _), Option.toList_none, List.append_nil]

private theorem read_spelling (spelling : Spelling) (words : List (List Char)) :
    spelling.spelled.foldl WordScan.read ⟨words, none, none, false⟩ = ⟨words, some spelling.word, none, false⟩ := by
  rw [Spelling.spelled, read_segments, if_neg spelling.written]
  rfl

private theorem read_joinWords (gaps : Nat → Gap) (words : List Spelling) (before : List (List Char)) :
    ((joinWords gaps words).foldl WordScan.read ⟨before, none, none, false⟩).finish = before ++ words.map Spelling.word := by
  induction words generalizing before with
  | nil => rfl
  | cons word rest ih =>
    cases rest with
    | nil =>
      rw [joinWords, read_spelling]
      rfl
    | cons next rest =>
      rw [joinWords, List.foldl_append, List.foldl_append, read_spelling, read_gap (gaps rest.length).blank _ _ (gaps rest.length).wide,
        ih, Option.toList_some, List.append_assoc, List.singleton_append, List.map_cons (a := word)]

/-- Words are read back, whatever segments spell them and whatever whitespace stands between them. -/
theorem shellWords_joinWords (gaps : Nat → Gap) (words : List Spelling) :
    shellWords (String.ofList (joinWords gaps words)) = words.map fun spelling => String.ofList spelling.word := by
  rw [shellWords, String.toList_ofList, read_joinWords, List.nil_append, List.map_map]
  rfl

end Faberun
