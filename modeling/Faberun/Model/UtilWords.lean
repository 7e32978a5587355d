import Faberun.Model.Util
import Faberun.Text.CodeUnits
import Faberun.Text.PosixPath

/-! # Words, excerpts and containment

`shellWords`, `excerpt` and `isContained` of `util.mjs`, on a POSIX host. Words written in double quotes, with a
backslash before each quote and backslash, are read back as they were.
-/

namespace Faberun

open PosixPath

/-! ## Words of a command line -/

/-- The variables of the loop of `shellWords`. -/
structure WordScan where
  words : List (List Char)
  current : Option (List Char)
  quote : Option Char
  escaped : Bool
  deriving DecidableEq

namespace WordScan

/-- The scan with more characters in its word. -/
def extend (scan : WordScan) (text : List Char) : WordScan := { scan with current := some (scan.current.getD [] ++ text) }

/-- One turn of the loop. -/
def read (scan : WordScan) (c : Char) : WordScan :=
  if scan.quote = none ∧ isJsWhitespace c = true then { scan with words := scan.words ++ scan.current.toList, current := none }
  else if scan.quote = none ∧ (c = '"' ∨ c = '\'') then { scan.extend [] with quote := some c }
  else if scan.escaped = true then
    { scan.extend (if c = '"' ∨ c = '\\' then [c] else ['\\', c]) with escaped := false }
  else if scan.quote = some '"' ∧ c = '\\' then { scan with escaped := true }
  else if scan.quote = some c then { scan with quote := none }
  else scan.extend [c]

/-- What stands behind the loop. -/
def finish (scan : WordScan) : List (List Char) :=
  let last := if scan.escaped then scan.extend ['\\'] else scan
  last.words ++ last.current.toList

end WordScan

def shellWords (text : String) : List String :=
  ((text.toList.foldl WordScan.read ⟨[], none, none, false⟩).finish).map String.ofList

/-- A word in double quotes. -/
def quoteWord (word : List Char) : List Char :=
  '"' :: (word.flatMap fun c => if c = '"' ∨ c = '\\' then ['\\', c] else [c]) ++ ['"']

theorem read_quoted (words : List (List Char)) (current word : List Char) :
    (word.flatMap fun c => if c = '"' ∨ c = '\\' then ['\\', c] else [c]).foldl WordScan.read
      ⟨words, some current, some '"', false⟩ = ⟨words, some (current ++ word), some '"', false⟩ := by
  induction word generalizing current with
  | nil => rw [List.append_nil]; rfl
  | cons c word ih =>
    have shift : current ++ c :: word = (current ++ [c]) ++ word := by rw [List.append_assoc, List.singleton_append]
    rw [List.flatMap_cons, List.foldl_append, shift, ← ih]
    congr 1
    split
    · rename_i special
      simp [WordScan.read, WordScan.extend, special]
    · rename_i plain
      rw [not_or] at plain
      simp [WordScan.read, WordScan.extend, plain.1, plain.2, Ne.symm plain.1]

private theorem read_word (words : List (List Char)) (word : List Char) :
    (quoteWord word).foldl WordScan.read ⟨words, none, none, false⟩ = ⟨words, some word, none, false⟩ := by
  have opens : WordScan.read ⟨words, none, none, false⟩ '"' = ⟨words, some [], some '"', false⟩ := by
    have mark : isJsWhitespace '"' = false := by decide
    simp [WordScan.read, WordScan.extend, mark]
  rw [quoteWord, List.cons_append, List.foldl_cons, opens, List.foldl_append, read_quoted]
  simp [WordScan.read]

private theorem read_words (quoted : List (List Char)) (before : List (List Char)) (word : List Char) :
    ((quoted.map fun word => ' ' :: quoteWord word).flatten.foldl WordScan.read ⟨before, some word, none, false⟩).finish =
      before ++ word :: quoted := by
  induction quoted generalizing before word with
  | nil => rfl
  | cons next rest ih =>
    have between : WordScan.read ⟨before, some word, none, false⟩ ' ' = ⟨before ++ [word], none, none, false⟩ := by
      have blank : isJsWhitespace ' ' = true := by decide
      simp [WordScan.read, blank]
    rw [List.map_cons, List.flatten_cons, List.foldl_append, List.foldl_cons, between, read_word, ih, List.append_assoc,
      List.singleton_append]

/-- Quoted words between blanks are read back. -/
theorem shellWords_quoted (word : List Char) (rest : List (List Char)) :
    shellWords (String.ofList (quoteWord word ++ (rest.map fun word => ' ' :: quoteWord word).flatten)) =
      (word :: rest).map String.ofList := by
  rw [shellWords, String.toList_ofList, List.foldl_append, read_word, read_words, List.nil_append]

/-! ## Excerpts -/

/-- The control characters `excerpt` folds first. -/
def isAsciiControl (c : Char) : Bool := c.toNat ≤ 0x1F || c.toNat = 0x7F

def excerpt (text : String) : Option String :=
  let clean := trimText (foldRuns isJsWhitespace false (foldRuns isAsciiControl false text.toList))
  if clean = [] then none
  else if 120 < (codeUnits clean).length then some (String.ofList (decodeUnits ((codeUnits clean).take 119) ++ ['…']))
  else some (String.ofList clean)

/-! ## Containment -/

def isContained (root target : List Name) : Bool :=
  let distance := relative root target
  decide (distance = []) || (!dotDot.isPrefixOf distance && !isAbsolute distance)

/-- A path is contained when it is below the root and its first name does not begin with two dots. -/
theorem isContained_iff {root target : List Name} (proper : ∀ name ∈ target, Proper name) :
    isContained root target = true ↔ ∃ names, target = root ++ names ∧ ∀ first ∈ names.head?, ¬ dotDot <+: first := by
  have slash : '/' ∉ dotDot := by decide
  rcases way_cases root target with ⟨names, rfl⟩ | ⟨rest, above⟩
  · have below : ∀ name ∈ names, Proper name := fun name member => proper name (List.mem_append_right _ member)
    have same : ∀ others, root ++ names = root ++ others ↔ others = names := fun others => by
      rw [List.append_cancel_left_eq]
      exact eq_comm
    simp only [isContained, relative, way_append, same, exists_eq_left, isAbsolute_join below, join_eq_nil_iff below]
    cases names with
    | nil => simp
    | cons first names =>
      have begins : dotDot.isPrefixOf (join (first :: names)) = true ↔ dotDot <+: first :=
        List.isPrefixOf_iff_prefix.trans (prefix_join_iff slash names)
      have inner : (∀ name ∈ (first :: names).head?, ¬ dotDot <+: name) ↔ ¬ dotDot <+: first := by
        simp only [List.head?_cons, Option.mem_some_iff, forall_eq']
      rw [inner, ← begins]
      cases dotDot.isPrefixOf (join (first :: names)) <;> simp
  · have begins : dotDot.isPrefixOf (join (dotDot :: rest)) = true :=
      List.isPrefixOf_iff_prefix.mpr ((prefix_join_iff slash rest).mpr (List.prefix_refl _))
    have some : join (dotDot :: rest) ≠ [] := by
      rw [join_cons]
      exact List.cons_ne_nil _ _
    simp only [isContained, relative, above, begins, some]
    refine iff_of_false Bool.false_ne_true ?_
    rintro ⟨names, rfl, inner⟩
    rw [way_append] at above
    rw [above] at inner
    exact inner dotDot rfl (List.prefix_refl _)

end Faberun
