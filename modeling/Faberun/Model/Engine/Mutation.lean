import Mathlib.Data.List.Sort
import Faberun.Model.Contract.Verification
import Faberun.Text.Utf8Encode

/-! # Mutation verification

`runMutation` of `engine/mutation.mjs`. One operator in a declared file is swapped, the command is run again and the file
is written back. A run is the environment's: it answers an attempt and leaves any tree.
-/

namespace Faberun.Mutation

open Utf8

/-- `MUTATION_BUDGET`. -/
def budget : Nat := 8

/-- `MUTATION_TIME_BUDGET_MS`. -/
def timeBudgetMs : Rat := 30000

/-- `MUTATION_TIERS`. -/
def threshold : MutationTier → Rat
  | .high => 1
  | .medium => 3 / 4
  | .low => 1 / 2

/-- The files of a tree by their absolute path. -/
abbrev Tree := String → Option (List UInt8)

def Tree.write (tree : Tree) (path : String) (bytes : List UInt8) : Tree :=
  fun other => if other = path then some bytes else tree other

/-! ## Candidates -/

/-- An operator and what it is swapped for. -/
abbrev Swap := List Char × List Char

/-- `MUTATION_SUBSTITUTIONS`, in the order of `MUTATION_PATTERN`. -/
def substitutions : List Swap :=
  [("!==", "==="), ("===", "!=="), ("<=", "<"), (">=", ">"), ("&&", "||"), ("||", "&&")].map fun swap =>
    (swap.1.toList, swap.2.toList)

/-- The operator a text starts with. -/
def operatorAt (text : List Char) : Option Swap := substitutions.find? fun swap => swap.1.isPrefixOf text

/-- `text.matchAll(MUTATION_PATTERN)` from an offset on, where the characters of a match are skipped. -/
def matchesFrom : Nat → Nat → List Char → List (Nat × Swap)
  | _, _, [] => []
  | offset, skip + 1, _ :: rest => matchesFrom (offset + 1) skip rest
  | offset, 0, c :: rest =>
    match operatorAt (c :: rest) with
    | some swap => (offset, swap) :: matchesFrom (offset + 1) (swap.1.length - 1) rest
    | none => matchesFrom (offset + 1) 0 rest

example : (matchesFrom 0 0 "a!====b&&c".toList).map (·.1) = [1, 7] := by decide

/-- `MutationCandidate`; the offset counts the characters of the text it is used on. -/
structure Candidate where
  path : String
  absolute : String
  offset : Nat
  swap : Swap
  deriving DecidableEq

/-- `left <= right` on strings. -/
def textLe (left right : String) : Prop := textLess right left = false

instance : DecidableRel textLe := fun left right => inferInstanceAs (Decidable (textLess right left = false))

/-- The order by path and offset. -/
def Candidate.Le (left right : Candidate) : Prop :=
  textLess left.path right.path = true ∨ (textLess right.path left.path = false ∧ left.offset ≤ right.offset)

instance : DecidableRel Candidate.Le := fun left right =>
  inferInstanceAs (Decidable (textLess left.path right.path = true ∨ (textLess right.path left.path = false ∧ left.offset ≤ right.offset)))

section Run

variable (absolute : String → String)

/-- The swaps in one declared file. -/
def candidatesIn (tree : Tree) (path : String) : List Candidate :=
  match tree (absolute path) with
  | none => []
  | some bytes => (matchesFrom 0 0 (decode bytes)).map fun found => ⟨path, absolute path, found.1, found.2⟩

def mutationCandidates (tree : Tree) (writeFiles : List String) : List Candidate :=
  ((writeFiles.eraseDups.insertionSort textLe).flatMap (candidatesIn absolute tree)).insertionSort Candidate.Le

/-- `Math.round(a / b)`. -/
def roundedQuotient (a b : Nat) : Nat := (2 * a + b) / (2 * b)

def evenlySpaced {α : Type} (candidates : List α) (budget : Nat) : List α :=
  if candidates.length ≤ budget then candidates
  else (List.range budget).filterMap fun index =>
    candidates[roundedQuotient (index * (candidates.length - 1)) (budget - 1)]?

/-! ## Runs -/

/-- What a run reports; a duration that is not a finite number is none. -/
structure Attempt where
  passed : Bool
  durationMs : Option Rat

/-- The environment: the number of an attempt, the file under mutation and the tree it finds, to what it reports, if it
does not throw, and the tree it leaves. -/
abbrev Runs := Nat → Option String → Tree → Option Attempt × Tree

/-- A mutant that was run, and what was written for it. -/
structure Mutant where
  candidate : Candidate
  written : List UInt8

/-- `MutationResult`. -/
structure MutationResult where
  passed : Bool
  killed : Nat
  total : Nat
  threshold : Rat
  attempts : List Attempt

/-- What the loop over the sample keeps. -/
structure Loop where
  tree : Tree
  originals : List (String × List Char)
  killed : Nat
  spentMs : Rat
  attempt : Nat
  attempts : List Attempt
  mutants : List Mutant

/-- The text a mutant is made of, read once for each file. -/
def Loop.original (loop : Loop) (path : String) : Option (List Char) :=
  ((loop.originals.find? fun entry => entry.1 = path).map (·.2)).or ((loop.tree path).map decode)

/-- The text with the operator swapped. -/
def Candidate.mutate (candidate : Candidate) (text : List Char) : List Char :=
  text.take candidate.offset ++ candidate.swap.2 ++ text.drop (candidate.offset + candidate.swap.1.length)

/-- One mutant: whether the loop goes on, and with what. The file is written back however the run ends. -/
def tryMutant (runs : Runs) (candidate : Candidate) (loop : Loop) : Loop × Bool :=
  match loop.original candidate.absolute with
  | none => (loop, false)
  | some original =>
    let mutated := encode (candidate.mutate original)
    let (report, tree) := runs (loop.attempt + 1) (some candidate.absolute) (loop.tree.write candidate.absolute mutated)
    let restored := { loop with
      tree := tree.write candidate.absolute (encode original)
      originals := loop.originals ++ [(candidate.absolute, original)]
      attempt := loop.attempt + 1
      mutants := loop.mutants ++ [⟨candidate, mutated⟩] }
    match report with
    | none => (restored, false)
    | some attempt =>
      ({ restored with
          attempts := loop.attempts ++ [attempt]
          spentMs := loop.spentMs + attempt.durationMs.getD 0
          killed := if attempt.passed then loop.killed else loop.killed + 1 }, true)

/-- The loop over the sample; it ends early when the budget cannot afford a mutant. -/
def mutantLoop (runs : Runs) (attemptMs : Rat) : List Candidate → Loop → Loop × Bool
  | [], loop => (loop, true)
  | candidate :: rest, loop =>
    if 0 < attemptMs ∧ timeBudgetMs < loop.spentMs + attemptMs then (loop, true)
    else
      match tryMutant runs candidate loop with
      | (next, true) => mutantLoop runs attemptMs rest next
      | (next, false) => (next, false)

/-- What a call leaves and does; there is no result when it throws. -/
structure Report where
  tree : Tree
  mutants : List Mutant
  result : Option MutationResult

/-- The mutants of a call, before the budget. -/
def sample (tree : Tree) (writeFiles : List String) : List Candidate :=
  evenlySpaced (mutationCandidates absolute tree writeFiles) budget

def runMutation (tier : MutationTier) (runs : Runs) (tree : Tree) (writeFiles : List String) : Report :=
  let sample := sample absolute tree writeFiles
  match runs 1 none tree with
  | (none, tree) => ⟨tree, [], none⟩
  | (some baseline, tree) =>
    if baseline.passed = false then ⟨tree, [], some ⟨false, 0, sample.length, threshold tier, [baseline]⟩⟩
    else
      let attemptMs := baseline.durationMs.getD 0
      let (loop, ended) := mutantLoop runs attemptMs sample ⟨tree, [], 0, attemptMs, 1, [baseline], []⟩
      ⟨loop.tree, loop.mutants,
        if ended then
          some ⟨decide (sample.length = 0 ∨ threshold tier ≤ loop.killed / sample.length), loop.killed, sample.length,
            threshold tier, loop.attempts⟩
        else none⟩

end Run

end Faberun.Mutation
