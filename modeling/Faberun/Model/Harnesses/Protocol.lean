import Faberun.Text.BreakOn
import Faberun.Text.JsonScan
import Faberun.Model.Util

/-! # JSON in a provider's message

The embedding of `extractJson` of `harnesses/protocol.mjs`: the message as a whole, the last suffix that parses, or the last fenced block
that does. An offset of the message is kept as the text that begins there.
-/

namespace Faberun.Protocol

open BreakOn JsonText

/-- `SUFFIX_CANDIDATE_LIMIT`. -/
def suffixCandidateLimit : Nat := 200

/-- The offsets of the opening brackets. -/
def offsets : List Char → List (List Char)
  | [] => []
  | c :: rest => if isOpening c then (c :: rest) :: offsets rest else offsets rest

/-- Whether a character is the letter, whatever its case; `ſ` folds to `s`. -/
def isLetter (letter c : Char) : Bool := c.toLower == letter || (letter == 's' && c == 'ſ')

/-- What stands behind an opening fence. -/
def fenceBody : List Char → Option (List Char)
  | '`' :: '`' :: '`' :: j :: s :: o :: n :: rest =>
    if isLetter 'j' j && isLetter 's' s && isLetter 'o' o && isLetter 'n' n then some rest else none
  | _ => none

/-- The fenced block at the beginning of a text, and what follows its closing fence. -/
def fencedBlock (text : List Char) : Option (List Char × List Char) :=
  (fenceBody text).bind fun body => breakOn ['`', '`', '`'] (body.dropWhile isJsWhitespace)

/-- The fenced blocks of a text behind the characters a match already took. -/
def fencedBlocks : Nat → List Char → List (List Char)
  | _, [] => []
  | taken + 1, _ :: rest => fencedBlocks taken rest
  | 0, c :: rest =>
    match fencedBlock (c :: rest) with
    | some (block, after) => block :: fencedBlocks (rest.length - after.length) rest
    | none => fencedBlocks 0 rest

section

variable (ν : Type) [Numerals ν]

/-- Whether `JSON.parse` accepts a text. -/
def accepts (text : List Char) : Bool := (parse (ν := ν) text).isSome

/-- `suffixJsonCandidate`. -/
def suffixJsonCandidate (trimmed : List Char) : Option (List Char) :=
  ((offsets trimmed).drop ((offsets trimmed).length - suffixCandidateLimit)).reverse.find? (accepts ν)

/-- `extractJson`. -/
def extractJson (value : List Char) : Option (List Char) :=
  if accepts ν (trimText value) then some (trimText value)
  else
    match suffixJsonCandidate ν (trimText value) with
    | some suffix => some suffix
    | none => ((fencedBlocks 0 value).map trimText).reverse.find? (accepts ν)

end

end Faberun.Protocol
