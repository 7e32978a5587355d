import Faberun.Model.Json
import Faberun.Text.BreakOn

/-! # The managed signal block

`normalizeManagedSignalBlock` and `applyManagedSignalBlock` of `repo/signal-block.mjs`, and the comparison of
`agentGuidanceDirty` in `repo/source-identity.mjs`. A text is the characters of a file.
-/

namespace Faberun.SignalBlock

open BreakOn

def signalStart : List Char := "<!-- faberun-active:start (managed by faberun — read, never edit) -->".toList

def signalEnd : List Char := "<!-- faberun-active:end -->".toList

def trimStart (text : List Char) : List Char := text.dropWhile isJsWhitespace

def trimEnd (text : List Char) : List Char := text.rdropWhile isJsWhitespace

/-- The blank line between two parts. -/
def blankLine : List Char := ['\n', '\n']

def normalizeManagedSignalBlock (text : List Char) : List Char :=
  match breakOn signalStart text with
  | none => text
  | some (start, rest) =>
    match breakOn signalEnd rest with
    | none => text
    | some (_, tail) =>
      let before := trimEnd start
      let after := trimStart tail
      if after.isEmpty then before ++ ['\n'] else before ++ blankLine ++ after

/-- `parts.filter((part) => part.length).join("\n\n")`. -/
def joinParts (parts : List (List Char)) : List Char :=
  blankLine.intercalate (parts.filter fun part => !part.isEmpty)

def applyManagedSignalBlock (text block : List Char) : List Char :=
  match breakOn signalStart text with
  | none => text
  | some (start, rest) =>
    let before := trimEnd start
    -- without an end marker everything behind the start marker goes
    let after := ((breakOn signalEnd rest).map (·.2)).getD []
    joinParts [before, block, trimStart after] ++ ['\n']

/-- `agentGuidanceDirty`, of the working text and the committed one, where a file may be absent. -/
def agentGuidanceDirty (gitHead : Option String) (working committed : Option (List Char)) : Bool :=
  gitHead.isSome && decide (working.map normalizeManagedSignalBlock ≠ committed.map normalizeManagedSignalBlock)

end Faberun.SignalBlock
