import Faberun.Model.Util
import Faberun.Text.BreakOn
import Faberun.Text.Utf8Encode

/-! # The previous attempt

The embedding of the section a retried node's prompts carry: `engine/retry.mjs` renders it from the node's state, `engine/prompts.mjs`
finds the operator's answer and the section itself again in a text, and `engine/dispatch.mjs` assembles a prompt with it. Texts are
characters; a text cut inside a character ends in the replacement character.
-/

namespace Faberun.PreviousAttempt

open BreakOn Utf8

/-! ## The node -/

structure AttemptError where
  code : Option (List Char)
  message : Option (List Char)

structure Finding where
  severity : List Char
  description : List Char
  evidence : List Char

structure Gate where
  verdict : List Char
  maxSeverity : List Char
  findings : List Finding

/-- One attempt of a verification command; an output that is absent is empty. -/
structure CommandAttempt where
  stdout : List Char
  stderr : List Char
  exitCode : Option Int

structure CommandRecord where
  argv : List (List Char)
  passed : Bool
  attempts : List CommandAttempt

structure ExecutionOverride where
  kind : String
  text : Option (List Char)

/-- What the section is rendered from. -/
structure NodeRecord where
  attempt : Nat
  error : Option AttemptError
  gate : Option Gate
  unexpectedPaths : List (List Char)
  commands : List CommandRecord
  executionOverrides : List ExecutionOverride

/-- `mostRecentOperatorAnswer`. -/
def mostRecentOperatorAnswer (state : NodeRecord) : Option (List Char) :=
  (state.executionOverrides.reverse.find? fun override => override.kind == "operator-answer").bind (·.text)

/-! ## The section -/

/-- `OPERATOR_ANSWER_MAX_BYTES`. -/
def operatorAnswerMaxBytes : Nat := 8 * 1024

/-- `PREVIOUS_ATTEMPT_EVIDENCE_MAX_BYTES`. -/
def previousAttemptEvidenceMaxBytes : Nat := 8 * 1024

/-- `PREVIOUS_ATTEMPT_MAX_BYTES`. -/
def previousAttemptMaxBytes : Nat := previousAttemptEvidenceMaxBytes + operatorAnswerMaxBytes + 64

/-- The heading's line. -/
def headingLine : List Char := "## Previous attempt".toList

/-- `OPERATOR_ANSWER_HEADING` of the reader, with its colon. -/
def operatorAnswerHeading : List Char := "Operator answer:".toList

/-- `subarray(0, bytes).toString("utf8")`. -/
def cutBytes (text : List Char) (bytes : Nat) : List Char := decode ((encode text).take bytes)

/-- `bounded`. -/
def bounded (text : List Char) (maxBytes : Nat) : List Char :=
  if charBytes text ≤ maxBytes then text else cutBytes text (maxBytes - 1) ++ ['…']

/-- `indent`. -/
def indent (text : List Char) : List Char := bounded (trimText (foldRuns isJsWhitespace false text)) 1024

def truncationMarker : List Char := "\n… (previous attempt section truncated)".toList

/-- `boundSection`. -/
def boundSection (text : List Char) : List Char :=
  if charBytes text ≤ previousAttemptEvidenceMaxBytes then text
  else cutBytes text (previousAttemptEvidenceMaxBytes - charBytes truncationMarker - 1) ++ truncationMarker

def numeral (number : Nat) : List Char := (toString number).toList

/-- The first line of what happened. -/
def recordOpening (attempt : Nat) : List Char :=
  "Attempt ".toList ++ numeral attempt ++ " failed; this is attempt ".toList ++ numeral (attempt + 1) ++ ".".toList

def errorParts (state : NodeRecord) : List (List Char) :=
  match state.error with
  | none => []
  | some error =>
    if error.code.getD [] = [] ∧ error.message.getD [] = [] then []
    else
      ["Error: ".toList ++ error.code.getD "unknown".toList ++
        if error.message.getD [] = [] then [] else " — ".toList ++ bounded (error.message.getD []) 1024]

def findingParts (finding : Finding) : List (List Char) :=
  ("- [".toList ++ finding.severity ++ "] ".toList ++ bounded finding.description 1024) ::
    if finding.evidence = [] then [] else ["  Evidence: ".toList ++ bounded finding.evidence 1024]

def gateParts (state : NodeRecord) : List (List Char) :=
  match state.gate with
  | none => []
  | some gate =>
    if gate.findings = [] then []
    else
      ("Judge findings (verdict ".toList ++ gate.verdict ++ ", maxSeverity ".toList ++ gate.maxSeverity ++ "):".toList) ::
        gate.findings.flatMap findingParts

def scopeParts (state : NodeRecord) : List (List Char) :=
  if state.unexpectedPaths = [] then []
  else
    ["Scope findings (paths outside the declared boundary): ".toList ++
      List.intercalate [',', ' '] (state.unexpectedPaths.map (bounded · 256))]

def commandParts (command : CommandRecord) : List (List Char) :=
  ("- ".toList ++ List.intercalate [' '] command.argv) ::
    match command.attempts.getLast? with
    | none => []
    | some last =>
      (if last.stdout = [] then [] else ["  stdout tail: ".toList ++ indent last.stdout]) ++
        (if last.stderr = [] then [] else ["  stderr tail: ".toList ++ indent last.stderr]) ++
          match last.exitCode with
          | none => []
          | some exitCode => if exitCode = 0 then [] else ["  exit code: ".toList ++ (toString exitCode).toList]

def verificationParts (state : NodeRecord) : List (List Char) :=
  let failing := state.commands.filter (!·.passed)
  if failing = [] then [] else "Failing verification:".toList :: failing.flatMap commandParts

/-- The parts behind the first one. -/
def failureParts (state : NodeRecord) : List (List Char) :=
  errorParts state ++ gateParts state ++ scopeParts state ++ verificationParts state

/-- The failure evidence under its heading, bounded. -/
def evidence (state : NodeRecord) : List Char :=
  boundSection (List.intercalate ['\n']
    (headingLine :: [] :: (recordOpening state.attempt ++ " The packet is unchanged.".toList) :: failureParts state))

/-- The operator's answer under its heading, behind the evidence. -/
def answerPart (answer : List Char) : List Char := '\n' :: operatorAnswerHeading ++ '\n' :: answer

/-- `renderPreviousAttemptSection`. -/
def renderPreviousAttemptSection (state : NodeRecord) : Option (List Char) :=
  if state.attempt = 0 then none
  else if failureParts state = [] ∧ mostRecentOperatorAnswer state = none then none
  else
    match mostRecentOperatorAnswer state with
    | none => some (evidence state)
    | some answer => some (evidence state ++ answerPart answer)

/-! ## Reading the answer -/

/-- The line terminators of a regular expression. -/
def isLineEnd (c : Char) : Bool := c == '\n' || c == '\r' || c == '\u2028' || c == '\u2029'

/-- What stands behind `text` at a beginning. -/
def behind (text line : List Char) : Option (List Char) := if text.isPrefixOf line then some (line.drop text.length) else none

/-- What stands behind `\d+` at a beginning. -/
def behindDigits (line : List Char) : Option (List Char) :=
  if line.takeWhile Char.isDigit = [] then none else some (line.dropWhile Char.isDigit)

/-- `Attempt \d+ failed` at a beginning: what stands behind it. -/
def behindAttempt (line : List Char) : Option (List Char) :=
  ((behind "Attempt ".toList line).bind behindDigits).bind (behind " failed".toList)

/-- The words that end an answer, at a beginning. -/
def isStop (line : List Char) : Bool :=
  (behindAttempt line).isSome || (behind "Error:".toList line).isSome || (behind "Judge findings".toList line).isSome ||
    (behind "Scope findings".toList line).isSome || (behind "Failing verification:".toList line).isSome

/-- A text up to the first line that begins with such a word; `starts` tells whether a line begins here. -/
def upToStop : Bool → List Char → List Char
  | _, [] => []
  | starts, c :: rest => if starts && isStop (c :: rest) then [] else c :: upToStop (isLineEnd c) rest

def nonempty? (text : List Char) : Option (List Char) := if text = [] then none else some text

/-- `previousAttemptOperatorAnswer`. -/
def previousAttemptOperatorAnswer (previousAttempt : Option (List Char)) : Option (List Char) :=
  previousAttempt.bind fun text =>
    (breakOn operatorAnswerHeading text).bind fun parts => nonempty? (trimText (upToStop true parts.2))

/-! ## Assembling a prompt -/

/-- `PREVIOUS_ATTEMPT_RECORD_LINE` at the beginning of a line. -/
def isRecordLine (line : List Char) : Bool :=
  (((behindAttempt line).bind (behind "; this is attempt ".toList)).bind behindDigits).any fun rest => rest.head? == some '.'

/-- Whether the first line that is not blank is a record's. -/
def opensRecord (rest : List Char) : Bool :=
  ((rest.splitOnP (· == '\n')).find? fun line => decide (trimText line ≠ [])).any isRecordLine

/-- Whether a line that begins here is the heading and a record follows. -/
def opensSection (text : List Char) : Bool :=
  (behind headingLine text).any fun rest => rest.head?.all isLineEnd && opensRecord rest

/-- What stands before the first section, and the text from its heading on; `starts` tells whether a line begins here. -/
def findSection : Bool → List Char → Option (List Char × List Char)
  | _, [] => none
  | starts, c :: rest =>
    if starts && opensSection (c :: rest) then some ([], c :: rest)
    else (findSection (isLineEnd c) rest).map fun parts => (c :: parts.1, parts.2)

/-- `replace(/\n+$/u, "")`. -/
def withoutNewlines (text : List Char) : List Char := text.rdropWhile (· == '\n')

/-- `splitPreviousAttemptSection`: the stable instructions and the section. -/
def splitPreviousAttemptSection (basePrompt : List Char) : List Char × Option (List Char) :=
  match findSection true basePrompt with
  | none => (basePrompt, none)
  | some (before, fromHeading) => (withoutNewlines before, some (withoutNewlines fromHeading))

structure Assembly where
  sandbox : Option (List Char → List Char) := none
  protocol : Option (List Char → List Char) := none
  stable : Option (List Char → List Char) := none
  sectionText : Option (List Char) := none

/-- The stable appends, in their order. -/
def Assembly.apply (assembly : Assembly) (head : List Char) : List Char :=
  assembly.stable.getD id (assembly.protocol.getD id (assembly.sandbox.getD id head))

/-- `assembleDispatchPrompt`. -/
def assembleDispatchPrompt (basePrompt : List Char) (assembly : Assembly) : List Char :=
  let split := splitPreviousAttemptSection basePrompt
  let ordered := assembly.apply split.1
  match (assembly.sectionText.or split.2).bind nonempty? with
  | none => ordered
  | some carried => ordered ++ '\n' :: '\n' :: carried

end Faberun.PreviousAttempt
