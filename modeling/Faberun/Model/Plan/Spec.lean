import Faberun.Machine.KeyedStore
import Faberun.Text.BreakOn
import Faberun.Text.Headings
import Faberun.Model.Plan.ProofScope

/-! # The spec format

The embedding of `plan/spec.mjs`: front matter, sections, requirement blocks and their bullets, and the findings of the
validator. A line
is the list of its characters. What git, the proofs and `toLowerCase` answer is given.
-/

namespace Faberun.Spec

open BreakOn Headings

abbrev Line := List Char

/-! ## Patterns -/

/-- The characters `.` does not match. -/
def isTerminator (c : Char) : Bool := c == '\n' || c == '\r' || c == '\u2028' || c == '\u2029'

def skipBlank (text : Line) : Line := text.dropWhile isJsWhitespace

/-- `(.*)$`. -/
def restOfLine (text : Line) : Option Line := if text.any isTerminator then none else some text

/-- What stands behind the number signs of a heading and the blanks after them, and those blanks. -/
def headingStart (level : Nat) (line : Line) : Option (Line × Line) :=
  (behind (List.replicate level '#') line).bind fun rest =>
    if rest.takeWhile isJsWhitespace = [] then none else some (rest.takeWhile isJsWhitespace, skipBlank rest)

/-- `/^##\s+/` and `/^###\s+/`. -/
def opensBlock (level : Nat) (line : Line) : Bool := (headingStart level line).isSome

/-- `/^##\s+(.+?)\s*$/` and `/^###\s+(.+?)\s*$/`: of a heading of blanks alone the last one a line may hold, behind the first. -/
def headingText (level : Nat) (line : Line) : Option Line :=
  (headingStart level line).bind fun (blanks, rest) =>
    if rest = [] then ((blanks.drop 1).reverse.find? fun c => !isTerminator c).map ([·])
    else restOfLine (rest.rdropWhile isJsWhitespace)

/-- `/^-\s+\*\*/`, and what follows. -/
def bulletStart (line : Line) : Option Line :=
  (behind ['-'] line).bind fun rest =>
    if rest.takeWhile isJsWhitespace = [] then none else behind ['*', '*'] (skipBlank rest)

/-- `[a-zA-Z-]`. -/
def isKeyChar (c : Char) : Bool := c.isAlpha || c == '-'

/-- One blank less, where one stands: `\s?`. -/
def dropBlank : Line → Line
  | [] => []
  | c :: rest => if isJsWhitespace c then rest else c :: rest

/-- `/^-\s+\*\*([a-zA-Z-]+):\*\*\s?(.*)$/`: the key in lower case, and the value without the blanks around it. -/
def keyedBullet (line : Line) : Option (String × Line) :=
  (bulletStart line).bind fun rest =>
    if rest.takeWhile isKeyChar = [] then none
    else
      (behind [':', '*', '*'] (rest.dropWhile isKeyChar)).bind fun after =>
        (restOfLine (dropBlank after)).map fun value => (String.ofList ((rest.takeWhile isKeyChar).map Char.toLower),
          trimText value)

/-- `/^-\s+\*\*(.+?):\*\*\s?/`: the key. -/
def bulletKey (line : Line) : Option Line :=
  (bulletStart line).bind fun rest =>
    match rest with
    | [] => none
    | c :: rest => (breakOn [':', '*', '*'] rest).bind fun parts => restOfLine (c :: parts.1)

/-- Whether a line begins with a hyphen, blanks apart. -/
def isDashed (line : Line) : Bool := ['-'].isPrefixOf (trimText line)

/-! ## Data -/

inductive ProofKind where
  | command
  | path
  | judgment
  deriving DecidableEq

def ProofKind.name : ProofKind → String
  | command => "command"
  | path => "path"
  | judgment => "judgment"

structure SpecProof where
  kind : ProofKind
  ref : Option Line
  deriving DecidableEq

structure UnknownBulletKey where
  key : Line
  line : Nat
  deriving DecidableEq

structure SpecRequirement where
  id : Option Line
  title : Line
  statement : Option Line
  proof : Option SpecProof
  measure : Option SpecProof
  constraints : Option Line
  unknownBulletKeys : List UnknownBulletKey
  line : Nat
  deriving DecidableEq

structure SpecSection where
  heading : Line
  body : Line
  line : Nat

structure ParsedSpec where
  frontMatter : Option (KeyedStore String Line)
  sections : KeyedStore Line SpecSection
  requirements : List SpecRequirement

inductive SpecRule where
  | legacyDocument
  | missingNonGoals
  | requirementMissingId
  | requirementMissingProof
  | requirementUnknownBulletKey
  | proofFilterNamesNoFile
  | successCriteriaMissingBaseline
  | baselineUnresolved
  | targetUnresolved
  | requirementProofFailed
  deriving DecidableEq

inductive Severity where
  | advisory
  | blocking
  deriving DecidableEq

structure SpecFinding where
  rule : SpecRule
  severity : Severity
  message : String
  line : Nat

/-- One entry of what `proveRequirements` answers. -/
structure RequirementProofResult where
  requirementId : Option Line
  kind : ProofKind
  ref : Line
  pass : Bool
  detail : String

/-- What is outside the text: `toLowerCase`, the commits and the remote of the repository, and its proofs when they are run. -/
structure SpecHost where
  toLowerCase : Line → Line
  resolvesToCommit : Line → Bool
  targetMatchesOrigin : Line → Bool
  proveRequirements : List SpecRequirement → List RequirementProofResult

structure SpecOptions where
  strict : Bool
  runProofs : Bool

structure SpecValidation where
  structured : Bool
  ok : Bool
  findings : List SpecFinding

/-! ## Front matter -/

/-- `text.split("\n")`. -/
def splitLines (text : Line) : List Line := text.splitOn '\n'

/-- `lines.join("\n")`. -/
def joinLines (lines : List Line) : Line := ['\n'].intercalate lines

def unquote (value : Line) : Line :=
  if 2 ≤ value.length ∧ value.head? = some '"' ∧ value.getLast? = some '"' then (value.drop 1).dropLast else value

def isNameStart (c : Char) : Bool := c.isAlpha || c == '_'

def isNameChar (c : Char) : Bool := c.isAlphanum || c == '_'

/-- `/^([A-Za-z_][A-Za-z0-9_]*):\s*(.*)$/`: the key and the value of a line of the front matter. -/
def frontMatterField (line : Line) : Option (String × Line) :=
  match line with
  | [] => none
  | c :: _ =>
    if isNameStart c then
      (behind [':'] (line.dropWhile isNameChar)).bind fun after =>
        (restOfLine (skipBlank after)).map fun value => (String.ofList (line.takeWhile isNameChar), unquote (trimText value))
    else none

def isFence (line : Line) : Bool := trimText line == ['-', '-', '-']

/-- `extractFrontMatter(lines)`: the fields, and the line behind the closing fence. -/
def extractFrontMatter (lines : List Line) : Option (KeyedStore String Line × Nat) :=
  match lines with
  | [] => none
  | first :: rest =>
    if isFence first && rest.any isFence then
      let inner := rest.takeWhile fun line => !isFence line
      some ((inner.filterMap frontMatterField).foldl (fun data field => data.set field.1 field.2) KeyedStore.empty,
        inner.length + 2)
    else none

/-! ## Sections -/

/-- `SECTION_ALIASES`. -/
def sectionAliases : List (String × String) :=
  [("intenção", "intent"), ("intencao", "intent"), ("requisitos", "requirements"), ("não-objetivos", "non-goals"),
    ("nao-objetivos", "non-goals"), ("restrições", "constraints"), ("restricoes", "constraints"),
      ("critério de sucesso", "success criteria"),
    ("criterio de sucesso", "success criteria"), ("riscos", "risks")]

/-- `normalizeHeading(raw)`. -/
def normalizeHeading (toLowerCase : Line → Line) (raw : Line) : Line :=
  let key := toLowerCase (trimText raw)
  ((sectionAliases.find? fun entry => entry.1.toList == key).map fun entry => entry.2.toList).getD key

/-- `extractSections(lines, startIndex)`. -/
def extractSections (toLowerCase : Line → Line) (lines : List Line) (startIndex : Nat) : KeyedStore Line SpecSection :=
  (blocks (headingText 2) (opensBlock 2) startIndex (lines.drop startIndex)).foldl
    (fun sections (block : Nat × Line × List Line) =>
      sections.set (normalizeHeading toLowerCase block.2.1) ⟨block.2.1, joinLines block.2.2, block.1 + 2⟩) KeyedStore.empty

/-! ## Bullets -/

/-- The variables of the loop of `parseBullets`. -/
structure BulletScan where
  bullets : KeyedStore String Line
  unknownKeys : List (Line × Nat)
  currentKey : Option String
  offset : Nat

/-- A line joined to the text of a bullet. -/
def joinWrapped (text line : Line) : Line := trimText (text ++ ' ' :: trimText line)

/-- One turn of the loop. -/
def BulletScan.read (scan : BulletScan) (line : Line) : BulletScan :=
  let next := { scan with offset := scan.offset + 1 }
  match keyedBullet line with
  | some (key, value) => { next with currentKey := some key, bullets := scan.bullets.set key value }
  | none =>
    match bulletKey line with
    | some key => { next with unknownKeys := scan.unknownKeys ++ [(key, scan.offset)], currentKey := none }
    | none =>
      if trimText line = [] then { next with currentKey := none }
      else
        match scan.currentKey with
        | some key =>
          if isDashed line then next
          else { next with bullets := scan.bullets.set key (joinWrapped ((scan.bullets.get? key).getD "undefined".toList) line) }
        | none => next

/-- `parseBullets(lines)`. -/
def parseBullets (lines : List Line) : BulletScan := lines.foldl BulletScan.read ⟨KeyedStore.empty, [], none, 0⟩

/-! ## Proofs -/

/-- A text without the pair of backticks around it. -/
def unwrap (text : Line) : Line :=
  if 2 ≤ text.length ∧ text.head? = some '\x60' ∧ text.getLast? = some '\x60' ∧ ((text.drop 1).dropLast).any isTerminator =
    false then
    (text.drop 1).dropLast
  else text

/-- `/^(command|path|judgment):\s*(.*)$/`. -/
def proofPattern (value : Line) : Option (ProofKind × Line) :=
  [ProofKind.command, .path, .judgment].findSome? fun kind =>
    (behind (kind.name.toList ++ [':']) value).bind fun rest => (restOfLine (skipBlank rest)).map fun ref => (kind, trimText ref)

/-- The kind of a proof, and the text behind it. -/
def proofParts (raw : Line) : Option (ProofKind × Line) := if raw = [] then none else proofPattern (unwrap (trimText raw))

/-- A judgment keeps nothing of the text behind it. -/
def SpecProof.ofParts (parts : ProofKind × Line) : SpecProof :=
  if parts.1 = .judgment then ⟨.judgment, none⟩ else ⟨parts.1, some parts.2⟩

/-- `parseProof(raw)`. -/
def parseProof (raw : Option Line) : Option SpecProof := (raw.bind proofParts).map SpecProof.ofParts

/-- `proofWithoutNamedTestFile(proof)`. -/
def proofWithoutNamedTestFile (proof : Option SpecProof) : Option Line :=
  match proof with
  | some ⟨.command, some ref⟩ =>
    match ProofScope.nodeTestShape (shellWords (String.ofList ref)) with
    | some shape => if shape.nameFilters = [] ∨ shape.paths ≠ [] then none else some ref
    | none => none
  | _ => none

/-! ## Requirements -/

/-- `/^(R\d+)\.\s*(.*)$/`. -/
def idMatch (heading : Line) : Option (Line × Line) :=
  (behind ['R'] heading).bind fun rest =>
    if rest.takeWhile Char.isDigit = [] then none
    else
      (behind ['.'] (rest.dropWhile Char.isDigit)).bind fun after =>
        (restOfLine (skipBlank after)).map fun title => ('R' :: rest.takeWhile Char.isDigit, trimText title)

/-- The requirement of one block. -/
def requirementOf (heading : Line) (blockLine : Nat) (body : List Line) : SpecRequirement :=
  let scan := parseBullets body
  { id := (idMatch heading).map (·.1)
    title := ((idMatch heading).map (·.2)).getD heading
    statement := scan.bullets.get? "statement"
    proof := parseProof (scan.bullets.get? "proof")
    measure := parseProof (scan.bullets.get? "measure")
    constraints := scan.bullets.get? "constraints"
    unknownBulletKeys := scan.unknownKeys.map fun (key, offset) => ⟨key, blockLine + offset⟩
    line := blockLine }

/-- `extractRequirements(section)`. -/
def extractRequirements (found : Option SpecSection) : List SpecRequirement :=
  match found with
  | none => []
  | some found =>
    (blocks (headingText 3) (opensBlock 3) 0 (splitLines found.body)).map fun (block : Nat × Line × List Line) =>
      requirementOf block.2.1 (found.line + block.1 + 1) block.2.2

/-- The line the sections begin at. -/
def sectionsStart (lines : List Line) : Nat := ((extractFrontMatter lines).map (·.2)).getD 0

/-- `parseSpec(text)`. -/
def parseSpec (toLowerCase : Line → Line) (text : Line) : ParsedSpec :=
  let lines := splitLines text
  let sections := extractSections toLowerCase lines (sectionsStart lines)
  { frontMatter := (extractFrontMatter lines).map (·.1)
    sections
    requirements := extractRequirements (sections.get? "requirements".toList) }

/-! ## Findings -/

def tableRows (body : Line) : List Line := (splitLines body).filter fun line => ['|'].isPrefixOf (trimText line)

/-- `splitRow(row)`. -/
def splitRow (row : Line) : List Line :=
  let trimmed := trimText row
  let opened := (behind ['|'] trimmed).getD trimmed
  let closed := if opened.getLast? = some '|' then opened.dropLast else opened
  (closed.splitOn '|').map trimText

/-- `/baseline/iu`; `ſ` folds to `s`. -/
def namesBaseline (cell : Line) : Bool :=
  let folded := cell.map fun c => if c = 'ſ' then 's' else c.toLower
  (breakOn "baseline".toList folded).isSome

/-- Whether a Baseline cell says nothing. -/
def noBaseline (cell : Option Line) : Bool :=
  match cell with
  | none => true
  | some value => trimText value == [] || trimText value == ['-'] || trimText value == ['—']

/-- `baselineColumnFindings(section)`. -/
def baselineColumnFindings (found : SpecSection) : List SpecFinding :=
  match tableRows found.body with
  | header :: second :: rest =>
    match (splitRow header).findIdx? namesBaseline with
    | none => [⟨.successCriteriaMissingBaseline, .advisory, "Success criteria table has no Baseline column", found.line⟩]
    | some column =>
      ((header :: second :: rest).zipIdx.drop 2).filterMap fun (row, index) =>
        if noBaseline ((splitRow row)[column]?) then
          some ⟨.successCriteriaMissingBaseline, .advisory, s!"Success criteria row {index - 1} has no Baseline value",
            found.line + index⟩
        else none
  | _ => []

/-- `requirement.id ?? requirement.title`. -/
def SpecRequirement.label (requirement : SpecRequirement) : String := String.ofList (requirement.id.getD requirement.title)

def missingIdFinding (requirement : SpecRequirement) : SpecFinding :=
  ⟨.requirementMissingId, .advisory, s!"requirement \"{String.ofList requirement.title}\" has no stable R<n> id",
    requirement.line⟩

def missingProofFinding (requirement : SpecRequirement) : SpecFinding :=
  ⟨.requirementMissingProof, .advisory, s!"requirement {requirement.label} has no proof", requirement.line⟩

def unknownBulletFinding (requirement : SpecRequirement) (unknown : UnknownBulletKey) : SpecFinding :=
  ⟨.requirementUnknownBulletKey, .advisory,
    "requirement " ++ requirement.label ++ " has a bullet keyed \"" ++ String.ofList unknown.key ++
      ("\", which the format does not read: a key is letters and hyphens (statement, proof, measure, constraints), " ++
        "so this bullet and the lines under it are dropped instead of reaching the requirement. " ++
        "Reword the bullet or use one of the four keys."),
    unknown.line⟩

def unnamedTestFinding (requirement : SpecRequirement) (unbacked : Line) : SpecFinding :=
  ⟨.proofFilterNamesNoFile, .advisory,
    "requirement " ++ requirement.label ++ "'s proof \"" ++ String.ofList unbacked ++
      ("\" filters node:test by name but names no test file: with no path node --test runs every test file in the tree, " ++
        "each file the filter selects nothing in prints a zero plan, and the plan's own freeze refuses the shape. " ++
        "Name the file that holds the test, as in node --test --test-name-pattern=\"<title>\" test/<area>/<file>.test.mjs."),
    requirement.line⟩

/-- The findings of one requirement. -/
def requirementFindings (requirement : SpecRequirement) : List SpecFinding :=
  (if requirement.id.isNone then [missingIdFinding requirement] else []) ++
    (if requirement.proof.isNone then [missingProofFinding requirement] else []) ++
    requirement.unknownBulletKeys.map (unknownBulletFinding requirement) ++
    ((proofWithoutNamedTestFile requirement.proof).map (unnamedTestFinding requirement)).toList

/-- The findings of the proofs that were run. -/
def proofFindings (requirements : List SpecRequirement) (results : List RequirementProofResult) : List SpecFinding :=
  (results.filter fun result => !result.pass).map fun result =>
    let requirement := result.requirementId.bind
      fun id => (requirements.filter fun requirement => requirement.id == some id).getLast?
    let name := (result.requirementId.or (requirement.map (·.title))).getD ['?']
    ⟨.requirementProofFailed, .blocking,
      "requirement " ++ String.ofList name ++ "'s proof does not pass (" ++ result.kind.name ++ ": " ++ String.ofList result.ref ++
        "): " ++ result.detail, (requirement.map (·.line)).getD 1⟩

/-- `promotableUnderStrict(finding)`. -/
def promotableUnderStrict (finding : SpecFinding) : Bool := finding.rule != .proofFilterNamesNoFile

def grade (options : SpecOptions) (finding : SpecFinding) : SpecFinding :=
  if options.strict && promotableUnderStrict finding then { finding with severity := .blocking } else finding

def legacyFinding : SpecFinding :=
  ⟨.legacyDocument, .advisory, "no front matter: accepted as a legacy-class document, not scored against the structured rules", 1⟩

/-- The findings of a spec with front matter, before they are graded. -/
def structuredFindings (host : SpecHost) (options : SpecOptions) (parsed : ParsedSpec) (frontMatter : KeyedStore String Line) :
    List SpecFinding :=
  (if (parsed.sections.get? "non-goals".toList).isNone then [⟨.missingNonGoals, .advisory, "spec has no Non-goals section", 1⟩]
    else []) ++
    parsed.requirements.flatMap requirementFindings ++
    ((parsed.sections.get? "success criteria".toList).map baselineColumnFindings).getD [] ++
    (match frontMatter.get? "baseline" with
      | some baseline =>
        if host.resolvesToCommit baseline then []
        else [⟨.baselineUnresolved, .advisory, "baseline \"" ++ String.ofList baseline ++ "\" does not resolve to a commit", 1⟩]
      | none => []) ++
    (match frontMatter.get? "target" with
      | some target =>
        if host.targetMatchesOrigin target then []
        else [⟨.targetUnresolved, .advisory, "target \"" ++ String.ofList target ++ "\" does not match the origin remote", 1⟩]
      | none => []) ++
    if options.runProofs then proofFindings parsed.requirements (host.proveRequirements parsed.requirements) else []

/-- `validateSpec(text, options)`. -/
def validateSpec (host : SpecHost) (options : SpecOptions) (text : Line) : SpecValidation :=
  let parsed := parseSpec host.toLowerCase text
  match parsed.frontMatter with
  | none => ⟨false, true, [legacyFinding]⟩
  | some frontMatter =>
    let graded := (structuredFindings host options parsed frontMatter).map (grade options)
    ⟨true, !graded.any fun finding => finding.severity == .blocking, graded⟩

end Faberun.Spec
