import Mathlib.Algebra.Order.Floor.Ring
import Mathlib.Data.List.DropRight
import Mathlib.Data.Rat.Floor
import Faberun.Model.Contract.Verification
import Faberun.Model.Util

/-! # Measured timeouts

The embedding of the measured-timeout half of `plan/freeze.mjs`: what repo facts measured for a command, the repair of a plan's timeouts
and the check of a contract's. The lookup of `npm test` calls itself on the repository's own script, so it is given the depth the stack
has left; nothing is returned where the stack runs out. A command, a node and a plan carry what the repair leaves alone as it is.
-/

namespace Faberun.Freeze

/-! ## Facts -/

structure MeasuredCandidate where
  argv : List String
  measuredMs : Option Rat
  eligible : Bool
  deriving DecidableEq

structure MeasuredFacts where
  scripts : List (String × String)
  verificationCandidates : List MeasuredCandidate
  deriving DecidableEq

/-- `MEASURED_TIMEOUT_MARGIN`. -/
def measuredTimeoutMargin : Rat := 3 / 2

/-- `FILTER_OPTIONS`. -/
def filterOptions : List String := ["--test-name-pattern", "--test-skip-pattern", "--test-only", "--test-shard"]

/-- `NODE_VALUE_OPTIONS` of `plan/proof-scope.mjs`. -/
def nodeValueOptions : List String :=
  ["--import", "--require", "-r", "--loader", "--experimental-loader", "--env-file", "--test-reporter",
    "--test-reporter-destination", "--test-name-pattern", "--test-skip-pattern", "--test-concurrency", "--test-timeout"]

def joined (argv : List String) : String := " ".intercalate argv

/-! ## Directories -/

/-- A path without the slashes at its end. -/
def trimSlashes (path : List Char) : List Char := path.rdropWhile (· == '/')

/-- A path without `./` at its beginning and slashes at its end. -/
def barePath (arg : List Char) : List Char := trimSlashes (if ['.', '/'].isPrefixOf arg then arg.drop 2 else arg)

def isWildcard (c : Char) : Bool := c == '*' || c == '?' || c == '['

/-- `path.slice(0, path.lastIndexOf("/", path.length))` of what stands before a wildcard; without a slash it ends at `-1`. -/
def globBase (path : List Char) : List Char :=
  let literal := path.takeWhile (!isWildcard ·)
  if '/' ∈ literal then (literal.rdropWhile (· != '/')).dropLast else path.dropLast

/-- `includedDirectories`. -/
def includedDirectories (arg : String) (directories : List String) : List String :=
  let path := barePath arg.toList
  let below (base : List Char) (directory : String) : Bool := (base ++ ['/']).isPrefixOf directory.toList
  if path.all (!isWildcard ·) then directories.filter fun directory => directory.toList == path || below path directory
  else if '/' ∈ path.dropWhile (!isWildcard ·) then
    directories.filter fun directory => globBase path == [] || below (globBase path) directory
  else []

/-! ## What was measured -/

/-- The candidates that count, with their durations. -/
def candidates (facts : MeasuredFacts) : List (List String × Rat) :=
  facts.verificationCandidates.filterMap fun candidate => if candidate.eligible then candidate.measuredMs.map (candidate.argv, ·) else none

/-- The candidate of the command itself. -/
def exact (facts : MeasuredFacts) (argv : List String) : Option Rat :=
  ((candidates facts).find? fun candidate => joined candidate.1 == joined argv).map (·.2)

/-- `npm test` or `npm run test`. -/
def isNpmTest (argv : List String) : Bool :=
  argv.head? == some "npm" && (joined argv.tail == "test" || joined argv.tail == "run test")

/-- `text.trim().split(/\s+/u)`. -/
def splitWords (text : String) : List String :=
  let trimmed := trimText text.toList
  if trimmed = [] then [""] else ((trimmed.splitOnP isJsWhitespace).filter (· ≠ [])).map String.ofList

/-- The script `npm test` stands for, when the command is that one. -/
def testScript (facts : MeasuredFacts) (argv : List String) : Option String :=
  if isNpmTest argv then facts.scripts.lookup "test" else none

/-- A filtered run measures nothing a directory candidate measured. -/
def isFiltered (argv : List String) : Bool :=
  argv.any fun arg => filterOptions.any fun option => arg == option || (option ++ "=").toList.isPrefixOf arg.toList

/-- The path arguments of a `node --test` command, from behind its first two words. -/
def pathArguments : List String → List String
  | [] => []
  | [arg] => if nodeValueOptions.contains arg || ['-'].isPrefixOf arg.toList then [] else [arg]
  | arg :: next :: rest =>
    if nodeValueOptions.contains arg then pathArguments rest
    else if ['-'].isPrefixOf arg.toList then pathArguments (next :: rest)
    else arg :: pathArguments (next :: rest)

/-- `measured`: the durations of the `node --test <dir>` candidates, by directory; of two of one directory the later counts. -/
def measuredDirectories (facts : MeasuredFacts) : List (String × Rat) :=
  let named := (candidates facts).filterMap fun candidate =>
    match candidate.1 with
    | ["node", "--test", directory] => some (String.ofList (trimSlashes directory.toList), candidate.2)
    | _ => none
  (named.map (·.1)).eraseDups.filterMap fun directory => (named.reverse.lookup directory).map (directory, ·)

/-- The sum of the candidates a `node --test` command includes. -/
def directorySum (facts : MeasuredFacts) (argv : List String) : Option Rat :=
  match argv with
  | "node" :: "--test" :: rest =>
    if isFiltered argv then none
    else
      let measured := measuredDirectories facts
      let paths := if pathArguments rest = [] then ["test"] else pathArguments rest
      let included := (paths.flatMap fun path => includedDirectories path (measured.map (·.1))).eraseDups
      if included = [] then none else some (included.foldl (fun sum directory => sum + (measured.lookup directory).getD 0) 0)
  | _ => none

/-- `measuredMsFor`, with the depth the stack has left. -/
def measuredMsFor (facts : MeasuredFacts) : Nat → List String → Option (Option Rat)
  | 0, _ => none
  | depth + 1, argv =>
    match exact facts argv with
    | some measuredMs => some (some measuredMs)
    | none =>
      match testScript facts argv with
      | some script => measuredMsFor facts depth (splitWords script)
      | none => some (directorySum facts argv)

/-- `requiredSec`. -/
def requiredSec (measuredMs : Rat) : Rat := ⌈measuredMs * measuredTimeoutMargin / 1000⌉

/-! ## Plans and contracts -/

/-- `VerificationCommand` as a plan has it, with what the repair does not read. -/
structure SuiteCommand (ε : Type) where
  argv : List String
  timeoutSec : Option Rat
  other : ε

/-- `command.timeoutSec ?? 120`. -/
def SuiteCommand.timeout {ε : Type} (command : SuiteCommand ε) : Rat := command.timeoutSec.getD 120

structure SuiteNode (ε : Type) where
  id : String
  verification : Option (List (SuiteCommand ε))

/-- The suites of a plan; a contract has them in its packets and beside them. -/
structure Suites (ε : Type) where
  nodes : List (SuiteNode ε)
  sharedVerification : Option (List (SuiteCommand ε))
  finalVerification : Option (List (SuiteCommand ε))

/-- The lists of commands, one for each container. -/
def Suites.lists {ε : Type} (suites : Suites ε) : List (List (SuiteCommand ε)) :=
  suites.nodes.map (·.verification.getD []) ++ [suites.sharedVerification.getD [], suites.finalVerification.getD []]

section

variable {ε : Type} (numeral seconds : Rat → String) (measure : List String → Option (Option Rat))

/-! ## The repair -/

/-- One turn of `raiseCommandTimeouts`: the command, and what is recorded of a raise. -/
def raiseCommand (label : String) (command : SuiteCommand ε) : Option (SuiteCommand ε × Option String) :=
  (measure command.argv).map fun measured =>
    match measured with
    | none => (command, none)
    | some measuredMs =>
      if requiredSec measuredMs ≤ command.timeout ∨ (VerificationLimits.maxTimeoutSec : Rat) < requiredSec measuredMs then (command, none)
      else
        ({ command with timeoutSec := some (requiredSec measuredMs) },
          some s!"{label}: {joined command.argv} {numeral command.timeout}s -> {numeral (requiredSec measuredMs)}s")

/-- `raiseCommandTimeouts`: the commands, and what is recorded of the raises. -/
def raiseCommandTimeouts (label : String) (commands : List (SuiteCommand ε)) : Option (List (SuiteCommand ε) × List String) :=
  (commands.mapM (raiseCommand numeral measure label)).map fun next => (next.map (·.1), next.filterMap (·.2))

/-- A node with its timeouts raised; a node without a list is given one when the plan is rebuilt. -/
def raiseNode (node : SuiteNode ε) : Option (SuiteNode ε × List String) :=
  (raiseCommandTimeouts numeral measure node.id (node.verification.getD [])).map fun next =>
    ({ node with verification := some next.1 }, next.2)

/-- `raiseTimeoutsToMeasured`: the plan, and what is recorded of the raises. -/
def raiseTimeoutsToMeasured (plan : Suites ε) : Option (Suites ε × List String) := do
  let nodes ← plan.nodes.mapM (raiseNode numeral measure)
  let shared ← raiseCommandTimeouts numeral measure "sharedVerification" (plan.sharedVerification.getD [])
  let final ← raiseCommandTimeouts numeral measure "finalVerification" (plan.finalVerification.getD [])
  let raised := nodes.flatMap (·.2) ++ shared.2 ++ final.2
  if raised = [] then return (plan, [])
  else return (⟨nodes.map (·.1), plan.sharedVerification.map fun _ => shared.1, plan.finalVerification.map fun _ => final.1⟩, raised)

/-! ## The check -/

/-- The problem of a command that no legal timeout covers. -/
def splitProblem (command : SuiteCommand ε) (measuredMs : Rat) : String :=
  s!"{joined command.argv} measured {seconds measuredMs}s, and {numeral measuredTimeoutMargin} times that passes the " ++
    s!"{VerificationLimits.maxTimeoutSec}s maxTimeoutSec: split it into commands that each fit"

/-- The problem of a command whose timeout can be raised. -/
def raiseProblem (command : SuiteCommand ε) (measuredMs : Rat) : String :=
  s!"verification {joined command.argv} has timeoutSec {numeral command.timeout}s, under {numeral measuredTimeoutMargin} times its " ++
    s!"measured {seconds measuredMs}s: raise it to at least {numeral (requiredSec measuredMs)}s"

/-- What the check says of a command. -/
def problemOf (command : SuiteCommand ε) : Option (Option String) :=
  (measure command.argv).map fun measured =>
    measured.bind fun measuredMs =>
      if (VerificationLimits.maxTimeoutSec : Rat) < requiredSec measuredMs then some (splitProblem numeral seconds command measuredMs)
      else if command.timeout < requiredSec measuredMs then some (raiseProblem numeral seconds command measuredMs)
      else none

/-- The problems `assertTimeoutsCoverMeasured` reports; it throws when there are any. -/
def assertTimeoutsCoverMeasured (contract : Suites ε) : Option (List String) :=
  (contract.lists.flatten.mapM (problemOf numeral seconds measure)).map fun problems => (problems.filterMap id).eraseDups

end

end Faberun.Freeze
