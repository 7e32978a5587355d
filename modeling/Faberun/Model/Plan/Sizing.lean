import Mathlib.Data.List.DropRight
import Mathlib.Data.List.Sort
import Faberun.Machine.Digraph
import Faberun.Machine.FirstByKey
import Faberun.Machine.KeyedLog
import Faberun.Machine.Loop
import Faberun.Model.Plan.Template

/-! # Graph sizing

`applySizingRules` of `plan/sizing.mjs`. Three rules fold one node into another until none applies: a node without a
mechanical proof, a node whose write set another contains, and two small siblings of one directory. The other rules
split or mark what is left and refuse a graph of the wrong shape. A fold is recorded with the nodes it was made among.
-/

namespace Faberun.Sizing

open Faberun.Plan

/-- A command of a sizing node; `measuredMs` is its duration, when it was measured. -/
structure SizingCommand where
  command : VerificationCommand
  measuredMs : Option Rat
  flaggedOverBudget : Bool
  deriving DecidableEq

structure SizingPacket where
  readFiles : List String
  writeFiles : List String
  scopeAcknowledged : List String
  verification : List SizingCommand
  deriving DecidableEq

/-- `PlanNode` of the sizing rules. -/
structure SizingNode where
  id : String
  dependsOn : List String
  taskKind : String
  riskTier : RiskTier
  objective : String
  expectedTurns : Option Nat
  definitionOfDone : List DoneItem
  taskPacket : SizingPacket
  parallel : Bool
  flaggedOverTurnCeiling : Bool
  deriving DecidableEq

def toSizingNode (node : PlanNode) : SizingNode where
  id := node.id
  dependsOn := node.dependsOn
  taskKind := node.taskKind
  riskTier := node.riskTier
  objective := node.objective
  expectedTurns := node.expectedTurns
  definitionOfDone := node.definitionOfDone
  taskPacket := ⟨node.readFiles, node.writeFiles, node.scopeAcknowledged, node.verification.map fun command => ⟨command, none, false⟩⟩
  parallel := false
  flaggedOverTurnCeiling := false

structure TestFile where
  path : String
  covers : List String

structure Facts where
  paths : Option (List String)
  testFiles : List TestFile

structure Options where
  nodeBudgetMs : Rat
  targetedFix : Bool
  facts : Facts
  minWriteFiles : Option Nat
  maxMergedWriteFiles : Nat
  turnCeiling : Option Nat
  exploratory : Bool
  readVolume : Option (String → Option Nat)

structure Transformation where
  rule : String
  nodes : List String
  detail : String
  deriving DecidableEq

inductive SizingRefusal where
  | readOutsideFactSet (node path : String)
  | singleNodePlan (node : String)
  | dependencyCycle (node : String)
  | depthExceedsCeiling (depth : Nat)
  deriving DecidableEq

/-- `DEPTH_CEILING`. -/
def depthCeiling : Nat := 8

/-- The message of the error. -/
def SizingRefusal.message : SizingRefusal → String
  | readOutsideFactSet node path =>
    s!"sizing_read_outside_fact_set: node {node} declares readFiles entry {path}, which the phase fact set does not hold; select each node's read files from repo-facts.json's paths and testFiles — a read outside the fact set is context nothing in this phase measured"
  | singleNodePlan node =>
    s!"sizing_single_node_plan: node {node} is the plan's only node; pass options.targetedFix to allow a single-node plan"
  | dependencyCycle node => s!"sizing_dependency_cycle: node {node} depends on itself through a dependsOn cycle"
  | depthExceedsCeiling depth =>
    s!"sizing_depth_exceeds_ceiling: dependency chain depth {depth} exceeds {depthCeiling} and plan.justification is required"

/-! ## Folding one node into another -/

def hasMechanicalProof (node : SizingNode) : Bool := node.definitionOfDone.any fun item => item.proof.isSome

def writeFilesOf (node : SizingNode) : List String := node.taskPacket.writeFiles

def isNonEmptySubsetOf (subset superset : List String) : Bool := !subset.isEmpty && subset.all superset.contains

/-- The first node whose write files contain those of a node. -/
def findContainingNode (node : SizingNode) (nodes : List SizingNode) : Option SizingNode :=
  nodes.find? fun candidate => candidate.id != node.id && isNonEmptySubsetOf (writeFilesOf node) (writeFilesOf candidate)

/-- The key of a command: its words joined by a null character. -/
def commandKey (command : SizingCommand) : String := "\u0000".intercalate command.command.argv

def dedupeVerification (commands : List SizingCommand) : List SizingCommand := FirstByKey.firsts commandKey commands

def dedupeById (items : List DoneItem) : List DoneItem := FirstByKey.firsts DoneItem.id items

/-- What the parent becomes. -/
def absorb (child parent : SizingNode) : SizingNode :=
  { parent with
    dependsOn := (parent.dependsOn ++ child.dependsOn).eraseDups.filter fun id => id != parent.id && id != child.id
    objective := if child.objective = parent.objective then parent.objective
      else s!"{parent.objective} Also: {child.objective}"
    expectedTurns := match parent.expectedTurns, child.expectedTurns with
      | none, none => none
      | first, second => some (first.getD 0 + second.getD 0)
    definitionOfDone := dedupeById (parent.definitionOfDone ++ child.definitionOfDone)
    taskPacket := {
      readFiles := (parent.taskPacket.readFiles ++ child.taskPacket.readFiles).eraseDups
      writeFiles := (parent.taskPacket.writeFiles ++ child.taskPacket.writeFiles).eraseDups
      scopeAcknowledged := (parent.taskPacket.scopeAcknowledged ++ child.taskPacket.scopeAcknowledged).eraseDups
      verification := dedupeVerification (parent.taskPacket.verification ++ child.taskPacket.verification) } }

/-- Another node, with the child's id replaced by the parent's in what it depends on. -/
def redirect (child parent : String) (node : SizingNode) : SizingNode :=
  { node with
    dependsOn := (node.dependsOn.map fun id => if id = child then parent else id).eraseDups.filter fun id => id != node.id }

def foldNodeInto (nodes : List SizingNode) (child parent : SizingNode) : List SizingNode :=
  (nodes.filter fun node => node.id != child.id).map fun node =>
    if node.id = parent.id then absorb child parent else redirect child.id parent.id node

/-! ## The merge rules -/

/-- One fold, among the nodes it was made. -/
structure Fold where
  before : List SizingNode
  child : SizingNode
  parent : SizingNode
  rule : String
  detail : String
  deriving DecidableEq

namespace Fold

def after (fold : Fold) : List SizingNode := foldNodeInto fold.before fold.child fold.parent

def transformation (fold : Fold) : Transformation := ⟨fold.rule, [fold.child.id, fold.parent.id], fold.detail⟩

end Fold

/-- The nodes of a rule's loop, the ids it skips and the folds it has made. -/
structure Merging where
  current : List SizingNode
  skip : List String
  folds : List Fold

namespace Merging

/-- Make a fold. -/
def fold (merging : Merging) (child parent : SizingNode) (rule detail : String) : Merging :=
  ⟨foldNodeInto merging.current child parent, merging.skip,
    merging.folds ++ [⟨merging.current, child, parent, rule, detail⟩]⟩

end Merging

/-- The first dependency of a node that is there. -/
def firstDependency (child : SizingNode) (nodes : List SizingNode) : Option SizingNode :=
  child.dependsOn.findSome? fun id => KeyedLog.lastOf SizingNode.id nodes id

/-- One turn of the loop of `mergeNoMechanicalProof`. -/
def noMechanicalProofStep (merging : Merging) : Option Merging :=
  (merging.current.find? fun node => !merging.skip.contains node.id && !hasMechanicalProof node).map fun child =>
    match (firstDependency child merging.current).or (findContainingNode child merging.current) with
    | none => { merging with skip := child.id :: merging.skip }
    | some parent =>
      merging.fold child parent "no-mechanical-proof-merge"
        s!"{child.id} has no mechanical Definition of Done proof; merged into {parent.id}"

/-- One turn of the loop of `mergeContainedWriteSet`. -/
def containedWriteSetStep (merging : Merging) : Option Merging := do
  let child ← merging.current.find? fun node =>
    node.taskPacket.verification.isEmpty && (findContainingNode node merging.current).isSome
  let parent ← findContainingNode child merging.current
  return merging.fold child parent "contained-write-set-merge"
    s!"{child.id}'s writeFiles is contained in {parent.id}'s and it declares no verification; merged into {parent.id}"

def isUnderfilled (minWriteFiles : Nat) (node : SizingNode) : Bool :=
  decide (0 < (writeFilesOf node).length) && decide ((writeFilesOf node).length < minWriteFiles)

/-- `dirname` of a POSIX path: only one of the separators before the last name is dropped. -/
def dirname (path : String) : String :=
  let hasRoot := path.toList.head? = some '/'
  match (path.toList.reverse.dropWhile (· = '/')).dropWhile (· ≠ '/') with
  | [] => if hasRoot then "/" else "."
  | [_] => "/"
  | _ :: above => if hasRoot ∧ above.length = 1 then "//" else String.ofList above.reverse

example : ["src/plan/sizing.mjs", "a//b", "//a", "/a/", "a/"].map dirname = ["src/plan", "a/", "//", "/", "."] := by decide

def sharesDirectory (left right : SizingNode) : Bool :=
  (writeFilesOf right).any fun path => ((writeFilesOf left).map dirname).contains (dirname path)

/-- What the node of an id depends on. -/
def dependenciesOf (nodes : List SizingNode) (id : String) : List String :=
  ((KeyedLog.lastOf SizingNode.id nodes id).map SizingNode.dependsOn).getD []

/-- The loop of `reaches`, over the ids it has seen and the stack. -/
def reachesFrom (next : String → List String) (target : String) : Nat → List String → List String → Bool
  | 0, _, _ => false
  | _, _, [] => false
  | fuel + 1, seen, id :: stack =>
    if id = target then true
    else if seen.contains id then reachesFrom next target fuel seen stack
    else reachesFrom next target fuel (id :: seen) ((next id).reverse ++ stack)

/-- As many turns as the loop of `reaches` can take. -/
def searchFuel (nodes : List SizingNode) : Nat := (nodes.map fun node => node.dependsOn.length).sum + 2

def reaches (nodes : List SizingNode) (source target : String) : Bool :=
  reachesFrom (dependenciesOf nodes) target (searchFuel nodes) [] [source]

def dependencyRelated (left right : SizingNode) (nodes : List SizingNode) : Bool :=
  reaches nodes left.id right.id || reaches nodes right.id left.id

/-- Whether two siblings are small, alike and apart. -/
def siblings (minWriteFiles ceiling : Nat) (nodes : List SizingNode) (child candidate : SizingNode) : Bool :=
  isUnderfilled minWriteFiles candidate && decide (candidate.taskKind = child.taskKind) &&
    decide (candidate.riskTier = child.riskTier) && sharesDirectory candidate child &&
    decide ((writeFilesOf candidate ++ writeFilesOf child).eraseDups.length ≤ ceiling) &&
    !dependencyRelated candidate child nodes

/-- The first small node with a small sibling before it. -/
def siblingPair (minWriteFiles ceiling : Nat) (nodes : List SizingNode) :
    List SizingNode → List SizingNode → Option (SizingNode × SizingNode)
  | _, [] => none
  | earlier, child :: rest =>
    match (earlier.find? (siblings minWriteFiles ceiling nodes child)).filter fun _ => isUnderfilled minWriteFiles child with
    | some parent => some (child, parent)
    | none => siblingPair minWriteFiles ceiling nodes (earlier ++ [child]) rest

/-- One turn of the loop of `mergeUnderfilledSiblings`. -/
def underfilledSiblingsStep (minWriteFiles ceiling : Nat) (merging : Merging) : Option Merging :=
  (siblingPair minWriteFiles ceiling merging.current [] merging.current).map fun (child, parent) =>
    merging.fold child parent "underfilled-sibling-merge"
      s!"{child.id} ({(writeFilesOf child).length} write file(s)) and {parent.id} ({(writeFilesOf parent).length}) are both under the {minWriteFiles}-file floor, in the same directory, with no dependency between them; merged into {parent.id}"

/-- A rule that runs to its fixpoint; every turn uses up a node or skips one. -/
def runRule (step : Merging → Option Merging) (nodes : List SizingNode) (folds : List Fold) : Merging :=
  drain step (2 * nodes.length) ⟨nodes, [], folds⟩

def mergeNoMechanicalProof (nodes : List SizingNode) (folds : List Fold) : Merging :=
  runRule noMechanicalProofStep nodes folds

def mergeContainedWriteSet (nodes : List SizingNode) (folds : List Fold) : Merging :=
  runRule containedWriteSetStep nodes folds

def mergeUnderfilledSiblings (minWriteFiles : Option Nat) (ceiling : Nat) (nodes : List SizingNode) (folds : List Fold) :
    Merging :=
  match minWriteFiles with
  | none => ⟨nodes, [], folds⟩
  | some floor => runRule (underfilledSiblingsStep floor ceiling) nodes folds

/-- The three rules in order; exploratory work skips them. -/
def mergeAll (options : Options) (nodes : List SizingNode) : Merging :=
  if options.exploratory then ⟨nodes, [], []⟩
  else
    let unproved := mergeNoMechanicalProof nodes []
    let contained := mergeContainedWriteSet unproved.current unproved.folds
    mergeUnderfilledSiblings options.minWriteFiles options.maxMergedWriteFiles contained.current contained.folds

/-! ## The other rules -/

/-- A node with what a rule says about it. -/
abbrev Marked := SizingNode × List Transformation

/-- Apply a rule to every node and collect what it says. -/
def markEach (rule : SizingNode → Marked) (nodes : List SizingNode) : List SizingNode × List Transformation :=
  (nodes.map fun node => (rule node).1, nodes.flatMap fun node => (rule node).2)

def coversSomething (file : TestFile) (writeFiles : List String) : Bool := file.covers.any writeFiles.contains

/-- The test files that cover what a node writes. -/
def coveringTests (facts : Facts) (writeFiles : List String) : List String :=
  ((facts.testFiles.filter fun file => coversSomething file writeFiles).map TestFile.path).eraseDups

/-- The command of one test file. -/
def testCommand (path : String) : SizingCommand := ⟨⟨["node", "--test", path], 120, 1, [], none, none, none⟩, none, false⟩

def shownCommand (command : SizingCommand) : String := " ".intercalate command.command.argv

/-- One command of the split: what replaces it, and what is said. -/
def splitCommand (nodeBudgetMs : Rat) (candidates : List String) (node : String) (command : SizingCommand) :
    List SizingCommand × List Transformation :=
  match command.measuredMs with
  | none => ([command], [])
  | some measuredMs =>
    if measuredMs ≤ nodeBudgetMs ∨ command.flaggedOverBudget = true then ([command], [])
    else if candidates.isEmpty = false ∧ candidates.length ≤ VerificationLimits.maxCommands then
      (candidates.map testCommand, [⟨"over-budget-verification-split", [node],
        s!"{shownCommand command} measured {shownNumber measuredMs}ms over the {shownNumber nodeBudgetMs}ms budget; replaced with {commaList candidates}"⟩])
    else
      ([{ command with flaggedOverBudget := true }], [⟨"over-budget-verification-flagged", [node],
        if VerificationLimits.maxCommands < candidates.length then
          s!"{shownCommand command} measured {shownNumber measuredMs}ms over the {shownNumber nodeBudgetMs}ms budget; {candidates.length} test files reference this node's writeFiles, above the contract's {VerificationLimits.maxCommands}-command budget: prove them once on the phase-terminal node instead of naming each here"
        else
          s!"{shownCommand command} measured {shownNumber measuredMs}ms over the {shownNumber nodeBudgetMs}ms budget; no repo-facts test file covers this node's writeFiles"⟩])

/-- `splitOverBudgetVerification` on one node. -/
def splitNode (nodeBudgetMs : Rat) (facts : Facts) (node : SizingNode) : Marked :=
  let pieces := node.taskPacket.verification.map
    (splitCommand nodeBudgetMs (coveringTests facts (writeFilesOf node)) node.id)
  ({ node with taskPacket := { node.taskPacket with verification := pieces.flatMap (·.1) } }, pieces.flatMap (·.2))

/-- `markParallelisable` on one node. -/
def markNode (nodes : List SizingNode) (node : SizingNode) : Marked :=
  let dependedOn := nodes.any fun other => other.dependsOn.contains node.id
  let disjoint := nodes.all fun other =>
    other.id == node.id || !((writeFilesOf other).any fun path => (writeFilesOf node).contains path)
  if node.parallel || !node.dependsOn.isEmpty || dependedOn || !disjoint then (node, [])
  else ({ node with parallel := true }, [⟨"parallelisable", [node.id],
    s!"{node.id} has no dependency relation and disjoint writeFiles; marked parallel"⟩])

/-- `flagOverTurnCeiling` on one node. -/
def flagNode (turnCeiling : Option Nat) (node : SizingNode) : Marked :=
  match turnCeiling, node.expectedTurns with
  | some ceiling, some expected =>
    if expected ≤ ceiling ∨ node.flaggedOverTurnCeiling = true then (node, [])
    else ({ node with flaggedOverTurnCeiling := true }, [⟨"over-turn-ceiling", [node.id],
      s!"{node.id} expects {expected} provider requests, above the {ceiling}-request attempt cap; split it before launch or the run will cut it at the cap and retry it once"⟩])
  | _, _ => (node, [])

/-- `READ_VOLUME_IMBALANCE_RATIO`. -/
def readVolumeImbalanceRatio : Rat := 3

/-- The lines a node reads, when some of its files could be measured. -/
def volumeOf (readVolume : String → Option Nat) (node : SizingNode) : Option (String × Nat) :=
  let measured := node.taskPacket.readFiles.filterMap readVolume
  if measured.isEmpty then none else some (node.id, measured.sum)

/-- The median of sorted totals. -/
def medianOf (sorted : List Nat) : Rat :=
  let middle := sorted.length / 2
  if sorted.length % 2 = 0 then (((sorted[middle - 1]?).getD 0 : Rat) + (sorted[middle]?).getD 0) / 2
  else ((sorted[middle]?).getD 0 : Rat)

/-- `flagReadVolumeImbalance`: what it says; it changes no node. -/
def flagReadVolumeImbalance (nodes : List SizingNode) (readVolume : Option (String → Option Nat)) : List Transformation :=
  match readVolume with
  | none => []
  | some measure =>
    let volumes := nodes.filterMap (volumeOf measure)
    let median := medianOf ((volumes.map (·.2)).insertionSort (· ≤ ·))
    if volumes.length < 2 ∨ median ≤ 0 then []
    else (volumes.filter fun entry => median * readVolumeImbalanceRatio < entry.2).map fun entry =>
      ⟨"read-volume-imbalance", [entry.1],
        s!"{entry.1} reads {entry.2} lines against a median of {shownNumber median} across this plan; exploratory work is paid for by what it reads, so this node costs several times what its siblings do and is worth splitting"⟩

/-- `refuseReadSelectionOutsideFactSet`. -/
def refuseReadSelectionOutsideFactSet (nodes : List SizingNode) (facts : Facts) : Except SizingRefusal Unit :=
  match facts.paths with
  | none => .ok ()
  | some paths =>
    match nodes.findSome? fun node => (node.taskPacket.readFiles.find? fun path => !paths.contains path).map (node.id, ·) with
    | some (node, path) => .error (.readOutsideFactSet node path)
    | none => .ok ()

/-- `depthOf`, over the ids in progress. -/
def depthOf (next : String → List String) : Nat → List String → String → Except SizingRefusal Nat
  | 0, _, id => .error (.dependencyCycle id)
  | fuel + 1, way, id =>
    if id ∈ way then .error (.dependencyCycle id)
    else (next id).foldlM (fun depth dependency => do
      let below ← depthOf next fuel (id :: way) dependency
      return max depth (below + 1)) 1

def longestChainDepth (nodes : List SizingNode) : Except SizingRefusal Nat :=
  nodes.foldlM (fun depth node => do
    let own ← depthOf (dependenciesOf nodes) (nodes.length + 1) [] node.id
    return max depth own) 0

/-- A plan of one node is meant to be a targeted fix. -/
def refuseSingleNode (nodes : List SizingNode) (targetedFix : Bool) : Except SizingRefusal Unit :=
  match nodes with
  | [only] => if targetedFix then .ok () else .error (.singleNodePlan only.id)
  | _ => .ok ()

/-- A deep chain needs a justification. -/
def refuseDepth (depth : Nat) (justification : Option String) : Except SizingRefusal Unit :=
  if depthCeiling < depth ∧ (justification.all fun text => text == "") = true then .error (.depthExceedsCeiling depth)
  else .ok ()

/-! ## All rules -/

structure SizingResult where
  nodes : List SizingNode
  justification : Option String
  transformations : List Transformation

/-- What follows the merges. -/
def reshape (options : Options) (nodes : List SizingNode) : List SizingNode × List Transformation :=
  let split := markEach (splitNode options.nodeBudgetMs options.facts) nodes
  let parallel := markEach (markNode split.1) split.1
  let flagged := markEach (flagNode options.turnCeiling) parallel.1
  let volumes := if options.exploratory && decide (2 ≤ flagged.1.length) then
    flagReadVolumeImbalance flagged.1 options.readVolume else []
  (flagged.1, split.2 ++ parallel.2 ++ flagged.2 ++ volumes)

/-- `applySizingRules` of the nodes of a plan. -/
def applySizingRules (nodes : List SizingNode) (justification : Option String) (options : Options) :
    Except SizingRefusal SizingResult := do
  let merged := mergeAll options nodes
  let shaped := reshape options merged.current
  refuseReadSelectionOutsideFactSet shaped.1 options.facts
  refuseSingleNode shaped.1 options.targetedFix
  let depth ← longestChainDepth shaped.1
  refuseDepth depth justification
  return ⟨shaped.1, justification, merged.folds.map Fold.transformation ++ shaped.2⟩

/-- The sizing of a plan, with the limits the pipeline sets. -/
def sizePlan (plan : PlanOutput) (options : Options) : Except SizingRefusal SizingResult :=
  applySizingRules (plan.nodes.map toSizingNode) plan.justification options

/-- `provenParallelism`. -/
def provenParallelism (nodes : List SizingNode) : Nat := min 2 (max 1 (nodes.filter (·.parallel)).length)

end Faberun.Sizing
