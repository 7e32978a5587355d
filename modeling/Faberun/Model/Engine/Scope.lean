import Mathlib.Data.List.Sort
import Faberun.Model.Contract.DefinitionOfDone
import Faberun.Model.UtilWords

/-! # The write boundary of a worker

`checkWorkerScope` of `engine/scope.mjs`: the unexpected paths of an attempt, the words the node's own proofs name, and
the verdict that may be deferred to verification unless one of them was written. The host is a POSIX one; a workspace is
the list of its names.
-/

namespace Faberun

open PosixPath

/-! ## The declared scope -/

/-- The paths of a captured boundary; file roots cover nothing beneath them. -/
structure ScopePaths where
  files : List String
  roots : List String
  fileRoots : List String
  deriving DecidableEq, Repr

/-- `path.startsWith(root + "/")`. -/
def isBeneath (root path : List Char) : Bool := (root ++ ['/']).isPrefixOf path

/-- The scope test of `compareWorkspaceSnapshot`. -/
def isExpectedPath (allowed : ScopePaths) (path : String) : Bool :=
  decide (path ∈ allowed.files) || decide (path ∈ allowed.fileRoots) ||
    (allowed.roots.filter fun root => decide (root ∉ allowed.fileRoots)).any fun root =>
      decide (path = root) || isBeneath root.toList path.toList

structure ScopeComparison where
  changedPaths : List String
  unexpectedPaths : List String
  deriving DecidableEq, Repr

/-- The end of `compareWorkspaceSnapshot`, of the set of paths that changed. -/
def compareChanged (allowed : ScopePaths) (changed : List String) : ScopeComparison :=
  let changedPaths := changed.insertionSort fun left right => !textLess right left
  ⟨changedPaths, changedPaths.filter fun path => !isExpectedPath allowed path⟩

/-- How many paths of a comparison are kept. -/
def maxScopePaths : Nat := 64

structure BoundedScope where
  changedPaths : List String
  unexpectedPaths : List String
  changedPathCount : Nat
  unexpectedPathCount : Nat
  truncated : Bool
  deriving DecidableEq, Repr

def boundedScope (scope : ScopeComparison) : BoundedScope where
  changedPaths := scope.changedPaths.take maxScopePaths
  unexpectedPaths := scope.unexpectedPaths.take maxScopePaths
  changedPathCount := scope.changedPaths.length
  unexpectedPathCount := scope.unexpectedPaths.length
  truncated := decide (maxScopePaths < scope.changedPaths.length) || decide (maxScopePaths < scope.unexpectedPaths.length)

/-! ## What the proofs name -/

/-- What the check reads of a validated node. -/
structure ScopedNode where
  definitionOfDone : List DoneItem
  verification : List VerificationCommand

/-- The words of one proof, and the directory they are read in. -/
structure ProofCitation where
  tokens : List String
  cwd : String
  literal : Bool
  citation : String
  deriving DecidableEq, Repr

def citeCommand (command : VerificationCommand) (citation : String) : ProofCitation :=
  ⟨command.argv, command.cwd.getD ".", false, citation⟩

/-- The citation of a checklist item. -/
def citeItem (commands : List VerificationCommand) (item : DoneItem) : Option ProofCitation :=
  match item.proof with
  | none => none
  | some (.path ref) => some ⟨[ref], ".", true, s!"{item.id} path proof"⟩
  | some (.command ref) => some ⟨shellWords ref, ".", false, s!"{item.id} command proof"⟩
  | some (.verification index) =>
      commands[index]?.map fun command => citeCommand command s!"{item.id} verification[{index}] proof"

def proofCitations (node : ScopedNode) : List ProofCitation :=
  node.definitionOfDone.filterMap (citeItem node.verification) ++
    node.verification.mapIdx fun index command => citeCommand command s!"verification[{index}]"

/-- `PATH_SEPARATOR`. -/
def hasSeparator (token : List Char) : Bool := token.any fun c => c == '/' || c == '\\'

/-- Whether a word ends in an extension. -/
def hasExtension (token : List Char) : Bool :=
  let stem := token.rdropWhile Char.isAlphanum
  decide (stem.length < token.length) && stem.getLast? == some '.'

/-- `replaceAll("\\", "/")`. -/
def slashed (path : List Char) : List Char := path.map fun c => if c = '\\' then '/' else c

/-- Whether a word of a citation can name a directory. -/
def namesDirectory (citation : ProofCitation) (token : String) : Bool := citation.literal || hasSeparator token.toList

/-- The path a word names in the workspace. -/
def namedPath (workspace : List Name) (citation : ProofCitation) (token : String) : Option (List Char) :=
  if token.toList = [] ∨ token.toList.head? = some '-' then none
  else if !namesDirectory citation token && !hasExtension token.toList then none
  else
    let target := resolve (resolve workspace citation.cwd.toList) token.toList
    if !isContained workspace target then none
    else
      let named := slashed (relative workspace target)
      if named = [] then none else some named

/-- Whether a named path claims an unexpected one. -/
def claims (named : List Char) (directory : Bool) (path : String) : Bool :=
  decide (path.toList = named) || (directory && isBeneath named path.toList)

/-- An unexpected path with the citation that named it first. -/
abbrev CitedWrite := String × String

/-- The paths a named path adds to those already cited. -/
def citePaths (named : List Char) (directory : Bool) (citation : String) (paths : List String) (cited : List CitedWrite) :
    List CitedWrite :=
  paths.foldl (fun cited path =>
    if path ∈ cited.map (·.1) then cited
    else if claims named directory path then cited ++ [(path, citation)] else cited) cited

/-- What one word adds. -/
def citeToken (workspace : List Name) (paths : List String) (citation : ProofCitation) (cited : List CitedWrite) (token : String) :
    List CitedWrite :=
  match namedPath workspace citation token with
  | none => cited
  | some named => citePaths named (namesDirectory citation token) citation.citation paths cited

def proofCitedWrites (node : ScopedNode) (unexpectedPaths : List String) (workspace : List Name) : List CitedWrite :=
  (proofCitations node).foldl (fun cited citation =>
    citation.tokens.foldl (citeToken workspace unexpectedPaths citation) cited) []

/-! ## The check -/

/-- An error as the check records it; `excerpt` answers nothing for a blank text. -/
structure ScopeError where
  code : String
  message : Option String
  deriving DecidableEq, Repr

/-- The event of a failed check. -/
structure ScopeEvent where
  unexpectedPaths : List String
  unexpectedPathCount : Nat
  deriving DecidableEq, Repr

/-- The job and its node as the check leaves them. -/
structure ScopeJob where
  scopeChecked : Bool
  scopeViolation : Bool
  status : NodeStatus
  error : Option ScopeError
  scope : Option BoundedScope
  events : List ScopeEvent
  deriving DecidableEq

namespace ScopeJob

/-- `transition` to `failed`, of a node that is not settled. -/
def fail (job : ScopeJob) (error : ScopeError) (event : Option ScopeEvent) : ScopeJob :=
  if job.status.settled then job
  else { job with status := .failed, error := some error, events := job.events ++ event.toList }

end ScopeJob

/-- The message of a violation. -/
def violationMessage (scope : BoundedScope) (cited : List CitedWrite) : String :=
  if cited.isEmpty then
    let shown := commaList (scope.unexpectedPaths.take 8)
    s!"unexpected paths changed ({scope.unexpectedPathCount}): {shown}"
  else
    let shown := commaList ((cited.take 8).map fun write => s!"{write.1} ({write.2})")
    s!"proof-cited unexpected write ({cited.length}): {shown}"

/-- `checkWorkerScope`; `comparison` is what comparing the snapshot answered or threw. -/
def checkWorkerScope (node : ScopedNode) (workspace : List Name) (deferViolation : Bool)
    (comparison : Except Refusal ScopeComparison) (job : ScopeJob) : ScopeJob × Bool :=
  if job.scopeChecked then (job, !job.scopeViolation)
  else
    let checked := { job with scopeChecked := true }
    match comparison with
    | .error refusal =>
        (({ checked with scopeViolation := true }).fail
          ⟨refusal.code.getD "scope_snapshot_invalid", excerpt refusal.message⟩ none, false)
    | .ok scope =>
        let bounded := boundedScope scope
        let recorded := { checked with scope := some bounded }
        if scope.unexpectedPaths.isEmpty then (recorded, true)
        else
          let violated := { recorded with scopeViolation := true }
          let cited := proofCitedWrites node bounded.unexpectedPaths workspace
          if deferViolation && cited.isEmpty then (violated, true)
          else
            (violated.fail ⟨"unexpected_write", excerpt (violationMessage bounded cited)⟩
              (some ⟨bounded.unexpectedPaths, bounded.unexpectedPathCount⟩), false)

end Faberun
