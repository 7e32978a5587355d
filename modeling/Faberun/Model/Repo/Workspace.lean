import Faberun.Model.Contract.TaskPacket

/-! # The captured scope of a worker

`captureWorkspaceScope` and `validateWorkspaceScopeBoundary` of `repo/workspace.mjs`, and the boundary's validator in
`contract/snapshot.mjs`, on a POSIX host. A checkout is a tree and the directory the run works in; validation asks it
for nothing but that directory.
-/

namespace Faberun

open PosixPath

namespace Workspace

/-! ## Spellings -/

/-- `/^[A-Za-z]:[\\/]/`. -/
def hasDrive (path : List Char) : Bool :=
  match path with
  | letter :: ':' :: separator :: _ => letter.isAlpha && (separator == '/' || separator == '\\')
  | _ => false

/-- A path with a `..` segment, between slashes. -/
def hasParent (path : List Char) : Bool := (path.splitOnP (· == '/')).contains dotDot

def withoutTrailing (path : List Char) : List Char := path.rdropWhile (· == '/')

/-- `VERIFICATION_LIMITS.snapshotEntries` and `snapshotPathBytes`. -/
def snapshotEntries : Nat := 4096

def snapshotPathBytes : Nat := 1024

/-- One path of `normalizeScopePaths`. -/
def normalizeScopePath (label : String) (path : String) : Except Refusal String :=
  if path.toList = [] ∨ isAbsolute path.toList ∨ hasDrive path.toList ∨ hasParent path.toList then
    .error ⟨some "scope_invalid", s!"workspace scope.{label} contains an invalid path"⟩
  else
    let normalized := withoutTrailing path.toList
    if normalized = [] ∨ normalized = dot then
      .error ⟨some "scope_invalid", s!"workspace scope.{label} contains an invalid path"⟩
    else if snapshotPathBytes < byteLength (String.ofList normalized) then
      .error ⟨some "scope_path_too_long", s!"workspace scope.{label} path exceeds {snapshotPathBytes} bytes"⟩
    else .ok (String.ofList normalized)

def normalizeScopePaths (label : String) : List String → Except Refusal (List String)
  | [] => .ok []
  | path :: rest => do
      let first ← normalizeScopePath label path
      let others ← normalizeScopePaths label rest
      return first :: others

/-! ## Where a path leads -/

/-- Where a run works. -/
structure Checkout where
  tree : FileTree
  cwd : List Name

/-- The loop of `resolveScopePath`. -/
def walkScope (tree : FileTree) (root : List Name) (path : String) : List Name → List Name → Except Refusal (List Name)
  | current, [] => .ok current
  | current, component :: rest =>
      match tree.realpath (resolve current component) with
      | .ok target =>
          if isContained root target then walkScope tree root path target rest
          else .error ⟨some "scope_symlink_escape", s!"workspace scope path escapes workspace: {path}"⟩
      | .error "ENOTDIR" => .error ⟨some "scope_invalid", s!"workspace scope path is not a directory: {path}"⟩
      | .error "ENOENT" => .ok ((component :: rest).foldl (fun current component => resolve current component) current)
      | .error code => .error (FileTree.ioError code)

/-- `workspacePathComponents`. -/
def workspacePathComponents (path : List Char) : List Name := (segments path).filter (· ≠ dot)

def resolveScopePath (tree : FileTree) (root : List Name) (path : String) : Except Refusal String := do
  let current ← walkScope tree root path root (workspacePathComponents path.toList)
  let resolvedPath := relative root current
  return if resolvedPath = [] then path else String.ofList resolvedPath

structure WorkspaceScopeOrigin where
  literal : String
  paths : List String
  deriving DecidableEq, Repr

/-- The origin of one declared path: what is declared, and the spelling it leads to. -/
def expandScopePath (tree : FileTree) (root : List Name) (literal : String) : Except Refusal WorkspaceScopeOrigin := do
  let resolvedPath ← resolveScopePath tree root literal
  return ⟨literal, if resolvedPath = literal then [literal] else [literal, resolvedPath].eraseDups⟩

def expandScopePaths (tree : FileTree) (root : List Name) : List String → Except Refusal (List WorkspaceScopeOrigin)
  | [] => .ok []
  | literal :: rest => do
      let first ← expandScopePath tree root literal
      let others ← expandScopePaths tree root rest
      return first :: others

/-! ## The boundary -/

/-- A persisted boundary of schema version 1. -/
structure WorkspaceScopeBoundary where
  files : List String
  roots : List String
  fileRoots : List String
  fileOrigins : List WorkspaceScopeOrigin
  rootOrigins : List WorkspaceScopeOrigin
  deriving DecidableEq, Repr

namespace WorkspaceScopeBoundary

/-- What the limit on a boundary counts. -/
def size (boundary : WorkspaceScopeBoundary) : Nat :=
  boundary.files.length + boundary.roots.length + boundary.fileRoots.length + boundary.fileOrigins.length +
    boundary.rootOrigins.length

end WorkspaceScopeBoundary

/-- The loop of `validateOrigins`: the literals seen, and the origins with their paths. -/
def readOrigins (kind : String) (declaredPaths : List String) : List String → List WorkspaceScopeOrigin →
    Except Refusal (List WorkspaceScopeOrigin)
  | _, [] => .ok []
  | literals, origin :: rest => do
      let literal ← normalizeScopePath s!"{kind}Origins.literal" origin.literal
      let paths ← normalizeScopePaths s!"{kind}Origins.paths" origin.paths
      if literal ∈ literals ∨ literal ∉ declaredPaths ∨ literal ∉ paths then
        throw ⟨some "scope_boundary_inconsistent", s!"persisted {kind} scope origins do not match the declared scope"⟩
      let others ← readOrigins kind declaredPaths (literals ++ [literal]) rest
      return ⟨literal, paths⟩ :: others

/-- `validateOrigins`. -/
def validateOrigins (kind : String) (rawOrigins : List WorkspaceScopeOrigin) (declaredPaths boundedPaths : List String) :
    Except Refusal (List WorkspaceScopeOrigin) := do
  let origins ← readOrigins kind declaredPaths [] rawOrigins
  let literals := origins.map (·.literal)
  if literals.length ≠ declaredPaths.length ∨ ∃ path ∈ declaredPaths, path ∉ literals then
    throw ⟨some "scope_boundary_inconsistent", s!"persisted {kind} scope origins do not match the declared scope"⟩
  let actual := boundedPaths.eraseDups
  let expected := (origins.flatMap (·.paths)).eraseDups
  if actual.length ≠ expected.length ∨ ∃ path ∈ actual, path ∉ expected then
    throw ⟨some "scope_boundary_inconsistent", s!"persisted {kind} scope boundary paths do not match their origins"⟩
  return origins.map fun origin => ⟨origin.literal, origin.paths.eraseDups⟩

def validateWorkspaceScopeBoundary (checkout : Checkout) (boundary : WorkspaceScopeBoundary) (declared : WorkspaceScope) :
    Except Refusal WorkspaceScopeBoundary := do
  let _ ← checkout.tree.realpathSync checkout.cwd
  let files ← normalizeScopePaths "boundary.files" boundary.files
  let roots ← normalizeScopePaths "boundary.roots" boundary.roots
  let fileRoots ← normalizeScopePaths "boundary.fileRoots" boundary.fileRoots
  if snapshotEntries <
      files.length + roots.length + fileRoots.length + boundary.fileOrigins.length + boundary.rootOrigins.length then
    throw ⟨some "scope_boundary_too_large", "persisted worker scope boundary is too large"⟩
  if ∃ path ∈ fileRoots, path ∉ roots then
    throw ⟨some "scope_boundary_invalid", "persisted worker scope file roots must be declared roots"⟩
  let declaredFiles ← normalizeScopePaths "files" declared.files
  let declaredRoots ← normalizeScopePaths "roots" declared.roots
  let fileOrigins ← validateOrigins "file" boundary.fileOrigins declaredFiles files
  let rootOrigins ← validateOrigins "root" boundary.rootOrigins declaredRoots roots
  return ⟨files.eraseDups, roots.eraseDups, fileRoots.eraseDups, fileOrigins, rootOrigins⟩

/-- Whether a declared scope root is an existing regular file. -/
def isRegularWorkspaceFile (tree : FileTree) (root : List Name) (path : String) : Bool :=
  (tree.stat (resolve root path.toList)).toOption == some .file

/-- The boundary that is built of some origins. -/
def boundaryOf (tree : FileTree) (root : List Name) (fileOrigins rootOrigins : List WorkspaceScopeOrigin) :
    WorkspaceScopeBoundary :=
  let rootPaths := (rootOrigins.flatMap (·.paths)).eraseDups
  { files := (fileOrigins.flatMap (·.paths)).eraseDups
    roots := rootPaths
    fileRoots := rootPaths.filter (isRegularWorkspaceFile tree root)
    fileOrigins, rootOrigins }

def captureWorkspaceScope (checkout : Checkout) (scope : WorkspaceScope) : Except Refusal WorkspaceScopeBoundary := do
  let root ← checkout.tree.realpathSync checkout.cwd
  let declaredFiles ← normalizeScopePaths "files" scope.files
  let declaredRoots ← normalizeScopePaths "roots" scope.roots
  let fileOrigins ← expandScopePaths checkout.tree root declaredFiles
  let rootOrigins ← expandScopePaths checkout.tree root declaredRoots
  validateWorkspaceScopeBoundary checkout (boundaryOf checkout.tree root fileOrigins rootOrigins)
    ⟨declaredFiles, declaredRoots⟩

/-! ## The snapshot's validator -/

/-- A path with a `..` segment, between slashes or backslashes. -/
def hasAnyParent (path : List Char) : Bool := (path.splitOnP fun c => c == '/' || c == '\\').contains dotDot

/-- `validPath` of `validateScopeBoundarySnapshot`. -/
def isSnapshotPath (path : String) : Bool :=
  decide (path.toList ≠ [] ∧ path.toList ≠ dot ∧ path.toList.getLast? ≠ some '/' ∧ path.toList.getLast? ≠ some '\\') &&
    !isAbsolute path.toList && !hasDrive path.toList && !hasAnyParent path.toList &&
    decide (byteLength path ≤ snapshotPathBytes)

def checkSnapshotPaths (paths : List String) (label : String) : Except Refusal Unit :=
  check (paths.all isSnapshotPath) s!"{label} contains an invalid path"

/-- One origin of `validateScopeBoundarySnapshot`. -/
def checkSnapshotOrigin (origin : WorkspaceScopeOrigin) (label : String) : Except Refusal Unit := do
  checkSnapshotPaths [origin.literal] s!"{label}.literal"
  check (!origin.paths.isEmpty && decide (origin.paths.length ≤ snapshotEntries)) s!"{label}.paths is invalid"
  checkSnapshotPaths origin.paths s!"{label}.paths"
  check (decide (origin.literal ∈ origin.paths)) s!"{label} must include its literal path"

def validateScopeBoundarySnapshot (boundary : WorkspaceScopeBoundary) (label : String) : Except Refusal Unit := do
  check (decide (boundary.size ≤ snapshotEntries)) s!"{label} is too large"
  checkSnapshotPaths boundary.files s!"{label}.files"
  checkSnapshotPaths boundary.roots s!"{label}.roots"
  checkSnapshotPaths boundary.fileRoots s!"{label}.fileRoots"
  check (boundary.fileRoots.all fun path => decide (path ∈ boundary.roots)) s!"{label}.fileRoots must be declared roots"
  eachFrom (fun index origin => checkSnapshotOrigin origin s!"{label}.fileOrigins[{index}]") 0 boundary.fileOrigins
  eachFrom (fun index origin => checkSnapshotOrigin origin s!"{label}.rootOrigins[{index}]") 0 boundary.rootOrigins

end Workspace

end Faberun
