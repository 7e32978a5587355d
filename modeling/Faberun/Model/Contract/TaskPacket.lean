import Faberun.Model.Contract.Verification
import Faberun.Model.FileTree

/-! # Task packets

`validateTaskPacket` of `contract/task-packet.mjs`, on packets whose fields have their types, and `workerScope` of
`engine/scope.mjs`. The paths are probed in the tree the packet is validated against.
-/

namespace Faberun

open PosixPath

inductive PacketMode where
  | execution
  | discovery
  | autonomous
  deriving DecidableEq, Repr

structure TaskPacket where
  mode : PacketMode
  objective : String
  instructions : List String
  readFiles : Option (List String)
  symbols : List String
  scopeAcknowledged : Option (List String)
  decisions : List String
  nonGoals : List String
  writeFiles : Option (List String)
  writeRoots : Option (List String)
  /-- The commands `validateVerificationCommands` answered. -/
  verification : List VerificationCommand
  deriving DecidableEq

/-- Where a packet is validated, and the options of its caller. -/
structure PacketHost where
  tree : FileTree
  cwd : List Name
  deferMissingReads : Bool
  persisted : Bool

/-- A missing read that is left to a dependency. -/
structure DeferredRead where
  path : String
  label : String
  kind : String
  deriving DecidableEq, Repr

namespace TaskPacket

/-! ## Paths -/

/-- `pathInside`. -/
def pathInside (path root : List Name) : Bool :=
  let rel := relative root path
  decide (rel = []) || (decide (rel ≠ dotDot) && !(dotDot ++ ['/']).isPrefixOf rel && !isAbsolute rel)

/-- The segments `resolveActualPath` splits a path into. -/
def actualSegments (path : List Char) : List Name :=
  (path.splitOnP fun c => c == '/' || c == '\\').filter fun segment => decide (segment ≠ [] ∧ segment ≠ dot)

/-- The loop of `resolveActualPath`. -/
def walkActual (tree : FileTree) : List Name → List Name → Except Refusal (List Name)
  | current, [] => .ok current
  | current, segment :: rest =>
      if segment = dotDot then walkActual tree current.dropLast rest
      else
        match tree.realpath (current ++ [segment]) with
        | .ok target => walkActual tree target rest
        | .error code =>
            if FileTree.isAbsent code then walkActual tree (current ++ [segment]) rest else .error (FileTree.ioError code)

def resolveActualPath (tree : FileTree) (root : List Name) (path : List Char) : Except Refusal (List Name) :=
  walkActual tree root (actualSegments path)

/-- `realpathSync` of the nearest existing place, whose link may be broken. -/
def realAnchor (host : PacketHost) (anchor : List Name) (path label : String) : Except Refusal (List Name) :=
  match host.tree.realpath anchor with
  | .ok target => .ok target
  | .error "ENOENT" => .error ⟨none, s!"{label} is a broken symbolic link: {path}"⟩
  | .error code => .error (FileTree.ioError code)

/-- `validateRelativePath`: whether the path is deferred. -/
def validateRelativePath (host : PacketHost) (path label : String) (mustExist deferMissing : Bool) : Except Refusal Bool := do
  check (!isAbsolute path.toList) s!"{label} must be relative to cwd"
  let absolute := resolve host.cwd path.toList
  check (pathInside absolute host.cwd) s!"{label} escapes cwd"
  let realCwd ← host.tree.realpathSync host.cwd
  let actual ← resolveActualPath host.tree realCwd path.toList
  check (pathInside actual realCwd) s!"{label} escapes cwd"
  match ← host.tree.findExistingPath absolute with
  | none => .error ⟨none, s!"{label} escapes cwd"⟩
  | some anchor =>
      let real ← realAnchor host anchor path label
      check (pathInside real realCwd) s!"{label} escapes cwd"
      if !host.tree.existsSync absolute then
        if anchor ≠ absolute then
          let kind ← host.tree.statSync anchor
          check (kind ≠ .file) s!"{label} is under a file, not a directory: {path}"
        if !mustExist then return false
        check deferMissing s!"{label} does not exist: {path}"
        return true
      else
        let realAbsolute ← host.tree.realpathSync absolute
        check (pathInside realAbsolute realCwd) s!"{label} escapes cwd"
        let kind ← host.tree.statSync absolute
        let verb := if mustExist then "is not" else "must name"
        check (kind = .file) s!"{label} {verb} a file: {path}"
        return false

def validateWriteRoot (host : PacketHost) (path label : String) : Except Refusal Unit := do
  check (!isAbsolute path.toList) s!"{label} must be relative to cwd"
  let absolute := resolve host.cwd path.toList
  check (path ≠ "." && path ≠ "" && pathInside absolute host.cwd && absolute ≠ host.cwd)
    s!"{label} must name a non-root directory inside cwd"
  let realCwd ← host.tree.realpathSync host.cwd
  let actual ← resolveActualPath host.tree realCwd path.toList
  check (actual ≠ realCwd && pathInside actual realCwd) s!"{label} escapes cwd"
  match ← host.tree.findExistingPath absolute with
  | none => .error ⟨none, s!"{label} has no containing directory inside cwd"⟩
  | some anchor =>
      let real ← host.tree.realpathSync anchor
      check (pathInside real realCwd) s!"{label} escapes cwd"
      if host.tree.existsSync absolute then
        let kind ← host.tree.statSync absolute
        check (kind = .directory || kind = .file) s!"{label} must name a directory or an existing file: {path}"
      else
        let kind ← host.tree.statSync anchor
        check (kind = .directory) s!"{label} must name a directory: {path}"

def validateDirectoryPath (host : PacketHost) (path label : String) : Except Refusal Unit := do
  check (!isAbsolute path.toList) s!"{label} must be relative to cwd"
  let absolute := resolve host.cwd path.toList
  check (pathInside absolute host.cwd) s!"{label} escapes cwd"
  let realCwd ← host.tree.realpathSync host.cwd
  let actual ← resolveActualPath host.tree realCwd path.toList
  check (pathInside actual realCwd && (host.tree.stat absolute).toOption == some .directory)
    s!"{label} must name a directory inside cwd"
  let real ← host.tree.realpathSync absolute
  check (pathInside real realCwd) s!"{label} escapes cwd"

/-! ## The packet -/

/-- The reads of a list that are deferred, once all of them pass. -/
def validateReads (host : PacketHost) (kind label : String) : Nat → List String → Except Refusal (List DeferredRead)
  | _, [] => .ok []
  | index, path :: rest => do
      let deferred ← validateRelativePath host path s!"{label}[{index}]" true host.deferMissingReads
      let others ← validateReads host kind label (index + 1) rest
      return (if deferred then [⟨path, s!"{label}[{index}]", kind⟩] else []) ++ others

/-- The write files and roots of a packet of one mode. -/
def validateWrites (host : PacketHost) (packet : TaskPacket) (label : String) : Except Refusal Unit :=
  match packet.mode with
  | .autonomous => do
      check packet.writeFiles.isNone s!"{label}.writeFiles must not be used for an autonomous packet"
      match packet.writeRoots with
      | none => .error ⟨none, s!"{label}.writeRoots must be an array"⟩
      | some writeRoots => do
          requireStringArray writeRoots s!"{label}.writeRoots" false
          check (!writeRoots.isEmpty) s!"{label}.writeRoots must not be empty for an autonomous packet"
          if host.persisted then .ok ()
          else eachFrom (fun index root => validateWriteRoot host root s!"{label}.writeRoots[{index}]") 0 writeRoots
  | mode => do
      check packet.readFiles.isSome s!"{label}.readFiles is required"
      check packet.writeRoots.isNone s!"{label}.writeRoots is only allowed for autonomous packets"
      match packet.writeFiles with
      | none => .error ⟨none, s!"{label}.writeFiles must be an array"⟩
      | some writeFiles => do
          requireStringArray writeFiles s!"{label}.writeFiles" false
          check (mode ≠ .execution || packet.readFiles ≠ some [])
            s!"{label}.readFiles must not be empty for an execution packet"
          check (mode ≠ .execution || !writeFiles.isEmpty) s!"{label}.writeFiles must not be empty for an execution packet"
          check (mode ≠ .discovery || writeFiles.isEmpty) s!"{label}.writeFiles must be empty for a discovery packet"

/-- `validateTaskPacket`: the reads it defers. -/
def validateTaskPacket (host : PacketHost) (packet : TaskPacket) (index : Nat) : Except Refusal (List DeferredRead) := do
  let label := s!"nodes[{index}].taskPacket"
  check (!isBlank packet.objective) s!"{label}.objective must be a non-empty string"
  requireStringArray packet.instructions s!"{label}.instructions" true
  requireStringArray (packet.readFiles.getD []) s!"{label}.readFiles" false
  requireStringArray packet.symbols s!"{label}.symbols" false
  requireStringArray (packet.scopeAcknowledged.getD []) s!"{label}.scopeAcknowledged" false
  requireStringArray packet.decisions s!"{label}.decisions" false
  requireStringArray packet.nonGoals s!"{label}.nonGoals" false
  validateWrites host packet label
  if host.persisted then return []
  let reads ← validateReads host "read" s!"{label}.readFiles" 0 (packet.readFiles.getD [])
  eachFrom (fun index path => do
    let _ ← validateRelativePath host path s!"{label}.writeFiles[{index}]" false false) 0 (packet.writeFiles.getD [])
  let acknowledged ← validateReads host "acknowledged" s!"{label}.scopeAcknowledged" 0 (packet.scopeAcknowledged.getD [])
  eachFrom (fun index command => match command.cwd with
    | none => .ok ()
    | some cwd => validateDirectoryPath host cwd s!"{label}.verification[{index}].cwd") 0 packet.verification
  return reads ++ acknowledged

end TaskPacket

/-! ## The declared scope -/

/-- A worker's declared files and roots. -/
structure WorkspaceScope where
  files : List String
  roots : List String
  deriving DecidableEq, Repr

def workerScope (packet : TaskPacket) : WorkspaceScope := ⟨packet.writeFiles.getD [], packet.writeRoots.getD []⟩

end Faberun
