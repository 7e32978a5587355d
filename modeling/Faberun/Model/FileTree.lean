import Faberun.Model.UtilWords

/-! # The file system as a validator meets it

What the synchronous calls of `node:fs` answer on a POSIX host, at one moment. `existsSync` follows links and
`findExistingPath` does not.
-/

namespace Faberun

open PosixPath

inductive FileKind where
  | file
  | directory
  | other
  deriving DecidableEq, Repr

/-- The answers of `realpathSync`, `lstatSync` and `statSync`, or the code of the error they throw. -/
structure FileTree where
  realpath : List Name → Except String (List Name)
  lstat : List Name → Except String Unit
  stat : List Name → Except String FileKind
  proper : ∀ {path target}, realpath path = .ok target → ∀ name ∈ target, Proper name

namespace FileTree

/-- An error of the file system. -/
def ioError (code : String) : Refusal := ⟨some code, code⟩

def realpathSync (tree : FileTree) (path : List Name) : Except Refusal (List Name) := (tree.realpath path).mapError ioError

def statSync (tree : FileTree) (path : List Name) : Except Refusal FileKind := (tree.stat path).mapError ioError

def existsSync (tree : FileTree) (path : List Name) : Bool := (tree.stat path).isOk

/-- The codes of a path that is absent. -/
def isAbsent (code : String) : Bool := decide (code = "ENOENT" ∨ code = "ENOTDIR")

/-- The loop of `findExistingPath`, over the names from the last one up. -/
def findExistingFrom (tree : FileTree) : List Name → Except Refusal (Option (List Name))
  | [] =>
      match tree.lstat [] with
      | .ok _ => .ok (some [])
      | .error code => if isAbsent code then .ok none else .error (ioError code)
  | name :: above =>
      match tree.lstat (above.reverse ++ [name]) with
      | .ok _ => .ok (some (above.reverse ++ [name]))
      | .error code => if isAbsent code then findExistingFrom tree above else .error (ioError code)

def findExistingPath (tree : FileTree) (path : List Name) : Except Refusal (Option (List Name)) :=
  tree.findExistingFrom path.reverse

end FileTree

end Faberun
