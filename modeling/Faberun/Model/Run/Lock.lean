import Mathlib.Logic.Function.Basic
import Faberun.Machine.Core

/-! # The controller lock

The embedding of `run/lock.mjs`: `acquire` with its takeover loop, and the `assert` and `release` of
the handle it returns. Each label is one atomic file-system operation on the run directory (an
exclusive link, a read, a rename aside, a link back, an unlink) or one probe of the process table, so
the operations of different processes interleave freely and a process may die between any two.

File contents are never rewritten in place, so a directory entry is modelled by what it reads as.
-/

namespace Faberun.Lock

/-- `TAKEOVER_ATTEMPTS`. -/
def takeoverAttempts : Nat := 20

/-- One incarnation of a process: a pid with its start token. -/
structure Process where
  pid : Nat
  token : Nat
  deriving DecidableEq, Repr

/-- The fields of `LockRecord` the code decides by; `startedAt` is the clock reading at `acquire`. -/
structure LockRecord where
  pid : Nat
  processStartToken : Option Nat
  startedAt : Nat
  deriving DecidableEq, Repr

/-- What a lock file parses as. -/
inductive Content where
  | record (lock : LockRecord)
  | invalid
  deriving DecidableEq, Repr

/-- `ReadLockResult`: `none` is an absent file. -/
abbrev ReadLockResult := Option Content

/-- `pidAlive`, against the table of live processes. -/
def pidAlive (table : List Process) (pid : Nat) : Bool :=
  decide (0 < pid) && table.any fun process => process.pid == pid

/-- `processStartToken`: the start token of the live process under a pid. -/
def processStartToken (table : List Process) (pid : Nat) : Option Nat :=
  (table.find? fun process => process.pid == pid).map Process.token

/-- `lockStale`: the holder is proven dead, or its pid was recycled. -/
def lockStale (table : List Process) : ReadLockResult → Bool
  | none | some .invalid => true
  | some (.record lock) =>
      if pidAlive table lock.pid then
        lock.processStartToken.isSome && processStartToken table lock.pid != lock.processStartToken
      else true

/-- `held` of a handle: the entry still is the record the handle was created for. -/
def held (entry : ReadLockResult) (record : LockRecord) : Bool :=
  match entry with
  | some (.record actual) => actual.pid == record.pid && actual.startedAt == record.startedAt
  | _ => false

/-- Where a process stands: inside `acquire`, with the handle it returned, or inside `release`.
`attempt` is the counter of the takeover loop, `record` what this `acquire` tries to install. -/
inductive Point where
  | idle
  /-- About to link the record exclusively. -/
  | linking (attempt : Nat) (record : LockRecord)
  /-- The link failed with `EEXIST`; about to read the occupant. -/
  | reading (attempt : Nat) (record : LockRecord)
  | judging (attempt : Nat) (record : LockRecord) (occupant : ReadLockResult)
  /-- About to rename the entry aside. -/
  | capturing (attempt : Nat) (record : LockRecord)
  | judgingCaptured (attempt : Nat) (record : LockRecord)
  /-- The captured entry turned out live; about to link it back. -/
  | handingBack (attempt : Nat) (record : LockRecord)
  /-- About to unlink what was set aside. -/
  | discarding (attempt : Nat) (record : LockRecord)
  /-- `acquire` returned the handle of this record. -/
  | holding (record : LockRecord)
  /-- Inside `release`, past its `held` check and before its unlink. -/
  | unlinking (record : LockRecord)
  deriving DecidableEq, Repr

/-- One run directory with the processes of its host. -/
structure LockDir where
  table : List Process
  /-- History: every process there ever was. -/
  born : List Process
  entry : ReadLockResult
  asides : Process → ReadLockResult
  points : Process → Point

namespace LockDir

def moveTo (s : LockDir) (process : Process) (point : Point) : LockDir :=
  { s with points := Function.update s.points process point }

def setAside (s : LockDir) (process : Process) (content : ReadLockResult) : LockDir :=
  { s with asides := Function.update s.asides process content }

/-- The record `acquire` builds. -/
def newRecord (process : Process) (startedAt : Nat) : LockRecord :=
  { pid := process.pid, processStartToken := some process.token, startedAt }

/-- The next file-system operation or probe of a process inside `acquire` or `release`. -/
def proceed (s : LockDir) (process : Process) : Option LockDir :=
  match s.points process with
  | .idle | .holding _ => none
  | .linking attempt record =>
      if attempt < takeoverAttempts then
        match s.entry with
        | none => some ({ s with entry := some (.record record) }.moveTo process (.holding record))
        | some _ => some (s.moveTo process (.reading attempt record))
      else some (s.moveTo process .idle)
  | .reading attempt record => some (s.moveTo process (.judging attempt record s.entry))
  | .judging attempt record occupant =>
      if lockStale s.table occupant then some (s.moveTo process (.capturing attempt record))
      else some (s.moveTo process .idle)
  | .capturing attempt record =>
      match s.entry with
      | none => some (s.moveTo process (.linking (attempt + 1) record))
      | some content =>
          some (({ s with entry := none }.setAside process (some content)).moveTo process
            (.judgingCaptured attempt record))
  | .judgingCaptured attempt record =>
      if lockStale s.table (s.asides process) then some (s.moveTo process (.discarding attempt record))
      else some (s.moveTo process (.handingBack attempt record))
  | .handingBack attempt record =>
      match s.entry with
      | none => some ({ s with entry := s.asides process }.moveTo process (.discarding attempt record))
      -- `EEXIST` is swallowed.
      | some _ => some (s.moveTo process (.discarding attempt record))
  | .discarding attempt record =>
      some ((s.setAside process none).moveTo process (.linking (attempt + 1) record))
  | .unlinking _ => some ({ s with entry := none }.moveTo process .idle)

inductive Label where
  /-- The operating system starts a process nobody was before, under a pid nobody has. -/
  | spawn (process : Process)
  | die (process : Process)
  | acquire (process : Process) (startedAt : Nat)
  | proceed (process : Process)
  | release (process : Process)
  deriving DecidableEq, Repr

def step (s : LockDir) : Label → Option LockDir
  | .spawn process =>
      if 0 < process.pid ∧ process ∉ s.born ∧ process.pid ∉ s.table.map Process.pid then
        some { s with table := process :: s.table, born := process :: s.born }
      else none
  | .die process => if process ∈ s.table then some { s with table := s.table.erase process } else none
  | .acquire process startedAt =>
      if process ∈ s.table ∧ s.points process = .idle then
        some (s.moveTo process (.linking 0 (newRecord process startedAt)))
      else none
  | .proceed process => if process ∈ s.table then s.proceed process else none
  | .release process =>
      if process ∈ s.table then
        match s.points process with
        | .holding record =>
            if held s.entry record then some (s.moveTo process (.unlinking record))
            else some (s.moveTo process .idle)
        | _ => none
      else none

/-- Every interleaving of the processes of one host on one run directory. -/
def machine : Machine LockDir Label := ⟨step⟩

/-- Nobody is inside `acquire`; what the entry reads as, if anything, was left by a dead process. -/
structure Initial (s : LockDir) : Prop where
  pids : (s.table.map Process.pid).Nodup
  positive : ∀ process ∈ s.table, 0 < process.pid
  known : s.table ⊆ s.born
  left : ∀ lock, s.entry = some (.record lock) →
    ∃ owner ∈ s.born, owner ∉ s.table ∧ lock.pid = owner.pid ∧ lock.processStartToken = some owner.token
  asides : ∀ process, s.asides process = none
  points : ∀ process, s.points process = .idle

/-- The process is alive and its `acquire` returned a handle it has not released. -/
def Holds (s : LockDir) (process : Process) : Prop :=
  process ∈ s.table ∧ ∃ record, s.points process = .holding record ∨ s.points process = .unlinking record

/-- Mutual exclusion: one live handle at most, and its `assert` succeeds. -/
structure Exclusive (s : LockDir) : Prop where
  unique : ∀ first second, s.Holds first → s.Holds second → first = second
  asserts : ∀ process record, process ∈ s.table → s.points process = .holding record →
    held s.entry record = true

/-- The rename of a takeover takes nothing, or the record of a process proven dead at that moment. -/
def CapturesStale (s : LockDir) : Label → Prop
  | .proceed process =>
      match s.points process with
      | .capturing _ _ => lockStale s.table s.entry = true
      | _ => True
  | _ => True

instance : DecidableRel CapturesStale := fun s label => by
  cases label <;> simp only [CapturesStale]
  case proceed process => cases s.points process <;> infer_instance
  all_goals infer_instance

end LockDir

end Faberun.Lock
