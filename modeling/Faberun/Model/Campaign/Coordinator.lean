import Faberun.Model.Run.Lock

/-! # The campaign coordinator

The embedding of `acquireCoordinator` in `campaign/chain.mjs`, with `terminateCoordinatorGroup` and
`releaseCoordinatorLock`. The lock is a file every starter reads, judges and then replaces; each label is one of these
steps, so the steps of different processes interleave freely and a process may die between any two. Liveness and the
records are those of the controller lock. The writes of the lock are counted, so that a step can be told to come
before or after another.
-/

namespace Faberun.Coordinator

open Lock

/-! ## The heartbeat -/

/-- What a heartbeat file parses as; an instant that is no number is `none`. -/
structure HeartbeatRecord where
  writtenAt : Option Int
  /-- `until`, when the phase is `recovering`. -/
  recovering : Option (Option Int)
  /-- The last progress and the budget of each active node. -/
  activeNodes : List (Option Int × Option Int)
  deriving DecidableEq, Repr

inductive HeartbeatBreach where
  | stale (age : Int)
  | recovering (until' : Int)
  | node (age : Int) (budget : Int)
  deriving DecidableEq, Repr

/-- `HEARTBEAT_INTERVAL_MS`. -/
def heartbeatInterval : Int := 15000

/-- `RECOVERING_GRACE_MS`. -/
def recoveringGrace : Int := 30000

def nodeBreach (now : Int) : Option Int × Option Int → Option HeartbeatBreach
  | (some last, some budget) => if now - last > budget then some (.node (now - last) budget) else none
  | _ => none

def staleBreach (heartbeat : HeartbeatRecord) (now interval : Int) : Option HeartbeatBreach :=
  heartbeat.writtenAt.bind fun writtenAt =>
    if now - writtenAt > 2 * interval then some (.stale (now - writtenAt)) else none

/-- `heartbeatBreach`. -/
def heartbeatBreach (heartbeat : Option HeartbeatRecord) (now interval : Int) : Option HeartbeatBreach :=
  match heartbeat with
  | none => none
  | some heartbeat =>
    match staleBreach heartbeat now interval with
    | some breach => some breach
    | none =>
      match heartbeat.recovering with
      | some until' => until'.bind fun until' =>
          if now > until' + recoveringGrace then some (.recovering until') else none
      | none => heartbeat.activeNodes.findSome? (nodeBreach now)

/-! ## Acquiring -/

inductive Role where
  | tookOver
  | became
  deriving DecidableEq, Repr

/-- Where a process stands inside `acquireCoordinator`, with its result, or inside the release of its lock; `seen`
counts the writes of the lock before it was read. -/
inductive Point where
  | idle
  /-- The lock is read; about to probe its holder. -/
  | probing (occupant : ReadLockResult) (seen : Nat)
  /-- About to read the heartbeat. -/
  | judging (liveLock : Option LockRecord) (seen : Nat)
  /-- About to signal the group of a holder whose heartbeat breached. -/
  | terminating (lock : LockRecord) (seen : Nat)
  /-- About to read the lock again. -/
  | rereading (lock : LockRecord) (seen : Nat)
  /-- The lock was still the holder's; about to remove it. -/
  | removing (lock : LockRecord) (seen : Nat)
  /-- About to write its own record. -/
  | writing (liveLock : Option LockRecord) (seen : Nat)
  /-- The result says that the process is the coordinator; `number` is the count at its write. -/
  | holding (record : LockRecord) (role : Role) (number : Nat)
  /-- Done, and about to remove its own record. -/
  | leaving (record : LockRecord) (number : Nat)
  deriving DecidableEq, Repr

/-- The record and the write of a result that says that the process is the coordinator. -/
def Point.result? : Point → Option (LockRecord × Nat)
  | holding record _ number | leaving record number => some (record, number)
  | _ => none

/-- One campaign directory with the processes of its host. -/
structure Campaign where
  table : List Process
  /-- History: every process there ever was. -/
  born : List Process
  entry : ReadLockResult
  heartbeat : Option HeartbeatRecord
  /-- History: how often the lock was written. -/
  writes : Nat
  points : Process → Point

/-- How a termination ends: the signals may be refused, ignored or fail. -/
inductive Termination where
  | gone
  | survived
  | thrown
  deriving DecidableEq, Repr

namespace Campaign

def moveTo (s : Campaign) (process : Process) (point : Point) : Campaign :=
  { s with points := Function.update s.points process point }

/-- `coordinatorLockStale` decides, the rule of the controller lock. -/
def liveLock (table : List Process) (occupant : ReadLockResult) : Option LockRecord :=
  match occupant with
  | some (.record lock) => if lockStale table occupant then none else some lock
  | _ => none

/-- A fresh heartbeat behind a live lock is observed; a breached one is terminated; without a live lock the process
goes on to write. -/
def judge (s : Campaign) (process : Process) (interval now : Int) : Option LockRecord → Nat → Campaign
  | none, seen => s.moveTo process (.writing none seen)
  | some lock, seen =>
    if (heartbeatBreach s.heartbeat now interval).isNone then s.moveTo process .idle
    else s.moveTo process (.terminating lock seen)

/-- A group that is this process's own is refused; otherwise it is gone, or has outlived both signals. -/
def terminate (s : Campaign) (process : Process) (lock : LockRecord) (seen : Nat) : Termination → Campaign
  | .gone =>
    if lock.pid = process.pid then s.moveTo process (.rereading lock seen)
    else { s with table := s.table.filter fun other => other.pid != lock.pid }.moveTo process (.rereading lock seen)
  | .survived => s.moveTo process (.rereading lock seen)
  | .thrown => s.moveTo process .idle

/-- The record `acquireCoordinator` builds; the start token may be unknown. -/
def newRecord (process : Process) (startedAt : Nat) (tokenKnown : Bool) : LockRecord :=
  ⟨process.pid, if tokenKnown then some process.token else none, startedAt⟩

def write (s : Campaign) (process : Process) (record : LockRecord) (role : Role) : Campaign :=
  { s with entry := some (.record record), writes := s.writes + 1 }.moveTo process
    (.holding record role (s.writes + 1))

inductive Label where
  | spawn (process : Process)
  | die (process : Process)
  /-- Some coordinator writes the heartbeat file, or it is caught mid-write. -/
  | beat (heartbeat : Option HeartbeatRecord)
  | acquire (process : Process)
  | probe (process : Process)
  | judge (process : Process) (now : Int)
  | terminate (process : Process) (ending : Termination)
  | reread (process : Process)
  | remove (process : Process)
  | write (process : Process) (startedAt : Nat) (tokenKnown : Bool)
  | release (process : Process)
  | leave (process : Process)
  deriving DecidableEq, Repr

/-- The step of a live process. -/
def act (s : Campaign) (interval : Int) : Label → Option Campaign
  | .acquire process =>
    match s.points process with
    | .idle => some (s.moveTo process (.probing s.entry s.writes))
    | _ => none
  | .probe process =>
    match s.points process with
    | .probing occupant seen => some (s.moveTo process (.judging (liveLock s.table occupant) seen))
    | _ => none
  | .judge process now =>
    match s.points process with
    | .judging lock seen => some (s.judge process interval now lock seen)
    | _ => none
  | .terminate process ending =>
    match s.points process with
    | .terminating lock seen => some (s.terminate process lock seen ending)
    | _ => none
  | .reread process =>
    match s.points process with
    | .rereading lock seen =>
      if held s.entry lock then some (s.moveTo process (.removing lock seen))
      else some (s.moveTo process (.writing (some lock) seen))
    | _ => none
  | .remove process =>
    match s.points process with
    | .removing lock seen => some ({ s with entry := none }.moveTo process (.writing (some lock) seen))
    | _ => none
  | .write process startedAt tokenKnown =>
    match s.points process with
    | .writing lock _ =>
      some (s.write process (newRecord process startedAt tokenKnown) (if lock.isSome then .tookOver else .became))
    | _ => none
  | .release process =>
    match s.points process with
    | .holding record _ number =>
      if held s.entry record then some (s.moveTo process (.leaving record number))
      else some (s.moveTo process .idle)
    | _ => none
  | .leave process =>
    match s.points process with
    | .leaving _ _ => some ({ s with entry := none }.moveTo process .idle)
    | _ => none
  | .spawn _ | .die _ | .beat _ => none

/-- The process that acts, when one does. -/
def Label.actor? : Label → Option Process
  | .acquire process | .probe process | .judge process _ | .terminate process _ | .reread process | .remove process
  | .write process _ _ | .release process | .leave process => some process
  | .spawn _ | .die _ | .beat _ => none

def step (interval : Int) (s : Campaign) : Label → Option Campaign
  | .spawn process =>
    if process ∉ s.born ∧ process.pid ∉ s.table.map Process.pid ∧ 0 < process.pid then
      some { s with table := process :: s.table, born := process :: s.born }
    else none
  | .die process => if process ∈ s.table then some { s with table := s.table.erase process } else none
  | .beat heartbeat => some { s with heartbeat }
  | label => if label.actor?.any (· ∈ s.table) then s.act interval label else none

/-- Every interleaving of the starters of one campaign. -/
def machine (interval : Int) : Machine Campaign Label := ⟨step interval⟩

/-- Nobody has started; the lock and the heartbeat are as they were left. -/
structure Initial (s : Campaign) : Prop where
  pids : (s.table.map Process.pid).Nodup
  positive : ∀ process ∈ s.table, 0 < process.pid
  known : s.table ⊆ s.born
  points : ∀ process, s.points process = .idle

def result? (s : Campaign) (process : Process) : Option (LockRecord × Nat) := (s.points process).result?

/-- At most one live process holds a result that says it became, or took over as, the coordinator. -/
def Exclusive (s : Campaign) : Prop :=
  ∀ first ∈ s.table, ∀ second ∈ s.table, (s.result? first).isSome → (s.result? second).isSome → first = second

/-! ## What a run needs -/

/-- No live coordinator is judged by a heartbeat that lapsed. -/
def HeartbeatKept (interval : Int) (s : Campaign) : Label → Prop
  | .judge process now =>
    match s.points process with
    | .judging (some lock) _ =>
      (∃ holder ∈ s.table, (s.result? holder).any (·.1 == lock)) → heartbeatBreach s.heartbeat now interval = none
    | _ => True
  | _ => True

/-- No live coordinator wrote the lock after a number of writes. -/
def SeenAll (s : Campaign) (seen : Nat) : Prop := ∀ holder ∈ s.table, (s.result? holder).all (·.2 ≤ seen)

/-- A starter removes or writes the lock only when no live coordinator has written it since the starter read it. -/
def NotOvertaken (s : Campaign) : Label → Prop
  | .remove process =>
    match s.points process with
    | .removing _ seen => s.SeenAll seen
    | _ => True
  | .write process _ _ =>
    match s.points process with
    | .writing _ seen => s.SeenAll seen
    | _ => True
  | _ => True

def Orderly (interval : Int) (s : Campaign) (label : Label) : Prop :=
  s.HeartbeatKept interval label ∧ s.NotOvertaken label

instance {s : Campaign} {seen : Nat} : Decidable (s.SeenAll seen) :=
  inferInstanceAs (Decidable (∀ holder ∈ s.table, _))

instance {interval : Int} : DecidableRel (HeartbeatKept interval) := fun s label => by
  cases label <;> simp only [HeartbeatKept]
  case judge process now => split <;> infer_instance
  all_goals infer_instance

instance : DecidableRel NotOvertaken := fun s label => by
  cases label <;> simp only [NotOvertaken]
  case remove process => split <;> infer_instance
  case write process _ _ => split <;> infer_instance
  all_goals infer_instance

instance {interval : Int} : DecidableRel (Orderly interval) := fun _ _ => inferInstanceAs (Decidable (_ ∧ _))

end Campaign

end Faberun.Coordinator
