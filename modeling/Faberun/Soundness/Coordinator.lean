import Faberun.Model.Campaign.Coordinator
import Faberun.Soundness.RunLock

/-! # One coordinator

The lock file is replaced, not created, so what a starter knows of it is what it read. As long as no live coordinator
has written the lock between a starter's read and its removal or its write, every coordinator's record stays in place
(`Campaign.Orderly` runs keep `Campaign.Tracked`) and a second starter observes it. Two starters that both read the lock
before either writes it both become the coordinator.
-/

namespace Faberun.Coordinator

open Lock

namespace Campaign

variable {interval : Int} {s t : Campaign} {process : Process}

/-- A live process with its result. -/
def Coordinates (s : Campaign) (process : Process) (record : LockRecord) (number : Nat) : Prop :=
  process ∈ s.table ∧ s.result? process = some (record, number)

/-- What a starter inside the acquisition knows of the lock it read. -/
def Knows (s : Campaign) : Point → Prop
  | .probing occupant seen => seen ≤ s.writes ∧
      ∀ holder record number, s.Coordinates holder record number → number ≤ seen → occupant = some (.record record)
  | .judging lock seen => seen ≤ s.writes ∧
      ∀ holder record number, s.Coordinates holder record number → number ≤ seen → lock = some record
  | .terminating _ seen | .rereading _ seen | .removing _ seen | .writing _ seen => seen ≤ s.writes ∧
      ∀ holder record number, s.Coordinates holder record number → seen < number
  | .idle | .holding _ _ _ | .leaving _ _ => True

/-- A coordinator's record is the lock, and a starter has not misread it. -/
structure Tracked (s : Campaign) : Prop where
  pids : (s.table.map Process.pid).Nodup
  positive : ∀ process ∈ s.table, 0 < process.pid
  known : s.table ⊆ s.born
  unborn : ∀ process, process ∉ s.born → s.points process = .idle
  holder : ∀ process record number, s.Coordinates process record number →
    s.entry = some (.record record) ∧ record.pid = process.pid ∧ number ≤ s.writes ∧
      (record.processStartToken = none ∨ record.processStartToken = some process.token)
  knows : ∀ process ∈ s.table, s.Knows (s.points process)

theorem Initial.tracked (initial : s.Initial) : s.Tracked where
  pids := initial.pids
  positive := initial.positive
  known := initial.known
  unborn process _ := initial.points process
  holder process record number coordinates := by
    have none := coordinates.2
    simp [result?, initial.points, Point.result?] at none
  knows process _ := by simp [initial.points, Knows]

/-- Two coordinators would have one record. -/
theorem Tracked.exclusive (tracked : s.Tracked) : s.Exclusive := by
  intro first here second there one two
  obtain ⟨⟨record, number⟩, result⟩ := Option.isSome_iff_exists.mp one
  obtain ⟨⟨record', number'⟩, result'⟩ := Option.isSome_iff_exists.mp two
  obtain ⟨entry, pid, -⟩ := tracked.holder first record number ⟨here, result⟩
  obtain ⟨entry', pid', -⟩ := tracked.holder second record' number' ⟨there, result'⟩
  obtain rfl := Content.record.inj (Option.some.inj (entry.symm.trans entry'))
  exact List.inj_on_of_nodup_map tracked.pids here there (pid.symm.trans pid')

/-- A coordinator that is alive is seen alive. -/
theorem Tracked.liveLock (tracked : s.Tracked) {record : LockRecord} {number : Nat}
    (coordinates : s.Coordinates process record number) :
    liveLock s.table (some (.record record)) = some record := by
  obtain ⟨-, pid, -, token⟩ := tracked.holder process record number coordinates
  have alive : pidAlive s.table record.pid = true :=
    (pidAlive_iff tracked.positive).mpr ⟨process, coordinates.1, pid.symm⟩
  have live : lockStale s.table (some (.record record)) = false := by
    simp only [lockStale, alive, ↓reduceIte]
    rcases token with unknown | known
    · simp [unknown]
    · rw [pid, processStartToken_of_mem tracked.pids coordinates.1, known]
      simp
  simp [Campaign.liveLock, live]

/-! ## Fewer coordinators -/

/-- What is known of the lock stays true while no coordinator appears. -/
private theorem Knows.mono {point : Point} (knows : s.Knows point) (writes : s.writes ≤ t.writes)
    (fewer : ∀ holder record number, t.Coordinates holder record number → s.Coordinates holder record number) :
    t.Knows point := by
  cases point with
  | idle | holding record role number | leaving record number => trivial
  | _ =>
    exact ⟨Nat.le_trans knows.1 writes,
      fun holder record number coordinates => knows.2 _ _ _ (fewer holder record number coordinates)⟩

/-- A step after which nobody else is the coordinator, and what it moved knows the lock. -/
private theorem Tracked.of_fewer (tracked : s.Tracked) (table : t.table.Sublist s.table) (born : t.born = s.born)
    (writes : t.writes = s.writes)
    (fewer : ∀ holder record number, t.Coordinates holder record number →
      s.Coordinates holder record number ∧ t.entry = s.entry)
    (moved : ∀ process ∈ t.table, t.points process = s.points process ∨ t.Knows (t.points process))
    (unborn : ∀ process, process ∉ s.born → t.points process = .idle) : t.Tracked where
  pids := tracked.pids.sublist (table.map Process.pid)
  positive process member := tracked.positive process (table.subset member)
  known process member := born ▸ tracked.known (table.subset member)
  unborn process stranger := unborn process (born ▸ stranger)
  holder process record number coordinates := by
    obtain ⟨before, entry⟩ := fewer process record number coordinates
    rw [entry, writes]
    exact tracked.holder process record number before
  knows process member := by
    rcases moved process member with same | knows
    · rw [same]
      exact (tracked.knows process (table.subset member)).mono (Nat.le_of_eq writes.symm)
        fun holder record number coordinates => (fewer holder record number coordinates).1
    · exact knows

private theorem moveTo_self (process : Process) (point : Point) : (s.moveTo process point).points process = point :=
  Function.update_self ..

private theorem moveTo_other {other : Process} (differs : other ≠ process) (point : Point) :
    (s.moveTo process point).points other = s.points other := Function.update_of_ne differs ..

private theorem result?_moveTo (process other : Process) (point : Point) :
    (s.moveTo process point).result? other = if other = process then point.result? else s.result? other := by
  rw [result?]
  split_ifs with same
  · rw [same, moveTo_self]
  · rw [moveTo_other same, result?]

private theorem Coordinates.of_moveTo {point : Point} (quiet : point.result? = none) {holder : Process}
    {record : LockRecord} {number : Nat} (coordinates : (s.moveTo process point).Coordinates holder record number) :
    s.Coordinates holder record number := by
  obtain ⟨member, result⟩ := coordinates
  rw [result?_moveTo] at result
  split_ifs at result
  · rw [quiet] at result
    cases result
  · exact ⟨member, result⟩

/-- A process moves to a point at which it has no result and knows the lock. -/
private theorem Tracked.moveTo (tracked : s.Tracked) (live : process ∈ s.table) {point : Point}
    (quiet : point.result? = none) (knows : s.Knows point) : (s.moveTo process point).Tracked := by
  have fewer : ∀ holder record number, (s.moveTo process point).Coordinates holder record number →
      s.Coordinates holder record number := fun _ _ _ => Coordinates.of_moveTo quiet
  refine tracked.of_fewer (List.Sublist.refl _) rfl rfl (fun _ _ _ coordinates => ⟨fewer _ _ _ coordinates, rfl⟩) ?_ ?_
  · intro other member
    rcases eq_or_ne other process with rfl | differs
    · refine .inr ?_
      rw [moveTo_self]
      exact knows.mono (Nat.le_refl _) fewer
    · exact .inl (moveTo_other differs _)
  · intro other stranger
    have differs : other ≠ process := by
      rintro rfl
      exact stranger (tracked.known live)
    exact (moveTo_other differs _).trans (tracked.unborn other stranger)

/-- Processes die. -/
private theorem Tracked.shrink (tracked : s.Tracked) {table : List Process} (fewer : table.Sublist s.table) :
    ({ s with table } : Campaign).Tracked :=
  tracked.of_fewer fewer rfl rfl (fun _ _ _ coordinates => ⟨⟨fewer.subset coordinates.1, coordinates.2⟩, rfl⟩)
    (fun _ _ => .inl rfl) tracked.unborn

/-! ## Steps -/

/-- A starter that knows of no coordinator before its read, and is overtaken by none since, is alone. -/
private theorem not_coordinates {seen : Nat}
    (later : ∀ holder record number, s.Coordinates holder record number → seen < number) (all : s.SeenAll seen)
    (holder : Process) (record : LockRecord) (number : Nat) : ¬ s.Coordinates holder record number := by
  intro coordinates
  have bound := all holder coordinates.1
  rw [coordinates.2, Option.all_some, decide_eq_true_eq] at bound
  exact absurd (later holder record number coordinates) (Nat.not_lt.mpr bound)

private theorem Tracked.acquire (tracked : s.Tracked) (live : process ∈ s.table) :
    (s.moveTo process (.probing s.entry s.writes)).Tracked :=
  tracked.moveTo live rfl ⟨Nat.le_refl _, fun holder record number coordinates _ =>
    (tracked.holder holder record number coordinates).1⟩

private theorem Tracked.probe (tracked : s.Tracked) (live : process ∈ s.table) {occupant : ReadLockResult} {seen : Nat}
    (here : s.points process = .probing occupant seen) :
    (s.moveTo process (.judging (Campaign.liveLock s.table occupant) seen)).Tracked := by
  have knows := tracked.knows process live
  rw [here] at knows
  refine tracked.moveTo live rfl ⟨knows.1, fun holder record number coordinates before => ?_⟩
  rw [knows.2 holder record number coordinates before]
  exact tracked.liveLock coordinates

/-- A live coordinator that was read is observed; otherwise nobody was the coordinator at the read. -/
private theorem Tracked.judge (tracked : s.Tracked) (live : process ∈ s.table) {lock : Option LockRecord} {seen : Nat}
    (here : s.points process = .judging lock seen) {now : Int} (kept : s.HeartbeatKept interval (.judge process now)) :
    (s.judge process interval now lock seen).Tracked := by
  have knows := tracked.knows process live
  rw [here] at knows
  cases lock with
  | none =>
    refine tracked.moveTo live rfl ⟨knows.1, fun holder record number coordinates => ?_⟩
    by_contra before
    exact absurd (knows.2 holder record number coordinates (Nat.not_lt.mp before)) (by simp)
  | some lock =>
    rw [Campaign.judge]
    split_ifs with fresh
    · exact tracked.moveTo live rfl trivial
    · refine tracked.moveTo live rfl ⟨knows.1, fun holder record number coordinates => ?_⟩
      by_contra before
      obtain rfl := Option.some.inj (knows.2 holder record number coordinates (Nat.not_lt.mp before))
      simp only [HeartbeatKept, here] at kept
      have breach := kept ⟨holder, coordinates.1, by rw [coordinates.2]; simp⟩
      exact fresh (by rw [breach]; rfl)

private theorem Tracked.terminate (tracked : s.Tracked) (live : process ∈ s.table) {lock : LockRecord} {seen : Nat}
    (here : s.points process = .terminating lock seen) (ending : Termination) :
    (s.terminate process lock seen ending).Tracked := by
  have knows := tracked.knows process live
  rw [here] at knows
  cases ending with
  | survived => exact tracked.moveTo live rfl knows
  | thrown => exact tracked.moveTo live rfl trivial
  | gone =>
    rw [Campaign.terminate]
    split_ifs with own
    · exact tracked.moveTo live rfl knows
    · have others := tracked.shrink (List.filter_sublist (l := s.table) (p := fun other => other.pid != lock.pid))
      refine others.moveTo (List.mem_filter.mpr ⟨live, by simpa using Ne.symm own⟩) rfl ⟨knows.1, ?_⟩
      exact fun holder record number coordinates =>
        knows.2 holder record number ⟨(List.mem_filter.mp coordinates.1).1, coordinates.2⟩

private theorem Tracked.reread (tracked : s.Tracked) (live : process ∈ s.table) {lock : LockRecord} {seen : Nat}
    (here : s.points process = .rereading lock seen) {point : Point}
    (next : point = .removing lock seen ∨ point = .writing (some lock) seen) : (s.moveTo process point).Tracked := by
  have knows := tracked.knows process live
  rw [here] at knows
  rcases next with rfl | rfl
  · exact tracked.moveTo live rfl knows
  · exact tracked.moveTo live rfl knows

/-- The lock is removed when nobody is the coordinator. -/
private theorem Tracked.empty (tracked : s.Tracked)
    (nobody : ∀ holder record number, ¬ s.Coordinates holder record number) : ({ s with entry := none }).Tracked :=
  tracked.of_fewer (List.Sublist.refl _) rfl rfl (fun _ _ _ coordinates => absurd coordinates (nobody _ _ _))
    (fun _ _ => .inl rfl) tracked.unborn

private theorem Tracked.remove (tracked : s.Tracked) (live : process ∈ s.table) {lock : LockRecord} {seen : Nat}
    (here : s.points process = .removing lock seen) (all : s.SeenAll seen) :
    ({ s with entry := none }.moveTo process (.writing (some lock) seen)).Tracked := by
  have knows := tracked.knows process live
  rw [here] at knows
  exact (tracked.empty (not_coordinates knows.2 all)).moveTo live rfl knows

/-- The new coordinator is the only one, and its write is newer than every read. -/
private theorem Tracked.write (tracked : s.Tracked) (live : process ∈ s.table) {lock : Option LockRecord} {seen : Nat}
    (here : s.points process = .writing lock seen) (all : s.SeenAll seen) (startedAt : Nat) (tokenKnown : Bool)
    (role : Role) : (s.write process (newRecord process startedAt tokenKnown) role).Tracked := by
  have knows := tracked.knows process live
  rw [here] at knows
  have nobody := not_coordinates knows.2 all
  have only : ∀ holder record number,
      (s.write process (newRecord process startedAt tokenKnown) role).Coordinates holder record number →
      holder = process ∧ record = newRecord process startedAt tokenKnown ∧ number = s.writes + 1 := by
    rintro holder record number ⟨member, result⟩
    rw [Campaign.write, result?_moveTo] at result
    split_ifs at result with same
    · obtain ⟨rfl, rfl⟩ := Prod.mk.inj (Option.some.inj result)
      exact ⟨same, rfl, rfl⟩
    · exact absurd ⟨member, result⟩ (nobody holder record number)
  refine ⟨tracked.pids, tracked.positive, tracked.known, ?_, ?_, ?_⟩
  · intro other stranger
    have differs : other ≠ process := by
      rintro rfl
      exact stranger (tracked.known live)
    exact (moveTo_other differs _).trans (tracked.unborn other stranger)
  · intro holder record number coordinates
    obtain ⟨rfl, rfl, rfl⟩ := only holder record number coordinates
    refine ⟨rfl, rfl, Nat.le_refl _, ?_⟩
    cases tokenKnown
    · exact .inl rfl
    · exact .inr rfl
  · intro other member
    rcases eq_or_ne other process with rfl | differs
    · rw [Campaign.write, moveTo_self]
      trivial
    · have before := tracked.knows other member
      have same : (s.write process (newRecord process startedAt tokenKnown) role).points other = s.points other :=
        moveTo_other differs _
      rw [same]
      cases point : s.points other with
      | idle | holding record role number | leaving record number => trivial
      | _ =>
        rw [point] at before
        refine ⟨Nat.le_succ_of_le before.1, fun holder record number coordinates => ?_⟩
        obtain ⟨-, -, rfl⟩ := only holder record number coordinates
        have bound := before.1
        first | exact fun late => absurd late (by omega) | omega

/-- The process goes on as the coordinator until it has removed its record. -/
private theorem Tracked.release (tracked : s.Tracked) (live : process ∈ s.table) {record : LockRecord} {role : Role}
    {number : Nat} (here : s.points process = .holding record role number) :
    (s.moveTo process (.leaving record number)).Tracked := by
  have same : ∀ other, (s.moveTo process (.leaving record number)).result? other = s.result? other := by
    intro other
    rw [result?_moveTo]
    split_ifs with equal
    · subst equal
      rw [result?, here]
      rfl
    · rfl
  refine tracked.of_fewer (List.Sublist.refl _) rfl rfl ?_ ?_ ?_
  · rintro holder record number ⟨member, result⟩
    rw [same] at result
    exact ⟨⟨member, result⟩, rfl⟩
  · intro other _
    rcases eq_or_ne other process with rfl | differs
    · refine .inr ?_
      rw [moveTo_self]
      trivial
    · exact .inl (moveTo_other differs _)
  · intro other stranger
    have differs : other ≠ process := by
      rintro rfl
      exact stranger (tracked.known live)
    exact (moveTo_other differs _).trans (tracked.unborn other stranger)

private theorem Tracked.leave (tracked : s.Tracked) (live : process ∈ s.table) {record : LockRecord} {number : Nat}
    (here : s.points process = .leaving record number) :
    ({ s with entry := none }.moveTo process .idle).Tracked := by
  have mine : (s.result? process).isSome := by
    rw [result?, here]
    rfl
  have nobody : ∀ holder record number,
      ¬ ({ s with entry := none }.moveTo process .idle).Coordinates holder record number := by
    rintro holder record number ⟨member, result⟩
    rw [result?_moveTo] at result
    split_ifs at result with same
    · cases result
    · refine same (tracked.exclusive holder member process live ?_ mine)
      exact Option.isSome_iff_exists.mpr ⟨_, result⟩
  refine tracked.of_fewer (List.Sublist.refl _) rfl rfl (fun _ _ _ coordinates => absurd coordinates (nobody _ _ _)) ?_ ?_
  · intro other _
    rcases eq_or_ne other process with rfl | differs
    · refine .inr ?_
      rw [moveTo_self]
      trivial
    · exact .inl (moveTo_other differs _)
  · intro other stranger
    have differs : other ≠ process := by
      rintro rfl
      exact stranger (tracked.known live)
    exact (moveTo_other differs _).trans (tracked.unborn other stranger)

/-- A new process has not started. -/
private theorem Tracked.spawn (tracked : s.Tracked) (stranger : process ∉ s.born)
    (free : process.pid ∉ s.table.map Process.pid) (positive : 0 < process.pid) :
    ({ s with table := process :: s.table, born := process :: s.born } : Campaign).Tracked := by
  have idle := tracked.unborn process stranger
  have older : ∀ holder record number,
      ({ s with table := process :: s.table, born := process :: s.born } : Campaign).Coordinates holder record number →
      s.Coordinates holder record number := by
    rintro holder record number ⟨member, result⟩
    rcases List.mem_cons.mp member with rfl | old
    · have none : s.result? holder = none := by
        rw [result?, idle]
        rfl
      exact absurd (none.symm.trans result) (by simp)
    · exact ⟨old, result⟩
  refine ⟨List.nodup_cons.mpr ⟨free, tracked.pids⟩, ?_, ?_, ?_, ?_, ?_⟩
  · intro other member
    rcases List.mem_cons.mp member with rfl | old
    · exact positive
    · exact tracked.positive other old
  · exact List.cons_subset_cons _ tracked.known
  · exact fun other unknown => tracked.unborn other fun old => unknown (List.mem_cons_of_mem _ old)
  · exact fun holder record number coordinates => tracked.holder holder record number (older _ _ _ coordinates)
  · intro other member
    rcases List.mem_cons.mp member with rfl | old
    · change Knows _ (s.points other)
      rw [idle]
      trivial
    · exact (tracked.knows other old).mono (Nat.le_refl _) older

/-- A step of a live process in an orderly run. -/
private theorem Tracked.act (tracked : s.Tracked) {label : Label} (orderly : s.Orderly interval label)
    (live : ∀ process ∈ label.actor?, process ∈ s.table) (taken : s.act interval label = some t) : t.Tracked := by
  cases label with
  | spawn process | die process | beat heartbeat => cases taken
  | acquire process =>
    simp only [Campaign.act] at taken
    split at taken
    · obtain rfl := Option.some.inj taken
      exact tracked.acquire (live process rfl)
    · cases taken
  | probe process =>
    simp only [Campaign.act] at taken
    split at taken
    · rename_i here
      obtain rfl := Option.some.inj taken
      exact tracked.probe (live process rfl) here
    · cases taken
  | judge process now =>
    simp only [Campaign.act] at taken
    split at taken
    · rename_i here
      obtain rfl := Option.some.inj taken
      exact tracked.judge (live process rfl) here orderly.1
    · cases taken
  | terminate process ending =>
    simp only [Campaign.act] at taken
    split at taken
    · rename_i here
      obtain rfl := Option.some.inj taken
      exact tracked.terminate (live process rfl) here ending
    · cases taken
  | reread process =>
    simp only [Campaign.act] at taken
    split at taken
    · rename_i here
      split_ifs at taken
      · obtain rfl := Option.some.inj taken
        exact tracked.reread (live process rfl) here (.inl rfl)
      · obtain rfl := Option.some.inj taken
        exact tracked.reread (live process rfl) here (.inr rfl)
    · cases taken
  | remove process =>
    simp only [Campaign.act] at taken
    split at taken
    · rename_i here
      obtain rfl := Option.some.inj taken
      have all := orderly.2
      simp only [NotOvertaken, here] at all
      exact tracked.remove (live process rfl) here all
    · cases taken
  | write process startedAt tokenKnown =>
    simp only [Campaign.act] at taken
    split at taken
    · rename_i here
      obtain rfl := Option.some.inj taken
      have all := orderly.2
      simp only [NotOvertaken, here] at all
      exact tracked.write (live process rfl) here all startedAt tokenKnown _
    · cases taken
  | release process =>
    simp only [Campaign.act] at taken
    split at taken
    · rename_i here
      split_ifs at taken
      · obtain rfl := Option.some.inj taken
        exact tracked.release (live process rfl) here
      · obtain rfl := Option.some.inj taken
        exact tracked.moveTo (live process rfl) rfl trivial
    · cases taken
  | leave process =>
    simp only [Campaign.act] at taken
    split at taken
    · rename_i here
      obtain rfl := Option.some.inj taken
      exact tracked.leave (live process rfl) here
    · cases taken

theorem Tracked.step (tracked : s.Tracked) {label : Label} (orderly : s.Orderly interval label)
    (taken : Campaign.step interval s label = some t) : t.Tracked := by
  cases label with
  | spawn process =>
    simp only [Campaign.step] at taken
    split_ifs at taken with new
    obtain rfl := Option.some.inj taken
    exact tracked.spawn new.1 new.2.1 new.2.2
  | die process =>
    simp only [Campaign.step] at taken
    split_ifs at taken
    obtain rfl := Option.some.inj taken
    exact tracked.shrink List.erase_sublist
  | beat heartbeat =>
    obtain rfl := Option.some.inj taken
    exact tracked.of_fewer (List.Sublist.refl _) rfl rfl (fun _ _ _ coordinates => ⟨coordinates, rfl⟩)
      (fun _ _ => .inl rfl) tracked.unborn
  | _ =>
    simp only [Campaign.step, Label.actor?, Option.any_some, decide_eq_true_eq] at taken
    split_ifs at taken with live
    refine tracked.act orderly ?_ taken
    rintro _ ⟨⟩
    exact live

/-! ## Runs -/

/-- In every orderly run at most one live process is the coordinator. -/
theorem acquireCoordinator_exclusive (reach : (machine interval).Reach (Orderly interval) Initial s) : s.Exclusive := by
  refine Tracked.exclusive (reach.invariant Tracked ?_ ?_)
  · exact fun _ initial => initial.tracked
  · exact fun _ _ _ tracked orderly taken => tracked.step orderly taken

/-- A write that a live coordinator's write has overtaken makes a second coordinator. -/
theorem write_overtaken (live : process ∈ s.table) {lock : Option LockRecord} {seen : Nat}
    (here : s.points process = .writing lock seen) (overtaken : ¬ s.SeenAll seen) (record : LockRecord) (role : Role) :
    ¬ (s.write process record role).Exclusive := by
  intro exclusive
  obtain ⟨holder, member, result⟩ : ∃ holder ∈ s.table, (s.result? holder).isSome := by
    by_contra nobody
    refine overtaken fun holder member => ?_
    have absent : s.result? holder = none := by
      by_contra present
      exact nobody ⟨holder, member, Option.isSome_iff_ne_none.mpr present⟩
    rw [absent]
    rfl
  have differs : holder ≠ process := by
    rintro rfl
    rw [result?, here] at result
    cases result
  refine differs (exclusive holder member process live ?_ ?_)
  · rw [Campaign.write, result?_moveTo, if_neg differs]
    exact result
  · rw [Campaign.write, result?_moveTo, if_pos rfl]
    rfl

/-- Two processes and a campaign nobody has started. -/
def fresh : Campaign := ⟨[⟨1, 11⟩, ⟨2, 12⟩], [⟨1, 11⟩, ⟨2, 12⟩], none, none, 0, fun _ => .idle⟩

theorem fresh_initial : fresh.Initial where
  pids := by decide
  positive := by decide
  known := by decide
  points _ := rfl

/-- A starter reads, probes, judges and writes. -/
def start (process : Process) : List Label :=
  [.acquire process, .probe process, .judge process 0, .write process 0 true]

/-- Both starters read the missing lock before either writes it. -/
def crossing : List Label :=
  let one : Process := ⟨1, 11⟩
  let two : Process := ⟨2, 12⟩
  [.acquire one, .acquire two, .probe one, .probe two, .judge one 0, .judge two 0, .write one 0 true, .write two 1 true]

/-- Two live processes have both become the coordinator, and no heartbeat has lapsed. -/
theorem acquireCoordinator_two :
    ∃ s, (machine heartbeatInterval).Reach (HeartbeatKept heartbeatInterval) Initial s ∧ ¬ s.Exclusive := by
  have ran : ∃ s, (machine heartbeatInterval).replay? (HeartbeatKept heartbeatInterval) fresh crossing = some s ∧
      (⟨1, 11⟩ ∈ s.table ∧ ⟨2, 12⟩ ∈ s.table) ∧ (s.result? ⟨1, 11⟩).isSome ∧ (s.result? ⟨2, 12⟩).isSome :=
    Machine.exists_replay (fun s => (⟨1, 11⟩ ∈ s.table ∧ ⟨2, 12⟩ ∈ s.table) ∧ (s.result? ⟨1, 11⟩).isSome ∧
      (s.result? ⟨2, 12⟩).isSome) (fun _ _ held => held) (by decide)
  obtain ⟨s, ran, alive, one, two⟩ := ran
  refine ⟨s, .of_replay fresh_initial _ ran, fun exclusive => ?_⟩
  exact absurd (exclusive _ alive.1 _ alive.2 one two) (by decide)

/-- A second starter after the first observes it, and after its death takes the campaign over. -/
theorem acquireCoordinator_exclusive_restart :
    ∃ s, (machine heartbeatInterval).replay? (Orderly heartbeatInterval) fresh
        (start ⟨1, 11⟩ ++ [.acquire ⟨2, 12⟩, .probe ⟨2, 12⟩, .judge ⟨2, 12⟩ 0, .die ⟨1, 11⟩] ++ start ⟨2, 12⟩) = some s ∧
      s.Exclusive :=
  Machine.exists_replay (fun s => (s.result? ⟨2, 12⟩).isSome)
    (fun _ ran _ => acquireCoordinator_exclusive (.of_replay fresh_initial _ ran)) (by decide)

end Campaign

end Faberun.Coordinator
