import Mathlib.Data.List.Nodup
import Faberun.Model.Run.Lock

/-! # Mutual exclusion of the controller lock

A takeover that only ever renames aside the record of a dead process keeps the lock exclusive: the
entry of a live holder stays in place (`LockDir.Guarded.holder`), so nobody links over it and nobody
discards it. Without that condition it is not exclusive. The rename acts on whatever the entry has
become since it was read, and a live record taken aside is lost when a third process links first.
-/

namespace Faberun.Lock

/-- The record a process writes is its own. -/
def Owns (process : Process) (record : LockRecord) : Prop :=
  record.pid = process.pid ∧ record.processStartToken = some process.token

theorem Owns.unique {first second : Process} {record : LockRecord} (one : Owns first record)
    (two : Owns second record) : first = second := by
  obtain ⟨pid, token⟩ := first
  obtain ⟨pid', token'⟩ := second
  obtain ⟨rfl, tokens⟩ := one
  obtain ⟨pids, tokens'⟩ := two
  have same := Option.some.inj (tokens.symm.trans tokens')
  exact congrArg₂ Process.mk pids same

section Staleness

variable {table : List Process}

theorem pidAlive_iff {pid : Nat} (positive : ∀ process ∈ table, 0 < process.pid) :
    pidAlive table pid = true ↔ ∃ process ∈ table, process.pid = pid := by
  simp only [pidAlive, Bool.and_eq_true, decide_eq_true_eq, List.any_eq_true, beq_iff_eq]
  constructor
  · exact And.right
  · rintro ⟨process, member, rfl⟩
    exact ⟨positive process member, process, member, rfl⟩

/-- With one live process a pid, the probe reports that process's token. -/
theorem processStartToken_of_mem (pids : (table.map Process.pid).Nodup) {process : Process}
    (member : process ∈ table) : processStartToken table process.pid = some process.token := by
  have found : (table.find? fun other => other.pid == process.pid).isSome := by
    rw [List.find?_isSome]
    exact ⟨process, member, beq_self_eq_true _⟩
  obtain ⟨other, first⟩ := Option.isSome_iff_exists.mp found
  have same : other.pid = process.pid := by simpa using List.find?_some first
  have equal := List.inj_on_of_nodup_map pids (List.mem_of_find?_eq_some first) member same
  rw [processStartToken, first, equal]
  rfl

/-- The staleness test decides whether the record's process is dead, recycled pids included. -/
theorem lockStale_iff (pids : (table.map Process.pid).Nodup) (positive : ∀ process ∈ table, 0 < process.pid)
    {owner : Process} {record : LockRecord} (owns : Owns owner record) :
    lockStale table (some (.record record)) = true ↔ owner ∉ table := by
  obtain ⟨pid, token⟩ := owns
  simp only [lockStale, pid, token, Option.isSome_some, Bool.true_and]
  by_cases alive : pidAlive table owner.pid = true
  · rw [if_pos alive]
    obtain ⟨process, member, same⟩ := (pidAlive_iff positive).mp alive
    rw [← same, processStartToken_of_mem pids member]
    simp only [bne_iff_ne, ne_eq, Option.some_inj]
    constructor
    · rintro differs here
      exact differs (congrArg Process.token (List.inj_on_of_nodup_map pids member here same))
    · intro gone tokens
      have equal : process = owner := by
        cases process
        cases owner
        simp_all
      exact gone (equal ▸ member)
  · rw [if_neg alive]
    simp only [true_iff]
    intro here
    exact alive ((pidAlive_iff positive).mpr ⟨owner, here, rfl⟩)

end Staleness

/-- The record a process inside `acquire` or `release` is concerned with. -/
def Point.record? : Point → Option LockRecord
  | .idle => none
  | .linking _ record | .reading _ record | .judging _ record _ | .capturing _ record
  | .judgingCaptured _ record | .handingBack _ record | .discarding _ record
  | .holding record | .unlinking record => some record

/-- A point at which the process has no handle and hands nothing back. -/
def Point.quiet : Point → Bool
  | .handingBack _ _ | .holding _ | .unlinking _ => false
  | _ => true

namespace LockDir

/-- What holds while takeovers only capture records of the dead. -/
structure Guarded (s : LockDir) : Prop where
  pids : (s.table.map Process.pid).Nodup
  positive : ∀ process ∈ s.table, 0 < process.pid
  known : s.table ⊆ s.born
  unborn : ∀ process, process ∉ s.born → s.points process = .idle
  own : ∀ process record, (s.points process).record? = some record → Owns process record
  entry : ∀ lock, s.entry = some (.record lock) → ∃ owner ∈ s.born, Owns owner lock
  asides : ∀ process lock, s.asides process = some (.record lock) →
    ∃ owner ∈ s.born, owner ∉ s.table ∧ Owns owner lock
  unhanded : ∀ process attempt record, s.points process ≠ .handingBack attempt record
  holder : ∀ process record, process ∈ s.table →
    (s.points process = .holding record ∨ s.points process = .unlinking record) →
    s.entry = some (.record record)

variable {s t : LockDir} {process : Process}

theorem Initial.guarded (initial : s.Initial) : s.Guarded where
  pids := initial.pids
  positive := initial.positive
  known := initial.known
  unborn process _ := initial.points process
  own process record carries := by simp [initial.points, Point.record?] at carries
  entry lock left := by
    obtain ⟨owner, born, -, owns⟩ := initial.left lock left
    exact ⟨owner, born, owns⟩
  asides process lock aside := by simp [initial.asides] at aside
  unhanded process attempt record := by simp [initial.points]
  holder process record _ handle := by simp [initial.points] at handle

/-- Two live handles would be for one entry. -/
theorem Guarded.unique (guarded : s.Guarded) {first second : Process} (one : s.Holds first)
    (two : s.Holds second) : first = second := by
  obtain ⟨alive, record, handle⟩ := one
  obtain ⟨alive', record', handle'⟩ := two
  have same := (guarded.holder first record alive handle).symm.trans
    (guarded.holder second record' alive' handle')
  obtain rfl := Content.record.inj (Option.some.inj same)
  have owns {process : Process} (handle : s.points process = .holding record ∨ s.points process = .unlinking record) :
      Owns process record := by
    rcases handle with point | point <;> exact guarded.own _ _ (by rw [point]; rfl)
  exact (owns handle).unique (owns handle')

theorem Guarded.exclusive (guarded : s.Guarded) : s.Exclusive where
  unique _ _ := guarded.unique
  asserts process record alive point := by
    rw [guarded.holder process record alive (.inl point)]
    simp [held]

/-- Moving a live process to a point without a handle. -/
theorem Guarded.moveTo (guarded : s.Guarded) (alive : process ∈ s.table) {point : Point}
    (quiet : point.quiet = true) (own : ∀ record, point.record? = some record → Owns process record) :
    (s.moveTo process point).Guarded where
  pids := guarded.pids
  positive := guarded.positive
  known := guarded.known
  unborn other stranger := by
    have differs : other ≠ process := fun same => stranger (by rw [same]; exact guarded.known alive)
    simpa [LockDir.moveTo, differs] using guarded.unborn other stranger
  own other record carries := by
    by_cases same : other = process
    · subst other
      exact own record (by simpa [LockDir.moveTo] using carries)
    · exact guarded.own other record (by simpa [LockDir.moveTo, same] using carries)
  entry := guarded.entry
  asides := guarded.asides
  unhanded other attempt record := by
    by_cases same : other = process
    · subst other
      rintro point
      simp only [LockDir.moveTo, Function.update_self] at point
      simp [point, Point.quiet] at quiet
    · simpa [LockDir.moveTo, same] using guarded.unhanded other attempt record
  holder other record here handle := by
    by_cases same : other = process
    · subst other
      simp only [LockDir.moveTo, Function.update_self] at handle
      rcases handle with point | point <;> simp [point, Point.quiet] at quiet
    · exact guarded.holder other record here (by simpa [LockDir.moveTo, same] using handle)

/-- Clearing the entry when no live process has a handle. -/
theorem Guarded.clear (guarded : s.Guarded) (unheld : ∀ other, ¬ s.Holds other) :
    { s with entry := none }.Guarded :=
  { guarded with
    entry := nofun
    holder := fun other record here handle => absurd ⟨here, record, handle⟩ (unheld other) }

/-- Setting aside what a dead process left. -/
theorem Guarded.setAside (guarded : s.Guarded) {content : ReadLockResult}
    (dead : ∀ lock, content = some (.record lock) → ∃ owner ∈ s.born, owner ∉ s.table ∧ Owns owner lock) :
    (s.setAside process content).Guarded :=
  { guarded with
    asides := fun other lock aside => by
      by_cases same : other = process
      · subst other
        exact dead lock (by simpa [LockDir.setAside] using aside)
      · exact guarded.asides other lock (by simpa [LockDir.setAside, same] using aside) }

/-- An exclusive link succeeds on a free entry only, so nobody alive has a handle. -/
theorem Guarded.link (guarded : s.Guarded) (alive : process ∈ s.table) {record : LockRecord}
    (free : s.entry = none) (owns : Owns process record) :
    ({ s with entry := some (.record record) }.moveTo process (.holding record)).Guarded where
  pids := guarded.pids
  positive := guarded.positive
  known := guarded.known
  unborn other stranger := by
    have differs : other ≠ process := fun same => stranger (by rw [same]; exact guarded.known alive)
    simpa [LockDir.moveTo, differs] using guarded.unborn other stranger
  own other record' carries := by
    by_cases same : other = process
    · subst other
      simp only [LockDir.moveTo, Function.update_self, Point.record?, Option.some_inj] at carries
      exact carries ▸ owns
    · exact guarded.own other record' (by simpa [LockDir.moveTo, same] using carries)
  entry lock linked := by
    obtain rfl := Content.record.inj (Option.some.inj linked)
    exact ⟨process, guarded.known alive, owns⟩
  asides := guarded.asides
  unhanded other attempt record' := by
    by_cases same : other = process
    · simp [LockDir.moveTo, same]
    · simpa [LockDir.moveTo, same] using guarded.unhanded other attempt record'
  holder other record' here handle := by
    by_cases same : other = process
    · subst other
      have equal : record = record' := by simpa [LockDir.moveTo] using handle
      rw [equal]
      rfl
    · have before := guarded.holder other record' here (by simpa [LockDir.moveTo, same] using handle)
      rw [free] at before
      cases before

private theorem Guarded.proceed (guarded : s.Guarded) (alive : process ∈ s.table)
    (captures : CapturesStale s (.proceed process)) (taken : s.proceed process = some t) : t.Guarded := by
  have own {point : Point} (here : s.points process = point) (record : LockRecord)
      (carries : point.record? = some record) : Owns process record :=
    guarded.own process record (by rw [here, carries])
  simp only [LockDir.proceed] at taken
  split at taken
  case h_1 => cases taken
  case h_2 => cases taken
  case h_3 attempt record point =>
    have mine := own point record rfl
    split_ifs at taken with again
    · split at taken <;> cases taken
      · exact guarded.link alive ‹_› mine
      · exact guarded.moveTo alive rfl fun _ carries => Option.some.inj carries ▸ mine
    · cases taken
      exact guarded.moveTo alive rfl nofun
  case h_4 attempt record point =>
    cases taken
    exact guarded.moveTo alive rfl fun _ carries => Option.some.inj carries ▸ own point record rfl
  case h_5 attempt record occupant point =>
    split_ifs at taken <;> cases taken
    · exact guarded.moveTo alive rfl fun _ carries => Option.some.inj carries ▸ own point record rfl
    · exact guarded.moveTo alive rfl nofun
  case h_6 attempt record point =>
    have mine := own point record rfl
    split at taken <;> cases taken
    · exact guarded.moveTo alive rfl fun _ carries => Option.some.inj carries ▸ mine
    · rename_i content entry
      simp only [CapturesStale, point, entry] at captures
      have dead : ∀ lock, some content = some (.record lock) →
          ∃ owner ∈ s.born, owner ∉ s.table ∧ Owns owner lock := by
        intro lock same
        obtain ⟨owner, born, owns⟩ := guarded.entry lock (entry.trans same)
        rw [same, lockStale_iff guarded.pids guarded.positive owns] at captures
        exact ⟨owner, born, captures, owns⟩
      have unheld : ∀ other, ¬ s.Holds other := by
        rintro other ⟨here, record', handle⟩
        have linked := guarded.holder other record' here handle
        obtain ⟨owner, -, gone, owns⟩ := dead record' (entry.symm.trans linked)
        have owns' : Owns other record' := by
          rcases handle with at_ | at_ <;> exact guarded.own _ _ (by rw [at_]; rfl)
        exact gone (owns.unique owns' ▸ here)
      exact ((guarded.clear unheld).setAside dead).moveTo alive rfl fun _ carries =>
        Option.some.inj carries ▸ mine
  case h_7 attempt record point =>
    split_ifs at taken with stale <;> cases taken
    · exact guarded.moveTo alive rfl fun _ carries => Option.some.inj carries ▸ own point record rfl
    · exfalso
      apply stale
      rcases aside : s.asides process with _ | _ | _
      · rfl
      · rename_i lock
        obtain ⟨owner, -, gone, owns⟩ := guarded.asides process lock aside
        exact (lockStale_iff guarded.pids guarded.positive owns).mpr gone
      · rfl
  case h_8 attempt record point => exact absurd point (guarded.unhanded process attempt record)
  case h_9 attempt record point =>
    cases taken
    have discarded : (s.setAside process none).Guarded := guarded.setAside nofun
    exact discarded.moveTo alive rfl fun _ carries => Option.some.inj carries ▸ own point record rfl
  case h_10 record point =>
    cases taken
    have moved : (s.moveTo process .idle).Guarded := guarded.moveTo alive rfl nofun
    refine moved.clear ?_
    rintro other ⟨here, record', handle⟩
    by_cases same : other = process
    · simp [LockDir.moveTo, same] at handle
    · exact same (guarded.unique ⟨here, record', by simpa [LockDir.moveTo, same] using handle⟩
        ⟨alive, record, .inr point⟩)

/-- Every step that captures no live record keeps the invariant. -/
theorem Guarded.step (guarded : s.Guarded) {label : Label} (captures : CapturesStale s label)
    (taken : s.step label = some t) : t.Guarded := by
  cases label with
  | spawn process =>
    simp only [LockDir.step] at taken
    split_ifs at taken with fresh
    cases taken
    obtain ⟨positive, stranger, freePid⟩ := fresh
    refine { guarded with pids := ?_, positive := ?_, known := ?_, unborn := ?_, entry := ?_, asides := ?_, holder := ?_ }
    · exact List.nodup_cons.mpr ⟨freePid, guarded.pids⟩
    · intro other member
      rcases List.mem_cons.mp member with rfl | before
      · exact positive
      · exact guarded.positive other before
    · exact List.cons_subset_cons _ guarded.known
    · exact fun other unborn => guarded.unborn other fun born => unborn (List.mem_cons_of_mem _ born)
    · intro lock entry
      obtain ⟨owner, born, owns⟩ := guarded.entry lock entry
      exact ⟨owner, List.mem_cons_of_mem _ born, owns⟩
    · intro other lock aside
      obtain ⟨owner, born, gone, owns⟩ := guarded.asides other lock aside
      refine ⟨owner, List.mem_cons_of_mem _ born, fun here => ?_, owns⟩
      rcases List.mem_cons.mp here with rfl | before
      · exact stranger born
      · exact gone before
    · intro other record here handle
      rcases List.mem_cons.mp here with rfl | before
      · simp [guarded.unborn _ stranger] at handle
      · exact guarded.holder other record before handle
  | die process =>
    simp only [LockDir.step] at taken
    split_ifs at taken
    cases taken
    have survivors : s.table.erase process ⊆ s.table := List.erase_subset
    refine { guarded with pids := ?_, positive := ?_, known := ?_, asides := ?_, holder := ?_ }
    · exact guarded.pids.sublist (List.erase_sublist.map _)
    · exact fun other here => guarded.positive other (survivors here)
    · exact fun other here => guarded.known (survivors here)
    · intro other lock aside
      obtain ⟨owner, born, gone, owns⟩ := guarded.asides other lock aside
      exact ⟨owner, born, fun here => gone (survivors here), owns⟩
    · exact fun other record here handle => guarded.holder other record (survivors here) handle
  | acquire process startedAt =>
    simp only [LockDir.step] at taken
    split_ifs at taken with ready
    cases taken
    refine guarded.moveTo ready.1 rfl fun record carries => ?_
    obtain rfl := Option.some.inj carries
    exact ⟨rfl, rfl⟩
  | proceed process =>
    simp only [LockDir.step] at taken
    split_ifs at taken with alive
    exact guarded.proceed alive captures taken
  | release process =>
    simp only [LockDir.step] at taken
    split_ifs at taken with alive
    split at taken
    case h_2 => cases taken
    case h_1 record point =>
      have linked := guarded.holder process record alive (.inl point)
      have kept : held s.entry record = true := guarded.exclusive.asserts process record alive point
      rw [if_pos kept] at taken
      cases taken
      have owns := guarded.own process record (by rw [point]; rfl)
      refine { guarded with unborn := ?_, own := ?_, unhanded := ?_, holder := ?_ }
      · intro other stranger
        have differs : other ≠ process := fun same => stranger (by rw [same]; exact guarded.known alive)
        simpa [LockDir.moveTo, differs] using guarded.unborn other stranger
      · intro other record' carries
        by_cases same : other = process
        · subst other
          simp only [LockDir.moveTo, Function.update_self, Point.record?, Option.some_inj] at carries
          exact carries ▸ owns
        · exact guarded.own other record' (by simpa [LockDir.moveTo, same] using carries)
      · intro other attempt record'
        by_cases same : other = process
        · simp [LockDir.moveTo, same]
        · simpa [LockDir.moveTo, same] using guarded.unhanded other attempt record'
      · intro other record' here handle
        by_cases same : other = process
        · subst other
          have equal : record = record' := by simpa [LockDir.moveTo] using handle
          rw [← equal]
          exact linked
        · exact guarded.holder other record' here (by simpa [LockDir.moveTo, same] using handle)

/-! ## Runs -/

/-- In every run whose takeovers capture no live record, the lock is exclusive throughout. -/
theorem runLock_exclusive (reach : machine.Reach CapturesStale Initial s) : s.Exclusive := by
  refine Guarded.exclusive (reach.invariant Guarded ?_ ?_)
  · exact fun _ initial => initial.guarded
  · exact fun _ _ _ guarded captures taken => guarded.step captures taken

/-- Capturing the record of a live holder already breaks its handle. -/
theorem capture_of_holder (guarded : s.Guarded) {holder : Process} (alive : holder ∈ s.table)
    {record : LockRecord} (holds : s.points holder = .holding record) {attempt : Nat} {mine : LockRecord}
    (captures : s.points process = .capturing attempt mine) (taken : s.step (.proceed process) = some t) :
    ¬ t.Exclusive := by
  intro exclusive
  have linked := guarded.holder holder record alive (.inl holds)
  have differs : holder ≠ process := by
    rintro rfl
    rw [holds] at captures
    cases captures
  simp only [LockDir.step, LockDir.proceed, captures, linked] at taken
  split_ifs at taken
  cases taken
  have kept := exclusive.asserts holder record alive (by simpa [LockDir.moveTo, LockDir.setAside, differs] using holds)
  simp [LockDir.moveTo, LockDir.setAside, held] at kept

/-- A directory that holds only what the dead process 9 left, and three contenders. -/
def contended : LockDir where
  table := [⟨1, 11⟩, ⟨2, 12⟩, ⟨3, 13⟩]
  born := [⟨1, 11⟩, ⟨2, 12⟩, ⟨3, 13⟩, ⟨9, 19⟩]
  entry := some (.record ⟨9, some 19, 0⟩)
  asides := fun _ => none
  points := fun _ => .idle

theorem contended_initial : contended.Initial where
  pids := by decide
  positive := by decide
  known := by decide
  left lock same := by
    obtain rfl := Content.record.inj (Option.some.inj same)
    exact ⟨⟨9, 19⟩, by decide, by decide, rfl, rfl⟩
  asides _ := rfl
  points _ := rfl

/-- One process judges the dead record and pauses, a second takes the lock over, the first renames
the second's live record aside, and a third links before it is handed back. -/
def lostTakeover : List Label :=
  let one : Process := ⟨1, 11⟩
  let two : Process := ⟨2, 12⟩
  let three : Process := ⟨3, 13⟩
  [.acquire one 1, .proceed one, .proceed one, .proceed one,
    .acquire two 2, .proceed two, .proceed two, .proceed two, .proceed two, .proceed two, .proceed two,
    .proceed two,
    .proceed one, .proceed one, .acquire three 3, .proceed three, .proceed one, .proceed one]

/-- Two live processes hold the lock, and the assertion of the first to get it fails. -/
theorem runLock_two_holders : ∃ s, machine.Reach Machine.free Initial s ∧ ¬ s.Exclusive ∧
    s.Holds ⟨2, 12⟩ ∧ s.Holds ⟨3, 13⟩ := by
  obtain ⟨s, ran, alive, two, three⟩ : ∃ s, machine.replay? Machine.free contended lostTakeover = some s ∧
      (⟨2, 12⟩ ∈ s.table ∧ ⟨3, 13⟩ ∈ s.table) ∧ s.points ⟨2, 12⟩ = .holding ⟨2, some 12, 2⟩ ∧
        s.points ⟨3, 13⟩ = .holding ⟨3, some 13, 3⟩ :=
    Machine.exists_replay (fun s => (⟨2, 12⟩ ∈ s.table ∧ ⟨3, 13⟩ ∈ s.table) ∧
      s.points ⟨2, 12⟩ = .holding ⟨2, some 12, 2⟩ ∧ s.points ⟨3, 13⟩ = .holding ⟨3, some 13, 3⟩)
      (fun _ _ held => held) (by decide)
  have second : s.Holds ⟨2, 12⟩ := ⟨alive.1, _, .inl two⟩
  have third : s.Holds ⟨3, 13⟩ := ⟨alive.2, _, .inl three⟩
  refine ⟨s, .of_replay contended_initial _ ran, fun exclusive => ?_, second, third⟩
  exact absurd (exclusive.unique _ _ second third) (by decide)

/-- A takeover of the dead record by one process alone. -/
theorem runLock_exclusive_takeover :
    ∃ s, machine.replay? CapturesStale contended
        [.acquire ⟨1, 11⟩ 1, .proceed ⟨1, 11⟩, .proceed ⟨1, 11⟩, .proceed ⟨1, 11⟩, .proceed ⟨1, 11⟩,
          .proceed ⟨1, 11⟩, .proceed ⟨1, 11⟩, .proceed ⟨1, 11⟩] = some s ∧ s.Exclusive :=
  Machine.exists_replay (fun s => s.points ⟨1, 11⟩ = .holding ⟨1, some 11, 1⟩)
    (fun _ ran _ => runLock_exclusive (.of_replay contended_initial _ ran)) (by decide)

end LockDir

end Faberun.Lock
