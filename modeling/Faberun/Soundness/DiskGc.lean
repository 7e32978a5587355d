import Faberun.Model.Run.DiskGc
import Faberun.Soundness.ChainTurn
import Faberun.Soundness.RunLock

/-! # What a collection removes

Two modules meet at a run directory. The chain's half is a frame: a turn reads no other directory than that of its
contract (`foldl_withRuns`), so a removal elsewhere changes no step. The collector's half is an invariant: a directory it
takes to be without a controller is without one until a controller takes its lock.
-/

namespace Faberun.DiskGc

open Lock (Process LockRecord ReadLockResult lockStale Owns)

variable {γ : Type} {c : Collection} {s t : State γ} {host : Host γ} {path other : String} {process : Process}

/-! ## Locks -/

theorem holds_iff {lock : ReadLockResult} :
    holds lock process = true ↔ ∃ record, lock = some (.record record) ∧ Owns process record := by
  constructor
  · intro here
    unfold holds at here
    split at here
    · have owns := of_decide_eq_true here
      exact ⟨_, rfl, owns⟩
    · exact nomatch here
  · rintro ⟨record, rfl, pid, token⟩
    exact decide_eq_true ⟨pid, token⟩

theorem holds_unique {lock : ReadLockResult} {first second : Process} (one : holds lock first = true)
    (two : holds lock second = true) : first = second := by
  obtain ⟨record, rfl, owns⟩ := holds_iff.mp one
  obtain ⟨same, here, owns'⟩ := holds_iff.mp two
  obtain ⟨⟩ := here
  exact owns.unique owns'

/-- Processes have their own pids, and a lock was written by one there has been. -/
structure Host.Proper (host : Host γ) : Prop where
  pids : (host.table.map Process.pid).Nodup
  positive : ∀ process ∈ host.table, 0 < process.pid
  known : ∀ process ∈ host.table, process ∈ host.born
  left : ∀ path process, holds (host.files path).lock process = true → process ∈ host.born

/-- A lock judged stale is nobody's. -/
theorem Host.Proper.stale (proper : host.Proper) (stale : lockStale host.table (host.files path).lock = true) :
    ¬ Held host path := by
  rintro ⟨process, alive, here⟩
  obtain ⟨record, lock, owns⟩ := holds_iff.mp here
  rw [lock] at stale
  exact (Lock.lockStale_iff proper.pids proper.positive owns).mp stale alive

@[simp] theorem files_write {files : RunFiles γ} :
    (host.write path files).files other = if other = path then files else host.files other := by
  simp only [Host.files, Host.write, KeyedStore.get?_set]
  split_ifs <;> rfl

@[simp] theorem files_rm : (host.rm path).files other = if other = path then .none else host.files other := by
  simp only [Host.files, Host.rm, KeyedStore.get?_erase]
  split_ifs <;> rfl

@[simp] theorem table_write {files : RunFiles γ} : (host.write path files).table = host.table := rfl

@[simp] theorem table_rm : (host.rm path).table = host.table := rfl

/-- A directory is rewritten with a lock that a live process, if any, holds. -/
theorem Host.Proper.write (proper : host.Proper) {files : RunFiles γ}
    (owned : ∀ process, holds files.lock process = true → process ∈ host.born) : (host.write path files).Proper := by
  refine ⟨proper.pids, proper.positive, proper.known, fun other process here => ?_⟩
  rw [files_write] at here
  split_ifs at here
  · exact owned process here
  · exact proper.left other process here

theorem Host.Proper.rm (proper : host.Proper) : (host.rm path).Proper := by
  refine ⟨proper.pids, proper.positive, proper.known, fun other process here => ?_⟩
  rw [files_rm] at here
  split_ifs at here
  · exact nomatch here
  · exact proper.left other process here

theorem Host.Proper.spawn (proper : host.Proper) (positive : 0 < process.pid)
    (unused : process.pid ∉ host.table.map Process.pid) :
    Host.Proper { host with table := process :: host.table, born := process :: host.born } := by
  refine ⟨List.nodup_cons.mpr ⟨unused, proper.pids⟩, ?_, ?_, fun path other here => ?_⟩
  · exact List.forall_mem_cons.mpr ⟨positive, proper.positive⟩
  · exact List.forall_mem_cons.mpr
      ⟨List.mem_cons_self, fun other alive => List.mem_cons_of_mem _ (proper.known other alive)⟩
  · exact List.mem_cons_of_mem _ (proper.left path other here)

theorem Host.Proper.die (proper : host.Proper) : Host.Proper { host with table := host.table.erase process } where
  pids := proper.pids.sublist (List.erase_sublist.map _)
  positive other alive := proper.positive other (List.mem_of_mem_erase alive)
  known other alive := proper.known other (List.mem_of_mem_erase alive)
  left := proper.left

/-! ## The chain's next step -/

section NextStep

variable [DecidableEq γ] {chain : CampaignChain γ} {contract : Chain.CampaignContract}

theorem nextStep_of_view {after : Host γ} (same : after.view contract.runDir = host.view contract.runDir) :
    nextStep chain after contract = nextStep chain host contract := by
  have on : Chain.On contract host.view (chain.state host.view contract) := by
    refine ⟨rfl, fun coordinator here found at' => ?_⟩
    obtain rfl := Option.some.inj here
    exact (Option.some.inj at').symm
  have turning : ∀ label ∈ [.validate (chain.validate contract), .look, .classify, .promote chain.checkedOut, .recover],
      Chain.turns (γ := γ) label = true := by simp [Chain.turns]
  have turns := @Chain.foldl_withRuns _ chain.campaign _ _ _ _ _ _ same turning on
  have comes := congrArg (ChainStep.of chain.coordinator.index) turns
  exact comes

omit [DecidableEq γ] in
theorem view_rm (elsewhere : other ≠ path) : (host.rm path).view other = host.view other := by
  simp only [Host.view, files_rm, if_neg elsewhere, Host.controllerAlive, table_rm]

/-- A contract that does not validate parks its chain, whatever is on disk. -/
theorem nextStep_of_invalid {code : String} (invalid : chain.validate contract = some code) :
    nextStep chain host contract = .park code := by
  rw [nextStep, turn, invalid]
  rfl

omit [DecidableEq γ] in
private theorem of_found {index : Nat} {s : Chain.State γ} (found : Chain.Found s) : ChainStep.of index s ≠ .launch := by
  unfold ChainStep.of
  cases here : s.coordinator with
  | none => exact nofun
  | some coordinator =>
    have found := found coordinator here
    revert found
    dsimp only
    cases coordinator.point with
    | reading =>
      intro _
      dsimp only
      split_ifs <;> exact nofun
    | verifying => exact False.elim
    | _ => exact fun _ => nofun

/-- A contract that validates is launched exactly when its directory holds no run. -/
theorem nextStep_launch_iff (valid : chain.validate contract = none) :
    nextStep chain host contract = .launch ↔ (host.files contract.runDir).record = none := by
  have looks : turn chain contract (chain.state host.view contract) =
      [.classify, .promote chain.checkedOut, .recover].foldl
        (fun s label => (Chain.step chain.campaign s label).getD s)
        (Chain.look (chain.state host.view contract) { chain.coordinator with point := .looking contract } contract) := by
    rw [turn, valid]
    rfl
  rw [nextStep, looks]
  have view : ((chain.state host.view contract).runs contract.runDir).record = (host.files contract.runDir).record := rfl
  unfold Chain.look
  rw [view]
  cases record : (host.files contract.runDir).record with
  | none => exact iff_of_true rfl rfl
  | some record =>
    refine iff_of_false ?_ nofun
    have turning : ∀ label ∈ [.classify, .promote chain.checkedOut, .recover], Chain.turns (γ := γ) label = true := by
      simp [Chain.turns]
    refine of_found (.foldl turning ?_)
    dsimp only
    split_ifs
    · exact Chain.found_goto trivial
    · exact Chain.found_goto trivial

/-- The condition on chains is exact: to remove the run of a contract that validates is to have it launched again. -/
theorem nextStep_rm_ne (valid : chain.validate contract = none) (run : (host.files contract.runDir).record ≠ none) :
    nextStep chain (host.rm contract.runDir) contract ≠ nextStep chain host contract := by
  have launches : nextStep chain (host.rm contract.runDir) contract = .launch := by
    rw [nextStep_launch_iff valid, files_rm, if_pos rfl]
    rfl
  rw [launches]
  exact fun same => run ((nextStep_launch_iff valid).mp same.symm)

end NextStep

/-! ## A collection -/

theorem mem_unlocked_of_candidates {descriptors : List RunDescriptor} {currentRunDir : Option String}
    {dateParse : String → Option Rat} (candidate : path ∈ selectGarbageCollectableRuns dateParse descriptors currentRunDir) :
    path ∈ inactive descriptors := by
  obtain ⟨run, member, rfl⟩ := List.mem_map.mp candidate
  rw [List.mem_insertionSort, List.mem_filter] at member
  refine List.mem_map.mpr ⟨run, List.mem_filter.mpr ⟨member.1, ?_⟩, rfl⟩
  simp only [eligible, Bool.and_eq_true] at member
  exact member.2.1.2

theorem inactive_append {descriptors : List RunDescriptor} {run : RunDescriptor} :
    inactive (descriptors ++ [run]) = inactive descriptors ++ if run.hasActiveController then [] else [run.path] := by
  cases active : run.hasActiveController <;> simp [inactive, List.filter_append, active]

variable [DecidableEq γ] {chains : List (CampaignChain γ)}

structure Inv (chains : List (CampaignChain γ)) (s : State γ) : Prop where
  proper : s.host.Proper
  unheld : ∀ path ∈ s.stage.unlocked, path ∉ s.taken → ¬ Held s.host path
  spared : ∀ removal ∈ s.removals, Spares chains removal.1 removal.2

theorem Initial.inv (initial : Initial s) : Inv chains s where
  proper := ⟨initial.pids, initial.positive, initial.known, initial.left⟩
  unheld path member := by
    rw [initial.stage] at member
    exact nomatch member
  spared := by
    rw [initial.removals]
    exact nofun

/-- The collection goes on, and takes no further directory to be without a controller. -/
private theorem Inv.goesOn (inv : Inv chains s) {stage : Stage} (fewer : stage.unlocked ⊆ s.stage.unlocked) :
    Inv chains { s with stage := stage } :=
  ⟨inv.proper, fun path member => inv.unheld path (fewer member), inv.spared⟩

/-- The machine changes, and no directory the collection takes to be without a controller gets one. -/
private theorem Inv.changes (inv : Inv chains s) {after : Host γ} {taken : List String} (proper : after.Proper)
    (unheld : ∀ path ∈ s.stage.unlocked, path ∉ taken → Held after path → path ∉ s.taken ∧ Held s.host path) :
    Inv chains { s with host := after, taken := taken } := by
  refine ⟨proper, fun path member free held => ?_, inv.spared⟩
  obtain ⟨free, held⟩ := unheld path member free held
  exact inv.unheld path member free held

private theorem Inv.locks (inv : Inv chains s) {startedAt : Option String} {paths : List String}
    {descriptors : List RunDescriptor} (stage : s.stage = .locking path startedAt paths descriptors) :
    Inv chains
      { s with
        stage := .reading path startedAt (!lockStale s.host.table (s.host.files path).lock) paths descriptors } := by
  refine ⟨inv.proper, fun other member free => ?_, inv.spared⟩
  have before := inv.unheld other
  rw [stage] at before
  cases stale : lockStale s.host.table (s.host.files path).lock with
  | false =>
    rw [stale] at member
    exact before member free
  | true =>
    rw [stale] at member
    rcases List.mem_cons.mp member with rfl | member
    · exact inv.proper.stale stale
    · exact before member free

private theorem Inv.removes (inv : Inv chains s) {candidates removed : List String}
    (stage : s.stage = .removing path candidates removed) (unneeded : Unneeded chains s path) :
    Inv chains
      { s with
        host := s.host.rm path, stage := .considering candidates (removed ++ [path]),
        removals := (path, s.host) :: s.removals } := by
  have unheld := inv.unheld
  rw [stage] at unheld
  refine ⟨inv.proper.rm, fun other member free => ?_, List.forall_mem_cons.mpr ⟨⟨?_, ?_⟩, inv.spared⟩⟩
  · rintro ⟨process, alive, here⟩
    rw [files_rm] at here
    split_ifs at here
    · exact nomatch here
    · exact unheld other (List.mem_cons_of_mem _ member) free ⟨process, alive, here⟩
  · exact unheld path List.mem_cons_self unneeded.1
  · intro chain member contract among
    cases valid : chain.validate contract with
    | none => exact nextStep_of_view (view_rm (unneeded.2 chain member contract among valid))
    | some code => rw [nextStep_of_invalid valid, nextStep_of_invalid valid]

private theorem Inv.proceed (inv : Inv chains s) (careful : Careful chains s .proceed) (goes : s.proceed c = some t) :
    Inv chains t := by
  unfold State.proceed at goes
  split at goes
  · exact Option.some.inj goes ▸ inv.goesOn (List.nil_subset _)
  · rename_i descriptors stage
    refine Option.some.inj goes ▸ inv.goesOn fun path candidate => ?_
    rw [stage]
    exact mem_unlocked_of_candidates candidate
  · rename_i stage
    split_ifs at goes
    · refine Option.some.inj goes ▸ inv.goesOn ?_
      rw [stage]
      exact List.Subset.refl _
    · refine Option.some.inj goes ▸ inv.goesOn ?_
      rw [stage]
      exact List.Subset.refl _
  · rename_i stage
    exact Option.some.inj goes ▸ inv.locks stage
  · rename_i path startedAt active paths descriptors stage
    refine Option.some.inj goes ▸ inv.goesOn fun other member => ?_
    rw [stage]
    have member : other ∈ inactive (descriptors ++ [_]) := member
    rw [inactive_append] at member
    cases active with
    | true => simpa [Stage.unlocked] using member
    | false => simpa [Stage.unlocked, or_comm] using member
  · rename_i stage
    refine Option.some.inj goes ▸ inv.removes stage (careful _ ?_)
    rw [stage]
    rfl
  · exact Option.some.inj goes ▸ inv.goesOn (List.nil_subset _)
  · exact nomatch goes
  · exact nomatch goes
  · exact nomatch goes

private theorem Inv.measure (inv : Inv chains s) {above : Bool} (goes : s.measure above = some t) : Inv chains t := by
  unfold State.measure at goes
  split at goes
  · refine Option.some.inj goes ▸ inv.goesOn ?_
    split_ifs <;> exact List.nil_subset _
  · rename_i stage
    refine Option.some.inj goes ▸ inv.goesOn ?_
    rw [stage]
    split_ifs
    · exact List.nil_subset _
    · exact List.Subset.refl _
  · exact nomatch goes

theorem Inv.step {label : Label γ} (inv : Inv chains s) (careful : Careful chains s label)
    (steps : (machine c).step s label = some t) : Inv chains t := by
  cases label with
  | measure above => exact inv.measure steps
  | proceed => exact inv.proceed careful steps
  | spawn process =>
    simp only [machine, State.step] at steps
    split_ifs at steps with fresh
    obtain rfl := Option.some.inj steps
    refine inv.changes (inv.proper.spawn fresh.1 fresh.2.2) fun path _ free held => ⟨free, ?_⟩
    obtain ⟨other, alive, here⟩ := held
    rcases List.mem_cons.mp alive with rfl | alive
    · exact absurd (inv.proper.left path other here) fresh.2.1
    · exact ⟨other, alive, here⟩
  | die process =>
    obtain rfl := Option.some.inj steps
    refine inv.changes inv.proper.die fun path _ free held => ⟨free, ?_⟩
    obtain ⟨other, alive, here⟩ := held
    exact ⟨other, List.mem_of_mem_erase alive, here⟩
  | acquire path process startedAt =>
    simp only [machine, State.step] at steps
    split at steps
    · rename_i able
      obtain rfl := Option.some.inj steps
      refine inv.changes (inv.proper.write fun other here => ?_) fun other member free held => ?_
      · have own : holds (some (.record (Lock.LockDir.newRecord process startedAt))) process = true :=
          decide_eq_true ⟨rfl, rfl⟩
        exact holds_unique own here ▸ inv.proper.known process able.1
      · obtain ⟨holder, alive, here⟩ := held
        rw [files_write] at here
        by_cases same : other = path
        · subst same
          rw [if_pos member] at free
          exact absurd List.mem_cons_self free
        · rw [if_neg same] at here
          refine ⟨fun taken => free ?_, holder, alive, here⟩
          split_ifs
          · exact List.mem_cons_of_mem _ taken
          · exact taken
    · exact nomatch steps
  | write path process files =>
    simp only [machine, State.step] at steps
    split_ifs at steps with able
    obtain rfl := Option.some.inj steps
    refine inv.changes (inv.proper.write fun other here => inv.proper.left path other here)
      fun other _ free held => ⟨free, ?_⟩
    obtain ⟨holder, alive, here⟩ := held
    rw [files_write] at here
    split_ifs at here with same
    · exact ⟨holder, alive, same ▸ here⟩
    · exact ⟨holder, alive, here⟩
  | release path process =>
    simp only [machine, State.step] at steps
    split_ifs at steps with able
    obtain rfl := Option.some.inj steps
    refine inv.changes (inv.proper.write fun other here => nomatch here) fun other _ free held => ⟨free, ?_⟩
    obtain ⟨holder, alive, here⟩ := held
    rw [files_write] at here
    split_ifs at here
    · exact nomatch here
    · exact ⟨holder, alive, here⟩

/-- In every run in which no directory is removed that somebody needs, every removal spares what is held and what the
chains read. -/
theorem runGarbageCollection_spares (reach : (machine c).Reach (Careful chains) Initial s) :
    ∀ removal ∈ s.removals, Spares chains removal.1 removal.2 :=
  (reach.invariant (Inv chains) (fun _ initial => initial.inv) fun _ _ _ inv careful steps =>
    inv.step careful steps).spared

/-! ## Two finished runs -/

/-- A finished run; its controller has died. -/
def finished (id : String) : RunFiles Unit :=
  ⟨some ⟨some "d", "d", some id, some ()⟩, some "2026", some (.record ⟨7, some 1, 0⟩), some [some .done],
    ⟨.done, some .succeeded⟩, false, false, none⟩

/-- A run of a chain, and one of none; a process is there. -/
def twoRuns : State Unit :=
  ⟨⟨(KeyedStore.empty.set "/w/.runs/a" (finished "a")).set "/w/.runs/b" (finished "b"), [⟨8, 2⟩], [⟨8, 2⟩, ⟨7, 1⟩]⟩,
    .measuring, [], []⟩

def collection : Collection := ⟨"/w/.runs", some "/w/.runs/c", fun _ => none⟩

/-- Its first contract has been promoted. -/
def oneContract : CampaignChain Unit :=
  ⟨⟨[⟨"a.json", "a", "/w/.runs/a"⟩, ⟨"c.json", "c", "/w/.runs/c"⟩], "land", false, ⟨fun _ _ => true, fun _ => rfl, fun _ _ _ _ _ => rfl⟩⟩,
    true, fun _ => some (), some (), Chain.opened, fun _ => none, false⟩

private theorem twoRuns_initial : Initial twoRuns where
  stage := rfl
  removals := rfl
  taken := rfl
  pids := by decide
  positive := by decide
  known := by decide
  left path process here := by
    obtain ⟨record, lock, pid, token⟩ := holds_iff.mp here
    simp only [Host.files, twoRuns, KeyedStore.get?_set] at lock
    have dead : record = ⟨7, some 1, 0⟩ := by
      split_ifs at lock
      · simpa [finished] using lock.symm
      · simpa [finished] using lock.symm
      · simp [RunFiles.none] at lock
    subst dead
    have same : process = ⟨7, 1⟩ := by
      cases process
      simp_all
    simp [same, twoRuns]

/-- The reads of a collection of two runs, up to its candidates. -/
def reads : List (Label Unit) := .measure false :: List.replicate 8 .proceed

/-- The chain's run is resumed by a controller, and keeps its directory; the other is removed. -/
theorem runGarbageCollection_spares_chain :
    ∃ s, (machine collection).replay? (Careful [oneContract]) twoRuns
        ([.acquire "/w/.runs/a" ⟨8, 2⟩ 1] ++ reads ++ [.measure false, .proceed, .proceed]) = some s ∧
      s.removals.map Prod.fst = ["/w/.runs/b"] ∧ ∀ removal ∈ s.removals, Spares [oneContract] removal.1 removal.2 :=
  Machine.exists_replay (fun s => s.removals.map Prod.fst = ["/w/.runs/b"])
    (fun _ ran check => ⟨check, runGarbageCollection_spares (.of_replay twoRuns_initial _ ran)⟩) (by decide)

/-- A run is resumed while the collection reads the other, and loses its directory under its controller; without that,
its chain launches it again. -/
theorem runGarbageCollection_removes :
    (∃ s : State Unit, (machine collection).Reach Machine.free Initial s ∧
      ∃ removal ∈ s.removals, Held removal.2 removal.1) ∧
    ∃ s : State Unit, (machine collection).Reach Machine.free Initial s ∧ ∃ removal ∈ s.removals,
      ∃ contract ∈ oneContract.campaign.contracts, nextStep oneContract removal.2 contract = .skip ∧
        nextStep oneContract (removal.2.rm removal.1) contract = .launch := by
  constructor
  · have ran : ∃ s, (machine collection).replay? Machine.free twoRuns
        (reads ++ [.acquire "/w/.runs/a" ⟨8, 2⟩ 1, .measure false, .proceed]) = some s ∧
        ∃ removal ∈ s.removals, ∃ process ∈ removal.2.table, holds (removal.2.files removal.1).lock process = true :=
      Machine.exists_replay _ (fun _ _ held => held) (by decide)
    obtain ⟨s, ran, held⟩ := ran
    exact ⟨s, .of_replay twoRuns_initial _ ran, held⟩
  · have ran : ∃ s, (machine collection).replay? Machine.free twoRuns (reads ++ [.measure false, .proceed]) = some s ∧
        ∃ removal ∈ s.removals, ∃ contract ∈ oneContract.campaign.contracts,
          nextStep oneContract removal.2 contract = .skip ∧
            nextStep oneContract (removal.2.rm removal.1) contract = .launch :=
      Machine.exists_replay _ (fun _ _ held => held) (by decide)
    obtain ⟨s, ran, relaunched⟩ := ran
    exact ⟨s, .of_replay twoRuns_initial _ ran, relaunched⟩

end Faberun.DiskGc
