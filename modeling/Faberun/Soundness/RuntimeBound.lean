import Faberun.Soundness.Admission

/-! # The runtime admission bound

The dispatch pass and the gate revision judge a runtime in the synchronous stretch that starts the job,
so neither passes its ceiling. An auxiliary spawn starts its job some awaits after it saw room, or without
looking: the ceiling holds in every run whose auxiliary spawns saw room that no other job took since.
-/

namespace Faberun

namespace JobMap

variable {ν ρ : Type} [DecidableEq ν] [DecidableEq ρ]

omit [DecidableEq ρ] in
theorem runtimes_insert {jobs : JobMap ν ρ} {node : ν} (idle : node ∉ jobs) (runtime : ρ) :
    JobMap.runtimes (jobs.insert node runtime) = runtime :: jobs.runtimes := by
  simp only [runtimes, AList.entries_insert_of_notMem idle, List.map_cons]

/-- A job that leaves frees nothing but its own runtime. -/
theorem runningPerRuntime_erase_le (jobs : JobMap ν ρ) (node : ν) (runtime : ρ) :
    runningPerRuntime (JobMap.runtimes (jobs.erase node)) runtime ≤ runningPerRuntime jobs.runtimes runtime := by
  have fewer : (JobMap.runtimes (jobs.erase node)).Sublist jobs.runtimes :=
    List.Sublist.map _ (List.kerase_sublist node jobs.entries)
  exact fewer.count_le runtime

theorem runningPerRuntime_insert {jobs : JobMap ν ρ} {node : ν} (idle : node ∉ jobs) (started runtime : ρ) :
    runningPerRuntime (JobMap.runtimes (jobs.insert node started)) runtime =
      runningPerRuntime jobs.runtimes runtime + if started = runtime then 1 else 0 := by
  rw [runtimes_insert idle, runningPerRuntime, runningPerRuntime, List.count_cons]
  simp only [beq_iff_eq]

/-- The jobs of a map, told apart by their membership in another map, which they agree with. -/
theorem runningPerRuntime_le_of_kept {jobs others : JobMap ν ρ}
    (kept : ∀ job ∈ jobs.entries, job ∈ others.entries ∨ job.1 ∉ others) (runtime : ρ) :
    runningPerRuntime jobs.runtimes runtime ≤ runningPerRuntime others.runtimes runtime +
      ((jobs.entries.filter fun job => decide (job.1 ∉ others)).map Sigma.snd).count runtime := by
  have old : (jobs.entries.filter fun job => !decide (job.1 ∉ others)).Subperm others.entries := by
    refine List.subperm_of_subset ((List.NodupKeys.nodup jobs.nodupKeys).filter _) fun job member => ?_
    obtain ⟨here, known⟩ := List.mem_filter.mp member
    exact (kept job here).resolve_right (by simpa using known)
  obtain ⟨listed, same, among⟩ := old
  have counted := (among.map Sigma.snd).count_le runtime
  rw [(same.map Sigma.snd).count_eq] at counted
  have split := (List.filter_append_perm (fun job => decide (job.1 ∉ others)) jobs.entries).symm.map Sigma.snd
  have total := split.count_eq runtime
  rw [List.map_append, List.count_append] at total
  rw [runningPerRuntime, runtimes, total, runningPerRuntime, runtimes]
  omega

/-- A job that leaves makes way for one of its runtime. -/
theorem runningPerRuntime_erase_lt {jobs : JobMap ν ρ} {node : ν} {runtime : ρ} (found : jobs.lookup node = some runtime) :
    runningPerRuntime (JobMap.runtimes (jobs.erase node)) runtime < runningPerRuntime jobs.runtimes runtime := by
  obtain ⟨other, before, behind, _, shape, erased⟩ := List.exists_of_kerase (AList.mem_keys.mp (AList.lookup_isSome.mp (by rw [found]; rfl)))
  have here : (⟨node, other⟩ : Sigma fun _ : ν => ρ) ∈ jobs.entries := by
    rw [shape]
    exact List.mem_append_right _ List.mem_cons_self
  obtain rfl : runtime = other := Option.some.inj (found.symm.trans (List.mem_dlookup jobs.nodupKeys here))
  have left : (jobs.erase node).entries = before ++ behind := erased
  simp only [runningPerRuntime, runtimes, left, shape, List.map_append, List.map_cons, List.count_append, List.count_cons_self]
  omega

end JobMap

/-- A runtime with capacity is below its declared ceiling. -/
theorem lt_of_runtimeHasCapacity {ρ : Type} [DecidableEq ρ] {limits : Limits ρ} {holders held : List ρ}
    {runtime : ρ} (capacity : runtimeHasCapacity limits holders held runtime = true) {limit : Nat}
    (declared : limits.maxConcurrent runtime = some limit) : runningPerRuntime holders runtime < limit := by
  simp only [runtimeHasCapacity, declared] at capacity
  split_ifs at capacity
  exact of_decide_eq_true capacity

/-- What a pass takes is one more holder of a runtime that was below its ceiling. -/
theorem AdmissionPass.holders_take {ρ : Type} [DecidableEq ρ] {limits : Limits ρ} {held : List ρ} {pass reserved : AdmissionPass ρ}
    {runtime : ρ} (took : pass.take limits held runtime = some reserved) :
    (∀ other, runningPerRuntime reserved.holders other =
        runningPerRuntime pass.holders other + if runtime = other then 1 else 0) ∧
      ∀ limit ∈ limits.maxConcurrent runtime, runningPerRuntime pass.holders runtime < limit := by
  simp only [AdmissionPass.take] at took
  split_ifs at took with capacity
  cases took
  refine ⟨fun other => ?_, fun limit declared => lt_of_runtimeHasCapacity capacity declared⟩
  simp only [runningPerRuntime, List.count_append, List.count_singleton, beq_iff_eq]

namespace Scheduler

variable {ν ρ ε : Type} [DecidableEq ν] [DecidableEq ρ] {limits : Limits ρ} {s t : Scheduler ν ρ ε} {node : ν}

/-- No runtime has more live jobs than it declares. -/
def WithinRuntimes (limits : Limits ρ) (s : Scheduler ν ρ ε) : Prop :=
  ∀ runtime, ∀ limit ∈ limits.maxConcurrent runtime, runningPerRuntime s.running.runtimes runtime ≤ limit

omit [DecidableEq ν] in
/-- A step that starts no job. -/
theorem WithinRuntimes.of_le (within : s.WithinRuntimes limits)
    (fewer : ∀ runtime, runningPerRuntime t.running.runtimes runtime ≤ runningPerRuntime s.running.runtimes runtime) :
    t.WithinRuntimes limits :=
  fun runtime limit declared => (fewer runtime).trans (within runtime limit declared)

theorem WithinRuntimes.spawn (within : s.WithinRuntimes limits) (idle : node ∉ s.running) {started : ρ}
    (room : ∀ limit ∈ limits.maxConcurrent started, runningPerRuntime s.running.runtimes started < limit) :
    (s.spawn node started).WithinRuntimes limits := by
  intro runtime limit declared
  simp only [Scheduler.spawn, JobMap.runningPerRuntime_insert idle]
  have before := within runtime limit declared
  split_ifs with same
  · have below := room limit (same ▸ declared)
    rw [same] at below
    omega
  · omega

omit [DecidableEq ρ] in
@[simp] theorem spend_running (s : Scheduler ν ρ ε) (node : ν) : (s.spend node).running = s.running := by
  simp only [spend]
  split_ifs <;> rfl

/-! ## The dispatch pass -/

/-- The jobs the pass starts are among the holders it reserved. -/
private theorem WithinRuntimes.dispatchLoop {held : List ρ} {plan : List (Dispatch ν ρ)} {pass : AdmissionPass ρ}
    {dispatched : Nat} (within : s.WithinRuntimes limits) (distinct : (plan.map Dispatch.node).Nodup)
    (idle : ∀ dispatch ∈ plan, dispatch.node ∉ s.running)
    (counted : ∀ runtime, runningPerRuntime s.running.runtimes runtime ≤ runningPerRuntime pass.holders runtime) :
    (s.dispatchLoop limits held pass dispatched plan).WithinRuntimes limits := by
  induction plan generalizing s pass dispatched with
  | nil => exact within
  | cons dispatch rest ih =>
    obtain ⟨fresh, distinct⟩ := List.nodup_cons.mp distinct
    have later (other : Dispatch ν ρ) (member : other ∈ rest) : other.node ∉ s.running :=
      idle other (List.mem_cons_of_mem _ member)
    simp only [Scheduler.dispatchLoop]
    split_ifs with full
    · exact within
    · split
      · exact ih within distinct later counted
      · rename_i reserved took
        obtain ⟨reserves, room⟩ := AdmissionPass.holders_take took
        have free := idle dispatch List.mem_cons_self
        have more (runtime : ρ) : runningPerRuntime s.running.runtimes runtime ≤ runningPerRuntime reserved.holders runtime := by
          rw [reserves]
          exact (counted runtime).trans (Nat.le_add_right _ _)
        cases action : dispatch.action with
        | worker =>
          simp only [Scheduler.dispatchOne, action]
          refine ih (within.spawn free ?_) distinct ?_ fun runtime => ?_
          · intro limit declared
            exact (counted _).trans_lt (room limit declared)
          · intro other member running
            rcases (AList.mem_insert _).mp running with same | before
            · exact fresh (same ▸ List.mem_map_of_mem member)
            · exact later other member before
          · simp only [Scheduler.spawn, JobMap.runningPerRuntime_insert free, reserves]
            exact Nat.add_le_add_right (counted runtime) _
        | workerFails =>
          simp only [Scheduler.dispatchOne, action]
          exact ih within distinct later more
        | judge =>
          simp only [Scheduler.dispatchOne, action]
          exact ih within distinct later more

/-! ## Steps and runs -/

/-- The runtime has no ceiling or is below it. -/
def HasRoom (limits : Limits ρ) (s : Scheduler ν ρ ε) (runtime : ρ) : Prop :=
  ∀ limit ∈ limits.maxConcurrent runtime, runningPerRuntime s.running.runtimes runtime < limit

/-- A step keeps the ceilings when its auxiliary spawn has room. -/
theorem WithinRuntimes.step (within : s.WithinRuntimes limits) (admitted : s.Admitted limits)
    {label : Label ν ρ ε} (room : ∀ node kind runtime, label = .auxSpawn node kind runtime → s.HasRoom limits runtime)
    (taken : s.step limits label = some t) : t.WithinRuntimes limits := by
  cases label with
  | exit node =>
    simp only [Scheduler.step] at taken
    split_ifs at taken
    cases taken
    exact within
  | close node =>
    simp only [Scheduler.step] at taken
    split at taken
    · split_ifs at taken
      cases taken
      exact within.of_le fun runtime => s.running.runningPerRuntime_erase_le node runtime
    · cases taken
  | beginStalls =>
    simp only [Scheduler.step] at taken
    split_ifs at taken
    cases taken
    exact within
  | stall node =>
    simp only [Scheduler.step] at taken
    split_ifs at taken
    cases taken
    exact within.of_le fun runtime => s.running.runningPerRuntime_erase_le node runtime
  | endStall =>
    simp only [Scheduler.step] at taken
    split at taken <;> cases taken
    exact within
  | collect nodes =>
    simp only [Scheduler.step] at taken
    split_ifs at taken
    cases taken
    exact within
  | dispatch held plan =>
    simp only [Scheduler.step] at taken
    split at taken
    · rename_i nodes ready
      split_ifs at taken with valid
      cases taken
      refine WithinRuntimes.dispatchLoop (s := s) within valid.1 (fun dispatch member running => ?_) fun runtime => ?_
      · exact admitted.collected nodes ready _ (valid.2 dispatch member) (mem_slotHolders.mpr (.inl running))
      · simp only [admissionPass, admissionHold, runningPerRuntime, List.count_append]
        omega
    · cases taken
  | settlement move =>
    have kept : t.running = s.running := by
      cases move <;> simp only [Scheduler.step] at taken
      case microtask => split at taken <;> obtain ⟨_, _, rfl⟩ := Option.map_eq_some_iff.mp taken <;> rfl
      case enqueue => cases taken
      all_goals
        obtain ⟨_, _, rfl⟩ := Option.map_eq_some_iff.mp taken
        rfl
    exact within.of_le fun runtime => by rw [kept]
  | transition node status =>
    simp only [Scheduler.step] at taken
    split_ifs at taken
    cases taken
    exact within
  | auxAdmission node runtime held =>
    simp only [Scheduler.step] at taken
    split_ifs at taken <;> cases taken <;> exact within
  | auxSpawn node kind runtime =>
    simp only [Scheduler.step] at taken
    split_ifs at taken with enabled
    cases taken
    have idle := (admitted.of_acting enabled.1).1
    have spent : (s.spend node).WithinRuntimes limits := within.of_le fun _ => by rw [spend_running]
    refine spent.spawn (by rwa [spend_running]) ?_
    rw [spend_running]
    exact room node kind runtime rfl
  | revision node runtime held =>
    simp only [Scheduler.step] at taken
    split_ifs at taken with acting room
    · cases taken
      have idle := (admitted.of_acting acting).1
      have spent : (s.spend node).WithinRuntimes limits := within.of_le fun _ => by rw [spend_running]
      refine spent.spawn (by rwa [spend_running]) fun limit declared => ?_
      rw [spend_running]
      simp only [auxSpawnAdmission] at room
      split_ifs at room
      exact lt_of_runtimeHasCapacity room declared
    · cases taken
      exact within
  | cancel =>
    simp only [Scheduler.step] at taken
    split_ifs at taken
    cases taken
    exact fun runtime limit _ => Nat.zero_le limit

/-! ## The rooms that were seen -/

/-- Every room seen and not disturbed is still there. -/
def RoomsHeld (limits : Limits ρ) (s : Scheduler ν ρ ε × List (ν × ρ)) : Prop :=
  ∀ room ∈ s.2, s.1.HasRoom limits room.2

omit [DecidableEq ν] in
theorem HasRoom.of_le {runtime : ρ} (room : s.HasRoom limits runtime)
    (fewer : runningPerRuntime t.running.runtimes runtime ≤ runningPerRuntime s.running.runtimes runtime) :
    t.HasRoom limits runtime :=
  fun limit declared => fewer.trans_lt (room limit declared)

/-- A pass adds jobs of the nodes it takes only. -/
private theorem mem_running_dispatchLoop {held : List ρ} {plan : List (Dispatch ν ρ)} {pass : AdmissionPass ρ} {dispatched : Nat}
    {job : Sigma fun _ : ν => ρ} (member : job ∈ (s.dispatchLoop limits held pass dispatched plan).running.entries) :
    job ∈ s.running.entries ∨ ∃ dispatch ∈ plan, dispatch.node = job.1 := by
  induction plan generalizing s pass dispatched with
  | nil => exact .inl member
  | cons dispatch rest ih =>
    have later : (∃ other ∈ rest, other.node = job.1) → ∃ other ∈ dispatch :: rest, other.node = job.1 :=
      fun ⟨other, here, same⟩ => ⟨other, List.mem_cons_of_mem _ here, same⟩
    simp only [Scheduler.dispatchLoop] at member
    split_ifs at member
    · exact .inl member
    · split at member
      · exact (ih member).imp_right later
      · refine (ih member).elim (fun before => ?_) (fun found => .inr (later found))
        cases action : dispatch.action with
        | worker =>
          simp only [Scheduler.dispatchOne, action, Scheduler.spawn, AList.entries_insert] at before
          rcases List.mem_cons.mp before with rfl | kept
          · exact .inr ⟨dispatch, List.mem_cons_self, rfl⟩
          · exact .inl ((List.kerase_sublist _ _).subset kept)
        | workerFails => exact .inl (by simpa only [Scheduler.dispatchOne, action] using before)
        | judge => exact .inl (by simpa only [Scheduler.dispatchOne, action] using before)

/-- A job a step leaves in `running` was there, or joins for a node that had none. -/
private theorem running_kept (admitted : s.Admitted limits) {label : Label ν ρ ε} (taken : s.step limits label = some t)
    {job : Sigma fun _ : ν => ρ} (member : job ∈ t.running.entries) : job ∈ s.running.entries ∨ job.1 ∉ s.running := by
  have spawned {node : ν} {runtime : ρ} (acting : s.acting node = true)
      (here : job ∈ (s.running.insert node runtime).entries) : job ∈ s.running.entries ∨ job.1 ∉ s.running := by
    have idle := (admitted.of_acting acting).1
    rw [AList.entries_insert_of_notMem idle] at here
    rcases List.mem_cons.mp here with rfl | before
    · exact .inr idle
    · exact .inl before
  cases label with
  | exit node | beginStalls | collect nodes | transition node status =>
    simp only [Scheduler.step] at taken
    split_ifs at taken
    cases taken
    exact .inl member
  | close node =>
    simp only [Scheduler.step] at taken
    split at taken
    · split_ifs at taken
      cases taken
      exact .inl ((List.kerase_sublist _ _).subset member)
    · cases taken
  | stall node =>
    simp only [Scheduler.step] at taken
    split_ifs at taken
    cases taken
    exact .inl ((List.kerase_sublist _ _).subset member)
  | endStall =>
    simp only [Scheduler.step] at taken
    split at taken <;> cases taken
    exact .inl member
  | dispatch held plan =>
    simp only [Scheduler.step] at taken
    split at taken
    · rename_i nodes ready
      split_ifs at taken with valid
      cases taken
      refine (mem_running_dispatchLoop (s := s) member).imp_right ?_
      rintro ⟨dispatch, planned, same⟩ running
      exact admitted.collected nodes ready _ (valid.2 dispatch planned) (mem_slotHolders.mpr (.inl (same ▸ running)))
    · cases taken
  | settlement move =>
    cases move <;> simp only [Scheduler.step] at taken
    case microtask => split at taken <;> obtain ⟨_, _, rfl⟩ := Option.map_eq_some_iff.mp taken <;> exact .inl member
    case enqueue => cases taken
    all_goals
      obtain ⟨_, _, rfl⟩ := Option.map_eq_some_iff.mp taken
      exact .inl member
  | auxAdmission node runtime held =>
    simp only [Scheduler.step] at taken
    split_ifs at taken <;> cases taken <;> exact .inl member
  | auxSpawn node kind runtime =>
    simp only [Scheduler.step] at taken
    split_ifs at taken with enabled
    cases taken
    exact spawned enabled.1 (by simpa only [Scheduler.spawn, spend_running] using member)
  | revision node runtime held =>
    simp only [Scheduler.step] at taken
    split_ifs at taken with acting room
    · cases taken
      exact spawned acting (by simpa only [Scheduler.spawn, spend_running] using member)
    · cases taken
      exact .inl member
  | cancel =>
    simp only [Scheduler.step] at taken
    split_ifs at taken
    cases taken
    cases member

/-- The room of a runtime no job joins is kept. -/
theorem HasRoom.kept (admitted : s.Admitted limits) {label : Label ν ρ ε} (taken : s.step limits label = some t) {runtime : ρ}
    (undisturbed : runtime ∉ s.joined t) (room : s.HasRoom limits runtime) : t.HasRoom limits runtime := by
  refine room.of_le ?_
  have counted : runningPerRuntime t.running.runtimes runtime ≤
      runningPerRuntime s.running.runtimes runtime + (s.joined t).count runtime :=
    JobMap.runningPerRuntime_le_of_kept (fun _ => running_kept admitted taken) runtime
  rwa [List.count_eq_zero_of_not_mem undisturbed, Nat.add_zero] at counted

/-- The jobs that run or are settled are among the holders of the pass. -/
private def Counted (s : Scheduler ν ρ ε) (pass : AdmissionPass ρ) : Prop :=
  ∀ runtime, runningPerRuntime s.running.runtimes runtime + runningPerRuntime (JobMap.runtimes s.overlap.settling) runtime ≤
    runningPerRuntime pass.holders runtime

omit [DecidableEq ν] in
/-- A runtime the pass counts within its ceiling has room for each job of it that is settled. -/
private theorem Counted.hasRoom {pass : AdmissionPass ρ} (counted : s.Counted pass) {runtime : ρ}
    (below : ∀ limit ∈ limits.maxConcurrent runtime, runningPerRuntime pass.holders runtime ≤ limit)
    (settled : 0 < runningPerRuntime (JobMap.runtimes s.overlap.settling) runtime) : s.HasRoom limits runtime := by
  intro limit declared
  have within := below limit declared
  have both := counted runtime
  omega

section DispatchOne

variable {dispatch : Dispatch ν ρ} (free : dispatch.node ∉ s.slotHolders)

include free

/-- One dispatch adds the job it reserved, to one of the two. -/
private theorem Counted.dispatchOne {pass reserved : AdmissionPass ρ} (counted : s.Counted pass) {held : List ρ}
    (took : pass.take limits held dispatch.runtime = some reserved) : (s.dispatchOne dispatch).Counted reserved := by
  intro runtime
  obtain ⟨notRunning, notSettling⟩ := not_or.mp (mem_slotHolders.not.mp free)
  have both := counted runtime
  have reserves := (AdmissionPass.holders_take took).1 runtime
  cases action : dispatch.action <;> simp only [Scheduler.dispatchOne, action]
  case worker =>
    simp only [Scheduler.spawn, JobMap.runningPerRuntime_insert notRunning]
    omega
  case workerFails => omega
  case judge =>
    simp only [Overlap.settling_enqueue, JobMap.runningPerRuntime_insert notSettling]
    omega

/-- What it hands to the overlap is one more job of its runtime there. -/
private theorem settling_dispatchOne :
    (∀ runtime, runningPerRuntime (JobMap.runtimes s.overlap.settling) runtime ≤
        runningPerRuntime (JobMap.runtimes (s.dispatchOne dispatch).overlap.settling) runtime) ∧
      ∀ job ∈ (s.dispatchOne dispatch).overlap.settling.entries, job ∈ s.overlap.settling.entries ∨
        job.2 = dispatch.runtime ∧
          0 < runningPerRuntime (JobMap.runtimes (s.dispatchOne dispatch).overlap.settling) dispatch.runtime := by
  have notSettling := (not_or.mp (mem_slotHolders.not.mp free)).2
  cases action : dispatch.action <;> simp only [Scheduler.dispatchOne, action]
  case worker | workerFails => exact ⟨fun _ => le_rfl, fun _ => .inl⟩
  case judge =>
    simp only [Overlap.settling_enqueue, JobMap.runningPerRuntime_insert notSettling]
    refine ⟨fun _ => Nat.le_add_right _ _, fun job member => ?_⟩
    rw [AList.entries_insert_of_notMem notSettling] at member
    rcases List.mem_cons.mp member with rfl | before
    · exact .inr ⟨rfl, by simp⟩
    · exact .inl before

end DispatchOne

omit [DecidableEq ρ] in
/-- A node that holds a slot after one dispatch held it before, or is the dispatched one. -/
private theorem mem_slotHolders_dispatchOne {dispatch : Dispatch ν ρ} {other : ν}
    (holds : other ∈ (s.dispatchOne dispatch).slotHolders) : other ∈ s.slotHolders ∨ other = dispatch.node := by
  rw [mem_slotHolders] at holds ⊢
  cases action : dispatch.action <;> simp only [Scheduler.dispatchOne, action] at holds
  case worker =>
    rcases holds with running | settling
    · exact ((AList.mem_insert _).mp running).elim .inr fun before => .inl (.inl before)
    · exact .inl (.inr settling)
  case workerFails => exact .inl holds
  case judge =>
    rcases holds with running | settling
    · exact .inl (.inl running)
    · exact ((AList.mem_insert _).mp settling).elim .inr fun before => .inl (.inr before)

/-- The judges a pass hands to the overlap are counted by the pass, so their runtimes keep room for them. -/
private theorem hasRoom_dispatchLoop {held : List ρ} {plan : List (Dispatch ν ρ)} {pass : AdmissionPass ρ} {dispatched : Nat}
    (distinct : (plan.map Dispatch.node).Nodup) (free : ∀ dispatch ∈ plan, dispatch.node ∉ s.slotHolders)
    (counted : s.Counted pass) :
    (∀ runtime, (∀ limit ∈ limits.maxConcurrent runtime, runningPerRuntime pass.holders runtime ≤ limit) →
        0 < runningPerRuntime (JobMap.runtimes s.overlap.settling) runtime →
        (s.dispatchLoop limits held pass dispatched plan).HasRoom limits runtime) ∧
      ∀ job ∈ (s.dispatchLoop limits held pass dispatched plan).overlap.settling.entries, job ∈ s.overlap.settling.entries ∨
        (s.dispatchLoop limits held pass dispatched plan).HasRoom limits job.2 := by
  induction plan generalizing s pass dispatched with
  | nil => exact ⟨fun _ => counted.hasRoom, fun _ => .inl⟩
  | cons dispatch rest ih =>
    obtain ⟨fresh, distinct⟩ := List.nodup_cons.mp distinct
    have later (other : Dispatch ν ρ) (member : other ∈ rest) : other.node ∉ s.slotHolders :=
      free other (List.mem_cons_of_mem _ member)
    simp only [Scheduler.dispatchLoop]
    split_ifs with full
    · exact ⟨fun _ => counted.hasRoom, fun _ => .inl⟩
    split
    · exact ih distinct later counted
    · rename_i reserved took
      have idle := free dispatch List.mem_cons_self
      obtain ⟨reserves, room⟩ := AdmissionPass.holders_take took
      obtain ⟨grows, handed⟩ := settling_dispatchOne idle
      have apart (other : Dispatch ν ρ) (member : other ∈ rest) : other.node ∉ (s.dispatchOne dispatch).slotHolders :=
        fun holds => (mem_slotHolders_dispatchOne holds).elim (later other member)
          fun same => fresh (same ▸ List.mem_map_of_mem member)
      -- The pass reserved below the ceiling, so it is at most at the ceiling now.
      have within (runtime : ρ) (below : dispatch.runtime = runtime ∨
          ∀ limit ∈ limits.maxConcurrent runtime, runningPerRuntime pass.holders runtime ≤ limit) :
          ∀ limit ∈ limits.maxConcurrent runtime, runningPerRuntime reserved.holders runtime ≤ limit := by
        intro limit declared
        rw [reserves]
        split_ifs with same
        · subst same
          exact room limit declared
        · exact below.resolve_left same limit declared
      obtain ⟨keeps, shows⟩ := @ih (s.dispatchOne dispatch) reserved (dispatched + 1) distinct apart (counted.dispatchOne idle took)
      refine ⟨fun runtime below settled => keeps runtime (within runtime (.inr below)) (settled.trans_le (grows runtime)),
        fun job member => (shows job member).elim (fun before => ?_) .inr⟩
      rcases handed job before with old | ⟨same, settled⟩
      · exact .inl old
      · rw [same]
        exact .inr (keeps dispatch.runtime (within dispatch.runtime (.inl rfl)) settled)

/-- A room a step shows is there after it. -/
theorem hasRoom_of_seen (admitted : s.Admitted limits) (within : s.WithinRuntimes limits) {label : Label ν ρ ε}
    (taken : s.step limits label = some t) : ∀ room ∈ s.roomsSeen limits label t, t.HasRoom limits room.2 := by
  intro room member
  cases label with
  | auxAdmission node runtime held =>
    simp only [roomsSeen] at member
    split_ifs at member with room
    · obtain rfl := List.mem_singleton.mp member
      simp only [Scheduler.step, if_pos room] at taken
      split_ifs at taken
      cases taken
      simp only [auxSpawnAdmission] at room
      split_ifs at room
      exact fun limit declared => lt_of_runtimeHasCapacity room declared
    · cases member
  | close node =>
    simp only [Scheduler.step] at taken
    split at taken
    · rename_i runtime found
      split_ifs at taken
      cases taken
      simp only [roomsSeen, found, Option.toList_some, List.map_cons, List.map_nil, List.mem_singleton] at member
      subst member
      exact fun limit declared => (JobMap.runningPerRuntime_erase_lt found).trans_le (within _ limit declared)
    · cases taken
  | stall node =>
    simp only [Scheduler.step] at taken
    split_ifs at taken
    cases taken
    simp only [roomsSeen, List.mem_map, Option.mem_toList] at member
    obtain ⟨runtime, found, rfl⟩ := member
    exact fun limit declared => (JobMap.runningPerRuntime_erase_lt found).trans_le (within _ limit declared)
  | dispatch held plan =>
    simp only [roomsSeen, List.mem_map, List.mem_filter, decide_eq_true_eq] at member
    obtain ⟨job, ⟨member, fresh⟩, rfl⟩ := member
    simp only [Scheduler.step] at taken
    split at taken
    · rename_i nodes ready
      split_ifs at taken with valid
      cases taken
      have counted (runtime : ρ) : runningPerRuntime s.running.runtimes runtime +
          runningPerRuntime (JobMap.runtimes s.overlap.settling) runtime ≤
          runningPerRuntime (admissionPass limits s.running s.overlap.settling).holders runtime := by
        simp only [admissionPass, admissionHold, runningPerRuntime, List.count_append]
        omega
      have idle : ∀ dispatch ∈ plan, dispatch.node ∉ s.slotHolders :=
        fun dispatch planned => admitted.collected nodes ready _ (valid.2 dispatch planned)
      exact ((hasRoom_dispatchLoop valid.1 idle counted).2 job member).resolve_left
        fun old => fresh (AList.mem_keys.mpr (List.mem_map_of_mem old))
    · cases taken
  | _ => cases member

theorem RoomsHeld.step {rooms : List (ν × ρ)} (admitted : s.Admitted limits) (within : s.WithinRuntimes limits)
    (kept : RoomsHeld limits (s, rooms)) {label : Label ν ρ ε} (taken : s.step limits label = some t) :
    RoomsHeld limits (t, noteRooms limits s label t rooms) := by
  intro room member
  rcases List.mem_append.mp member with old | seen
  · obtain ⟨before, undisturbed⟩ := List.mem_filter.mp old
    exact (kept room before).kept admitted taken (of_decide_eq_true undisturbed)
  · exact hasRoom_of_seen admitted within taken room seen

omit [DecidableEq ν] in
/-- A runtime whose room is undisturbed, or that declares no ceiling, has room. -/
theorem RoomsHeld.hasRoom {rooms : List (ν × ρ)} (kept : RoomsHeld limits (s, rooms)) {node : ν} {kind : AuxSpawn} {runtime : ρ}
    (undisturbed : RoomUndisturbed (ε := ε) limits (s, rooms) (.auxSpawn node kind runtime)) : s.HasRoom limits runtime := by
  rcases undisturbed with unlimited | seen
  · intro limit declared
    rw [unlimited] at declared
    cases declared
  · exact kept (node, runtime) seen

/-- In every interleaving whose auxiliary spawns use a room they saw and no other job took, no runtime has more live
jobs than it declares. -/
theorem scheduler_withinRuntimes {status : ν → NodeStatus} {s : Scheduler ν ρ ε × List (ν × ρ)}
    (reach : (watchedMachine limits).Reach (RoomUndisturbed limits) (fun s => s.1 = create status ∧ s.2 = []) s) :
    s.1.WithinRuntimes limits := by
  have invariant : s.1.Admitted limits ∧ s.1.WithinRuntimes limits ∧ RoomsHeld limits s := by
    refine reach.invariant (fun s => s.1.Admitted limits ∧ s.1.WithinRuntimes limits ∧ RoomsHeld limits s) ?_ ?_
    · rintro ⟨_, _⟩ ⟨rfl, rfl⟩
      exact ⟨admitted_of_reach (.start rfl), fun runtime limit _ => Nat.zero_le limit, fun room member => by cases member⟩
    · rintro ⟨s, rooms⟩ label ⟨t, noted⟩ ⟨admitted, within, kept⟩ undisturbed watched
      obtain ⟨taken, rfl⟩ : s.step limits label = some t ∧ noted = noteRooms limits s label t rooms :=
        Machine.withHistory_step.mp watched
      refine ⟨admitted.step taken, within.step admitted ?_ taken, kept.step admitted within taken⟩
      rintro node kind runtime rfl
      exact kept.hasRoom undisturbed
  exact invariant.2.1

/-- Two slots, and a judge runtime that declares one. -/
def oneJudge : Limits String := ⟨2, fun runtime => if runtime = "judge" then some 1 else none⟩

/-- Both workers closed, the second node's judge waits to be retried when the first node's judge starts:
the closed judge is in `settling`, where the admission of the first does not look. -/
def crowdedJudge : List (Label Bool String String) :=
  [.beginStalls, .collect [false, true], .dispatch [] [⟨false, "worker", .worker⟩, ⟨true, "worker", .worker⟩],
    .exit true, .close true, .settlement (.resume true), .transition true .pending, .auxAdmission true "judge" [],
    .auxSpawn true .firstJudge "judge", .settlement (.leave true none), .settlement .microtask,
    .exit false, .exit true, .close false, .close true,
    .settlement (.resume false), .transition false .pending, .auxAdmission false "judge" [],
    .auxSpawn false .firstJudge "judge", .settlement (.leave false none),
    .settlement (.resume true), .auxSpawn true .judgeRetry "judge"]

/-- Two live judges on the runtime that declares one. -/
theorem withinRuntimes_exceeded : ∃ s : Scheduler Bool String String,
    (machine oneJudge).Reach Machine.free (· = create fun _ => .pending) s ∧ ¬ s.WithinRuntimes oneJudge ∧
      runningPerRuntime s.running.runtimes "judge" = 2 ∧ s.live = [false, true] := by
  obtain ⟨s, ran, two, live⟩ : ∃ s, (machine oneJudge).replay? Machine.free (create fun _ => .pending)
      crowdedJudge = some s ∧ runningPerRuntime s.running.runtimes "judge" = 2 ∧ s.live = [false, true] :=
    Machine.exists_replay (fun s => runningPerRuntime s.running.runtimes "judge" = 2 ∧ s.live = [false, true])
      (fun _ _ held => held) (by decide)
  refine ⟨s, .of_replay rfl _ ran, fun within => ?_, two, live⟩
  have bound := within "judge" 1 rfl
  omega

/-- The same two judges, one after the other. -/
theorem scheduler_withinRuntimes_two : ∃ s : Scheduler Bool String String × List (Bool × String),
    (watchedMachine oneJudge).replay? (RoomUndisturbed oneJudge) (create fun _ => .pending, []) (crowdedJudge.take 19) =
        some s ∧ runningPerRuntime s.1.running.runtimes "judge" = 1 ∧ s.1.WithinRuntimes oneJudge := by
  obtain ⟨s, ran, one⟩ : ∃ s, (watchedMachine oneJudge).replay? (RoomUndisturbed oneJudge) (create fun _ => .pending, [])
      (crowdedJudge.take 19) = some s ∧ runningPerRuntime s.1.running.runtimes "judge" = 1 :=
    Machine.exists_replay (fun s => runningPerRuntime s.1.running.runtimes "judge" = 1) (fun _ _ held => held) (by decide)
  exact ⟨s, ran, one, scheduler_withinRuntimes (.of_replay ⟨rfl, rfl⟩ _ ran)⟩

end Scheduler

end Faberun
