import Faberun.Soundness.Gate

/-! # A node never has two providers

Where the start tokens can be read and no write fails between a release and its job, the launch whose gate runs a
provider, or can still start one, is the last recorded invocation of the node. A controller that comes after recovers it
before it dispatches again.
-/

namespace Faberun.Gate

variable {n m : Node} {label : Label} {id : Nat}

/-- Its gate runs a provider, or can still find the release file. -/
def Launch.Hot (l : Launch) : Prop := ¬l.gate.ended ∧ (l.release = true ∨ l.gate.running)

/-- Such a launch is the node's last recorded one, and a controller that starts now takes it for an orphan. -/
structure Node.Held (n : Node) (id : Nat) : Prop where
  last : n.invocations.getLast? = some id
  active : (n.launches id).closed = false
  unresolved : (n.launches id).operationNeedsRecovery = true
  status : n.status ≠ .settled
  phase : n.phase = none ∨ n.phase = some .resuming ∨ n.phase = some (.released id) ∨ n.phase = some (.watching id)

/-- The launch a controller has not released yet. -/
structure Node.Fresh (n : Node) (id : Nat) : Prop where
  release : (n.launches id).release = false
  held : ¬(n.launches id).gate.running
  active : (n.launches id).closed = false
  settlement : (n.launches id).settlement = none
  status : n.status ≠ .settled

structure Node.Single (n : Node) : Prop where
  held : ∀ id, (n.launches id).Hot → n.Held id
  token : ∀ id, ¬(n.launches id).gate.ended → (n.launches id).token = true
  fresh : ∀ phase id, n.phase = some phase → phase.unreleased? = some id → n.Fresh id
  last : ∀ id, n.phase = some (.persisted id) ∨ n.phase = some (.intended id) → n.invocations.getLast? = some id
  whole : ∀ id, n.phase ≠ some (.torn id)

theorem Process.Moves.hot {l : Launch} {q : Process} (moved : Process.Moves l.release l.gate q)
    (hot : ({ l with gate := q } : Launch).Hot) : l.Hot := by
  obtain ⟨goes, past⟩ := hot
  refine ⟨fun ended => goes (moved.ended ended), ?_⟩
  rcases past with released | running
  · exact .inl released
  · rcases moved.running running with running | ⟨released, -⟩
    · exact .inr running
    · exact .inl released

theorem Node.Held.orphan (held : n.Held id) : n.orphan = some id := by
  obtain ⟨last, active, -, status, -⟩ := held
  cases now : n.status with
  | settled => exact absurd now status
  | running => simp [Node.orphan, now, last]
  | pending => simp [Node.orphan, now, last, active]

/-- A classified operation still needs its recovery. -/
theorem Launch.needs_settleUnresolved {l : Launch} (needs : l.operationNeedsRecovery = true) :
    (l.settleUnresolved "unknown_effect").operationNeedsRecovery = true := by
  unfold Launch.settleUnresolved
  split_ifs
  · cases given : l.settlement <;>
      simp [Launch.settle, Launch.operationNeedsRecovery, given, Operations.settledStatus, Operations.recoveryStatuses,
        Operations.unresolvedOperationStatuses]
  · exact needs

/-- A controller at work before the release has no launch that runs or can run. -/
theorem Node.Single.cold (single : n.Single) {phase : Phase} (here : n.phase = some phase)
    (before : phase ≠ .resuming ∧ (∀ id, phase ≠ .released id) ∧ ∀ id, phase ≠ .watching id) (id : Nat) :
    ¬(n.launches id).Hot := by
  intro hot
  obtain ⟨resuming, released, watching⟩ := before
  rcases (single.held id hot).phase with there | there | there | there <;> rw [here] at there
  · cases there
  · exact resuming (Option.some.inj there)
  · exact released id (Option.some.inj there)
  · exact watching id (Option.some.inj there)

/-- No launch's process, release file or token has changed. -/
def Node.Quiet (n m : Node) : Prop :=
  ∀ id, (m.launches id).gate = (n.launches id).gate ∧ (m.launches id).release = (n.launches id).release ∧
    (m.launches id).token = (n.launches id).token

theorem Node.Quiet.of_set {at' : Nat} {l : Launch} (launches : m.launches = Function.update n.launches at' l)
    (gate : l.gate = (n.launches at').gate) (release : l.release = (n.launches at').release)
    (token : l.token = (n.launches at').token) : n.Quiet m := by
  intro id
  rw [launches]
  exact forall_set (P := fun id l => l.gate = (n.launches id).gate ∧ l.release = (n.launches id).release ∧
    l.token = (n.launches id).token) ⟨gate, release, token⟩ (fun _ => ⟨rfl, rfl, rfl⟩) id

theorem Node.Quiet.of_same (launches : m.launches = n.launches) : n.Quiet m := fun id => by
  rw [launches]
  exact ⟨rfl, rfl, rfl⟩

theorem Node.Quiet.hot (quiet : n.Quiet m) (hot : (m.launches id).Hot) : (n.launches id).Hot := by
  obtain ⟨gate, release, -⟩ := quiet id
  simpa only [Launch.Hot, gate, release] using hot

theorem Node.Quiet.token (quiet : n.Quiet m) (single : n.Single) (id : Nat) (alive : ¬(m.launches id).gate.ended) :
    (m.launches id).token = true := by
  obtain ⟨gate, -, token⟩ := quiet id
  rw [token]
  exact single.token id (gate ▸ alive)

/-- Settling changes a settlement only. -/
theorem Launch.settleUnresolved_eq (l : Launch) (status : String) :
    ∃ settlement, l.settleUnresolved status = { l with settlement := settlement } := by
  unfold Launch.settleUnresolved
  split_ifs
  · exact ⟨_, rfl⟩
  · exact ⟨l.settlement, rfl⟩

/-- With its launches unchanged but for records, a node without a launch before its release is left to know its hot one. -/
theorem Node.Single.of_quiet (single : n.Single) (quiet : n.Quiet m) (held : ∀ id, (n.launches id).Hot → m.Held id)
    (phase : m.phase = none ∨ ∃ phase, m.phase = some phase ∧ phase.unreleased? = none ∧ ∀ id, phase ≠ .torn id) :
    m.Single := by
  refine ⟨fun id hot => held id (quiet.hot hot), quiet.token single, ?_, ?_, ?_⟩ <;>
    rcases phase with none | ⟨phase, here, before, whole⟩
  · intro _ _ now
    exact absurd (none.symm.trans now) (by simp)
  · intro _ _ now launch
    obtain rfl := Option.some.inj (here.symm.trans now)
    exact absurd (before.symm.trans launch) (by simp)
  · rintro _ (now | now) <;> exact absurd (none.symm.trans now) (by simp)
  · rintro _ (now | now) <;> obtain rfl := Option.some.inj (here.symm.trans now) <;> cases before
  · intro _ now
    exact absurd (none.symm.trans now) (by simp)
  · intro id now
    exact whole id (Option.some.inj (here.symm.trans now))

theorem single_step (single : n.Single) (steady : label.steady = true) (taken : step n label = some m) : m.Single := by
  cases label <;> simp only [step] at taken
  case tear | lose => cases steady
  case spawn read =>
    split_ifs at taken with free
    obtain rfl := Option.some.inj taken
    obtain ⟨here, status⟩ := free
    have self : (n.spawn read).launches n.count = .spawned n.generation read := Node.set_launches_self ..
    refine ⟨?_, ?_, ?_, ?_, ?_⟩
    · intro id hot
      exact absurd hot (forall_set (P := fun _ l => ¬l.Hot) (by simp [Launch.Hot, Launch.spawned, Process.running])
        (single.cold here (by simp)) id)
    · exact forall_set (P := fun _ l => ¬l.gate.ended → l.token = true) (fun _ => steady) single.token
    · rintro _ _ ⟨⟩ ⟨⟩
      constructor <;> simp [self, Launch.spawned, Process.running]
      exact status
    · rintro _ (⟨⟨⟩⟩ | ⟨⟨⟩⟩)
    · rintro _ ⟨⟩
  case persist =>
    split at taken
    case h_2 => cases taken
    rename_i at' here
    obtain rfl := Option.some.inj taken
    refine ⟨fun id hot => absurd hot (single.cold here (by simp) id), single.token, ?_, ?_, ?_⟩
    · rintro _ _ ⟨⟩ ⟨⟩
      obtain ⟨release, held, active, settlement, status⟩ := single.fresh _ _ here rfl
      exact ⟨release, held, active, settlement, status⟩
    · rintro _ (⟨⟨⟩⟩ | ⟨⟨⟩⟩)
      exact List.getLast?_concat
    · rintro _ ⟨⟩
  case intend =>
    split at taken
    case h_2 => cases taken
    rename_i at' here
    obtain rfl := Option.some.inj taken
    obtain ⟨release, held, active, settlement, status⟩ := single.fresh _ _ here rfl
    have quiet : n.Quiet ((n.set at' { n.launches at' with intent := true }).go (.intended at')) := .of_set rfl rfl rfl rfl
    refine ⟨fun id hot => absurd (quiet.hot hot) (single.cold here (by simp) id), quiet.token single, ?_, ?_, ?_⟩
    · rintro _ _ ⟨⟩ ⟨⟩
      constructor <;> simp only [Node.go, Node.set_launches_self]
      all_goals assumption
    · rintro _ (⟨⟨⟩⟩ | ⟨⟨⟩⟩)
      exact single.last at' (.inl here)
    · rintro _ ⟨⟩
  case release =>
    split at taken
    case h_2 => cases taken
    rename_i at' here
    obtain rfl := Option.some.inj taken
    obtain ⟨release, held, active, settlement, status⟩ := single.fresh _ _ here rfl
    refine ⟨?_, ?_, ?_, ?_, ?_⟩
    · intro id hot
      have same : id = at' := by
        by_contra ne
        have before : (n.launches id).Hot := by simpa only [Node.go, Node.set_launches_ne ne] using hot
        exact single.cold here (by simp) id before
      subst same
      refine ⟨single.last id (.inr here), ?_, ?_, status, .inr (.inr (.inl rfl))⟩ <;>
        simp only [Node.go, Node.set_launches_self, Launch.operationNeedsRecovery, active, settlement, Option.all_none]
    · exact forall_set (P := fun _ l => ¬l.gate.ended → l.token = true) (single.token at') single.token
    · rintro _ _ ⟨⟩ ⟨⟩
    · rintro _ (⟨⟨⟩⟩ | ⟨⟨⟩⟩)
    · rintro _ ⟨⟩
  case run =>
    split at taken
    case h_2 => cases taken
    rename_i at' here
    obtain rfl := Option.some.inj taken
    refine single.of_quiet (.of_same rfl) ?_ (.inr ⟨_, rfl, rfl, by simp⟩)
    intro id hot
    obtain ⟨last, active, unresolved, -, phase⟩ := single.held id hot
    have same : id = at' := by simpa [here, eq_comm] using phase
    exact ⟨last, active, unresolved, by simp, .inr (.inr (.inr (same ▸ rfl)))⟩
  case clean =>
    split at taken
    case h_4 torn => exact absurd torn (single.whole _)
    case h_5 => cases taken
    all_goals
      rename_i at' here
      obtain rfl := Option.some.inj taken
      have held := (single.fresh _ at' here rfl).held
      refine ⟨?_, ?_, ?_, ?_, ?_⟩
      · intro id hot
        exact absurd hot (forall_set (P := fun _ l => ¬l.Hot) (by simp [Launch.Hot, held]) (single.cold here (by simp)) id)
      · exact forall_set (P := fun _ l => ¬l.gate.ended → l.token = true) (single.token at') single.token
      · rintro _ _ ⟨⟩ ⟨⟩
      · rintro _ (⟨⟨⟩⟩ | ⟨⟨⟩⟩)
      · rintro _ ⟨⟩
  case fail settles =>
    split at taken
    case h_2 => cases taken
    rename_i at' here
    obtain rfl := Option.some.inj taken
    refine single.of_quiet ?_ (fun id hot => absurd hot (single.cold here (by simp) id)) (.inr ⟨_, rfl, rfl, by simp⟩)
    obtain ⟨settlement, same⟩ := (n.launches at').settleUnresolved_eq "failed"
    cases settles with
    | false => exact .of_set rfl rfl rfl rfl
    | true =>
      refine .of_set rfl ?_ ?_ ?_ <;> simp only [if_true, same]
  case close status next =>
    split at taken
    case h_2 => cases taken
    rename_i at' here
    split_ifs at taken with exited
    obtain rfl := Option.some.inj taken
    refine single.of_quiet (.of_set rfl rfl rfl rfl) ?_ (.inr ⟨_, rfl, rfl, by simp⟩)
    intro id hot
    have same : id = at' := by simpa [here, eq_comm] using (single.held id hot).phase
    exact absurd (.inr (same ▸ exited)) hot.1
  case die | resume =>
    split_ifs at taken with alive
    obtain rfl := Option.some.inj taken
    refine single.of_quiet (.of_same rfl) ?_ (by simp [Node.go, Phase.unreleased?])
    intro id hot
    obtain ⟨last, active, unresolved, status, -⟩ := single.held id hot
    exact ⟨last, active, unresolved, status, by simp [Node.go]⟩
  case classify =>
    split_ifs at taken with resuming
    obtain ⟨at', orphan, rfl⟩ := Option.map_eq_some_iff.mp taken
    obtain ⟨settlement, same⟩ := (n.launches at').settleUnresolved_eq "unknown_effect"
    refine single.of_quiet ?_ ?_ (.inr ⟨_, resuming, rfl, by simp⟩)
    · refine .of_set rfl ?_ ?_ ?_ <;> simp only [same]
    · intro id hot
      obtain ⟨last, active, unresolved, status, phase⟩ := single.held id hot
      refine ⟨last, ?_, ?_, status, phase⟩
      · exact forall_set (P := fun id l => (n.launches id).closed = false → l.closed = false) (by simp [same])
          (fun _ active => active) id active
      · exact forall_set (P := fun id l => (n.launches id).operationNeedsRecovery = true → l.operationNeedsRecovery = true)
          Launch.needs_settleUnresolved (fun _ unresolved => unresolved) id unresolved
  case recover status next =>
    split_ifs at taken with resuming
    have cold (id : Nat) (hot : (n.launches id).Hot) : m.Held id := by
      have alive : (n.launches id).gate.stage ≠ .exited := fun exited => hot.1 (.inr exited)
      have owned : (n.launches id).owned = true := by simp [Launch.owned, alive, single.token id hot.1]
      simp [Node.recover, (single.held id hot).orphan, owned] at taken
    simp only [Node.recover] at taken
    split at taken
    · obtain rfl := Option.some.inj taken
      exact single.of_quiet (.of_same rfl) cold (.inr ⟨_, rfl, rfl, by simp⟩)
    · split_ifs at taken with owned
      obtain rfl := Option.some.inj taken
      exact single.of_quiet (.of_set rfl rfl rfl rfl) cold (.inr ⟨_, rfl, rfl, by simp⟩)
  case act at' act =>
    obtain ⟨gate, took, rfl⟩ := Option.map_eq_some_iff.mp taken
    have moved := Process.moves_of_step took
    have hot (id : Nat) : ((n.set at' { n.launches at' with gate := gate }).launches id).Hot → (n.launches id).Hot :=
      forall_set (P := fun id l => l.Hot → (n.launches id).Hot) moved.hot (fun _ hot => hot) id
    have same (id : Nat) : ∃ after, (n.set at' { n.launches at' with gate := gate }).launches id =
        { n.launches id with gate := after } ∧
        (Process.Moves (n.launches id).release (n.launches id).gate after ∨ after = (n.launches id).gate) :=
      forall_set (P := fun id l => ∃ after, l = { n.launches id with gate := after } ∧
        (Process.Moves (n.launches id).release (n.launches id).gate after ∨ after = (n.launches id).gate))
        ⟨gate, rfl, .inl moved⟩ (fun _ => ⟨_, rfl, .inr rfl⟩) id
    refine ⟨?_, ?_, ?_, single.last, single.whole⟩
    · intro id now
      obtain ⟨last, active, unresolved, status, phase⟩ := single.held id (hot id now)
      obtain ⟨after, same, -⟩ := same id
      exact ⟨last, by rw [same]; exact active, by rw [same]; exact unresolved, status, phase⟩
    · intro id alive
      obtain ⟨after, same, moved | rfl⟩ := same id <;> rw [same] at alive ⊢
      · exact single.token id fun ended => alive (moved.ended ended)
      · exact single.token id alive
    · intro phase id here launch
      obtain ⟨release, held, active, settlement, status⟩ := single.fresh phase id here launch
      obtain ⟨after, same, moved⟩ := same id
      constructor <;> (try rw [same]) <;> try assumption
      intro past
      rcases moved with moved | rfl
      · rcases moved.running past with before | ⟨released, -⟩
        · exact held before
        · exact absurd released (by simp [release])
      · exact held past
  case remove =>
    obtain rfl := Option.some.inj taken
    obtain ⟨held, token, fresh, last, whole⟩ := single
    refine ⟨?_, token, ?_, last, whole⟩
    · intro id hot
      obtain ⟨last, active, unresolved, status, phase⟩ := held id hot
      exact ⟨last, active, unresolved, status, phase⟩
    · intro phase id here launch
      obtain ⟨release, held, active, settlement, status⟩ := fresh phase id here launch
      exact ⟨release, held, active, settlement, status⟩

theorem created_single : Node.created.Single where
  held _ hot := absurd (.inr rfl) hot.1
  token _ alive := absurd (.inr rfl) alive
  fresh phase _ here launch := by
    obtain rfl := Option.some.inj here
    cases launch
  last _ here := by rcases here with here | here <;> cases here
  whole _ here := by cases here

theorem Launch.Hot.of_live {l : Launch} (live : l.gate.live = true) : l.Hot := by
  have holding : l.gate.stage = .holding := of_decide_eq_true live
  exact ⟨by simp [Process.ended, holding], .inr (.inr (.inl holding))⟩

/-- In every run in which the start tokens are read and no write fails between a release and its job, with controllers
dying anywhere: the node never has two providers. The one it has is its last recorded invocation, its operation still
needs a recovery, and a controller that resumes the run takes it for its orphan and does not come to another dispatch
before its gate is gone. -/
theorem one_provider (reach : machine.Reach (fun _ label => label.steady = true) (fun n => n = .created) n) :
    (∀ id other, (n.launches id).gate.live = true → (n.launches other).gate.live = true → id = other) ∧
    (∀ id, (n.launches id).gate.live = true → n.orphan = some id ∧ (n.launches id).closed = false ∧
      (n.launches id).operationNeedsRecovery = true ∧ ∀ status next, step n (.recover status next) = none) ∧
    ∀ token m, step n (.spawn token) = some m → ∀ id, (m.launches id).gate.live = false := by
  have single : n.Single := reach.invariant Node.Single (by rintro _ rfl; exact created_single)
    fun _ _ _ single steady taken => single_step single steady taken
  refine ⟨fun id other live also => ?_, fun id live => ?_, fun token m taken id => ?_⟩
  · have last := (single.held id (.of_live live)).last
    exact Option.some.inj (last.symm.trans (single.held other (.of_live also)).last)
  · have held := single.held id (.of_live live)
    have holding : (n.launches id).gate.stage = .holding := of_decide_eq_true live
    have owned : (n.launches id).owned = true := by
      simp [Launch.owned, holding, single.token id (by simp [Process.ended, holding])]
    refine ⟨held.orphan, held.active, held.unresolved, fun status next => ?_⟩
    simp [step, Node.recover, held.orphan, owned]
  · simp only [step] at taken
    split_ifs at taken with free
    obtain rfl := Option.some.inj taken
    refine forall_set (P := fun _ l => l.gate.live = false) rfl (fun id => ?_) id
    cases live : (n.launches id).gate.live with
    | false => rfl
    | true => exact absurd (.of_live live) (single.cold free.1 (by simp) id)

/-- A controller dies while its provider runs, and another resumes the run. -/
def resumedBeside : List Label :=
  [.spawn true, .persist, .intend, .release, .run, .act 0 .askParent, .act 0 .askDirectory, .act 0 .askRelease,
    .act 0 (.start true), .die, .resume, .classify]

theorem one_provider_resumed :
    ∃ n, machine.replay? (fun _ label => label.steady = true) .created resumedBeside = some n ∧
      (n.launches 0).gate.live = true ∧ n.orphan = some 0 ∧ ∀ status next, step n (.recover status next) = none :=
  Machine.exists_replay (fun n => (n.launches 0).gate.live = true)
    (fun n ran live => by
      obtain ⟨orphan, -, -, refused⟩ := (one_provider (.of_replay rfl _ ran)).2.1 0 live
      exact ⟨live, orphan, refused⟩)
    (by decide)

end Faberun.Gate
