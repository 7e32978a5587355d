import Faberun.Model.Engine.Gate

/-! # No provider runs unrecorded, or for long without its controller

However the writes of the controllers, the steps of the gates and the deaths interleave: a gate starts a provider at most
once, and only after its invocation and its intent are on disk; one whose controller died before the release never starts
any; one whose controller died after it is stopped within five steps of its own.
-/

namespace Faberun.Gate

variable {n m : Node} {label : Label} {id : Nat}

/-! ## What a gate's step does -/

namespace Process

variable {parentAlive directory release : Bool} {p q : Process} {act : Act}

/-- The timer runs. -/
def early (p : Process) : Prop := p.stage = .polling ∨ p.stage = .sawParent ∨ p.stage = .sawDirectory

/-- It found the release file and has not exited. -/
def running (p : Process) : Prop := p.stage = .opening ∨ p.stage = .holding ∨ p.stage = .finished

/-- It starts no provider any more. -/
def ended (p : Process) : Prop := p.stage = .drained ∨ p.stage = .exited

/-- The ways a gate goes on. -/
inductive Moves (release : Bool) (p q : Process) : Prop
  | ends : q.ended → q.started = p.started → Moves release p q
  | stays : q.stage = p.stage → q.started = p.started →
      (p.watched = true ∨ p.killing = true → q.watched = true ∨ q.killing = true) → Moves release p q
  | polls : p.early → q.early → q.started = p.started → Moves release p q
  | finds : release = true → p.stage = .sawDirectory → q.stage = .opening → q.started = p.started → Moves release p q
  | starts : p.stage = .opening → q.stage = .holding → q.started = p.started + 1 → q.watched = true → Moves release p q
  | closes : p.stage = .holding → q.stage = .finished → q.started = p.started → Moves release p q

theorem moves_of_step (taken : p.step parentAlive directory release act = some q) : Moves release p q := by
  cases act <;> simp only [step] at taken
  case askParent =>
    split_ifs at taken with here alive <;> obtain rfl := Option.some.inj taken
    · exact .polls (.inl here) (.inr (.inl rfl)) rfl
    · exact .ends (.inl rfl) rfl
  case askDirectory =>
    split_ifs at taken with here there <;> obtain rfl := Option.some.inj taken
    · exact .polls (.inr (.inl here)) (.inr (.inr rfl)) rfl
    · exact .ends (.inl rfl) rfl
  case askRelease =>
    split_ifs at taken with here found <;> obtain rfl := Option.some.inj taken
    · exact .finds found here rfl rfl
    · exact .polls (.inr (.inr here)) (.inl rfl) rfl
  case start opened =>
    split_ifs at taken with here <;> obtain rfl := Option.some.inj taken
    · exact .starts here rfl rfl rfl
    · exact .ends (.inr rfl) rfl
  case watch =>
    split_ifs at taken <;> obtain rfl := Option.some.inj taken
    · exact .stays rfl rfl id
    · exact .stays rfl rfl fun _ => .inr rfl
  case providerCloses =>
    split_ifs at taken with here
    obtain rfl := Option.some.inj taken
    exact .closes here rfl rfl
  case terminated =>
    split_ifs at taken
    obtain rfl := Option.some.inj taken
    exact .stays rfl rfl fun _ => .inr rfl
  case killGroup | leave | groupKilled =>
    split_ifs at taken
    obtain rfl := Option.some.inj taken
    exact .ends (.inr rfl) rfl

/-- It starts one provider at most, and one that runs is watched or about to be killed. -/
structure Sound (p : Process) : Prop where
  once : p.started ≤ 1
  fresh : p.early ∨ p.stage = .opening → p.started = 0
  watched : p.stage = .holding → p.watched = true ∨ p.killing = true

theorem Sound.step (sound : p.Sound) (moved : Moves release p q) : q.Sound := by
  obtain ⟨once, fresh, watched⟩ := sound
  cases moved with
  | ends ended same =>
    refine ⟨same ▸ once, ?_, ?_⟩ <;> rcases ended with there | there <;> simp [early, there]
  | stays here same held =>
    exact ⟨same ▸ once, by simpa only [early, here, same] using fresh, fun there => held (watched (here ▸ there))⟩
  | polls before after same =>
    refine ⟨same ▸ once, fun _ => same ▸ fresh (.inl before), fun there => ?_⟩
    rcases after with after | after | after <;> cases there.symm.trans after
  | finds _ before after same =>
    exact ⟨same ▸ once, fun _ => same ▸ fresh (.inl (.inr (.inr before))), fun there => by cases there.symm.trans after⟩
  | starts before after count watch =>
    have none := fresh (.inr before)
    exact ⟨by omega, by simp [early, after], fun _ => .inl watch⟩
  | closes before after same => exact ⟨same ▸ once, by simp [early, after], by simp [after]⟩

/-- Past the release, the release file was found. -/
theorem Moves.running (moved : Moves release p q) (past : q.running) : p.running ∨ release = true ∧ ¬p.ended := by
  cases moved with
  | ends ended _ => rcases ended with there | there <;> simp [Process.running, there] at past
  | stays here _ _ => exact .inl (by simpa only [Process.running, here] using past)
  | polls _ after _ => rcases after with there | there | there <;> simp [Process.running, there] at past
  | finds found before _ _ => exact .inr ⟨found, by simp [ended, before]⟩
  | starts before _ _ _ => exact .inl (.inl before)
  | closes before _ _ => exact .inl (.inr (.inl before))

theorem Moves.ended (moved : Moves release p q) (ended : p.ended) : q.ended := by
  cases moved with
  | ends after _ => exact after
  | stays here _ _ => simpa only [Process.ended, here] using ended
  | polls before _ _ =>
    rcases before with before | before | before <;> simp [Process.ended, before] at ended
  | finds _ before _ _ | starts before _ _ _ | closes before _ _ => simp [Process.ended, before] at ended

/-- A provider is started past the release. -/
theorem Moves.started (moved : Moves release p q) : q.started = p.started ∨ p.running := by
  cases moved with
  | ends _ same | stays _ same _ | polls _ _ same | finds _ _ _ same | closes _ _ same => exact .inl same
  | starts before _ _ _ => exact .inr (.inl before)

end Process

/-! ## Every provider is accounted for -/

/-- The launch a phase is about. -/
def Phase.launch? : Phase → Option Nat
  | .resuming | .idle => none
  | .spawned id | .persisted id | .intended id | .released id | .watching id | .torn id | .thrown id => some id

@[simp] theorem Node.set_launches_self (n : Node) (id : Nat) (l : Launch) : (n.set id l).launches id = l :=
  Function.update_self ..

theorem Node.set_launches_ne {n : Node} {id other : Nat} {l : Launch} (ne : other ≠ id) :
    (n.set id l).launches other = n.launches other :=
  Function.update_of_ne ne ..

/-- Every launch of an edited node. -/
theorem forall_set {P : Nat → Launch → Prop} {at' : Nat} {l : Launch} (here : P at' l)
    (others : ∀ id, P id (n.launches id)) (id : Nat) : P id (Function.update n.launches at' l id) := by
  rw [Function.update_apply]
  split_ifs with same
  · exact same ▸ here
  · exact others id

/-- A provider or a release file stands behind an intent, and an intent behind a record. -/
structure Launch.Accounted (invocations : List Nat) (id : Nat) (l : Launch) : Prop where
  sound : l.gate.Sound
  intended : 0 < l.gate.started ∨ l.gate.running ∨ l.release = true → l.intent = true
  recorded : l.intent = true → id ∈ invocations

structure Node.Accounted (n : Node) : Prop where
  launches : ∀ id, (n.launches id).Accounted n.invocations id
  parents : ∀ id, id < n.count → (n.launches id).parent ≤ n.generation
  current : ∀ phase id, n.phase = some phase → phase.launch? = some id →
    id < n.count ∧ (n.launches id).parent = n.generation
  persisted : ∀ id, n.phase = some (.persisted id) → id ∈ n.invocations
  intended : ∀ id, n.phase = some (.intended id) → (n.launches id).intent = true

theorem Launch.Accounted.spawned {invocations : List Nat} {id parent : Nat} {token : Bool} :
    (Launch.spawned parent token).Accounted invocations id where
  sound := ⟨Nat.zero_le _, fun _ => rfl, by simp [Launch.spawned]⟩
  intended := by simp [Launch.spawned, Process.running]
  recorded := by simp [Launch.spawned]

theorem Launch.Accounted.absent {invocations : List Nat} {id : Nat} : Launch.absent.Accounted invocations id where
  sound := ⟨Nat.zero_le _, fun _ => rfl, by simp [Launch.absent]⟩
  intended := by simp [Launch.absent, Process.running]
  recorded := by simp [Launch.absent]

theorem Launch.Accounted.act {invocations : List Nat} {id : Nat} {l : Launch} {gate : Process} (good : l.Accounted invocations id)
    (moved : Process.Moves l.release l.gate gate) : ({ l with gate := gate } : Launch).Accounted invocations id where
  sound := good.sound.step moved
  intended := by
    rintro (started | running | released)
    · rcases moved.started with same | running
      · exact good.intended (.inl (same ▸ started))
      · exact good.intended (.inr (.inl running))
    · rcases moved.running running with running | ⟨released, -⟩
      · exact good.intended (.inr (.inl running))
      · exact good.intended (.inr (.inr released))
    · exact good.intended (.inr (.inr released))
  recorded := good.recorded


theorem Launch.Accounted.mono {invocations more : List Nat} {id : Nat} {l : Launch} (good : l.Accounted invocations id) :
    l.Accounted (invocations ++ more) id :=
  ⟨good.sound, good.intended, fun intent => List.mem_append_left _ (good.recorded intent)⟩

theorem Launch.Accounted.congr {invocations : List Nat} {id : Nat} {l after : Launch} (good : l.Accounted invocations id)
    (gate : after.gate = l.gate) (release : after.release = true → l.release = true) (intent : after.intent = l.intent) :
    after.Accounted invocations id where
  sound := gate ▸ good.sound
  intended past := by
    rw [intent]
    rw [gate] at past
    exact good.intended (past.imp_right fun later => later.imp_right release)
  recorded given := good.recorded (intent ▸ given)

theorem accounted_step (acc : n.Accounted) (taken : step n label = some m) : m.Accounted := by
  obtain ⟨launches, parents, current, persisted, intended⟩ := acc
  have one (at' : Nat) (l : Launch) (good : l.Accounted n.invocations at') (other : Nat) :
      (Function.update n.launches at' l other).Accounted n.invocations other :=
    forall_set (P := fun id l => l.Accounted n.invocations id) good launches other
  cases label <;> simp only [step] at taken
  case spawn token =>
    split_ifs at taken with idle
    obtain rfl := Option.some.inj taken
    constructor
    case launches => exact one _ _ .spawned
    all_goals
      simp only [Node.spawn, Node.set, Node.go]
      grind [Phase.launch?, Launch.spawned, Function.update_apply]
  case persist =>
    split at taken
    case h_2 => cases taken
    rename_i at' here
    obtain rfl := Option.some.inj taken
    constructor
    case launches => exact fun other => (launches other).mono
    all_goals
      simp only [Node.go]
      grind [Phase.launch?]
  case intend =>
    split at taken
    case h_2 => cases taken
    rename_i at' here
    obtain rfl := Option.some.inj taken
    constructor
    case launches =>
      exact one _ _ ⟨(launches at').sound, fun _ => rfl, fun _ => persisted at' here⟩
    all_goals
      simp only [Node.set, Node.go]
      grind [Phase.launch?, Function.update_apply]
  case release | tear =>
    split at taken
    case h_2 => cases taken
    rename_i at' here
    obtain rfl := Option.some.inj taken
    constructor
    case launches =>
      exact one _ _ ⟨(launches at').sound, fun _ => intended at' here, (launches at').recorded⟩
    all_goals
      simp only [Node.set, Node.go]
      grind [Phase.launch?, Function.update_apply]
  case run | lose =>
    split at taken
    case h_2 => cases taken
    rename_i at' here
    obtain rfl := Option.some.inj taken
    constructor
    case launches => exact launches
    all_goals
      simp only [Node.go]
      grind [Phase.launch?]
  case clean =>
    split at taken
    case h_5 => cases taken
    all_goals
      rename_i at' here
      obtain rfl := Option.some.inj taken
      constructor
      case launches => exact one _ _ ((launches at').congr rfl (by simp) rfl)
      all_goals
        simp only [Node.set, Node.go]
        grind [Phase.launch?, Function.update_apply]
  case fail settles =>
    split at taken
    case h_2 => cases taken
    rename_i at' here
    obtain rfl := Option.some.inj taken
    constructor
    case launches =>
      refine one _ _ ((launches at').congr ?_ ?_ ?_) <;> grind [Launch.settleUnresolved, Launch.settle]
    all_goals
      simp only [Node.set, Node.go]
      grind [Phase.launch?, Function.update_apply, Launch.settleUnresolved, Launch.settle]
  case close status next =>
    split at taken
    case h_2 => cases taken
    rename_i at' here
    split_ifs at taken with exited
    obtain rfl := Option.some.inj taken
    constructor
    case launches => exact one _ _ ((launches at').congr rfl id rfl)
    all_goals
      simp only [Node.closeInvocation, Node.set, Node.go]
      grind [Phase.launch?, Function.update_apply, Launch.settle]
  case die =>
    split_ifs at taken
    obtain rfl := Option.some.inj taken
    exact ⟨launches, parents, by simp, by simp, by simp⟩
  case resume =>
    split_ifs at taken
    obtain rfl := Option.some.inj taken
    constructor
    case launches => exact launches
    all_goals
      simp only [Node.go]
      grind [Phase.launch?]
  case classify =>
    split_ifs at taken with resuming
    obtain ⟨at', orphan, rfl⟩ := Option.map_eq_some_iff.mp taken
    constructor
    case launches =>
      refine one _ _ ((launches at').congr ?_ ?_ ?_) <;> grind [Launch.settleUnresolved, Launch.settle]
    all_goals
      simp only [Node.set]
      grind [Phase.launch?, Function.update_apply, Launch.settleUnresolved, Launch.settle]
  case recover status next =>
    split_ifs at taken with resuming
    simp only [Node.recover] at taken
    split at taken
    · obtain rfl := Option.some.inj taken
      constructor
      case launches => exact launches
      all_goals
        simp only [Node.go]
        grind [Phase.launch?]
    · rename_i at' orphan
      split_ifs at taken with owned
      obtain rfl := Option.some.inj taken
      constructor
      case launches => exact one _ _ ((launches at').congr rfl id rfl)
      all_goals
        simp only [Node.closeInvocation, Node.set, Node.go]
        grind [Phase.launch?, Function.update_apply, Launch.settle]
  case act at' act =>
    obtain ⟨gate, moved, rfl⟩ := Option.map_eq_some_iff.mp taken
    constructor
    case launches => exact one _ _ ((launches at').act (Process.moves_of_step moved))
    all_goals
      simp only [Node.set]
      grind [Phase.launch?, Function.update_apply]
  case remove =>
    obtain rfl := Option.some.inj taken
    exact ⟨launches, parents, current, persisted, intended⟩

/-- What a step leaves of a launch. -/
structure Node.Frame (n m : Node) (label : Label) (id : Nat) : Prop where
  counted : id < m.count
  parent : (m.launches id).parent = (n.launches id).parent
  alive : (n.launches id).parent ≤ n.generation → m.parentAlive id = true → n.parentAlive id = true
  generation : n.generation ≤ m.generation
  directory : m.directory = true → n.directory = true
  release : (m.launches id).release = true → (n.launches id).release = true ∨ n.phase = some (.intended id)
  gate : (m.launches id).gate = (n.launches id).gate ∨ ∃ act, label = .act id act ∧
    (n.launches id).gate.step (n.parentAlive id) n.directory (n.launches id).release act = some (m.launches id).gate

/-- A step that changes neither the controllers nor a gate, and writes at most one launch. -/
theorem Node.Frame.of_set {at' : Nat} {l : Launch} (counted : id < n.count) (count : m.count = n.count)
    (generation : m.generation = n.generation) (phase : m.phase.isSome = true → n.phase.isSome = true)
    (directory : m.directory = n.directory) (launches : m.launches = Function.update n.launches at' l)
    (parent : l.parent = (n.launches at').parent) (gate : l.gate = (n.launches at').gate)
    (release : l.release = true → (n.launches at').release = true ∨ n.phase = some (.intended at')) :
    n.Frame m label id := by
  have other : m.launches id = if id = at' then l else n.launches id := by rw [launches, Function.update_apply]
  constructor <;> grind [Node.parentAlive]

theorem frame_of_step (taken : step n label = some m) (counted : id < n.count) : n.Frame m label id := by
  cases label <;> simp only [step] at taken
  case spawn token =>
    split_ifs at taken with idle
    obtain rfl := Option.some.inj taken
    have here : (n.spawn token).launches id = n.launches id := Node.set_launches_ne (Nat.ne_of_lt counted)
    constructor <;> grind [Node.parentAlive, Node.spawn, Node.set, Node.go]
  case persist | run | lose =>
    split at taken
    case h_2 => cases taken
    obtain rfl := Option.some.inj taken
    constructor <;> grind [Node.parentAlive, Node.go]
  case intend =>
    split at taken
    case h_2 => cases taken
    rename_i at' here
    obtain rfl := Option.some.inj taken
    exact .of_set counted rfl rfl (by simp [here]) rfl rfl rfl rfl .inl
  case release | tear =>
    split at taken
    case h_2 => cases taken
    rename_i at' here
    obtain rfl := Option.some.inj taken
    exact .of_set counted rfl rfl (by simp [here]) rfl rfl rfl rfl fun _ => .inr here
  case clean =>
    split at taken
    case h_5 => cases taken
    all_goals
      rename_i at' here
      obtain rfl := Option.some.inj taken
      exact .of_set counted rfl rfl (by simp [here]) rfl rfl rfl rfl (by simp)
  case fail settles =>
    split at taken
    case h_2 => cases taken
    rename_i at' here
    obtain rfl := Option.some.inj taken
    refine .of_set counted rfl rfl (by simp [here]) rfl rfl ?_ ?_ ?_ <;> grind [Launch.settleUnresolved, Launch.settle]
  case close status next =>
    split at taken
    case h_2 => cases taken
    rename_i at' here
    split_ifs at taken with exited
    obtain rfl := Option.some.inj taken
    exact .of_set counted rfl rfl (by simp [here]) rfl rfl rfl rfl .inl
  case die | resume =>
    split_ifs at taken with alive
    obtain rfl := Option.some.inj taken
    constructor <;> grind [Node.parentAlive, Node.go]
  case classify =>
    split_ifs at taken with resuming
    obtain ⟨at', orphan, rfl⟩ := Option.map_eq_some_iff.mp taken
    refine .of_set counted rfl rfl (fun there => there) rfl rfl ?_ ?_ ?_ <;> grind [Launch.settleUnresolved, Launch.settle]
  case recover status next =>
    split_ifs at taken with resuming
    simp only [Node.recover] at taken
    split at taken
    · obtain rfl := Option.some.inj taken
      constructor <;> grind [Node.parentAlive, Node.go]
    · split_ifs at taken with owned
      obtain rfl := Option.some.inj taken
      exact .of_set counted rfl rfl (by simp [resuming]) rfl rfl rfl rfl .inl
  case act at' act =>
    obtain ⟨gate, moved, rfl⟩ := Option.map_eq_some_iff.mp taken
    by_cases same : id = at'
    · subst same
      refine ⟨counted, ?_, fun _ => ?_, Nat.le_refl _, fun there => there, ?_, .inr ⟨act, rfl, ?_⟩⟩
      · rw [Node.set_launches_self]
      · simp only [Node.parentAlive, Node.set_launches_self]
        exact fun alive => alive
      · rw [Node.set_launches_self]
        exact .inl
      · rw [Node.set_launches_self]
        exact moved
    · have here : (n.set at' { n.launches at' with gate := gate }).launches id = n.launches id := Node.set_launches_ne same
      constructor <;> grind [Node.parentAlive, Node.set]
  case remove =>
    obtain rfl := Option.some.inj taken
    constructor <;> grind [Node.parentAlive]

/-! ## A launch whose controller died -/

/-- Its controller is gone for good. -/
def Node.Orphaned (n : Node) (id : Nat) : Prop :=
  id < n.count ∧ (n.launches id).parent ≤ n.generation ∧ n.parentAlive id = false

theorem orphaned_step (orphaned : n.Orphaned id) (taken : step n label = some m) : m.Orphaned id := by
  obtain ⟨counted, parent, dead⟩ := orphaned
  have frame := frame_of_step taken counted
  refine ⟨frame.counted, frame.parent ▸ Nat.le_trans parent frame.generation, ?_⟩
  cases alive : m.parentAlive id with
  | false => rfl
  | true => exact absurd (frame.alive parent alive) (by simp [dead])

theorem created_accounted : Node.created.Accounted where
  launches _ := .absent
  parents _ counted := absurd counted (Nat.not_lt_zero _)
  current phase id here launch := by
    obtain rfl := Option.some.inj here
    cases launch
  persisted _ here := by cases here
  intended _ here := by cases here

theorem accounted_of_reach {guard : Node → Label → Prop} (reach : machine.Reach guard (fun n => n = .created) n) :
    n.Accounted :=
  reach.invariant Node.Accounted (by rintro _ rfl; exact created_accounted) fun _ _ _ acc _ taken => accounted_step acc taken

/-- Its controller died before it found the release file. -/
structure Node.Barred (n : Node) (id : Nat) : Prop where
  accounted : n.Accounted
  orphaned : n.Orphaned id
  release : (n.launches id).release = false
  held : ¬(n.launches id).gate.running
  none : (n.launches id).gate.started = 0

theorem barred_step (barred : n.Barred id) (taken : step n label = some m) : m.Barred id := by
  obtain ⟨accounted, orphaned, release, held, none⟩ := barred
  have frame := frame_of_step taken orphaned.1
  have unreleased : (m.launches id).release = false := by
    cases released : (m.launches id).release with
    | false => rfl
    | true =>
      rcases frame.release released with before | intending
      · exact absurd before (by simp [release])
      · obtain ⟨-, parent⟩ := accounted.current _ id intending rfl
        exact absurd orphaned.2.2 (by simp [Node.parentAlive, intending, parent])
  refine ⟨accounted_step accounted taken, orphaned_step orphaned taken, unreleased, ?_, ?_⟩ <;>
    rcases frame.gate with same | ⟨act, -, moved⟩
  · rwa [same]
  · intro past
    rcases (Process.moves_of_step moved).running past with past | ⟨found, -⟩
    · exact held past
    · exact absurd found (by simp [release])
  · rwa [same]
  · rcases (Process.moves_of_step moved).started with same | past
    · rwa [same]
    · exact absurd past held

/-! ## Before the release -/

/-- The launch a phase is about, while its release file is not written. -/
def Phase.unreleased? : Phase → Option Nat
  | .spawned id | .persisted id | .intended id => some id
  | .resuming | .idle | .released _ | .watching _ | .torn _ | .thrown _ => none

/-- No release file stands, and the gate found none. -/
structure Launch.Unreleased (l : Launch) : Prop where
  release : l.release = false
  none : l.gate.started = 0
  held : ¬l.gate.running

/-- What a controller has not released has not been released before. -/
def Node.Unreleased (n : Node) : Prop :=
  ∀ phase id, n.phase = some phase → phase.unreleased? = some id → (n.launches id).Unreleased

theorem Launch.Unreleased.act {l : Launch} {gate : Process} (unreleased : l.Unreleased)
    (moved : Process.Moves l.release l.gate gate) : ({ l with gate := gate } : Launch).Unreleased where
  release := unreleased.release
  none := (moved.started.resolve_right unreleased.held).trans unreleased.none
  held past := by
    rcases moved.running past with past | ⟨found, -⟩
    · exact unreleased.held past
    · exact absurd found (by simp [unreleased.release])

theorem unreleased_step (unreleased : n.Unreleased) (taken : step n label = some m) : m.Unreleased := by
  intro phase id here stands
  cases label <;> simp only [step] at taken
  case act at' act =>
    obtain ⟨gate, moved, rfl⟩ := Option.map_eq_some_iff.mp taken
    have before := unreleased phase id here stands
    by_cases same : id = at'
    · subst same
      rw [Node.set_launches_self]
      exact before.act (Process.moves_of_step moved)
    · rw [Node.set_launches_ne same]
      exact before
  case spawn token =>
    split_ifs at taken
    obtain rfl := Option.some.inj taken
    obtain rfl := Option.some.inj here
    obtain rfl := Option.some.inj stands
    have fresh : (n.spawn token).launches n.count = .spawned n.generation token := Node.set_launches_self ..
    rw [fresh]
    exact ⟨rfl, rfl, by simp [Launch.spawned, Process.running]⟩
  case persist =>
    split at taken
    case h_2 => cases taken
    rename_i at' before
    obtain rfl := Option.some.inj taken
    obtain rfl := Option.some.inj here
    exact unreleased _ id before stands
  case intend =>
    split at taken
    case h_2 => cases taken
    rename_i at' before
    obtain rfl := Option.some.inj taken
    obtain rfl := Option.some.inj here
    obtain rfl := Option.some.inj stands
    obtain ⟨release, none, held⟩ := unreleased _ at' before rfl
    simp only [Node.go, Node.set_launches_self]
    exact ⟨release, none, held⟩
  case classify =>
    split_ifs at taken with resuming
    obtain ⟨at', -, rfl⟩ := Option.map_eq_some_iff.mp taken
    obtain rfl := Option.some.inj (resuming.symm.trans here)
    cases stands
  case remove =>
    obtain rfl := Option.some.inj taken
    exact unreleased phase id here stands
  all_goals grind [Node.go, Node.set, Node.closeInvocation, Node.recover, Phase.unreleased?]

/-- In every run, whatever dies and whenever: a gate starts at most one provider, and only after its invocation and its
intent are on disk; one whose controller is gone, with no release file that it found or can find, never starts any; and a
controller that dies before it writes the release file leaves such a gate. -/
theorem provider_recorded (reach : machine.Reach Machine.free (fun n => n = .created) n) (id : Nat) :
    (n.launches id).gate.started ≤ 1 ∧
    (0 < (n.launches id).gate.started → id ∈ n.invocations ∧ (n.launches id).intent = true) ∧
    (id < n.count → n.parentAlive id = false → (n.launches id).release = false → (n.launches id).gate.started = 0 →
      ¬(n.launches id).gate.running →
      ∀ m, machine.Reach Machine.free (fun before => before = n) m → (m.launches id).gate.started = 0) ∧
    (∀ phase, n.phase = some phase → phase.unreleased? = some id →
      ∀ m, machine.Reach Machine.free (fun after => step n .die = some after) m → (m.launches id).gate.started = 0) := by
  have accounted := accounted_of_reach reach
  obtain ⟨sound, intended, recorded⟩ := accounted.launches id
  have never {died : Node → Prop} (barred : ∀ after, died after → after.Barred id) (m : Node)
      (later : machine.Reach Machine.free died m) : (m.launches id).gate.started = 0 :=
    (later.invariant (fun (m : Node) => m.Barred id) barred fun _ _ _ barred _ taken => barred_step barred taken).none
  refine ⟨sound.once, fun started => ?_, fun counted dead release none held => never ?_, fun phase here stands => never ?_⟩
  · have intent := intended (.inl started)
    exact ⟨recorded intent, intent⟩
  · rintro _ rfl
    exact ⟨accounted, ⟨counted, accounted.parents id counted, dead⟩, release, held, none⟩
  · intro after died
    have unreleased := reach.invariant Node.Unreleased
      (by rintro _ rfl phase id here stands; obtain rfl := Option.some.inj here; cases stands)
      fun _ _ _ unreleased _ taken => unreleased_step unreleased taken
    obtain ⟨release, none, held⟩ := unreleased phase id here stands
    have launched : phase.launch? = some id := by cases phase <;> first | exact stands | cases stands
    have counted := (accounted.current phase id here launched).1
    have alive : n.phase.isSome = true := here ▸ rfl
    have gone : { n with phase := Option.none } = after := by simpa [step, alive] using died
    have accounted' := accounted_step accounted died
    subst gone
    exact ⟨accounted', ⟨counted, accounted'.parents id counted, rfl⟩, release, held, none⟩

/-- A controller between the two writes before the release. -/
def aboutToRelease : List Label := [.spawn true, .act 0 .askParent, .persist]

theorem provider_recorded_died : ∃ n, machine.replay? Machine.free .created aboutToRelease = some n ∧ n.phase = some (.persisted 0) ∧
    (∃ after, step n .die = some after) ∧
    ∀ m, machine.Reach Machine.free (fun after => step n .die = some after) m → (m.launches 0).gate.started = 0 :=
  Machine.exists_replay (fun n => n.phase = some (.persisted 0))
    (fun n ran here => ⟨here, ⟨{ n with phase := none }, by simp [step, here]⟩,
      (provider_recorded (.of_replay rfl _ ran) 0).2.2.2 _ here rfl⟩)
    (by decide)

/-! ## A provider is not stranded -/

/-- How many steps a gate takes by itself once its controller or its directory is gone. -/
def Process.rank (directory : Bool) (p : Process) : Nat :=
  match p.stage with
  | .sawParent => if directory then 5 else 1
  | .sawDirectory => 4
  | .opening => 3
  | .polling => 2
  | .holding => if p.watched then 2 else 1
  | .finished | .drained | .exited => 0

theorem Process.rank_le_five (directory : Bool) (p : Process) : p.rank directory ≤ 5 := by
  cases stage : p.stage <;> simp only [rank, stage] <;> grind

theorem Process.rank_removed (p : Process) : p.rank false ≤ p.rank true := by
  cases stage : p.stage <;> simp [rank, stage]

theorem Process.rank_step {parentAlive directory release : Bool} {p q : Process} {act : Act}
    (gone : parentAlive = false ∨ directory = false)
    (taken : p.step parentAlive directory release act = some q) :
    q.rank directory ≤ p.rank directory - if act.own then 1 else 0 := by
  cases act
  case terminated =>
    simp only [step] at taken
    split_ifs at taken
    obtain rfl := Option.some.inj taken
    exact Nat.le_refl _
  all_goals
    simp only [step] at taken
    split_ifs at taken
    all_goals
      obtain rfl := Option.some.inj taken
      simp_all [rank, Act.own, drain, stopProvider]

/-- A launch its controller or the directory has abandoned. -/
def Node.Abandoned (n : Node) (id : Nat) : Prop :=
  n.Orphaned id ∨ id < n.count ∧ n.directory = false

theorem Node.Abandoned.counted (gone : n.Abandoned id) : id < n.count :=
  gone.elim And.left And.left

theorem abandoned_step (gone : n.Abandoned id) (taken : step n label = some m) : m.Abandoned id := by
  rcases gone with orphaned | ⟨counted, removed⟩
  · exact .inl (orphaned_step orphaned taken)
  · have frame := frame_of_step taken counted
    refine .inr ⟨frame.counted, ?_⟩
    cases there : m.directory with
    | false => rfl
    | true => exact absurd (frame.directory there) (by simp [removed])

/-- The rank of its gate, with what the gate will find. -/
def Node.rank (id : Nat) (n : Node) : Nat := (n.launches id).gate.rank n.directory

theorem rank_of_step (gone : n.Abandoned id) (taken : step n label = some m) :
    m.rank id ≤ n.rank id - if label.own id then 1 else 0 := by
  have frame := frame_of_step taken gone.counted
  by_cases mine : ∃ act, label = .act id act
  · obtain ⟨act, rfl⟩ := mine
    obtain ⟨gate, moved, rfl⟩ := Option.map_eq_some_iff.mp taken
    have own : Label.own id (.act id act) = act.own := by simp [Label.own]
    simp only [Node.rank, Node.set_launches_self, own]
    exact Process.rank_step (gone.imp (fun orphaned => orphaned.2.2) And.right) moved
  · have same : (m.launches id).gate = (n.launches id).gate :=
      frame.gate.resolve_right fun moved => mine (moved.imp fun _ => And.left)
    have other : label.own id = false := by
      cases label with
      | act at' act => exact Bool.and_eq_false_imp.mpr fun here => absurd ⟨act, by simp [of_decide_eq_true here]⟩ mine
      | _ => rfl
    rw [other]
    simp only [Node.rank, same]
    cases there : m.directory with
    | true => simp [frame.directory there]
    | false =>
      cases n.directory with
      | false => simp
      | true => simpa using Process.rank_removed _

/-- A gate whose controller died, or whose directory is gone, is not stranded: while its provider runs it has a step of
its own to take, and in whatever run, five such steps later no provider of it runs, nor ever will. -/
theorem stranded_bounded (reach : machine.Reach Machine.free (fun n => n = .created) n) (id : Nat) (counted : id < n.count)
    (gone : n.parentAlive id = false ∨ n.directory = false) :
    ((n.launches id).gate.live = true →
      ∃ act m, act.own = true ∧ step n (.act id act) = some m ∧ m.rank id < n.rank id) ∧
    ∀ labels m, machine.replay? Machine.free n labels = some m → 5 ≤ labels.countP (Label.own id) →
      (m.launches id).gate.live = false := by
  have accounted := accounted_of_reach reach
  have abandoned : n.Abandoned id :=
    gone.imp (fun dead => ⟨counted, accounted.parents id counted, dead⟩) fun removed => ⟨counted, removed⟩
  refine ⟨fun live => ?_, fun labels m ran many => ?_⟩
  · have holding : (n.launches id).gate.stage = .holding := of_decide_eq_true live
    have own (act : Act) (mine : act.own = true) (enabled : (step n (.act id act)).isSome = true) :
        ∃ act m, act.own = true ∧ step n (.act id act) = some m ∧ m.rank id < n.rank id := by
      obtain ⟨m, taken⟩ := Option.isSome_iff_exists.mp enabled
      have lower := rank_of_step abandoned taken
      have positive : 0 < n.rank id := by
        simp only [Node.rank, Process.rank, holding]
        split_ifs <;> omega
      refine ⟨act, m, mine, taken, ?_⟩
      simp only [Label.own, decide_true, mine, Bool.and_self, if_true] at lower
      omega
    rcases (accounted.launches id).sound.watched holding with watched | killing
    · exact own .watch rfl (by simp [step, Process.step, holding, watched])
    · exact own .killGroup rfl (by simp [step, Process.step, holding, killing])
  · have lowered := Machine.rank_le_of_replay (fun (n : Node) => n.Abandoned id) (Label.own id) (Node.rank id)
      (fun _ _ _ gone taken => abandoned_step gone taken)
      (fun _ _ _ gone taken => Nat.le_trans (rank_of_step gone taken) (Nat.sub_le _ _))
      (fun s label t gone taken mine => by simpa [mine] using rank_of_step gone taken) ran abandoned
    have start : n.rank id ≤ 5 := Process.rank_le_five _ _
    have stopped : m.rank id = 0 := by omega
    cases stage : (m.launches id).gate.stage <;> simp [Node.rank, Process.rank, stage, Process.live] at stopped ⊢
    split_ifs at stopped

/-- A controller that died in the tick of its gate that finds the release file. -/
def diedInTick : List Label := [.spawn true, .persist, .intend, .release, .act 0 .askParent, .die]

def ownSteps : List Label :=
  [.act 0 .askDirectory, .act 0 .askRelease, .act 0 (.start true), .act 0 .watch, .act 0 .killGroup]

theorem stranded_bounded_in_tick : ∃ n, machine.replay? Machine.free .created diedInTick = some n ∧
    (machine.replay? Machine.free n ownSteps).isSome = true ∧
    ∀ m, machine.replay? Machine.free n ownSteps = some m → (m.launches 0).gate.live = false :=
  Machine.exists_replay
    (fun n => 0 < n.count ∧ n.parentAlive 0 = false ∧ (machine.replay? Machine.free n ownSteps).isSome = true)
    (fun n ran at' => ⟨at'.2.2, fun m on =>
      (stranded_bounded (.of_replay rfl _ ran) 0 at'.1 (.inl at'.2.1)).2 ownSteps m on (by decide)⟩)
    (by decide)

end Faberun.Gate
