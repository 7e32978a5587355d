import Faberun.Soundness.ChainHistory

/-! # The campaign chain is orderly

Every run of the chain, whatever the runs, the operator and the crashes do: a contract is launched on a look that found
no `run.json`, after every contract before it succeeded and was promoted; the landing branch moves forward and contains
what was promoted; an attention stops the chain; and no invocation resumes a run without progress more often than its
budget. The budget does not outlast an invocation, and a `run.json` may be written between the look and the launch.
-/

namespace Faberun.Chain

variable {γ : Type} {campaign : Campaign γ} {s : State γ} {coordinator : Coordinator γ}

/-! ## Which contract a turn is about -/

def Point.contract? : Point γ → Option CampaignContract
  | validating contract | looking contract | classifying contract _ | promoting contract _ | advancing contract _ _
  | recording contract | recovering contract | resuming contract | verifying contract | launching contract
  | bootstrapping contract => some contract
  | reading | parking _ => none

/-- A turn is about the contract at the coordinator's position. -/
def Aimed (campaign : Campaign γ) (s : State γ) : Prop :=
  ∀ coordinator, s.coordinator = some coordinator → ∀ contract, coordinator.point.contract? = some contract →
    campaign.contracts[coordinator.index]? = some contract

private theorem Aimed.goto {point : Point γ}
    (aims : ∀ contract, point.contract? = some contract → campaign.contracts[coordinator.index]? = some contract) :
    Aimed campaign (s.goto coordinator point) := by
  rintro _ ⟨⟩
  exact aims

private theorem coordinatorStep_aimed [DecidableEq γ] {point : Point γ} {label : Label γ} {next : State γ}
    (aims : ∀ contract, point.contract? = some contract → campaign.contracts[coordinator.index]? = some contract)
    (taken : coordinatorStep campaign s coordinator point label = some next) : Aimed campaign next := by
  unfold coordinatorStep at taken
  split at taken
  case h_1 =>
    unfold nextContract at taken
    split_ifs at taken
    · cases found : campaign.contracts[coordinator.index]? with
      | none =>
        rw [found] at taken
        cases taken
        nofun
      | some contract =>
        rw [found] at taken
        cases taken
        refine Aimed.goto ?_
        rintro _ ⟨⟩
        exact found
    · cases taken
      nofun
  case h_3 =>
    cases taken
    unfold look
    split
    · exact Aimed.goto aims
    · split_ifs
      · exact Aimed.goto aims
      · exact Aimed.goto nofun
  case h_4 =>
    cases taken
    unfold classify
    cases classifyRunProgress (s.runs _).progress
    case succeeded => exact Aimed.goto aims
    case unfinished =>
      dsimp only
      split_ifs
      · exact Aimed.goto nofun
      · exact Aimed.goto aims
    all_goals exact Aimed.goto nofun
  case h_5 =>
    split at taken <;> cases taken
    · unfold promoteRun
      split
      · split_ifs
        · exact Aimed.goto nofun
        · exact Aimed.goto aims
        · exact Aimed.goto nofun
      · split
        · exact Aimed.goto nofun
        · split_ifs
          · exact Aimed.goto aims
          · exact Aimed.goto nofun
    · exact Aimed.goto nofun
    · exact Aimed.goto nofun
  case h_6 =>
    split_ifs at taken <;> cases taken
    · exact Aimed.goto aims
    · exact Aimed.goto nofun
  case h_8 =>
    cases taken
    unfold resumeDeadRun
    dsimp only
    split_ifs
    · exact Aimed.goto nofun
    · exact Aimed.goto nofun
    · exact Aimed.goto aims
  case h_14 => cases taken
  case h_13 =>
    cases taken
    nofun
  case h_7 | h_11 =>
    cases taken
    first
      | exact Aimed.goto aims
      | exact Aimed.goto nofun
  all_goals
    split at taken <;> cases taken <;> first
      | exact Aimed.goto aims
      | exact Aimed.goto nofun

theorem Aimed.step [DecidableEq γ] (aimed : Aimed campaign s) {label : Label γ} {next : State γ}
    (taken : Chain.step campaign s label = some next) : Aimed campaign next := by
  cases label with
  | start =>
    simp only [Chain.step] at taken
    split at taken <;> cases taken
    rintro _ ⟨⟩ _ member
    cases member
  | crash =>
    obtain ⟨_, _, rfl⟩ := Option.map_eq_some_iff.mp taken
    rintro _ ⟨⟩
  | observe runDir directory =>
    cases taken
    exact aimed
  | integrate id head =>
    cases taken
    exact aimed
  | close =>
    cases taken
    exact aimed
  | unpark =>
    simp only [Chain.step] at taken
    split_ifs at taken
    cases taken
    exact aimed
  | _ =>
    obtain ⟨coordinator, present, taken⟩ := Option.bind_eq_some_iff.mp taken
    exact coordinatorStep_aimed (aimed coordinator present) taken

theorem aimed_of_reach [DecidableEq γ] (reach : (machine campaign).Reach Machine.free Initial s) : Aimed campaign s := by
  refine reach.invariant (Aimed campaign) (fun s initial => ?_) fun _ _ _ aimed _ taken => aimed.step taken
  rw [Aimed, initial.coordinator]
  nofun

/-! ## The landing branch -/

/-- A branch that existed is at a descendant of where it was. -/
def Forward (campaign : Campaign γ) (old new : Option γ) : Prop :=
  ∀ tip, old = some tip → ∃ moved, new = some moved ∧ campaign.git.isAncestor tip moved = true

private theorem Forward.still (branch : Option γ) : Forward campaign branch branch :=
  fun tip here => ⟨tip, here, campaign.git.refl tip⟩

private theorem promoteRun_forward [DecidableEq γ] (contract : CampaignContract) (baseSha : Option γ) (head : γ) :
    Forward campaign s.branch (promoteRun campaign s coordinator contract baseSha head).branch := by
  unfold promoteRun
  cases here : s.branch with
  | some current =>
    have still : Forward campaign (some current) s.branch := here ▸ Forward.still _
    dsimp only
    split_ifs <;> exact still
  | none => nofun

private theorem coordinatorStep_forward [DecidableEq γ] {point : Point γ} {label : Label γ} {next : State γ}
    (reached : Reached campaign s.history s.attention coordinator.index point)
    (taken : coordinatorStep campaign s coordinator point label = some next) :
    Forward campaign s.branch next.branch := by
  unfold coordinatorStep at taken
  split at taken
  case h_5 =>
    split at taken <;> cases taken
    · exact promoteRun_forward _ _ _
    · exact Forward.still _
    · exact Forward.still _
  case h_6 contract head previousSha =>
    split_ifs at taken with here <;> cases taken
    · intro tip same
      rw [here] at same
      cases same
      exact ⟨head, rfl, reached.2.2⟩
    · exact Forward.still _
  case h_3 =>
    cases taken
    unfold look
    split <;> (try split_ifs) <;> exact Forward.still _
  case h_4 =>
    cases taken
    unfold classify
    split <;> (try split_ifs) <;> exact Forward.still _
  case h_8 =>
    cases taken
    unfold resumeDeadRun
    dsimp only
    split_ifs <;> exact Forward.still _
  case h_14 => cases taken
  case h_7 | h_11 | h_13 =>
    cases taken
    exact Forward.still _
  all_goals
    split at taken <;> cases taken <;> exact Forward.still _

private theorem step_forward [DecidableEq γ] (kept : Kept campaign s) {label : Label γ} {next : State γ}
    (taken : Chain.step campaign s label = some next) : Forward campaign s.branch next.branch := by
  cases label with
  | start =>
    simp only [Chain.step] at taken
    split at taken <;> cases taken
    exact Forward.still _
  | crash =>
    obtain ⟨_, _, rfl⟩ := Option.map_eq_some_iff.mp taken
    exact Forward.still _
  | unpark =>
    simp only [Chain.step] at taken
    split_ifs at taken
    cases taken
    exact Forward.still _
  | observe runDir directory =>
    cases taken
    exact Forward.still _
  | integrate id head =>
    cases taken
    exact Forward.still _
  | close =>
    cases taken
    exact Forward.still _
  | _ =>
    obtain ⟨coordinator, present, taken⟩ := Option.bind_eq_some_iff.mp taken
    exact coordinatorStep_forward (kept.reached _ present) taken

/-! ## What is read of a run -/

/-- What the chain has read when it records an event at a point of its turn. -/
def Read (s : State γ) (coordinator : Coordinator γ) (point : Point γ) : Event γ → Prop
  | .absent index => ∃ contract, point.contract? = some contract ∧ index = coordinator.index ∧
      (s.runs contract.runDir).record = none
  | .succeeded index => ∃ contract, point.contract? = some contract ∧ index = coordinator.index ∧
      classifyRunProgress (s.runs contract.runDir).progress = .succeeded
  | _ => True

private theorem read_of_cons {point : Point γ} {event recorded : Event γ}
    (same : event :: s.history = recorded :: s.history) (read : Read s coordinator point event) : Read s coordinator point recorded := by
  obtain ⟨rfl, _⟩ := List.cons.inj same
  exact read

private theorem look_read {contract : CampaignContract} {event : Event γ}
    (recorded : (look s coordinator contract).history = event :: s.history) :
    Read s coordinator (.looking contract) event := by
  unfold look at recorded
  split at recorded
  next absent => exact read_of_cons recorded ⟨contract, rfl, rfl, absent⟩
  next =>
    split_ifs at recorded
    · exact absurd recorded.symm (List.cons_ne_self _ _)
    · exact read_of_cons recorded trivial

private theorem classify_read {contract : CampaignContract} {baseSha : Option γ} {event : Event γ}
    (recorded : (classify s coordinator contract baseSha).history = event :: s.history) :
    Read s coordinator (.classifying contract baseSha) event := by
  unfold classify at recorded
  split at recorded
  next succeeded => exact read_of_cons recorded ⟨contract, rfl, rfl, succeeded⟩
  next => exact read_of_cons recorded trivial
  next => exact read_of_cons recorded trivial
  next => exact absurd recorded.symm (List.cons_ne_self _ _)
  next => split_ifs at recorded <;> exact absurd recorded.symm (List.cons_ne_self _ _)

private theorem promoteRun_read [DecidableEq γ] {contract : CampaignContract} {baseSha : Option γ} {head : γ} {point : Point γ}
    {event : Event γ} (recorded : (promoteRun campaign s coordinator contract baseSha head).history = event :: s.history) :
    Read s coordinator point event := by
  unfold promoteRun at recorded
  split at recorded <;> (try split at recorded) <;> (try split_ifs at recorded) <;>
    first | exact read_of_cons recorded trivial | exact absurd recorded.symm (List.cons_ne_self _ _)

private theorem coordinatorStep_read [DecidableEq γ] {point : Point γ} {label : Label γ} {next : State γ} {event : Event γ}
    (taken : coordinatorStep campaign s coordinator point label = some next) (recorded : next.history = event :: s.history) :
    Read s coordinator point event := by
  unfold coordinatorStep at taken
  split at taken
  case h_3 =>
    cases taken
    exact look_read recorded
  case h_4 =>
    cases taken
    exact classify_read recorded
  case h_5 =>
    split at taken <;> cases taken
    · exact promoteRun_read recorded
    · exact read_of_cons recorded trivial
    · exact read_of_cons recorded trivial
  case h_8 =>
    cases taken
    unfold resumeDeadRun at recorded
    dsimp only at recorded
    split_ifs at recorded <;> exact read_of_cons recorded trivial
  case h_14 => cases taken
  case h_7 =>
    cases taken
    exact absurd recorded.symm (List.cons_ne_self _ _)
  case h_11 | h_13 =>
    cases taken
    exact read_of_cons recorded trivial
  case h_6 => split_ifs at taken <;> cases taken <;> exact read_of_cons recorded trivial
  all_goals
    split at taken <;> cases taken <;>
      first | exact read_of_cons recorded trivial | exact absurd recorded.symm (List.cons_ne_self _ _)

/-- An event the coordinator's own step records was read at its point. -/
private theorem step_read [DecidableEq γ] {label : Label γ} {next : State γ} {event : Event γ}
    (taken : Chain.step campaign s label = some next) (recorded : next.history = event :: s.history)
    (own : event ≠ .opened ∧ event ≠ .unparked) :
    ∃ coordinator, s.coordinator = some coordinator ∧ Read s coordinator coordinator.point event := by
  cases label with
  | start =>
    simp only [Chain.step] at taken
    split at taken <;> cases taken
    exact absurd (List.cons.inj recorded).1.symm own.1
  | crash =>
    obtain ⟨_, _, rfl⟩ := Option.map_eq_some_iff.mp taken
    exact absurd recorded.symm (List.cons_ne_self _ _)
  | unpark =>
    simp only [Chain.step] at taken
    split_ifs at taken
    cases taken
    exact absurd (List.cons.inj recorded).1.symm own.2
  | observe runDir directory =>
    cases taken
    exact absurd recorded.symm (List.cons_ne_self _ _)
  | integrate id head =>
    cases taken
    exact absurd recorded.symm (List.cons_ne_self _ _)
  | close =>
    cases taken
    exact absurd recorded.symm (List.cons_ne_self _ _)
  | _ =>
    obtain ⟨coordinator, present, taken⟩ := Option.bind_eq_some_iff.mp taken
    exact ⟨coordinator, present, coordinatorStep_read taken recorded⟩

/-- What a classification records is how the progress of its run reads. -/
private theorem step_classify [DecidableEq γ] (aimed : Aimed campaign s) {next : State γ}
    (taken : Chain.step campaign s .classify = some next) :
    ∃ index contract, campaign.contracts[index]? = some contract ∧
      match classifyRunProgress (s.runs contract.runDir).progress with
      | .succeeded => next.history = .succeeded index :: s.history
      | .parked => next.history = .halted "run_parked" :: s.history
      | .canceled => next.history = .halted "run_canceled" :: s.history
      | .waiting | .unfinished => next.history = s.history := by
  obtain ⟨coordinator, present, taken⟩ := Option.bind_eq_some_iff.mp taken
  have aims := aimed coordinator present
  unfold coordinatorStep at taken
  split at taken
  case h_4 contract baseSha point label =>
    rw [point] at aims
    cases taken
    refine ⟨coordinator.index, contract, aims contract rfl, ?_⟩
    unfold classify
    cases classifyRunProgress (s.runs contract.runDir).progress
    case unfinished =>
      dsimp only
      split_ifs <;> rfl
    all_goals rfl
  all_goals contradiction

/-! ## Orderly runs -/

/-- What every history and every next step of a chain satisfies. -/
structure Orderly [DecidableEq γ] (campaign : Campaign γ) (s : State γ) : Prop where
  /-- A launch follows a look that found no run, and the promotion of every contract before it. -/
  launches : ∀ {later earlier : List (Event γ)} {index : Nat}, s.history = later ++ .launched index :: earlier →
    earlier.head? = some (.absent index) ∧ PromotedBefore index earlier
  /-- A look that finds no run is one at a run directory without a `run.json`. -/
  looks : ∀ {label : Label γ} {next : State γ} {index : Nat}, step campaign s label = some next →
    next.history = .absent index :: s.history →
    ∃ contract, campaign.contracts[index]? = some contract ∧ (s.runs contract.runDir).record = none
  /-- A success that is recorded was read of the run. -/
  successes : ∀ {label : Label γ} {next : State γ} {index : Nat}, step campaign s label = some next →
    next.history = .succeeded index :: s.history →
    ∃ contract, campaign.contracts[index]? = some contract ∧
      classifyRunProgress (s.runs contract.runDir).progress = .succeeded
  /-- The chain goes on, halts or does nothing about a run as its progress reads. -/
  classifies : ∀ {next : State γ}, step campaign s .classify = some next →
    ∃ index contract, campaign.contracts[index]? = some contract ∧
      match classifyRunProgress (s.runs contract.runDir).progress with
      | .succeeded => next.history = .succeeded index :: s.history
      | .parked => next.history = .halted "run_parked" :: s.history
      | .canceled => next.history = .halted "run_canceled" :: s.history
      | .waiting | .unfinished => next.history = s.history
  /-- The landing branch contains every promoted head. -/
  contains : ∀ {index : Nat} {head : γ}, .promoted index head ∈ s.history →
    ∃ tip, s.branch = some tip ∧ campaign.git.isAncestor head tip = true
  /-- The landing branch moves to descendants only. -/
  forwards : ∀ {label : Label γ} {next : State γ}, step campaign s label = some next →
    Forward campaign s.branch next.branch
  /-- After a halt the chain acts only in a new invocation, and after an attention only once it is cleared. -/
  stops : ∀ {later earlier : List (Event γ)} {event : Event γ}, event.acts = true →
    s.history = later ++ event :: earlier → running earlier = true ∧ attended earlier = false
  /-- An invocation resumes a run without progress at most as often as its budget. -/
  resumes : ∀ id progressAt, streak id progressAt s.history ≤ maxRunRecoveryAttempts

/-- Every run of the chain is orderly. -/
theorem driveCampaignChain_orderly [DecidableEq γ] (campaign : Campaign γ)
    (reach : (machine campaign).Reach Machine.free Initial s) : Orderly campaign s := by
  have kept := kept_of_reach reach
  have aimed := aimed_of_reach reach
  have permitted : ∀ {later earlier event}, s.history = later ++ event :: earlier → Permitted event earlier := by
    intro later earlier event split
    have lawful := kept.filed.lawful
    rw [split] at lawful
    exact lawful.permitted
  exact
    { launches := fun split => (permitted split).launching _ rfl
      looks := fun taken looked => by
        obtain ⟨coordinator, present, contract, about, rfl, absent⟩ := step_read taken looked ⟨nofun, nofun⟩
        exact ⟨contract, aimed coordinator present contract about, absent⟩
      successes := fun taken recorded => by
        obtain ⟨coordinator, present, contract, about, rfl, succeeded⟩ := step_read taken recorded ⟨nofun, nofun⟩
        exact ⟨contract, aimed coordinator present contract about, succeeded⟩
      classifies := fun taken => step_classify aimed taken
      contains := fun member => kept.filed.contains _ _ member
      forwards := fun taken => step_forward kept taken
      stops := fun acts split => (permitted split).acting acts
      resumes := kept.filed.streaks }

/-- Commits that each contain the ones before. -/
def linearHistory : Ancestry Nat where
  isAncestor first second := decide (first ≤ second)
  refl commit := decide_eq_true (Nat.le_refl commit)
  trans _ _ _ below above :=
    decide_eq_true (Nat.le_trans (of_decide_eq_true below) (of_decide_eq_true above))

def twoContracts : Campaign Nat where
  contracts := [⟨"a.json", "a", "runs/a"⟩, ⟨"b.json", "b", "runs/b"⟩]
  landBranch := "land"
  allowMain := false
  git := linearHistory

/-- No run directory yet. -/
def emptyDirectory : RunDirectory Nat := ⟨none, ⟨.unknown, some .parked⟩, false, false, none⟩

/-- A run cut from commit 1 whose controller is gone. -/
def deadRun (id : String) : RunDirectory Nat :=
  ⟨some ⟨some "digest", "digest", some id, some 1⟩, ⟨.unfinished, some .parked⟩, false, false, some "09:00"⟩

def succeededRun (id : String) : RunDirectory Nat :=
  ⟨some ⟨some "digest", "digest", some id, some 1⟩, ⟨.done, some .succeeded⟩, false, false, some "10:00"⟩

def fresh : State Nat := ⟨true, none, fun _ => emptyDirectory, fun _ => none, none, none, []⟩

theorem fresh_initial : Initial fresh := ⟨rfl, rfl, rfl⟩

/-- A turn that finds no run and launches one. -/
def launchTurn : List (Label Nat) := [.read, .validate none, .look, .verify none, .launch, .bootstrapped none]

/-- A turn that resumes a dead run, which refuses. -/
def resumeTurn : List (Label Nat) := [.read, .validate none, .look, .classify, .recover, .resumed (some "refused")]

/-- The first contract is launched, succeeds and is promoted across a crash; the second is launched. -/
def twoLaunches : List (Label Nat) :=
  [.start] ++ launchTurn ++
    [.observe "runs/a" (succeededRun "a"), .integrate "a" (some 5), .read, .validate none, .look, .classify,
      .promote false, .crash, .start, .read, .validate none, .look, .classify, .promote false, .advance, .record] ++
    launchTurn

theorem driveCampaignChain_orderly_twoLaunches :
    ∃ t, (machine twoContracts).replay? Machine.free fresh twoLaunches = some t ∧
      t.branch = some 5 ∧ .launched 1 ∈ t.history ∧ Orderly twoContracts t :=
  Machine.exists_replay (fun t => t.branch = some 5 ∧ .launched 1 ∈ t.history)
    (fun _ ran check => ⟨check.1, check.2, driveCampaignChain_orderly _ (.of_replay fresh_initial _ ran)⟩)
    (by decide)

/-- A restart between resumes that make no progress: the fourth resume is one more than the budget. -/
def restartedResumes : List (Label Nat) :=
  [.start] ++ launchTurn ++ [.observe "runs/a" (deadRun "a")] ++ resumeTurn ++ resumeTurn ++
    [.crash, .start] ++ resumeTurn ++ resumeTurn

/-- The `run.json` of a launch that a crash cut off is written between the next look and its launch. -/
def overtakenLaunch : List (Label Nat) :=
  [.start, .read, .validate none, .look, .verify none, .launch, .crash,
    .start, .read, .validate none, .look, .verify none, .observe "runs/a" (deadRun "a"), .launch]

/-- Across a crash a run is resumed without progress more often than the budget, and launched though its `run.json`
is there. -/
theorem driveCampaignChain_restarts :
    (∃ t, (machine twoContracts).replay? Machine.free fresh restartedResumes = some t ∧
        maxRunRecoveryAttempts < t.history.countP fun event => decide (event = .resumed "a" (some "09:00"))) ∧
      ∃ t, (machine twoContracts).replay? Machine.free fresh overtakenLaunch = some t ∧
        t.history.head? = some (.launched 0) ∧ (t.runs "runs/a").record.isSome = true :=
  ⟨Machine.exists_replay _ (fun _ _ check => check) (by decide),
    Machine.exists_replay _ (fun _ _ check => check) (by decide)⟩

end Faberun.Chain
