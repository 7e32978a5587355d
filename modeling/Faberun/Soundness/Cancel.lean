import Faberun.Soundness.CancelRefs

/-! # Canceling loses no integrated commit

`Inv` follows a run through the calls: no controller lives once a call has the lock, the run ref stands or its commit is
safe, the preserved refs are written before anything is released, and a node that has settled keeps its status. A call
that takes the lock needs the run ref covered, which is the condition of the main result.
-/

namespace Faberun.Cancel

variable {τ : Type} {graph : CommitGraph τ} {runId : String} {s t : Run}

/-! ## Loops -/

/-- The nodes whose integrated commit is not preserved yet. -/
def Stage.unpreserved : Stage → Option (List String)
  | .preserving todo => some todo
  | .releasing _ | .unbranching _ | .closing | .returned _ => some []
  | _ => none

/-- The nodes whose verification attempts are not stopped yet. -/
def Stage.unstopped : Stage → Option (List String)
  | .terminating todo | .stopping todo => some todo
  | .marking todo => some todo.tail
  | .preserving _ | .releasing _ | .unbranching _ | .closing | .returned _ => some []
  | _ => none

theorem Stage.unstopped_of_unpreserved {stage : Stage} {todo : List String} (after : stage.unpreserved = some todo) :
    stage.unstopped = some [] := by
  cases stage <;> first | rfl | exact nomatch after

theorem Stage.locked_of_unpreserved {stage : Stage} {todo : List String} (after : stage.unpreserved = some todo) :
    stage.locked = true := by
  cases stage <;> first | rfl | exact nomatch after

theorem Stage.unlocked {stage : Stage} (free : stage.locked = false) :
    stage.unstopped = none ∧ stage.unpreserved = none := by
  cases stage <;> first | exact ⟨rfl, rfl⟩ | exact nomatch free

/-! ## Statuses -/

/-- A node has its status, or had not settled and is canceled. -/
def Since (old : KeyedStore String NodeStatus) (s : Run) : Prop :=
  ∀ id, s.statuses.get? id = old.get? id ∨
    (∃ was, old.get? id = some was ∧ was.settled = false) ∧ s.statuses.get? id = some .canceled

theorem Since.refl (s : Run) : Since s.statuses s := fun _ => .inl rfl

theorem Since.unchanged {old : KeyedStore String NodeStatus} (since : Since old s) : Unchanged old s := by
  intro id status here settled
  rcases since id with same | ⟨⟨was, before, open'⟩, -⟩
  · rw [same, here]
  · obtain rfl := Option.some.inj (here.symm.trans before)
    rw [settled] at open'
    exact nomatch open'

/-- Once every node has settled, those that had not are canceled. -/
theorem Since.canceled {old : KeyedStore String NodeStatus} (since : Since old s)
    (settled : ∀ id status, s.statuses.get? id = some status → status.settled = true) : Canceled old s := by
  intro id status here
  rcases since id with same | ⟨-, canceled⟩
  · exact .inl ⟨status, by rw [← same, here], settled id status here⟩
  · exact .inr (Option.some.inj (here.symm.trans canceled))

/-- A step that writes one node: its status stays, or it had not settled and is canceled. -/
theorem Since.set {old : KeyedStore String NodeStatus} (since : Since old s) {id : String} {before after : NodeSnapshot}
    (here : s.nodes.get? id = some before) (nodes : t.nodes = s.nodes.set id after)
    (status : after.status = before.status ∨ before.status.settled = false ∧ after.status = .canceled) :
    Since old t := by
  intro other
  have reads : t.statuses.get? other = if other = id then some after.status else s.statuses.get? other := by
    simp only [Run.statuses, KeyedStore.get?_map, nodes, KeyedStore.get?_set]
    split_ifs <;> rfl
  rw [reads]
  split_ifs with same
  · have was : s.statuses.get? other = some before.status := by
      rw [Run.statuses, KeyedStore.get?_map, same, here, Option.map_some]
    rcases status with kept | ⟨open', canceled⟩
    · rw [kept, ← was]
      exact since other
    · refine .inr ⟨?_, congrArg some canceled⟩
      rcases since other with equal | ⟨old, -⟩
      · exact ⟨before.status, equal ▸ was, open'⟩
      · exact old
  · exact since other

theorem cancel_status (state : NodeSnapshot) :
    state.cancel.status = state.status ∨ state.status.settled = false ∧ state.cancel.status = .canceled := by
  unfold NodeSnapshot.cancel
  cases settled : state.status.settled
  · exact .inr ⟨rfl, rfl⟩
  · exact .inl rfl

theorem stopAttempts_status (processes : List Process) (state : NodeSnapshot) :
    (state.stopAttempts processes).status = state.status := by
  unfold NodeSnapshot.stopAttempts
  dsimp only
  split <;> rfl

/-! ## Processes -/

/-- Every process that is there was there. -/
theorem not_owned_of_subset {fewer more : List Process} (subset : ∀ process ∈ fewer, process ∈ more) {probe : Probe}
    (gone : invocationOwned more probe = false) : invocationOwned fewer probe = false := by
  unfold invocationOwned at gone ⊢
  split
  · rename_i pid token here there
    rw [here, there] at gone
    exact decide_eq_false fun member => of_decide_eq_false gone (subset _ member)
  · rfl

theorem invocationsGone_of_subset {fewer more : List Process} (subset : ∀ process ∈ fewer, process ∈ more)
    {state : NodeSnapshot} (gone : state.invocationsGone more = true) : state.invocationsGone fewer = true := by
  refine List.all_eq_true.mpr fun invocation member => ?_
  have before := List.all_eq_true.mp gone invocation member
  rw [Bool.not_eq_true'] at before ⊢
  exact not_owned_of_subset subset before

theorem attemptsGone_of_subset {fewer more : List Process} (subset : ∀ process ∈ fewer, process ∈ more)
    {state : NodeSnapshot} (gone : state.attemptsGone more = true) : state.attemptsGone fewer = true := by
  refine List.all_eq_true.mpr fun attempt member => ?_
  have before := List.all_eq_true.mp gone attempt member
  rw [Bool.not_eq_true'] at before ⊢
  exact not_owned_of_subset subset before

theorem without_subset (gone : List Process) (s : Run) : ∀ process ∈ s.without gone, process ∈ s.processes :=
  fun _ member => (List.mem_filter.mp member).1

theorem attemptsGone_of_count {processes : List Process} {state : NodeSnapshot}
    (none : (state.attempts.filter fun attempt => invocationOwned processes attempt.probe).length = 0) :
    state.attemptsGone processes = true := by
  refine List.all_eq_true.mpr fun attempt member => ?_
  have outside := List.filter_eq_nil_iff.mp (List.length_eq_zero_iff.mp none) attempt member
  rw [Bool.not_eq_true']
  exact Bool.eq_false_iff.mpr outside

/-- Stopping attempts changes what is recorded of them, not their processes. -/
theorem attemptsGone_stopAttempts (processes others : List Process) (state : NodeSnapshot) :
    (state.stopAttempts processes).attemptsGone others = state.attemptsGone others := by
  unfold NodeSnapshot.stopAttempts
  dsimp only
  split
  · rfl
  · unfold NodeSnapshot.attemptsGone NodeSnapshot.attempts
    cases state.verification with
    | none => rfl
    | some verification =>
      simp only [Option.map_some, Option.getD_some, List.all_map]
      refine congrArg (fun test => verification.attempts.all test) (funext fun attempt => ?_)
      simp only [Function.comp_apply]
      split_ifs <;> rfl

theorem attemptsGone_cancel (processes : List Process) (state : NodeSnapshot) :
    state.cancel.attemptsGone processes = state.attemptsGone processes := by
  unfold NodeSnapshot.cancel
  split <;> rfl

theorem cancel_work (state : NodeSnapshot) :
    state.cancel.worktree = state.worktree ∧ state.cancel.integratedHead = state.integratedHead := by
  unfold NodeSnapshot.cancel
  split <;> exact ⟨rfl, rfl⟩

theorem stopAttempts_work (processes : List Process) (state : NodeSnapshot) :
    (state.stopAttempts processes).worktree = state.worktree ∧
      (state.stopAttempts processes).integratedHead = state.integratedHead := by
  unfold NodeSnapshot.stopAttempts
  dsimp only
  split <;> exact ⟨rfl, rfl⟩

/-- The attempts of every node but those of `todo` are stopped. -/
def Run.Stopped (s : Run) (todo : List String) : Prop :=
  ∀ id state, s.nodes.get? id = some state → id ∉ todo → state.attemptsGone s.processes = true

/-- The nodes have settled and their invocations have ended. -/
def Run.Terminal (s : Run) : Prop :=
  ∀ id state, s.nodes.get? id = some state → state.status.settled = true ∧ state.invocationsGone s.processes = true

theorem terminal_iff : s.terminal = true ↔ s.Terminal := by
  simp only [Run.terminal, Run.Terminal, List.all_eq_true, Prod.forall, KeyedStore.mem_entries, Bool.and_eq_true]

theorem Run.Stopped.shrink {todo : List String} (stopped : s.Stopped todo) (nodes : t.nodes = s.nodes)
    (subset : ∀ process ∈ t.processes, process ∈ s.processes) : t.Stopped todo := by
  intro id state here outside
  rw [nodes] at here
  exact attemptsGone_of_subset subset (stopped id state here outside)

theorem Run.Terminal.shrink (terminal : s.Terminal) (nodes : t.nodes = s.nodes)
    (subset : ∀ process ∈ t.processes, process ∈ s.processes) : t.Terminal := by
  intro id state here
  rw [nodes] at here
  exact ⟨(terminal id state here).1, invocationsGone_of_subset subset (terminal id state here).2⟩

/-- One node is written with the attempts it has. -/
theorem Run.Stopped.set {todo rest : List String} (stopped : s.Stopped todo) {id : String} {after : NodeSnapshot}
    (nodes : t.nodes = s.nodes.set id after) (subset : ∀ process ∈ t.processes, process ∈ s.processes)
    (own : id ∉ rest → after.attemptsGone t.processes = true) (fewer : ∀ other, other ≠ id → other ∉ rest → other ∉ todo) :
    t.Stopped rest := by
  intro other state here outside
  rw [nodes, KeyedStore.get?_set] at here
  split_ifs at here with same
  · obtain rfl := Option.some.inj here
    exact own (same ▸ outside)
  · exact attemptsGone_of_subset subset (stopped other state here (fewer other same outside))

/-! ## The invariant -/

structure Inv (graph : CommitGraph τ) (runId : String) (s : Run) : Prop where
  quiet : s.first.isSome → s.controller = false
  begun : s.found = none → s.stage = .idle ∧ s.first = none
  locked : s.stage.locked = true → s.first.isSome
  held : s.controller = true → ∀ tip, s.found = some (some tip) → s.RunHolds graph runId tip
  anchored : ∀ tip, s.found = some (some tip) → s.RunHolds graph runId tip ∨ s.Safe graph runId tip
  covered : s.stage.locked = true → ∀ tip, s.found = some (some tip) → s.Safe graph runId tip ∨ s.Recorded graph tip
  preserved : ∀ todo, s.stage.unpreserved = some todo → s.failures = 0 ∧ s.Terminal ∧ s.Preserved runId todo
  stopped : ∀ todo, s.stage.unstopped = some todo → s.failures = 0 → s.Stopped todo
  since : ∀ old, s.first = some old → Since old s
  sinceLock : s.stage.locked = true → Since s.before s

theorem Initial.inv (initial : Initial runId s) : Inv graph runId s := by
  obtain ⟨-, -, controller, stage, found, first⟩ := initial
  refine ⟨?_, ?_, ?_, ?_, ?_, ?_, ?_, ?_, ?_, ?_⟩ <;> simp [controller, stage, found, first, Stage.locked,
    Stage.unstopped, Stage.unpreserved]

/-- Before a call has the lock there is only the run ref to care for. -/
theorem Inv.of_unlocked (first : t.first = none) (locked : t.stage.locked = false)
    (begun : t.found = none → t.stage = .idle)
    (holds : ∀ tip, t.found = some (some tip) → t.RunHolds graph runId tip) : Inv graph runId t := by
  obtain ⟨unstopped, unpreserved⟩ := Stage.unlocked locked
  refine ⟨?_, ?_, ?_, ?_, ?_, ?_, ?_, ?_, ?_, ?_⟩
  · rw [first]
    exact nofun
  · exact fun none => ⟨begun none, first⟩
  · rw [locked]
    exact nofun
  · exact fun _ => holds
  · exact fun tip found => .inl (holds tip found)
  · rw [locked]
    exact nofun
  · rw [unpreserved]
    exact nofun
  · rw [unstopped]
    exact nofun
  · rw [first]
    exact nofun
  · rw [locked]
    exact nofun

theorem Inv.first_none (inv : Inv graph runId s) (alive : s.controller = true) : s.first = none := by
  cases first : s.first with
  | none => rfl
  | some old =>
    have dead := inv.quiet (by rw [first]; rfl)
    rw [alive] at dead
    exact nomatch dead

theorem Inv.locked_false (inv : Inv graph runId s) (first : s.first = none) : s.stage.locked = false := by
  refine Bool.eq_false_iff.mpr fun locked => ?_
  have some := inv.locked locked
  rw [first] at some
  exact nomatch some

/-- What a controller, or anyone before a call, does to the refs keeps the run ref at a descendant. -/
theorem Inv.outside (inv : Inv graph runId s) (open' : s.controller = true ∨ s.found = none)
    (control : t.controller = s.controller ∧ t.stage = s.stage ∧ t.found = s.found ∧ t.first = s.first)
    (holds : ∀ tip, s.RunHolds graph runId tip → t.RunHolds graph runId tip) : Inv graph runId t := by
  obtain ⟨-, stage, found, first⟩ := control
  have unlocked : s.first = none := open'.elim inv.first_none fun none => (inv.begun none).2
  refine .of_unlocked (first.trans unlocked) (by rw [stage]; exact inv.locked_false unlocked) ?_ ?_
  · rw [found, stage]
    exact fun none => (inv.begun none).1
  · intro tip here
    rw [found] at here
    rcases open' with alive | none
    · exact holds tip (inv.held alive tip here)
    · rw [none] at here
      exact nomatch here

private theorem Inv.effect (inv : Inv graph runId s) (alive : s.controller = true) {effect : Effect}
    (taken : s.effect graph runId effect = some t) : Inv graph runId t := by
  cases effect with
  | createRunRef head =>
    simp only [Run.effect] at taken
    split_ifs at taken with absent
    obtain rfl := Option.some.inj taken
    refine inv.outside (.inl alive) ⟨rfl, rfl, rfl, rfl⟩ ?_
    rintro tip ⟨current, here, -⟩
    rw [absent] at here
    cases here
  | advance sha =>
    simp only [Run.effect] at taken
    split at taken
    · cases taken
    · rename_i current there
      split_ifs at taken with descends
      obtain rfl := Option.some.inj taken
      refine inv.outside (.inl alive) ⟨rfl, rfl, rfl, rfl⟩ ?_
      rintro tip ⟨other, here, line⟩
      obtain rfl := Option.some.inj (there.symm.trans here)
      exact ⟨sha, by rw [KeyedStore.get?_set, if_pos rfl], line.trans (graph.isAncestor_iff.mp descends).2⟩
  | persist id state | checkOut path | removeWorktree path | spawn process =>
    obtain rfl := Option.some.inj taken
    exact inv.outside (.inl alive) ⟨rfl, rfl, rfl, rfl⟩ fun _ holds => holds

/-! ## The steps of a call -/

/-- A call that ends, or ends early, gives its claims up. -/
theorem Inv.ends (inv : Inv graph runId s) {stage : Stage} (unlocked : stage.locked = false)
    (idle : s.found = none → stage = .idle) : Inv graph runId { s with stage } := by
  obtain ⟨unstopped, unpreserved⟩ := Stage.unlocked unlocked
  refine { inv with begun := ?_, locked := ?_, covered := ?_, preserved := ?_, stopped := ?_, sinceLock := ?_ }
  · exact fun none => ⟨idle none, (inv.begun none).2⟩
  · exact fun locked => nomatch unlocked.symm.trans locked
  · exact fun locked => nomatch unlocked.symm.trans locked
  · exact fun _ some => nomatch unpreserved.symm.trans some
  · exact fun _ some => nomatch unstopped.symm.trans some
  · exact fun locked => nomatch unlocked.symm.trans locked

private theorem Inv.start (inv : Inv graph runId s) : Inv graph runId (s.start runId) := by
  cases found : s.found with
  | none =>
    refine .of_unlocked (inv.begun found).2 rfl ?_ ?_
    · simp [Run.start, found]
    · intro tip here
      simp only [Run.start, found, Option.none_or, Option.some.injEq] at here
      exact ⟨tip, here, .refl graph tip⟩
  | some before =>
    have same : (s.start runId).found = s.found := by rw [Run.start, found, Option.some_or]
    refine ⟨inv.quiet, ?_, by rintro ⟨⟩, ?_, ?_, by rintro ⟨⟩, by rintro _ ⟨⟩, by rintro _ ⟨⟩, inv.since, by rintro ⟨⟩⟩
    · rw [same, found]
      simp
    · rw [same]
      exact inv.held
    · rw [same]
      exact inv.anchored

private theorem Inv.lock (inv : Inv graph runId s) (waiting : s.stage = .waiting) (dead : s.controller = false)
    (covered : Covered graph runId s) : Inv graph runId s.lock := by
  refine ⟨fun _ => dead, ?_, ?_, ?_, inv.anchored, ?_, nofun, ?_, ?_, fun _ => .refl s⟩
  · intro none
    have idle := (inv.begun none).1
    rw [waiting] at idle
    exact nomatch idle
  · intro _
    simp only [Run.lock]
    cases s.first <;> rfl
  · intro alive
    exact nomatch dead.symm.trans alive
  · intro _ tip found
    rcases inv.anchored tip found with holds | safe
    · exact covered.of_runHolds holds
    · exact .inl safe
  · intro todo unstopped _ id state here outside
    obtain rfl := Option.some.inj unstopped
    exact absurd (KeyedStore.mem_keys.mpr ⟨state, here⟩) outside
  · intro old
    simp only [Run.lock]
    cases first : s.first with
    | none =>
      rintro ⟨⟩
      exact .refl s
    | some before => exact fun same => inv.since old (first.trans same)

/-- A step under the lock that neither writes a node nor changes a ref. -/
private theorem Inv.watch (inv : Inv graph runId s) (locked : s.stage.locked = true) {processes : List Process}
    {failures : Nat} {stage : Stage}
    (preserved : ∀ todo, stage.unpreserved = some todo →
      failures = 0 ∧ ({ s with processes } : Run).Terminal ∧ s.Preserved runId todo)
    (stopped : ∀ todo, stage.unstopped = some todo → failures = 0 → ({ s with processes } : Run).Stopped todo) :
    Inv graph runId { s with processes, failures, stage } := by
  refine { inv with begun := ?_, locked := ?_, covered := ?_, preserved := preserved, stopped := stopped, sinceLock := ?_ }
  · intro none
    have first := inv.locked locked
    rw [(inv.begun none).2] at first
    exact nomatch first
  · exact fun _ => inv.locked locked
  · exact fun _ => inv.covered locked
  · exact fun _ => inv.sinceLock locked

private theorem Inv.terminate (inv : Inv graph runId s) {id : String} {todo : List String} {state : NodeSnapshot}
    (stage : s.stage = .terminating (id :: todo)) (gone : List Process) (errors : Nat) :
    Inv graph runId (s.terminate state (id :: todo) gone errors) := by
  refine inv.watch (by rw [stage]; rfl) nofun ?_
  intro rest unstopped none
  have before := inv.stopped (id :: todo) (by rw [stage]; rfl) (by omega)
  obtain rfl := Option.some.inj unstopped
  exact before.shrink rfl (without_subset gone s)

/-- A step under the lock that writes one node, its work and its processes as they are. -/
private theorem Inv.write (inv : Inv graph runId s) (locked : s.stage.locked = true) {id : String}
    {before after : NodeSnapshot} (here : s.nodes.get? id = some before)
    (work : after.worktree = before.worktree ∧ after.integratedHead = before.integratedHead)
    (status : after.status = before.status ∨ before.status.settled = false ∧ after.status = .canceled)
    {processes : List Process} {failures : Nat} {stage : Stage} (open' : stage.unpreserved = none)
    (stopped : ∀ todo, stage.unstopped = some todo → failures = 0 →
      ({ s with nodes := s.nodes.set id after, processes } : Run).Stopped todo) :
    Inv graph runId { s with nodes := s.nodes.set id after, processes, failures, stage } := by
  have same : SameWork s { s with nodes := s.nodes.set id after, processes, failures, stage } :=
    .of_set here work.1 work.2 rfl
  refine { inv with
    begun := ?_, locked := ?_, anchored := ?_, covered := ?_, preserved := ?_, stopped := stopped, since := ?_, sinceLock := ?_ }
  · intro none
    have first := inv.locked locked
    rw [(inv.begun none).2] at first
    exact nomatch first
  · exact fun _ => inv.locked locked
  · exact fun tip found => (inv.anchored tip found).imp (fun holds => holds) (same.safe rfl)
  · exact fun _ tip found => (inv.covered locked tip found).imp (same.safe rfl) same.recorded
  · exact fun _ some => nomatch open'.symm.trans some
  · exact fun old first => (inv.since old first).set here rfl status
  · exact fun _ => (inv.sinceLock locked).set here rfl status

private theorem Inv.stopAttempts (inv : Inv graph runId s) {id : String} {todo : List String} {state : NodeSnapshot}
    (stage : s.stage = .stopping (id :: todo)) (here : s.nodes.get? id = some state) (gone : List Process)
    (errors : Nat) : Inv graph runId (s.stopAttempts id state (id :: todo) gone errors) := by
  refine inv.write (by rw [stage]; rfl) here (stopAttempts_work _ _) (.inl (stopAttempts_status _ _)) rfl ?_
  intro rest unstopped none
  obtain rfl := Option.some.inj unstopped
  refine (inv.stopped (id :: todo) (by rw [stage]; rfl) (by omega)).set rfl (without_subset gone s) ?_ ?_
  · intro _
    rw [attemptsGone_stopAttempts]
    exact attemptsGone_of_count (Nat.eq_zero_of_add_eq_zero_left none)
  · intro other ne outside
    exact List.not_mem_cons_of_ne_of_not_mem ne outside

private theorem Inv.mark (inv : Inv graph runId s) {id : String} {todo : List String} {state : NodeSnapshot}
    (stage : s.stage = .marking (id :: todo)) (here : s.nodes.get? id = some state) :
    Inv graph runId (s.mark id state todo) := by
  have locked : s.stage.locked = true := by rw [stage]; rfl
  have before := inv.stopped todo (by rw [stage]; rfl)
  unfold Run.mark
  split_ifs with clean
  · refine inv.write locked here (cancel_work state) (cancel_status state) rfl ?_
    intro rest unstopped none
    obtain rfl := Option.some.inj unstopped
    refine (before clean).set rfl (fun _ member => member) ?_ fun _ _ outside => outside
    intro outside
    rw [attemptsGone_cancel]
    exact before clean id state here outside
  · refine inv.watch locked nofun ?_
    intro _ _ none
    exact absurd none clean

private theorem Inv.confirm (inv : Inv graph runId s) (stage : s.stage = .terminating []) (clean : s.failures = 0)
    (terminal : s.terminal = true) : Inv graph runId { s with stage := .preserving s.nodes.keys } := by
  refine inv.watch (by rw [stage]; rfl) ?_ ?_
  · intro todo unpreserved
    obtain rfl := Option.some.inj unpreserved
    refine ⟨clean, terminal_iff.mp terminal, ?_⟩
    intro id state _ here _ outside
    exact absurd (KeyedStore.mem_keys.mpr ⟨state, here⟩) outside
  · intro todo unstopped clean
    obtain rfl := Option.some.inj unstopped
    exact inv.stopped [] (by rw [stage]; rfl) clean

/-- A step once every node has settled: safe commits stay safe, and a commit of the run ref stays there or is safe. -/
private theorem Inv.release (inv : Inv graph runId s) {before after : List String} {refs : KeyedStore String Nat}
    {worktrees : List String} {stage : Stage} (now : s.stage.unpreserved = some before)
    (next : stage.unpreserved = some after)
    (holds : ∀ tip, s.Safe graph runId tip ∨ s.Recorded graph tip → s.RunHolds graph runId tip →
      ({ s with refs } : Run).RunHolds graph runId tip ∨ ({ s with refs } : Run).Safe graph runId tip)
    (safe : ∀ tip, s.Safe graph runId tip → ({ s with refs } : Run).Safe graph runId tip)
    (preserved : s.Preserved runId before → ({ s with refs } : Run).Preserved runId after) :
    Inv graph runId { s with refs, worktrees, stage } := by
  have locked := Stage.locked_of_unpreserved now
  have dead := inv.quiet (inv.locked locked)
  obtain ⟨clean, terminal, kept⟩ := inv.preserved before now
  refine { inv with
    begun := ?_, locked := ?_, held := ?_, anchored := ?_, covered := ?_, preserved := ?_, stopped := ?_, sinceLock := ?_ }
  · intro none
    have first := inv.locked locked
    rw [(inv.begun none).2] at first
    exact nomatch first
  · exact fun _ => inv.locked locked
  · exact fun alive => nomatch dead.symm.trans alive
  · exact fun tip found => (inv.anchored tip found).elim (holds tip (inv.covered locked tip found)) fun h => .inr (safe tip h)
  · exact fun _ tip found => (inv.covered locked tip found).imp (safe tip) fun recorded => recorded
  · intro todo unpreserved
    obtain rfl := Option.some.inj (next.symm.trans unpreserved)
    exact ⟨clean, terminal, preserved kept⟩
  · intro todo unstopped _
    obtain rfl := Option.some.inj ((Stage.unstopped_of_unpreserved next).symm.trans unstopped)
    exact inv.stopped [] (Stage.unstopped_of_unpreserved now) clean
  · exact fun _ => inv.sinceLock locked

/-- A step of the release that leaves the refs. -/
private theorem Inv.pass (inv : Inv graph runId s) (worktrees : List String) {before after : List String} {stage : Stage}
    (now : s.stage.unpreserved = some before) (next : stage.unpreserved = some after)
    (preserved : s.Preserved runId before → s.Preserved runId after) : Inv graph runId { s with worktrees, stage } :=
  inv.release now next (fun _ _ => .inl) (fun _ safe => safe) preserved

private theorem Inv.preserve (inv : Inv graph runId s) {id : String} {todo : List String} {state : NodeSnapshot}
    (stage : s.stage = .preserving (id :: todo)) (here : s.nodes.get? id = some state) :
    Inv graph runId (s.preserve runId id state todo) := by
  have now : s.stage.unpreserved = some (id :: todo) := by rw [stage]; rfl
  unfold Run.preserve
  split
  · rename_i never
    exact inv.pass _ now rfl fun kept => kept.skip here never
  · rename_i head integrated
    refine inv.release now rfl ?_ ?_ ?_
    · exact fun tip _ holds => .inl (runHolds_set_of_ne (preservedRefName_ne_runRefName runId id) rfl holds)
    · exact fun tip safe => safe_set_preserved here integrated rfl rfl safe
    · exact fun kept => kept.set here integrated rfl rfl

private theorem Inv.removeWorktree (inv : Inv graph runId s) {id : String} {todo : List String} {state : NodeSnapshot}
    (stage : s.stage = .releasing (id :: todo)) : Inv graph runId (s.removeWorktree id state todo) := by
  have now : s.stage.unpreserved = some [] := by rw [stage]; rfl
  unfold Run.removeWorktree
  split
  · exact inv.pass _ now rfl fun kept => kept
  · exact inv.pass _ now rfl fun kept => kept

private theorem Inv.deleteBranch (inv : Inv graph runId s) {id branch : String} {todo : List String}
    {state : NodeSnapshot} (stage : s.stage = .unbranching (id :: todo)) (here : s.nodes.get? id = some state)
    (checkedOut : state.worktree.branch = some branch) (deleted : Bool) :
    Inv graph runId (s.deleteRef (branchRefName branch) deleted (.releasing todo)) := by
  have now : s.stage.unpreserved = some [] := by rw [stage]; rfl
  cases deleted with
  | false => exact inv.pass _ now rfl fun kept => kept
  | true =>
    refine inv.release now rfl ?_ ?_ ?_
    · exact fun tip _ holds => .inl (runHolds_erase_of_ne (branchRefName_ne_runRefName branch runId) rfl holds)
    · exact fun tip safe => safe_erase (keeps_branch here checkedOut) rfl rfl safe
    · exact fun kept => kept.erase (fun id => preservedRefName_ne_branchRefName runId id branch) rfl rfl

/-- Every integrated commit is preserved by now, so what is covered is safe. -/
private theorem Inv.deleteRunRef (inv : Inv graph runId s) (stage : s.stage = .closing) (deleted : Bool)
    (result : CancelResult) : Inv graph runId (s.deleteRef (runRefName runId) deleted (.returned result)) := by
  have now : s.stage.unpreserved = some [] := by rw [stage]; rfl
  cases deleted with
  | false => exact inv.pass _ now rfl fun kept => kept
  | true =>
    have erased (tip : Nat) (safe : s.Safe graph runId tip) :
        ({ s with refs := s.refs.erase (runRefName runId) } : Run).Safe graph runId tip :=
      safe_erase (s := s) keeps_runRef rfl rfl safe
    refine inv.release now rfl ?_ erased ?_
    · exact fun tip covered _ => .inr (erased tip (covered.elim (fun safe => safe) (inv.preserved [] now).2.2.safe))
    · exact fun kept => kept.erase (preservedRefName_ne_runRefName runId) rfl rfl

/-! ## Runs -/

private theorem Inv.cancel (inv : Inv graph runId s) {event : Event}
    (covered : event = .lock → Covered graph runId s) (taken : s.cancel runId event = some t) : Inv graph runId t := by
  cases event with
  | start =>
    simp only [Run.cancel] at taken
    split_ifs at taken
    obtain rfl := Option.some.inj taken
    exact inv.start
  | lock =>
    simp only [Run.cancel] at taken
    split_ifs at taken with free
    obtain rfl := Option.some.inj taken
    exact inv.lock free.1 free.2 (covered rfl)
  | terminate gone errors =>
    simp only [Run.cancel] at taken
    split at taken
    · rename_i id todo stage
      obtain ⟨state, -, rfl⟩ := Option.map_eq_some_iff.mp taken
      exact inv.terminate stage gone errors
    · cases taken
  | stopAttempts gone errors =>
    simp only [Run.cancel] at taken
    split at taken
    · rename_i id todo stage
      obtain ⟨state, here, rfl⟩ := Option.map_eq_some_iff.mp taken
      exact inv.stopAttempts stage here gone errors
    · cases taken
  | mark =>
    simp only [Run.cancel] at taken
    split at taken
    · rename_i id todo stage
      obtain ⟨state, here, rfl⟩ := Option.map_eq_some_iff.mp taken
      exact inv.mark stage here
    · cases taken
  | refuse =>
    simp only [Run.cancel] at taken
    split_ifs at taken with failed
    obtain rfl := Option.some.inj taken
    refine inv.ends rfl fun none => ?_
    have idle := (inv.begun none).1
    rw [failed.1] at idle
    cases idle
  | confirm =>
    simp only [Run.cancel] at taken
    split_ifs at taken with ready
    obtain rfl := Option.some.inj taken
    exact inv.confirm ready.1 ready.2.1 ready.2.2
  | preserve =>
    simp only [Run.cancel] at taken
    split at taken
    · rename_i stage
      obtain rfl := Option.some.inj taken
      exact inv.pass s.worktrees (by rw [stage]; rfl) rfl fun kept => kept
    · rename_i id todo stage
      obtain ⟨state, here, rfl⟩ := Option.map_eq_some_iff.mp taken
      exact inv.preserve stage here
    · cases taken
  | removeWorktree =>
    simp only [Run.cancel] at taken
    split at taken
    · rename_i stage
      obtain rfl := Option.some.inj taken
      exact inv.pass s.worktrees (by rw [stage]; rfl) rfl fun kept => kept
    · rename_i id todo stage
      obtain ⟨state, -, rfl⟩ := Option.map_eq_some_iff.mp taken
      exact inv.removeWorktree stage
    · cases taken
  | deleteBranch deleted =>
    simp only [Run.cancel] at taken
    split at taken
    · rename_i id todo stage
      obtain ⟨state, here, taken⟩ := Option.bind_eq_some_iff.mp taken
      obtain ⟨branch, checkedOut, rfl⟩ := Option.map_eq_some_iff.mp taken
      exact inv.deleteBranch stage here checkedOut deleted
    · cases taken
  | deleteRunRef deleted =>
    simp only [Run.cancel] at taken
    split at taken
    · rename_i stage
      obtain rfl := Option.some.inj taken
      exact inv.deleteRunRef stage deleted _
    · cases taken
  | throws message =>
    simp only [Run.cancel] at taken
    split_ifs at taken with going
    obtain rfl := Option.some.inj taken
    refine inv.ends rfl fun none => ?_
    rw [(inv.begun none).1] at going
    cases going
  | dies =>
    simp only [Run.cancel] at taken
    split_ifs at taken
    obtain rfl := Option.some.inj taken
    exact inv.ends rfl fun _ => rfl

/-- Every step under the condition keeps the invariant. -/
theorem Inv.step (inv : Inv graph runId s) {label : Label} (covered : TipCovered graph runId s label)
    (taken : s.step graph runId label = some t) : Inv graph runId t := by
  cases label with
  | launches =>
    simp only [Run.step] at taken
    split_ifs at taken with never
    obtain rfl := Option.some.inj taken
    obtain ⟨idle, first⟩ := inv.begun never
    refine .of_unlocked first (by rw [idle]; rfl) (fun _ => idle) ?_
    intro tip found
    exact nomatch never.symm.trans found
  | controller effect =>
    simp only [Run.step] at taken
    split_ifs at taken with alive
    exact inv.effect alive taken
  | dies =>
    obtain rfl := Option.some.inj taken
    exact { inv with quiet := fun _ => rfl, held := nofun }
  | moves name sha =>
    simp only [Run.step] at taken
    split_ifs at taken with allowed
    obtain rfl := Option.some.inj taken
    refine inv.outside allowed.2 ⟨rfl, rfl, rfl, rfl⟩ ?_
    intro tip holds
    cases sha with
    | none => exact runHolds_erase_of_ne allowed.1 rfl holds
    | some sha => exact runHolds_set_of_ne allowed.1 rfl holds
  | exits process =>
    obtain rfl := Option.some.inj taken
    have fewer := without_subset [process] s
    refine { inv with preserved := ?_, stopped := ?_ }
    · intro todo now
      obtain ⟨clean, terminal, kept⟩ := inv.preserved todo now
      exact ⟨clean, terminal.shrink rfl fewer, kept⟩
    · exact fun todo now clean => (inv.stopped todo now clean).shrink rfl fewer
  | cancel event => exact inv.cancel (fun lock => covered (congrArg Label.cancel lock)) taken

theorem inv_of_reach (reach : (machine graph runId).Reach (TipCovered graph runId) (Initial runId) s) :
    Inv graph runId s :=
  reach.invariant (Inv graph runId) (fun _ initial => initial.inv) fun _ _ _ inv covered taken => inv.step covered taken

/-- Before the nodes have settled a call changes neither refs nor worktrees. -/
theorem refs_of_unreleased {event : Event} (before : s.stage.unpreserved = none) (taken : s.cancel runId event = some t) :
    t.refs = s.refs ∧ t.worktrees = s.worktrees := by
  cases event with
  | start | lock | refuse | confirm | throws message | dies =>
    simp only [Run.cancel] at taken
    split_ifs at taken
    obtain rfl := Option.some.inj taken
    exact ⟨rfl, rfl⟩
  | terminate gone errors | stopAttempts gone errors | mark =>
    simp only [Run.cancel] at taken
    split at taken
    · obtain ⟨state, -, rfl⟩ := Option.map_eq_some_iff.mp taken
      exact ⟨rfl, rfl⟩
    · cases taken
  | preserve | removeWorktree | deleteBranch deleted | deleteRunRef deleted =>
    simp only [Run.cancel] at taken
    split at taken <;> simp_all [Stage.unpreserved]

/-- In every run whose calls find the run ref covered: what the first call found stays reachable, a node that had
settled keeps its status, a call that returns has canceled the others, and a call releases something only when every
recorded process is confirmed to have ended. -/
theorem cancelRun_keeps (reach : (machine graph runId).Reach (TipCovered graph runId) (Initial runId) s) :
    Reachable graph s ∧
      (∀ old, s.first = some old ∨ s.stage.locked = true ∧ s.before = old → Unchanged old s) ∧
      (∀ result, s.stage = .returned result → Canceled s.before s) ∧
      ∀ event t, s.cancel runId event = some t → Removes s t → Confirmed s := by
  have inv := inv_of_reach reach
  refine ⟨?_, ?_, ?_, ?_⟩
  · intro tip found sha line
    rcases inv.anchored tip found with ⟨current, here, rest⟩ | ⟨name, kept, here, -, rest⟩
    · exact ⟨_, current, here, line.trans rest⟩
    · exact ⟨name, kept, here, line.trans rest⟩
  · rintro old (first | ⟨locked, rfl⟩)
    · exact (inv.since old first).unchanged
    · exact (inv.sinceLock locked).unchanged
  · intro result returned
    refine (inv.sinceLock (by rw [returned]; rfl)).canceled ?_
    intro id status here
    rw [Run.statuses, KeyedStore.get?_map] at here
    obtain ⟨state, found, rfl⟩ := Option.map_eq_some_iff.mp here
    exact ((inv.preserved [] (by rw [returned]; rfl)).2.1 id state found).1
  · intro event t taken removes
    cases now : s.stage.unpreserved with
    | none =>
      obtain ⟨refs, worktrees⟩ := refs_of_unreleased now taken
      rcases removes with ⟨name, sha, here, gone⟩ | ⟨path, there, gone⟩
      · rw [refs, here] at gone
        exact nomatch gone
      · exact absurd (worktrees ▸ there) gone
    | some todo =>
      obtain ⟨clean, terminal, -⟩ := inv.preserved todo now
      refine ⟨clean, fun id state here => ⟨(terminal id state here).2, ?_⟩⟩
      exact inv.stopped [] (Stage.unstopped_of_unpreserved now) clean id state here List.not_mem_nil

/-! ## Two runs of one node -/

/-- A commit and one on top of it. -/
def twoCommits : CommitGraph Unit := (CommitGraph.root ()).extend ⟨(), [0]⟩ (by decide)

def repository : Run := ⟨.empty, KeyedStore.empty.set "refs/heads/main" 0, [], [], false, .idle, 0, none, none, .empty⟩

def working : NodeSnapshot := ⟨.running, .worker, [], none, ⟨some "attempts/a", some "faberun/r/a/1"⟩, none⟩

/-- The node works and its candidate is verified. -/
def verified : List Label :=
  [.launches, .controller (.createRunRef 0), .controller (.checkOut "attempts/a"), .controller (.persist "a" working),
    .moves (branchRefName "faberun/r/a/1") (some 1), .moves (candidateRefName "r") (some 1)]

/-- A call up to the point where everything has ended. -/
def stopsNode : List Label :=
  [.cancel .start, .cancel .lock, .cancel (.terminate [] 0), .cancel (.stopAttempts [] 0), .cancel .mark, .cancel .confirm]

/-- The rest of the call. -/
def releases : List Label :=
  [.cancel .preserve, .cancel .preserve, .cancel .removeWorktree, .cancel (.deleteBranch true), .cancel .removeWorktree,
    .cancel (.deleteRunRef true)]

private theorem repository_initial : Initial "r" repository := ⟨rfl, by decide, rfl, rfl, rfl, rfl⟩

/-- The integration is recorded; a call that dies before its release is repeated. -/
theorem cancelRun_keeps_recorded :
    ∃ s, (machine twoCommits "r").replay? (TipCovered twoCommits "r") repository
        (verified ++ [.controller (.advance 1),
          .controller (.persist "a" { working with status := .done, phase := .complete, integratedHead := some 1 }),
          .dies] ++ stopsNode ++ [.cancel .dies] ++ stopsNode ++ releases) = some s ∧
      Reachable twoCommits s ∧
      (∀ old, s.first = some old ∨ s.stage.locked = true ∧ s.before = old → Unchanged old s) ∧
      (∀ result, s.stage = .returned result → Canceled s.before s) ∧
      ∀ event t, s.cancel "r" event = some t → Removes s t → Confirmed s :=
  Machine.exists_replay (fun s => s.stage.locked = true ∧ s.refs.get? (runRefName "r") = none)
    (fun _ ran _ => cancelRun_keeps (.of_replay repository_initial _ ran)) (by decide)

/-- A recovery drops the candidate ref before it moves the run ref; it dies before the node is recorded, and the call
that follows deletes every name the integrated commit had. -/
theorem cancelRun_loses :
    ∃ s, (machine twoCommits "r").Reach Machine.free (Initial "r") s ∧ ¬ Reachable twoCommits s := by
  have ran : ∃ s, (machine twoCommits "r").replay? Machine.free repository
      (verified ++ [.dies, .launches, .moves (candidateRefName "r") none, .controller (.advance 1), .dies] ++ stopsNode ++
        releases) = some s ∧ s.found = some (some 1) ∧ s.refs = KeyedStore.empty.set "refs/heads/main" 0 :=
    Machine.exists_replay _ (fun _ _ held => held) (by decide)
  obtain ⟨s, ran, found, refs⟩ := ran
  refine ⟨s, .of_replay repository_initial _ ran, ?_⟩
  intro reachable
  obtain ⟨name, kept, here, line⟩ := reachable 1 found 1 (.refl _ 1)
  rw [refs, KeyedStore.get?_set] at here
  split_ifs at here
  · obtain rfl := Option.some.inj here
    exact absurd line (by decide)
  · cases here

end Faberun.Cancel
