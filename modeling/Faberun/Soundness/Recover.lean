import Faberun.Model.Engine.Recover

/-! # Recovering a finished turn

What a reading of the transcript gives is settled first: a done turn is adopted, or rejudged where the worker's stream
is complete. `At` then says what holds at each stage of a call, and one lemma a stage shows that the next step keeps it:
once the process is found gone its transcript stands, and the stages passed from there on all come to a reading of it.
-/

namespace Faberun.Recover

variable {o : Orphan} {s t : State} {transcript : String} {canonical : Option String} {envelope : Envelope}

namespace Orphan

theorem isDone_iff {reading : Option Envelope} : isDone reading = true ↔ ∃ envelope, reading = some envelope ∧ envelope.status = .done := by
  cases reading <;> simp [isDone]

theorem isExhausted_of_some (status : envelope.status = .exhausted) : isExhausted (some envelope) = true := by
  simp [isExhausted, status]

/-! ## Outcomes -/

theorem rejudge_kind (complete : isDone o.worker = true) (reading : Option Envelope) :
    (o.rejudgeOrRestart reading).kind = .rejudge := by
  simp [rejudgeOrRestart, complete]

theorem rejudge_not_adopted (reading : Option Envelope) : (o.rejudgeOrRestart reading).kind ≠ .adopted := by
  unfold rejudgeOrRestart
  dsimp only
  split <;> exact nofun

/-- A turn is owed an adoption to a worker, and to a judge whose worker's stream is complete. -/
def Owed (o : Orphan) : Prop := o.phase = .judge → isDone o.worker = true

theorem adoptOrRejudge_keeps (judge : o.phase = .judge) (owed : o.Owed) (envelope : Envelope) :
    o.Keeps (o.adoptOrRejudgeJudge envelope) := by
  simp only [Keeps, judge, adoptOrRejudgeJudge]
  split
  · exact .inl rfl
  · exact .inr (rejudge_kind (owed judge) _)

theorem rejudge_keeps (judge : o.phase = .judge) (owed : o.Owed) (reading : Option Envelope) :
    o.Keeps (o.rejudgeOrRestart reading) := by
  simp only [Keeps, judge]
  exact .inr (rejudge_kind (owed judge) reading)

theorem adoptedPersisted_keeps (o : Orphan) (result : String) : o.Keeps (o.adoptedPersisted result) := by
  unfold Keeps
  split
  · rfl
  · exact .inl rfl

theorem adopt_keeps (owed : o.Owed) (envelope : Envelope) : o.Keeps (o.adopt envelope) := by
  cases phase : o.phase with
  | worker => simp only [Keeps, adopt, phase, adopted]
  | judge =>
    have keeps := adoptOrRejudge_keeps phase owed envelope
    simpa only [adopt, phase] using keeps

/-- Without times to compare a done turn is adopted. -/
theorem blind_keeps (owed : o.Owed) (done : isDone (o.readLive transcript) = true) :
    o.Keeps (o.blind transcript canonical) := by
  obtain ⟨envelope, reads, status⟩ := isDone_iff.mp done
  simp only [blind, reads, Option.filter_some, status, decide_true, if_true]
  exact adopt_keeps owed envelope

theorem left_keeps (owed : o.Owed) {outcome : RecoveryOutcome} (goes : o.left transcript canonical = some outcome)
    (shown : (o.invocation.closedAt = .null → (o.persisted canonical).isSome = true) ∧
      (o.invocation.closedAt ≠ .null → o.phase = .judge → isExhausted (o.readClosed transcript) = false)) :
    o.Keeps outcome := by
  unfold left at goes
  split at goes
  · rename_i null
    obtain ⟨result, here⟩ := Option.isSome_iff_exists.mp (shown.1 null)
    simp only [here, Option.some.injEq] at goes
    exact goes ▸ adoptedPersisted_keeps o result
  · rename_i closed
    split at goes
    · exact nomatch goes
    · rename_i judge
      have fallback (reading : Option Envelope) :
          o.Keeps ((o.persistedJudgeResult.map o.adoptedPersisted).getD (o.rejudgeOrRestart reading)) := by
        cases o.persistedJudgeResult with
        | none => exact rejudge_keeps judge owed reading
        | some result => exact adoptedPersisted_keeps o result
      split at goes
      · exact Option.some.inj goes ▸ fallback none
      · rename_i envelope reads
        split_ifs at goes with done exhausted
        · exact Option.some.inj goes ▸ adoptOrRejudge_keeps judge owed envelope
        · have shown := shown.2 closed judge
          rw [reads, isExhausted_of_some exhausted] at shown
          exact nomatch shown
        · exact Option.some.inj goes ▸ fallback (some envelope)

/-- A record closed in time whose transcript, or a persisted result, still shows the turn. -/
theorem closed_keeps (owed : o.Owed) (recorded : o.invocation.closedAt ≠ .null) (parsed : o.invocation.closedAt ≠ .unparsable)
    (inTime : o.closedLate = false) (shown : o.showsTurn s = true) : o.Keeps (o.closed s.transcript s.canonical) := by
  unfold closed
  split
  · rename_i null
    exact absurd null recorded
  · rename_i unparsable
    exact absurd unparsable parsed
  · rw [if_neg (Bool.eq_false_iff.mp inTime)]
    dsimp only
    split
    · rename_i judge
      split
      · exact rejudge_keeps judge owed none
      · rename_i envelope reads
        split_ifs with done exhausted
        · exact adoptOrRejudge_keeps judge owed envelope
        · simp [showsTurn, judge, reads, isExhausted_of_some exhausted] at shown
        · exact rejudge_keeps judge owed (some envelope)
    · rename_i worker
      simp only [showsTurn, worker, Bool.or_eq_true, Bool.and_eq_true, Bool.not_eq_true'] at shown
      split
      · rename_i envelope reads
        obtain ⟨reads, status⟩ := Option.filter_eq_some_iff.mp reads
        split_ifs with done
        · simp only [Keeps, worker, adopted]
        · have exhausted := (of_decide_eq_true status).resolve_left done
          rw [reads, isExhausted_of_some exhausted] at shown
          simp [isDone, done] at shown
      · rename_i neither
        have persisted : (o.persisted s.canonical).isSome = true := by
          rcases shown with done | ⟨-, persisted⟩
          · obtain ⟨envelope, reads, status⟩ := isDone_iff.mp done
            simp [reads, status] at neither
          · exact persisted
        obtain ⟨text, here⟩ := Option.isSome_iff_exists.mp persisted
        rw [here]
        exact adoptedPersisted_keeps o text

/-! ## Closed after the deadline -/

theorem closed_late (late : o.closedLate = true) : (o.closed transcript canonical).kind ≠ .adopted := by
  unfold closed
  split
  · exact nofun
  · exact nofun
  · rw [if_pos late]
    exact nofun

theorem closedAt_of_late (late : o.closedLate = true) : o.deadline ≠ none ∧ ∃ at', o.invocation.closedAt = .time at' := by
  unfold closedLate at late
  split at late
  · rename_i closedAt deadline here there
    exact ⟨by rw [there]; exact nofun, closedAt, here⟩
  · exact nomatch late

/-- The end of the poll adopts nothing of an invocation closed late unless a verdict is left of it. -/
theorem left_late {outcome : RecoveryOutcome} (late : o.closedLate = true)
    (none' : o.phase = .judge → o.hasVerdict s = false) (goes : o.left s.transcript s.canonical = some outcome) :
    outcome.kind ≠ .adopted := by
  obtain ⟨-, closedAt, here⟩ := closedAt_of_late late
  unfold left at goes
  rw [here] at goes
  dsimp only at goes
  split at goes
  · exact nomatch goes
  · rename_i judge
    have none' := none' judge
    unfold hasVerdict at none'
    split at goes
    · rename_i reads
      rw [reads] at none'
      rw [Option.not_isSome_iff_eq_none.mp (Bool.eq_false_iff.mp none')] at goes
      exact Option.some.inj goes ▸ rejudge_not_adopted none
    · rename_i envelope reads
      rw [reads] at none'
      dsimp only at none'
      split_ifs at goes none' with done exhausted
      · rw [← Option.some.inj goes, adoptOrRejudgeJudge, none', if_neg Bool.false_ne_true]
        exact rejudge_not_adopted _
      · rw [← Option.some.inj goes]
        exact nofun
      · rw [decide_eq_true exhausted, Bool.true_and] at none'
        rw [Option.not_isSome_iff_eq_none.mp (Bool.eq_false_iff.mp none')] at goes
        exact Option.some.inj goes ▸ rejudge_not_adopted _

end Orphan

/-! ## A call -/

/-- What holds at a stage. -/
def At (o : Orphan) (s : State) : Stage → Prop
  | .blindCheck | .stopping .blind => s.observed = false ∧ o.closedLate = false
  | .blindRead => s.owned = false ∧ o.closedLate = false
  | .firstCheck | .firstClock | .pollCheck | .pollClock | .pollRead | .pollDone _ =>
    s.observed = false ∧ o.invocation.closedAt ≠ .unparsable
  | .overdueRead => s.owned = false ∧ s.observed = false
  | .stopping .overdue => s.observed = false ∧ s.inTime o = false
  | .stopping (.late _) => s.observed = false
  | .stopping (.adopt _) => s.observed = false ∧ o.closedLate = false
  | .leftClock => o.invocation.closedAt ≠ .unparsable
  | .leftCheck false | .stopping (.left false) => o.invocation.closedAt ≠ .unparsable
  | .leftCheck true | .stopping (.left true) => s.observed = false ∧ s.inTime o = false
  | .leftDecide false | .closedDecide => s.owned = false ∧ o.invocation.closedAt ≠ .unparsable
  | .leftDecide true => s.owned = false ∧ s.observed = false
  | .returned outcome =>
    s.owned = false ∧ (s.observed = true → o.Keeps outcome) ∧ (o.closedLate = true → outcome.kind ≠ .adopted)
  | .threw => True

structure Inv (o : Orphan) (s : State) : Prop where
  /-- A process found gone stays gone, and so does what its transcript shows. -/
  seen : s.observed = true → s.owned = false ∧ s.owes o = true
  here : At o s s.stage

theorem owed_of_owes (owes : s.owes o = true) : o.Owed ∧ Orphan.isDone (o.readLive s.transcript) = true := by
  simp only [State.owes, Bool.and_eq_true, Bool.or_eq_true, decide_eq_true_eq] at owes
  refine ⟨fun judge => ?_, owes.1⟩
  rcases owes.2 with worker | complete
  · exact nomatch judge.symm.trans worker
  · exact complete

theorem Initial.inv (initial : Initial o s) : Inv o s := by
  obtain ⟨stage, observed⟩ := initial
  refine ⟨fun seen => absurd seen (by simp [observed]), ?_⟩
  unfold Orphan.opening at stage
  split_ifs at stage with times
  · rw [stage]
    refine ⟨observed, Bool.eq_false_iff.mpr fun late => ?_⟩
    obtain ⟨deadline, closedAt, here⟩ := Orphan.closedAt_of_late late
    rcases times with untimed | unparsable
    · exact deadline untimed
    · exact nomatch here.symm.trans unparsable
  · rw [stage]
    exact ⟨observed, fun unparsable => times (.inr unparsable)⟩

/-! ## What a step keeps -/

private theorem Inv.goesOn (inv : Inv o s) (next : Stage) (here : At o { s with stage := next } next) :
    Inv o { s with stage := next } :=
  ⟨inv.seen, here⟩

/-- An answer to whether the process is owned. -/
private theorem Inv.checked (inv : Inv o s) {next : Stage} (here : At o (s.checked o next) next) :
    Inv o (s.checked o next) := by
  refine ⟨fun seen => ?_, here⟩
  simp only [State.checked, Bool.or_eq_true, Bool.and_eq_true, Bool.not_eq_true'] at seen
  rcases seen with seen | ⟨⟨gone, -⟩, owes⟩
  · exact inv.seen seen
  · exact ⟨gone, owes⟩

private theorem observed_of_owned (owned : s.owned = true) (before : s.observed = false) (next : Stage) :
    (s.checked o next).observed = false := by
  simp [State.checked, owned, before]

private theorem observed_of_late (late : s.inTime o = false) (before : s.observed = false) (next : Stage) :
    (s.checked o next).observed = false := by
  simp [State.checked, late, before]

/-- A check goes on to what holds where the process answers, and to what holds where it does not. -/
private theorem Inv.check (inv : Inv o s) {alive gone : Stage}
    (whenAlive : s.owned = true → At o (s.checked o alive) alive)
    (whenGone : s.owned = false → At o (s.checked o gone) gone) : Inv o (s.check o alive gone) := by
  refine inv.checked ?_
  cases owned : s.owned with
  | true => exact whenAlive owned
  | false => exact whenGone owned

private theorem inTime_of_not_lt {deadline : Rat} (is : o.deadline = some deadline) (late : ¬ s.clock < deadline) :
    s.inTime o = false := by
  simpa [State.inTime, is] using late

/-- A termination that is over. -/
private theorem Inv.resume (inv : Inv o s) {after : After} (stage : s.stage = .stopping after) (gone : s.owned = false)
    (late : ∀ envelope, after = .late envelope → s.inTime o = true → s.owes o = false) :
    Inv o (s.checked o (State.resume o after)) := by
  have here := inv.here
  rw [stage] at here
  refine inv.checked ?_
  match after, here with
  | .blind, here => exact ⟨gone, here.2⟩
  | .overdue, here => exact ⟨gone, observed_of_late here.2 here.1 _⟩
  | .late envelope, here =>
    refine ⟨gone, fun seen => ?_, fun _ => nofun⟩
    have unseen := late envelope rfl
    have before : s.observed = false := here
    simp only [State.checked, before, Bool.false_or, Bool.and_eq_true] at seen
    exact nomatch (unseen seen.1.2).symm.trans seen.2
  | .adopt envelope, here =>
    refine ⟨gone, fun seen => ?_, fun late => nomatch here.2.symm.trans late⟩
    have before : s.observed = false := here.1
    simp only [State.checked, before, Bool.false_or, Bool.and_eq_true] at seen
    exact Orphan.adopt_keeps (owed_of_owes seen.2).1 envelope
  | .left false, here => exact ⟨gone, here⟩
  | .left true, here => exact ⟨gone, observed_of_late here.2 here.1 _⟩

/-- What a reading of the evidence returns. -/
private theorem Inv.returns (inv : Inv o s) (gone : s.owned = false) {outcome : RecoveryOutcome}
    (keeps : s.observed = true → o.Keeps outcome) (late : o.closedLate = true → outcome.kind ≠ .adopted) :
    Inv o { s with stage := .returned outcome } :=
  inv.goesOn _ ⟨gone, keeps, late⟩

private theorem Inv.leftDecide (inv : Inv o s) (stage : s.stage = .leftDecide false)
    (recorded : Recorded o s .go) (goes : s.go o = some t) : Inv o t := by
  have here := inv.here
  rw [stage] at here
  obtain ⟨gone, parsed⟩ := here
  simp only [State.go, stage] at goes
  split at goes
  · rename_i outcome reads
    refine Option.some.inj goes ▸ inv.returns gone (fun seen => ?_) (fun late => ?_)
    · obtain ⟨unclosed, closed⟩ := recorded.polled rfl stage seen
      refine Orphan.left_keeps (owed_of_owes (inv.seen seen).2).1 reads ⟨unclosed, fun recorded judge => ?_⟩
      have shown := closed recorded judge
      simpa only [Orphan.showsTurn, judge, Bool.not_eq_true'] using shown
    · exact Orphan.left_late late (fun judge => recorded.unjudged rfl stage judge late) reads
  · exact Option.some.inj goes ▸ inv.goesOn _ ⟨gone, parsed⟩

private theorem Inv.pollDone (inv : Inv o s) {envelope : Envelope} (stage : s.stage = .pollDone envelope)
    (goes : s.go o = some t) : Inv o t := by
  have here := inv.here
  rw [stage] at here
  simp only [State.go, stage, Option.map_eq_some_iff] at goes
  obtain ⟨deadline, -, rfl⟩ := goes
  refine inv.goesOn _ ?_
  split_ifs with late
  · exact here.1
  · exact ⟨here.1, Bool.eq_false_iff.mpr fun closed => late (.inr closed)⟩

theorem Inv.go (inv : Inv o s) (recorded : Recorded o s .go) (goes : s.go o = some t) : Inv o t := by
  have here := inv.here
  match stage : s.stage with
  | .leftDecide false => exact inv.leftDecide stage recorded goes
  | .pollDone envelope => exact inv.pollDone stage goes
  | .returned outcome => simp [State.go, stage] at goes
  | .threw => simp [State.go, stage] at goes
  | .blindCheck =>
    rw [stage] at here
    simp only [State.go, stage, Option.some.injEq] at goes
    exact goes ▸ inv.check (fun owned => ⟨observed_of_owned owned here.1 _, here.2⟩) fun gone => ⟨gone, here.2⟩
  | .blindRead =>
    rw [stage] at here
    simp only [State.go, stage, Option.some.injEq] at goes
    refine goes ▸ inv.returns here.1 (fun seen => ?_) (fun late => nomatch here.2.symm.trans late)
    obtain ⟨owed, done⟩ := owed_of_owes (inv.seen seen).2
    exact Orphan.blind_keeps owed done
  | .firstCheck =>
    rw [stage] at here
    simp only [State.go, stage, Option.some.injEq] at goes
    exact goes ▸ inv.check (fun owned => ⟨observed_of_owned owned here.1 _, here.2⟩) fun gone => ⟨gone, here.2⟩
  | .firstClock =>
    rw [stage] at here
    simp only [State.go, stage, Option.map_eq_some_iff] at goes
    obtain ⟨deadline, is, rfl⟩ := goes
    refine inv.goesOn _ ?_
    split_ifs with beyond
    · exact ⟨here.1, inTime_of_not_lt (s := s) is (not_lt.mpr beyond.le)⟩
    · exact here
  | .overdueRead =>
    rw [stage] at here
    simp only [State.go, stage, Option.some.injEq] at goes
    exact goes ▸ inv.returns here.1 (fun seen => nomatch here.2.symm.trans seen) (fun _ => nofun)
  | .pollCheck =>
    rw [stage] at here
    simp only [State.go, stage, Option.some.injEq] at goes
    exact goes ▸ inv.check (fun owned => ⟨observed_of_owned owned here.1 _, here.2⟩) fun _ => here.2
  | .pollClock =>
    rw [stage] at here
    simp only [State.go, stage, Option.map_eq_some_iff] at goes
    obtain ⟨deadline, -, rfl⟩ := goes
    refine inv.goesOn _ ?_
    split_ifs
    · exact here
    · exact here.2
  | .pollRead =>
    rw [stage] at here
    simp only [State.go, stage] at goes
    split at goes
    · exact Option.some.inj goes ▸ inv.goesOn _ here
    · exact Option.some.inj goes ▸ inv.goesOn _ here
  | .leftClock =>
    rw [stage] at here
    simp only [State.go, stage, Option.map_eq_some_iff] at goes
    obtain ⟨deadline, is, rfl⟩ := goes
    refine inv.goesOn _ ?_
    by_cases beyond : deadline ≤ s.clock
    · have late := inTime_of_not_lt (s := s) is (not_lt.mpr beyond)
      rw [decide_eq_true beyond]
      exact ⟨Bool.eq_false_iff.mpr fun seen => (nomatch late.symm.trans (recorded.reads rfl stage seen)), late⟩
    · rw [decide_eq_false beyond]
      exact here
  | .leftCheck false =>
    rw [stage] at here
    simp only [State.go, stage, Option.some.injEq] at goes
    exact goes ▸ inv.check (fun _ => here) fun gone => ⟨gone, here⟩
  | .leftCheck true =>
    rw [stage] at here
    simp only [State.go, stage, Option.some.injEq] at goes
    exact goes ▸ inv.check (fun _ => ⟨observed_of_late here.2 here.1 _, here.2⟩)
      fun gone => ⟨gone, observed_of_late here.2 here.1 _⟩
  | .leftDecide true =>
    rw [stage] at here
    simp only [State.go, stage, Option.some.injEq] at goes
    exact goes ▸ inv.returns here.1 (fun seen => nomatch here.2.symm.trans seen) (fun _ => nofun)
  | .closedDecide =>
    rw [stage] at here
    simp only [State.go, stage, Option.some.injEq] at goes
    refine goes ▸ inv.returns here.1 (fun seen => ?_) Orphan.closed_late
    obtain ⟨closed, inTime, shown⟩ := recorded.closed rfl stage seen
    exact Orphan.closed_keeps (owed_of_owes (inv.seen seen).2).1 closed here.2 inTime shown
  | .stopping after =>
    simp only [State.go, stage] at goes
    split_ifs at goes with owned
    refine Option.some.inj goes ▸ inv.resume stage (Bool.eq_false_iff.mpr owned) fun envelope is => ?_
    subst is
    exact recorded.ends (.inl rfl) (by rw [stage]; rfl)

/-- The process appends to its transcript or writes its result only while it is there to do so. -/
private theorem Inv.writes (inv : Inv o s) (owned : s.owned = true) (transcript : String) (canonical : Option String) :
    Inv o { s with transcript := transcript, canonical := canonical } := by
  have unseen : s.observed = false :=
    Bool.eq_false_iff.mpr fun seen => nomatch owned.symm.trans (inv.seen seen).1
  refine ⟨fun seen => (nomatch unseen.symm.trans seen), ?_⟩
  have here := inv.here
  show At o { s with transcript := transcript, canonical := canonical } s.stage
  revert here
  cases s.stage with
  | stopping after => cases after with
    | left expired => cases expired <;> exact id
    | _ => exact id
  | leftCheck expired => cases expired <;> exact id
  | leftDecide expired => cases expired <;> exact id
  | _ => exact id

private theorem Inv.exits (inv : Inv o s) : Inv o { s with owned := false } := by
  refine ⟨fun seen => ⟨rfl, (inv.seen seen).2⟩, ?_⟩
  have here := inv.here
  show At o { s with owned := false } s.stage
  revert here
  cases s.stage with
  | stopping after => cases after with
    | left expired => cases expired <;> exact id
    | _ => exact id
  | leftCheck expired => cases expired <;> exact id
  | leftDecide expired => cases expired <;> exact fun here => ⟨rfl, here.2⟩
  | blindRead | overdueRead | closedDecide | returned => exact fun here => ⟨rfl, here.2⟩
  | _ => exact id

private theorem Inv.passes (inv : Inv o s) {duration : Rat} (forward : 0 ≤ duration) :
    Inv o { s with clock := s.clock + duration } := by
  refine ⟨inv.seen, ?_⟩
  have late (before : s.inTime o = false) : State.inTime o { s with clock := s.clock + duration } = false := by
    unfold State.inTime at before ⊢
    cases is : o.deadline with
    | none => rfl
    | some deadline =>
      simp only [is, Option.any_some, decide_eq_false_iff_not, not_lt] at before ⊢
      exact before.trans (le_add_of_nonneg_right forward)
  have here := inv.here
  show At o { s with clock := s.clock + duration } s.stage
  revert here
  cases s.stage with
  | stopping after => cases after with
    | left expired => cases expired with
      | false => exact id
      | true => exact fun here => ⟨here.1, late here.2⟩
    | overdue => exact fun here => ⟨here.1, late here.2⟩
    | _ => exact id
  | leftCheck expired => cases expired with
    | false => exact id
    | true => exact fun here => ⟨here.1, late here.2⟩
  | leftDecide expired => cases expired <;> exact id
  | _ => exact id

theorem Inv.step {label : Label} (inv : Inv o s) (recorded : Recorded o s label)
    (steps : (machine o).step s label = some t) : Inv o t := by
  cases label with
  | go => exact inv.go recorded steps
  | unsignaled =>
    simp only [machine, State.step] at steps
    split at steps
    · rename_i after stage
      obtain rfl := Option.some.inj steps
      refine inv.resume stage (recorded.signals rfl) fun envelope is => ?_
      subst is
      exact recorded.ends (.inr rfl) (by rw [stage]; rfl)
    · exact nomatch steps
  | gives =>
    simp only [machine, State.step] at steps
    split at steps
    · exact Option.some.inj steps ▸ inv.goesOn .threw trivial
    · exact nomatch steps
  | appends text =>
    simp only [machine, State.step] at steps
    split_ifs at steps with owned
    exact Option.some.inj steps ▸ inv.writes owned _ _
  | writes result =>
    simp only [machine, State.step] at steps
    split_ifs at steps with owned
    exact Option.some.inj steps ▸ inv.writes owned _ _
  | exits => exact Option.some.inj steps ▸ inv.exits
  | passes duration =>
    simp only [machine, State.step] at steps
    split_ifs at steps with forward
    exact Option.some.inj steps ▸ inv.passes forward

theorem inv_of_reach (reach : (machine o).Reach (Recorded o) (Initial o) s) : Inv o s :=
  reach.invariant (Inv o) (fun _ initial => initial.inv) fun _ _ _ inv recorded steps => inv.step recorded steps

/-- In every run whose steps are all recorded, what a call returns keeps what it found. -/
theorem recoverOrphan_adopts (reach : (machine o).Reach (Recorded o) (Initial o) s) : Adopts o s := by
  intro outcome returned
  have here := (inv_of_reach reach).here
  rw [returned] at here
  exact here

/-! ## A worker that ends between two checks -/

/-- A worker whose record was never closed; its harness reads one transcript as a finished turn. -/
def unclosed : Orphan where
  invocation := ⟨"w", .worker, false, some 0, .null, none, none, .none⟩
  timeoutSec := some 60
  read transcript _ := if transcript = "turn" then some ⟨.done, some "{}", .none, none, none⟩ else none
  worker := none
  settlement := none
  result := none
  gate := none
  isWorkerResult _ := true
  isVerdict _ := false

def working : State := ⟨true, "", none, 1000, .firstCheck, false⟩

private theorem working_initial : Initial unclosed working := ⟨by decide, rfl⟩

/-- The call polls while the worker finishes its turn, writes its result file and ends. -/
theorem recoverOrphan_adopts_unclosed :
    ∃ s, (machine unclosed).replay? (Recorded unclosed) working
        [.go, .go, .go, .go, .go, .appends "turn", .writes "{}", .exits, .passes 250, .go, .go, .go, .go] = some s ∧
      (s.stage = .returned (unclosed.adoptedPersisted "{}") ∧ s.observed = true) ∧ Adopts unclosed s :=
  Machine.exists_replay (fun s => s.stage = .returned (unclosed.adoptedPersisted "{}") ∧ s.observed = true)
    (fun _ ran check => ⟨check, recoverOrphan_adopts (.of_replay working_initial _ ran)⟩) (by decide +kernel)

/-- The worker finishes its turn and ends before the call looks: nothing reads its transcript. -/
theorem recoverOrphan_discards :
    ∃ s, (machine unclosed).Reach Machine.free (Initial unclosed) s ∧ ¬ Adopts unclosed s := by
  have ran : ∃ s, (machine unclosed).replay? Machine.free working [.appends "turn", .exits, .go, .go] = some s ∧
      s.stage = .returned (unclosed.restartRecovery none unclosed.completedLate) ∧ s.observed = true :=
    Machine.exists_replay _ (fun _ _ held => held) (by decide +kernel)
  obtain ⟨s, ran, returned, observed⟩ := ran
  refine ⟨s, .of_replay working_initial _ ran, fun adopts => ?_⟩
  exact nomatch (adopts _ returned).2.1 observed

end Faberun.Recover
