import Faberun.Model.Engine.JudgeRound

/-! # Mechanical proofs gate every acceptance

A snapshot with an outstanding re-ask has had its proofs pass against its own attempt: the record is only
made when a judge closed, and a judge is only dispatched by a round that passed. A later attempt keeps the
record unless it was cleared, so the law holds as long as no worker starts under an outstanding record and
the worktree of the attempt stands whenever the controller measures it.
-/

namespace Faberun.GateRun

variable {node : GatedNode}

/-- The round ran an item's proof against the worktree of an attempt, and it passed. -/
def Proves (round : Round) (attempt : Nat) (item : String × DefinitionOfDoneProof) : Prop :=
  round.workspace = some attempt ∧
  (item.2.kind = "verification" → round.recorded = some attempt) ∧
  ∃ result ∈ round.results, result.id = item.1 ∧ result.proof = item.2 ∧ result.pass = true

/-- One round proved every mechanical item of the node against an attempt. -/
def Proven (node : GatedNode) (rounds : List Round) (attempt : Nat) : Prop :=
  ∃ round ∈ rounds, ∀ item ∈ mechanicalItems node, Proves round attempt item

/-- A verdict that sends the node back to its worker, whenever it is applied. -/
def Rejects (node : GatedNode) (answer : JudgeAnswer) : Prop :=
  ∃ verdict, answer = .verdict verdict ∧ uncitedRejection verdict node = false ∧
    node.gate.review ≠ .advisory ∧ shouldFail node verdict = true

/-- The worktree and the recorded verification are those of the attempt. -/
structure Reviewed (n : NodeSnapshot) : Prop where
  worktree : n.worktree = some n.attempt
  recorded : ∀ verification ∈ n.verification, verification.workspace = some n.attempt

/-- What a recovery can find in the last transcript sends the node back to its worker. -/
def Quiet (node : GatedNode) (n : NodeSnapshot) : Prop :=
  n.status = .running → ∀ transcript answer, n.invocation = some (.judge transcript) →
    transcript.holds answer = true → Rejects node answer

structure Sound (node : GatedNode) (rounds : List Round) (n : NodeSnapshot) : Prop where
  reask : n.outstanding = true → Proven node rounds n.attempt
  judged : Proven node rounds n.attempt ∨ Quiet node n
  reviewed : n.phase = .judge ∨ n.status = .running ∨ isJudgeUnavailable n.runNode = true → Reviewed n

structure Inv (node : GatedNode) (s : GateRun) : Prop where
  mem : Sound node s.rounds s.mem
  disk : Sound node s.rounds s.disk
  held : s.job ≠ none → Reviewed s.mem
  judge : s.job = some .judge → Proven node s.rounds s.mem.attempt
  quiet : s.job ≠ none → s.mem.outstanding = true ∨ Quiet node s.mem ∨ s.job = some .judge
  decisions : ∀ decision ∈ s.decisions, Proven node s.rounds decision.attempt

/-! ## Snapshots -/

theorem Proven.mono {rounds more : List Round} {attempt : Nat} (proven : Proven node rounds attempt)
    (grows : ∀ round ∈ rounds, round ∈ more) : Proven node more attempt := by
  obtain ⟨round, member, proves⟩ := proven
  exact ⟨round, grows round member, proves⟩

theorem Sound.mono {rounds more : List Round} {n : NodeSnapshot} (sound : Sound node rounds n)
    (grows : ∀ round ∈ rounds, round ∈ more) : Sound node more n where
  reask outstanding := (sound.reask outstanding).mono grows
  judged := sound.judged.imp (·.mono grows) id
  reviewed := sound.reviewed

/-- A snapshot that is not running has no transcript a recovery reads. -/
theorem Quiet.of_status {n : NodeSnapshot} (status : n.status ≠ .running) : Quiet node n :=
  fun running => absurd running status

theorem Reviewed.of_eq {n m : NodeSnapshot} (reviewed : Reviewed n) (attempt : m.attempt = n.attempt)
    (worktree : m.worktree = n.worktree) (verification : m.verification = n.verification) : Reviewed m where
  worktree := by rw [worktree, attempt, reviewed.worktree]
  recorded := by rw [verification, attempt]; exact reviewed.recorded

/-- What a recovery relies on changes only with the attempt, its records and the invocation. -/
structure Course (n m : NodeSnapshot) : Prop where
  attempt : m.attempt = n.attempt
  worktree : m.worktree = n.worktree
  verification : m.verification = n.verification
  outstanding : m.outstanding = true → n.outstanding = true

theorem Course.reviewed {n m : NodeSnapshot} (course : Course n m) (reviewed : Reviewed n) : Reviewed m :=
  reviewed.of_eq course.attempt course.worktree course.verification

theorem Course.refl (n : NodeSnapshot) : Course n n := ⟨rfl, rfl, rfl, id⟩

/-- A snapshot on the same course is sound once it is settled. -/
theorem Sound.settled {rounds : List Round} {n m : NodeSnapshot} (sound : Sound node rounds n) (course : Course n m)
    (status : m.status ≠ .running) (reviewed : Reviewed m) : Sound node rounds m where
  reask outstanding := course.attempt ▸ sound.reask (course.outstanding outstanding)
  judged := .inr (Quiet.of_status status)
  reviewed _ := reviewed

/-- In memory, everything but the overrides of a snapshot may change under a settlement. -/
theorem Sound.same {rounds : List Round} {n m : NodeSnapshot} (sound : Sound node rounds n) (course : Course n m)
    (status : m.status = n.status) (invocation : m.invocation = n.invocation) (phase : m.phase = n.phase)
    (error : m.error = n.error) : Sound node rounds m where
  reask outstanding := course.attempt ▸ sound.reask (course.outstanding outstanding)
  judged := by
    rw [course.attempt]
    refine sound.judged.imp id fun quiet running transcript answer held => ?_
    exact quiet (status ▸ running) transcript answer (invocation ▸ held)
  reviewed := by
    intro shown
    refine course.reviewed (sound.reviewed ?_)
    simpa only [isJudgeUnavailable, NodeSnapshot.runNode, status, phase, error] using shown

/-! ## Moves of the snapshot -/

section Moves

variable {s : GateRun}

theorem Inv.idle (inv : Inv node s) : Inv node { s with job := none } :=
  { inv with held := nofun, judge := nofun, quiet := nofun }

theorem Inv.lose (inv : Inv node s) : Inv node s.lose :=
  { mem := inv.disk, disk := inv.disk, held := nofun, judge := nofun, quiet := nofun, decisions := inv.decisions }

/-- Writing the snapshot carries what holds of the memory to the disk. -/
theorem Inv.write (inv : Inv node s) : Inv node s.write := { inv with disk := inv.mem }

/-- A transition to a status nothing is held for. -/
theorem Inv.transition_of {status : NodeStatus} {patch : NodeSnapshot → NodeSnapshot} (inv : Inv node s)
    (sound : Sound node s.rounds { patch s.mem with status }) : Inv node (s.transition status patch) :=
  { mem := sound, disk := sound, held := nofun, judge := nofun, quiet := nofun, decisions := inv.decisions }

theorem Inv.transition {status : NodeStatus} {patch : NodeSnapshot → NodeSnapshot} (inv : Inv node s)
    (reviewed : Reviewed s.mem) (idle : status ≠ .running) (course : Course s.mem { patch s.mem with status }) :
    Inv node (s.transition status patch) :=
  inv.transition_of (inv.mem.settled course idle (course.reviewed reviewed))

/-- A transition away from the judge and the running invocation needs no review. -/
theorem Inv.leave {status : NodeStatus} {patch : NodeSnapshot → NodeSnapshot} (inv : Inv node s)
    (attempt : (patch s.mem).attempt = s.mem.attempt)
    (outstanding : (patch s.mem).outstanding = true → s.mem.outstanding = true)
    (phase : (patch s.mem).phase ≠ .judge) (idle : status ≠ .running)
    (available : isJudgeUnavailable ({ patch s.mem with status } : NodeSnapshot).runNode = false) :
    Inv node (s.transition status patch) := by
  refine inv.transition_of ⟨fun shown => ?_, .inr (Quiet.of_status idle), ?_⟩
  · exact attempt ▸ inv.mem.reask (outstanding shown)
  · rintro (judge | running | unavailable)
    · exact absurd judge phase
    · exact absurd running idle
    · exact absurd (available.symm.trans unavailable) nofun

/-- An update in memory on the same course. -/
theorem Inv.update {patch : NodeSnapshot → NodeSnapshot} (inv : Inv node s) (idle : s.job = none)
    (sound : Sound node s.rounds (patch s.mem)) : Inv node (s.update patch) :=
  { mem := sound, disk := inv.disk, held := fun held => absurd idle held,
    judge := fun judge => absurd (idle.symm.trans judge) nofun, quiet := fun held => absurd idle held,
    decisions := inv.decisions }

end Moves

/-! ## Worker attempts -/

/-- A fresh attempt has no accepted result, no verification and its own worktree. -/
theorem begun_sound {s : GateRun} (clear : s.mem.outstanding = false) (quiet : Quiet node s.mem) :
    Sound node s.rounds (s.update fun n => { n with attempt := n.attempt + 1 }).ensureAttemptWorkspace.beginAttempt.mem where
  reask shown := absurd (clear.symm.trans shown) nofun
  judged := .inr quiet
  reviewed _ := ⟨rfl, nofun⟩

/-- A snapshot that was written and that nothing is held for. -/
theorem Inv.of_written {t : GateRun} (sound : Sound node t.rounds t.mem) (written : t.disk = t.mem)
    (idle : t.job = none) (decisions : ∀ decision ∈ t.decisions, Proven node t.rounds decision.attempt) :
    Inv node t where
  mem := sound
  disk := written ▸ sound
  held held := absurd idle held
  judge judge := absurd (idle.symm.trans judge) nofun
  quiet held := absurd idle held
  decisions := decisions

/-- A worker may start once no re-ask is outstanding. -/
theorem Inv.nextAttempt {s : GateRun} (inv : Inv node s) (clear : s.mem.outstanding = false)
    (quiet : Quiet node s.mem) (start : WorkerStart) : Inv node (s.nextAttempt start) := by
  cases start with
  | worktreeFailed error =>
    refine Inv.of_written ⟨fun shown => absurd (clear.symm.trans shown) nofun, .inr (Quiet.of_status nofun), ?_⟩
      rfl rfl inv.decisions
    rintro (judge | running | unavailable)
    · exact absurd judge nofun
    · exact absurd running nofun
    · exact absurd unavailable (by simp [isJudgeUnavailable, blockedWith, NodeSnapshot.runNode, GateRun.nextAttempt,
        GateRun.startWorker, GateRun.transition, GateRun.write])
  | unprepared error =>
    refine Inv.of_written ⟨fun shown => absurd (clear.symm.trans shown) nofun, .inr (Quiet.of_status nofun), ?_⟩
      rfl rfl inv.decisions
    rintro (judge | running | unavailable)
    · exact absurd judge nofun
    · exact absurd running nofun
    · exact absurd unavailable (by simp [isJudgeUnavailable, blockedWith, NodeSnapshot.runNode, GateRun.nextAttempt,
        GateRun.startWorker, GateRun.transition, GateRun.write])
  | refused error | spawnFailed message =>
    exact Inv.of_written ⟨fun shown => absurd (clear.symm.trans shown) nofun, .inr (Quiet.of_status nofun),
      fun _ => ⟨rfl, nofun⟩⟩ rfl rfl inv.decisions
  | spawned =>
    have running : Sound node s.rounds (s.nextAttempt .spawned).mem :=
      ⟨fun shown => absurd (clear.symm.trans shown) nofun, .inr fun _ _ _ held => absurd held nofun,
        fun _ => ⟨rfl, nofun⟩⟩
    exact
      { mem := running, disk := running, held := fun _ => ⟨rfl, nofun⟩, judge := nofun,
        quiet := fun _ => .inr (.inl fun _ _ _ held => absurd held nofun), decisions := inv.decisions }
  | lost => exact Inv.of_written (begun_sound clear quiet) rfl rfl inv.decisions

/-! ## Settlements -/

section Settlements

variable {s : GateRun}

/-- A rejection starts a revision only where it is given one to start. -/
theorem Inv.applyRejection (inv : Inv node s) (idle : s.job = none) (reviewed : Reviewed s.mem)
    (verdict : JudgeVerdict) (code message : String) (phase : NodePhase) (start : Option WorkerStart)
    (starts : start ≠ none → s.mem.outstanding = false ∧ Quiet node s.mem) :
    Inv node (applyRejection node s verdict code message phase start) := by
  have noted : Inv node (s.update fun n => { n with gate := some verdict }) :=
    inv.update idle (inv.mem.same ⟨rfl, rfl, rfl, id⟩ rfl rfl rfl rfl)
  by_cases revises : s.mem.revisions < node.gate.maxRevisions.getD 1
  · have revised : Inv node ((s.update fun n => { n with gate := some verdict }).update fun n =>
        { n with revisions := n.revisions + 1 }) :=
      noted.update idle (noted.mem.same ⟨rfl, rfl, rfl, id⟩ rfl rfl rfl rfl)
    change Inv node (if s.mem.revisions < node.gate.maxRevisions.getD 1 then _ else _)
    rw [if_pos revises]
    cases start with
    | none => exact revised.transition (reviewed.of_eq rfl rfl rfl) nofun ⟨rfl, rfl, rfl, id⟩
    | some start =>
      obtain ⟨clear, quiet⟩ := starts nofun
      exact revised.nextAttempt clear quiet start
  · change Inv node (if s.mem.revisions < node.gate.maxRevisions.getD 1 then _ else _)
    rw [if_neg revises]
    exact noted.transition (reviewed.of_eq rfl rfl rfl) nofun ⟨rfl, rfl, rfl, id⟩

/-- What an integration leaves is nothing the judge goes on with. -/
theorem Inv.integrated (inv : Inv node s) (idle : s.job = none) (gate : Option JudgeVerdict) (summary : String)
    (integration : Integration) : Inv node (integrated node s gate summary integration) := by
  cases integration with
  | accepted =>
    have left : Inv node (s.transition .done fun n =>
        { n with phase := .complete, gate := gate.or n.gate, worktree := none }) :=
      inv.leave rfl id nofun nofun rfl
    exact { left with }
  | rejected =>
    have noted : Inv node (s.update fun n => { n with gate := some (verificationFailureVerdict summary) }) :=
      inv.update idle (inv.mem.same ⟨rfl, rfl, rfl, id⟩ rfl rfl rfl rfl)
    change Inv node (if s.mem.revisions < node.gate.maxRevisions.getD 1 then _ else _)
    split
    · have revised : Inv node ((s.update fun n => { n with
          gate := some (verificationFailureVerdict summary) }).update fun n => { n with revisions := n.revisions + 1 }) :=
        noted.update idle (noted.mem.same ⟨rfl, rfl, rfl, id⟩ rfl rfl rfl rfl)
      exact revised.leave rfl id nofun nofun rfl
    · exact noted.leave rfl id nofun nofun rfl
  | conflict paths | moved message =>
    rw [GateRun.integrated]
    refine inv.leave rfl id nofun nofun ?_
    simp [isJudgeUnavailable, blockedWith, NodeSnapshot.runNode]
  | sealFailed error =>
    rw [GateRun.integrated]
    exact inv.leave rfl id nofun nofun rfl
  | lost => exact { inv.write.lose with }

theorem Inv.settleDone (inv : Inv node s) (idle : s.job = none) (reviewed : Reviewed s.mem)
    (gate : Option JudgeVerdict) (integration : Integration) : Inv node (settleDone node s gate integration) := by
  unfold GateRun.settleDone
  split
  · exact inv.transition reviewed (by nofun) (by exact ⟨rfl, rfl, rfl, id⟩)
  · exact inv.integrated idle gate _ integration

theorem Inv.settleAdvisoryReview (inv : Inv node s) (idle : s.job = none) (reviewed : Reviewed s.mem)
    (verdict : JudgeVerdict) (integration : Integration) :
    Inv node (settleAdvisoryReview node s verdict integration) := by
  refine Inv.settleDone (inv.update idle ?_) idle (reviewed.of_eq rfl rfl rfl) _ integration
  refine inv.mem.same ⟨rfl, rfl, rfl, fun shown => ?_⟩ rfl rfl rfl rfl
  simp [NodeSnapshot.outstanding] at shown

theorem Inv.blockJudge (inv : Inv node s) (reviewed : Reviewed s.mem) (code message : String) :
    Inv node (s.blockJudge code message) :=
  inv.transition reviewed (by nofun) (by exact ⟨rfl, rfl, rfl, id⟩)

theorem Inv.settleUnavailableJudge (inv : Inv node s) (idle : s.job = none) (reviewed : Reviewed s.mem)
    (message : String) (integration : Integration) :
    Inv node (settleUnavailableJudge node s message integration) := by
  unfold GateRun.settleUnavailableJudge
  split
  · exact inv.settleAdvisoryReview idle reviewed _ integration
  · exact inv.blockJudge reviewed _ _

theorem Inv.handleProviderExhaustion (inv : Inv node s) (reviewed : Reviewed s.mem) (role : NodePhase)
    (route : Route) : Inv node (s.handleProviderExhaustion role route) := by
  cases route <;> rw [GateRun.handleProviderExhaustion] <;> exact inv.transition reviewed (by nofun) (by exact ⟨rfl, rfl, rfl, id⟩)

/-- The re-ask is marked on a proven attempt, and the record rides on the snapshot from there. -/
theorem Inv.spendReask (inv : Inv node s) (reviewed : Reviewed s.mem)
    (proven : Proven node s.rounds s.mem.attempt) (reason : String) (admitted : Bool) :
    Inv node (s.spendReask reason admitted) := by
  have marked : Sound node s.rounds
      { s.mem with executionOverrides := markJudgeReask s.mem.executionOverrides reason } :=
    ⟨fun _ => proven, .inl proven, fun _ => reviewed.of_eq rfl rfl rfl⟩
  unfold GateRun.spendReask
  split
  · exact
      { mem := marked, disk := inv.disk, held := fun _ => reviewed.of_eq rfl rfl rfl, judge := nofun,
        quiet := fun _ => .inl (judgeReaskOutstanding_mark _ reason), decisions := inv.decisions }
  · refine Inv.of_written ?_ rfl rfl inv.decisions
    exact ⟨fun _ => proven, .inl proven, fun _ => reviewed.of_eq rfl rfl rfl⟩

theorem Inv.applyJudgeProtocolFailure (inv : Inv node s) (idle : s.job = none) (reviewed : Reviewed s.mem)
    (proven : Proven node s.rounds s.mem.attempt) (reason : String) (admitted : Bool) (integration : Integration) :
    Inv node (applyJudgeProtocolFailure node s reason admitted integration) := by
  unfold GateRun.applyJudgeProtocolFailure
  split
  · split
    · exact inv.settleAdvisoryReview idle reviewed _ integration
    · exact inv.blockJudge reviewed _ _
  · exact inv.spendReask reviewed proven reason admitted

/-- A verdict is applied to a proven attempt, or sends the node back to its worker. -/
theorem Inv.applyVerdict (inv : Inv node s) (idle : s.job = none) (reviewed : Reviewed s.mem)
    (verdict : JudgeVerdict) (proven : Proven node s.rounds s.mem.attempt ∨ Rejects node (.verdict verdict))
    (revision : Option WorkerStart)
    (found : revision ≠ none → ∀ transcript, s.mem.invocation = some (.judge transcript) →
      ∀ answer, transcript.holds answer = true → answer = .verdict verdict)
    (admitted : Bool) (integration : Integration) :
    Inv node (applyVerdict node s verdict admitted revision integration) := by
  have noted : Inv node (s.update fun n => { n with gate := some verdict, judgeFailures := 0 }) :=
    inv.update idle (inv.mem.same ⟨rfl, rfl, rfl, id⟩ rfl rfl rfl rfl)
  unfold GateRun.applyVerdict
  by_cases uncited : uncitedRejection verdict node = true
  · -- An uncited rejection never sends the node back, so its attempt is a proven one.
    have proven : Proven node s.rounds s.mem.attempt := by
      refine proven.resolve_right ?_
      rintro ⟨_, same, cited, -⟩
      cases same
      exact absurd (uncited.symm.trans cited) nofun
    simp only [uncited, if_true]
    split
    · split
      · exact noted.settleAdvisoryReview idle (reviewed.of_eq rfl rfl rfl) _ integration
      · exact noted.blockJudge (reviewed.of_eq rfl rfl rfl) _ _
    · exact noted.spendReask (reviewed.of_eq rfl rfl rfl) proven _ admitted
  · simp only [uncited, if_false, Bool.false_eq_true]
    have clear : judgeReaskOutstanding (clearJudgeReask s.mem.executionOverrides) = false :=
      judgeReaskOutstanding_clear _
    have cleared : Inv node ((s.update fun n => { n with gate := some verdict, judgeFailures := 0 }).update
        fun n => { n with executionOverrides := clearJudgeReask n.executionOverrides }) :=
      noted.update idle (noted.mem.same ⟨rfl, rfl, rfl, fun shown => absurd (clear.symm.trans shown) nofun⟩
        rfl rfl rfl rfl)
    split
    · exact cleared.settleAdvisoryReview idle (reviewed.of_eq rfl rfl rfl) _ integration
    · rename_i blocking
      split
      · rename_i fails
        refine cleared.applyRejection idle (reviewed.of_eq rfl rfl rfl) _ _ _ _ revision fun started => ⟨clear, ?_⟩
        intro _ transcript answer held holds
        rw [found started transcript held answer holds]
        exact ⟨verdict, rfl, Bool.eq_false_iff.mpr uncited, blocking, fails⟩
      · exact cleared.settleDone idle (reviewed.of_eq rfl rfl rfl) _ integration

theorem Inv.applyJudgeResult (inv : Inv node s) (idle : s.job = none) (reviewed : Reviewed s.mem)
    (answer : JudgeAnswer) (proven : Proven node s.rounds s.mem.attempt ∨ Rejects node answer)
    (revision : Option WorkerStart)
    (found : revision ≠ none → ∀ transcript, s.mem.invocation = some (.judge transcript) →
      ∀ other, transcript.holds other = true → other = answer)
    (admitted : Bool) (integration : Integration) :
    Inv node (applyJudgeResult node s answer admitted revision integration) := by
  cases answer with
  | unparsable message =>
    refine inv.applyJudgeProtocolFailure idle reviewed (proven.resolve_right ?_) message admitted integration
    rintro ⟨_, same, -⟩
    cases same
  | verdict verdict => exact inv.applyVerdict idle reviewed verdict proven revision found admitted integration

/-- The transcript of a judge is on disk before the judge is settled. -/
theorem Inv.judgeClosed (inv : Inv node s) (judge : s.job = some .judge) (close : JudgeClose) (admitted : Bool)
    (revision : Option WorkerStart) (integration : Integration) :
    Inv node (judgeClosed node s close admitted revision integration) := by
  have proven := inv.judge judge
  have reviewed := inv.held (by simp [judge])
  have closed : Inv node { (s.update fun n => { n with invocation := some (.judge close.transcript) }).write with
      job := none } :=
    Inv.of_written ⟨fun _ => proven, .inl proven, fun _ => reviewed.of_eq rfl rfl rfl⟩ rfl rfl inv.decisions
  have reviewed : Reviewed { s.mem with invocation := some (.judge close.transcript) } := reviewed.of_eq rfl rfl rfl
  unfold GateRun.judgeClosed
  cases close with
  | wrote message => exact closed.blockJudge reviewed _ _
  | exhausted route => exact closed.handleProviderExhaustion reviewed _ route
  | failed message network =>
    cases network with
    | some route => exact closed.handleProviderExhaustion reviewed _ route
    | none =>
      rw [settleJudgeRound]
      split
      · exact closed.applyJudgeProtocolFailure rfl reviewed proven message admitted integration
      · change Inv node (if s.mem.judgeFailures + 1 < judgeMaxFailures then _ else _)
        split
        · have failed : Sound node s.rounds { s.mem with
              invocation := some (.judge .failed), judgeFailures := s.mem.judgeFailures + 1 } :=
            ⟨fun _ => proven, .inl proven, fun _ => reviewed.of_eq rfl rfl rfl⟩
          exact
            { mem := failed, disk := failed, held := fun _ => reviewed.of_eq rfl rfl rfl, judge := nofun,
              quiet := fun _ => .inr (.inl fun _ transcript answer held holds => by cases held; cases holds),
              decisions := inv.decisions }
        · refine Inv.settleUnavailableJudge (closed.update rfl ?_) rfl (reviewed.of_eq rfl rfl rfl) _ integration
          exact ⟨fun _ => proven, .inl proven, fun _ => reviewed.of_eq rfl rfl rfl⟩
  | unusable reason network =>
    cases network with
    | some route => exact closed.handleProviderExhaustion reviewed _ route
    | none => exact closed.applyJudgeProtocolFailure rfl reviewed proven reason admitted integration
  | answered answer =>
    refine closed.applyJudgeResult rfl reviewed answer (.inl proven) revision ?_ admitted integration
    intro _ transcript held other holds
    cases held
    exact (of_decide_eq_true holds).symm

/-- A node waits for its judge with what was reviewed. -/
theorem Inv.awaitJudge (inv : Inv node s) (reviewed : Reviewed s.mem) : Inv node s.awaitJudge :=
  inv.transition reviewed (by nofun) (by exact ⟨rfl, rfl, rfl, id⟩)

/-- A worktree that stands is the worktree of the attempt. -/
theorem Reviewed.attemptWorkspace (reviewed : Reviewed s.mem) (stands : s.attemptWorkspace.isSome = true) :
    s.attemptWorkspace = some s.mem.attempt := by
  rw [GateRun.attemptWorkspace, reviewed.worktree] at stands ⊢
  simpa [Option.filter] using stands

/-- A worker attempt is verified in the worktree it worked in. -/
theorem executeControllerVerification_reviewed (reviewed : Reviewed s.mem)
    (stands : s.mem.verification = none → s.attemptWorkspace.isSome = true) (passed : Bool)
    (commands : List RecordedCommand) : Reviewed (s.executeControllerVerification passed commands).mem := by
  unfold executeControllerVerification
  split
  · exact reviewed
  · rename_i unverified
    refine ⟨reviewed.worktree, ?_⟩
    rintro _ ⟨rfl⟩
    exact reviewed.attemptWorkspace (stands (by simpa using unverified))

theorem Inv.executeControllerVerification (inv : Inv node s) (idle : s.job = none) (reviewed : Reviewed s.mem)
    (stands : s.mem.verification = none → s.attemptWorkspace.isSome = true) (passed : Bool)
    (commands : List RecordedCommand) : Inv node (s.executeControllerVerification passed commands) := by
  have after := executeControllerVerification_reviewed reviewed stands passed commands
  by_cases verified : s.mem.verification.isSome = true
  · rw [GateRun.executeControllerVerification, if_pos verified]
    exact inv
  · rw [GateRun.executeControllerVerification, if_neg verified] at after ⊢
    exact Inv.of_written ⟨inv.mem.reask, inv.mem.judged, fun _ => after⟩ rfl idle inv.decisions

theorem Inv.applyInvalidWorkerResult (inv : Inv node s) (idle : s.job = none) (reviewed : Reviewed s.mem)
    (message : String) (failover : Option Route) (revision : Option WorkerStart)
    (starts : revision ≠ none → s.mem.outstanding = false ∧ Quiet node s.mem) :
    Inv node (applyInvalidWorkerResult node s message failover revision) := by
  unfold GateRun.applyInvalidWorkerResult
  dsimp only
  split
  · exact inv.applyRejection idle reviewed _ _ _ _ revision starts
  · split
    · exact inv.handleProviderExhaustion reviewed _ _
    · exact inv.transition reviewed (by nofun) (by exact ⟨rfl, rfl, rfl, id⟩)

end Settlements

/-! ## A round of the gate -/

section Rounds

variable {s : GateRun}

theorem evaluate_mem (node : GatedNode) (s : GateRun) (measure : Measurement) :
    (evaluate node s measure).mem = s.mem ∧ (evaluate node s measure).disk = s.disk ∧
      (evaluate node s measure).job = s.job ∧ (evaluate node s measure).decisions = s.decisions := by
  unfold evaluate
  split <;> exact ⟨rfl, rfl, rfl, rfl⟩

theorem evaluate_rounds (node : GatedNode) (s : GateRun) (measure : Measurement) :
    ∀ round ∈ s.rounds, round ∈ (evaluate node s measure).rounds := by
  intro round member
  unfold evaluate
  split
  · exact member
  · exact List.mem_cons_of_mem _ member

theorem Inv.evaluate (inv : Inv node s) (measure : Measurement) : Inv node (evaluate node s measure) := by
  obtain ⟨mem, disk, job, decisions⟩ := evaluate_mem node s measure
  have grows := evaluate_rounds node s measure
  exact
    { mem := mem ▸ inv.mem.mono grows
      disk := disk ▸ inv.disk.mono grows
      held := by rw [mem, job]; exact inv.held
      judge := by rw [mem, job]; exact fun judge => (inv.judge judge).mono grows
      quiet := by rw [mem, job]; exact inv.quiet
      decisions := by rw [decisions]; exact fun decision member => (inv.decisions decision member).mono grows }

/-- A round that finds nothing to fail has its attempt proven: by a re-ask's record, or by itself. -/
theorem proven_of_pass (inv : Inv node s) (reviewed : Reviewed s.mem)
    (stands : s.reask = false → s.attemptWorkspace.isSome = true) (measure : Measurement)
    (passes : (deterministicGate node s.reask measure (recordedCommands s.mem)).1.verdict ≠ .fail) :
    Proven node (evaluate node s measure).rounds s.mem.attempt := by
  by_cases again : s.reask = true
  · exact (inv.mem.reask (outstanding_of_reason again)).mono (evaluate_rounds node s measure)
  · simp only [Bool.not_eq_true] at again
    have workspace := reviewed.attemptWorkspace (stands again)
    have clean : ∀ result ∈ runMechanicalProofs node measure (recordedCommands s.mem), result.pass = true := by
      intro result member
      by_contra failed
      refine passes (mechanicalVerdict_fail_iff.mpr ⟨result, ?_, Bool.eq_false_iff.mpr failed⟩)
      simpa only [again, Bool.false_eq_true, if_false] using member
    refine ⟨_, by rw [GateRun.evaluate, again]; exact List.mem_cons_self, fun item member => ?_⟩
    obtain ⟨result, ran, id, proof⟩ := exists_result node measure (recordedCommands s.mem) member
    refine ⟨workspace, fun verification => ?_, result, ran, id, proof, clean result ran⟩
    cases recorded : s.mem.verification with
    | some verification => exact reviewed.recorded verification recorded
    | none =>
      -- Without a recorded verification the item would have failed.
      have failed := clean (prove measure (recordedCommands s.mem) item) (List.mem_map_of_mem member)
      obtain ⟨itemId, command | path | index⟩ := item
      · simp [DefinitionOfDoneProof.kind] at verification
      · simp [DefinitionOfDoneProof.kind] at verification
      · simp [prove, proveVerification, recordedCommands, recorded] at failed

theorem Inv.decided (inv : Inv node s) (proven : Proven node s.rounds s.mem.attempt) (ruling : Ruling) :
    Inv node (s.decided ruling) :=
  { inv with
    decisions := by
      rintro decision (_ | ⟨_, member⟩)
      · exact proven
      · exact inv.decisions decision member }

theorem Inv.dispatchJudge (inv : Inv node s) (reviewed : Reviewed s.mem)
    (proven : Proven node s.rounds s.mem.attempt) (start : JudgeStart) : Inv node (s.dispatchJudge start).1 := by
  have decided := inv.decided proven .dispatched
  cases start with
  | refused error =>
    simp only [GateRun.dispatchJudge]
    exact inv.transition reviewed (by nofun) (by exact ⟨rfl, rfl, rfl, id⟩)
  | spawnFailed error =>
    simp only [GateRun.dispatchJudge]
    exact decided.transition reviewed (by nofun) (by exact ⟨rfl, rfl, rfl, id⟩)
  | spawned =>
    have running : Sound node s.rounds ((s.dispatchJudge .spawned).1).mem :=
      ⟨fun _ => proven, .inl proven, fun _ => reviewed.of_eq rfl rfl rfl⟩
    exact
      { mem := running, disk := running, held := fun _ => reviewed.of_eq rfl rfl rfl, judge := fun _ => proven,
        quiet := fun _ => .inr (.inr rfl), decisions := decided.decisions }

/-- `startJudge` lets an attempt through only when its proofs passed against it. -/
theorem Inv.gate (inv : Inv node s) (idle : s.job = none) (reviewed : Reviewed s.mem)
    (stands : s.reask = false → s.attemptWorkspace.isSome = true) (measure : Measurement) (start : JudgeStart)
    (revision : Option WorkerStart) (integration : Integration)
    (starts : revision ≠ none → s.mem.outstanding = false ∧ Quiet node s.mem) :
    Inv node (applyJudgeRound node (startJudge node s measure start).1 revision integration
      (startJudge node s measure start).2) := by
  have measured := inv.evaluate measure
  obtain ⟨mem, -, job, -⟩ := evaluate_mem node s measure
  have idle : (GateRun.evaluate node s measure).job = none := job.trans idle
  by_cases fails : (deterministicGate node s.reask measure (recordedCommands s.mem)).1.verdict = .fail
  · simp only [startJudge, if_pos fails, applyJudgeRound]
    exact measured.applyRejection idle (mem ▸ reviewed) _ _ _ _ revision (mem ▸ starts)
  · have proven := proven_of_pass inv reviewed stands measure fails
    rw [← mem] at proven
    simp only [startJudge, if_neg fails]
    split
    · exact (measured.decided proven .settle).settleDone idle (mem ▸ reviewed) _ integration
    · have dispatched := measured.dispatchJudge (mem ▸ reviewed) proven start
      cases start <;> exact dispatched

end Rounds

/-! ## Workers, kills and recoveries -/

section Recoveries

variable {s : GateRun}

/-- A settlement that goes on to the gate keeps what a recovery would find. -/
theorem executeControllerVerification_same (s : GateRun) (passed : Bool) (commands : List RecordedCommand) :
    (s.executeControllerVerification passed commands).mem.status = s.mem.status ∧
    (s.executeControllerVerification passed commands).mem.invocation = s.mem.invocation ∧
    (s.executeControllerVerification passed commands).mem.executionOverrides = s.mem.executionOverrides ∧
    (s.executeControllerVerification passed commands).job = s.job := by
  unfold executeControllerVerification
  split <;> exact ⟨rfl, rfl, rfl, rfl⟩

/-- What follows a verification: a revision, the gate, or the wait for it. -/
theorem Inv.verified (inv : Inv node s) (idle : s.job = none) (reviewed : Reviewed s.mem) (live admitted : Bool)
    (revision : Option WorkerStart) (starts : revision ≠ none → s.mem.outstanding = false ∧ Quiet node s.mem)
    (quiet : live = true → s.mem.outstanding = true ∨ Quiet node s.mem) :
    Inv node (if s.verificationPassed = false then applyVerificationFailure node s revision
      else if live && admitted then { s with job := some .gate } else s.awaitJudge) := by
  split
  · exact inv.applyRejection idle reviewed _ _ _ _ revision starts
  · split
    · rename_i going
      have going := Bool.and_eq_true_iff.mp going
      exact
        { inv with
          held := fun _ => reviewed
          judge := nofun
          quiet := fun _ => (quiet going.1).imp id .inl }
    · exact inv.awaitJudge reviewed

theorem Inv.finishWorker (inv : Inv node s) (idle : s.job = none) (reviewed : Reviewed s.mem) (live admitted : Bool)
    (revision : Option WorkerStart) (close : WorkerClose) (fits : close.fits = true)
    (stands : ∀ changed passed commands, close = .finished changed passed commands →
      s.mem.verification = none → s.attemptWorkspace.isSome = true)
    (starts : revision ≠ none → s.mem.outstanding = false ∧ Quiet node s.mem)
    (quiet : live = true → s.mem.outstanding = true ∨ Quiet node s.mem) :
    Inv node (finishWorker node s live admitted revision close) := by
  cases close with
  | failed status error =>
    rw [GateRun.finishWorker]
    refine inv.transition reviewed ?_ (by exact ⟨rfl, rfl, rfl, id⟩)
    rintro rfl
    cases fits
  | routed route => exact inv.handleProviderExhaustion reviewed _ route
  | retried =>
    rw [GateRun.finishWorker]
    exact inv.transition reviewed (by nofun) (by exact ⟨rfl, rfl, rfl, id⟩)
  | materialize =>
    have running : Sound node s.rounds (s.spawn .worker .worker .worker).mem :=
      ⟨inv.mem.reask, .inr fun _ _ _ held => absurd held nofun, fun _ => reviewed.of_eq rfl rfl rfl⟩
    exact
      { mem := running, disk := running, held := fun _ => reviewed.of_eq rfl rfl rfl, judge := nofun,
        quiet := fun _ => .inr (.inl fun _ _ _ held => absurd held nofun), decisions := inv.decisions }
  | invalid message failover => exact inv.applyInvalidWorkerResult idle reviewed message failover revision starts
  | blockedContext missing =>
    rw [GateRun.finishWorker]
    exact inv.transition reviewed (by nofun) (by exact ⟨rfl, rfl, rfl, id⟩)
  | finished changed passed commands =>
    have noted : Inv node (s.update fun n => { n with result := true, changedPathCount := some changed }) :=
      inv.update idle (inv.mem.same ⟨rfl, rfl, rfl, id⟩ rfl rfl rfl rfl)
    have stands : (s.update fun n => { n with result := true, changedPathCount := some changed }).mem.verification =
        none → (s.update fun n => { n with result := true, changedPathCount := some changed }).attemptWorkspace.isSome =
        true := stands changed passed commands rfl
    have verified := noted.executeControllerVerification idle (reviewed.of_eq rfl rfl rfl) stands passed commands
    have after := executeControllerVerification_reviewed (s := s.update fun n =>
      { n with result := true, changedPathCount := some changed }) (reviewed.of_eq rfl rfl rfl) stands passed commands
    obtain ⟨status, invocation, overrides, job⟩ := executeControllerVerification_same
      (s.update fun n => { n with result := true, changedPathCount := some changed }) passed commands
    have outstanding : judgeReaskOutstanding _ = judgeReaskOutstanding _ := congrArg judgeReaskOutstanding overrides
    have still : Quiet node s.mem → Quiet node _ := fun quiet running transcript answer held =>
      quiet (status ▸ running) transcript answer (invocation ▸ held)
    refine verified.verified (job.trans idle) after live admitted revision (fun started => ?_) (fun alive => ?_)
    · exact ⟨outstanding.trans (starts started).1, still (starts started).2⟩
    · exact (quiet alive).imp (outstanding.trans ·) still

theorem Inv.killed (inv : Inv node s) (reviewed : Reviewed s.mem) (job : Job)
    (proven : job = .judge → Proven node s.rounds s.mem.attempt) (status : NodeStatus) (parked : status.parked = true)
    (error : NodeError) (retried admitted : Bool) (integration : Integration) :
    Inv node (killed node s job status error retried admitted integration) := by
  unfold GateRun.killed
  dsimp only
  split
  · rename_i timeout
    exact inv.idle.applyJudgeProtocolFailure rfl reviewed (proven timeout.1) _ admitted integration
  · split
    · exact inv.transition reviewed (by nofun) (by exact ⟨rfl, rfl, rfl, id⟩)
    · refine inv.transition reviewed ?_ ⟨rfl, rfl, rfl, id⟩
      rintro rfl
      cases parked

theorem Inv.recover (inv : Inv node s) (idle : s.job = none) (running : s.mem.status = .running)
    (recovery : Recovery) (fits : recovery.fits s.mem = true)
    (stands : ∀ changed passed commands, recovery = .worker (.finished changed passed commands) →
      s.mem.verification = none → s.attemptWorkspace.isSome = true) : Inv node (recover node s recovery) := by
  have reviewed := inv.mem.reviewed (.inr (.inl running))
  cases recovery with
  | reconciled reason | stalled error =>
    rw [GateRun.recover]
    exact inv.transition reviewed (by nofun) (by exact ⟨rfl, rfl, rfl, id⟩)
  | exhausted route => exact inv.handleProviderExhaustion reviewed _ route
  | worker close =>
    refine inv.finishWorker idle reviewed false false none close ?_ ?_ nofun nofun
    · cases invocation : s.mem.invocation <;> cases close <;> simp_all [Recovery.fits, WorkerClose.fits]
    · intro changed passed commands same
      exact stands changed passed commands (congrArg Recovery.worker same)
  | adoptedJudge answer result integration =>
    refine Inv.applyJudgeResult (inv.update idle (inv.mem.same ⟨rfl, rfl, rfl, id⟩ rfl rfl rfl rfl)) idle
      (reviewed.of_eq rfl rfl rfl) answer ?_ none nofun false integration
    -- The transcript of an unproven attempt can only send the node back to its worker.
    refine inv.mem.judged.imp id fun quiet => ?_
    cases invocation : s.mem.invocation with
    | none => simp [Recovery.fits, invocation] at fits
    | some last =>
      cases last with
      | worker => simp [Recovery.fits, invocation] at fits
      | judge transcript =>
        simp only [Recovery.fits, invocation] at fits
        exact quiet running transcript answer invocation fits
  | replayJudge => exact inv.awaitJudge reviewed
  | restart =>
    rw [GateRun.recover]
    exact inv.transition reviewed (by nofun) (by exact ⟨rfl, rfl, rfl, id⟩)

/-- Only a node that waits for its judge is judged again. -/
theorem rejudge_reviewed {rounds : List Round} {n : NodeSnapshot} {request : ResumeRequest}
    (sound : Sound node rounds n) (rejudges : request.action n = .rejudge) : Reviewed n := by
  refine sound.reviewed ?_
  unfold ResumeRequest.action classify at rejudges
  by_cases unavailable : isJudgeUnavailable n.runNode = true
  · exact .inr (.inr unavailable)
  · by_cases judge : n.phase = .judge
    · exact .inl judge
    · have phase : n.runNode.phase ≠ .judge := judge
      simp only [unavailable, phase, if_false, Bool.false_eq_true] at rejudges
      repeat' split at rejudges
      all_goals cases rejudges

/-- What a lost controller left of an integration is recovered whatever was reviewed. -/
theorem Inv.recoverIntegration (inv : Inv node s) (idle : s.job = none) (integration : Integration) :
    Inv node (recoverIntegration node s integration) := by
  unfold GateRun.recoverIntegration
  split
  · exact { inv.integrated idle none _ integration with }
  · exact { inv with }

/-- Nothing is held for a node whose integration was recovered, and it runs on only if nothing was to recover. -/
theorem recoverIntegration_running {integration : Integration} (finishes : integration ≠ .lost)
    (running : (GateRun.recoverIntegration node s integration).mem.status = .running) :
    (GateRun.recoverIntegration node s integration).mem = s.mem ∧
      (GateRun.recoverIntegration node s integration).worktrees = s.worktrees := by
  unfold GateRun.recoverIntegration at running ⊢
  split
  · rename_i pending
    rw [if_pos pending] at running
    cases integration with
    | lost => exact absurd rfl finishes
    | rejected =>
      simp only [GateRun.integrated, GateRun.applyRejection] at running
      split at running <;> cases running
    | accepted | conflict paths | moved message | sealFailed error => cases running
  · exact ⟨rfl, rfl⟩

theorem recoverIntegration_job {integration : Integration} (idle : s.job = none) :
    (GateRun.recoverIntegration node s integration).job = none := by
  unfold GateRun.recoverIntegration
  split
  · cases integration with
    | rejected =>
      simp only [GateRun.integrated, GateRun.applyRejection]
      split <;> rfl
    | accepted | conflict paths | moved message | sealFailed error | lost => rfl
  · exact idle

theorem Inv.resumed (inv : Inv node s) (idle : s.job = none) (request : ResumeRequest) (recovery : Recovery)
    (fits : s.mem.status = .running → recovery.fits s.mem = true)
    (stands : ∀ changed passed commands, s.mem.status = .running →
      recovery = .worker (.finished changed passed commands) →
      s.mem.verification = none → s.attemptWorkspace.isSome = true) :
    Inv node (resumed node s request recovery) := by
  unfold GateRun.resumed
  split
  · exact inv
  · split
    · exact inv
    · split
      · rename_i rejudges
        exact inv.awaitJudge (rejudge_reviewed inv.mem rejudges)
      · exact inv
      · exact inv.leave rfl id nofun nofun rfl
      · split
        · exact inv
        · split
          · rename_i running
            exact inv.recover idle running recovery (fits running) fun changed passed commands =>
              stands changed passed commands running
          · exact inv.leave rfl id nofun nofun rfl

/-- An interrupted verification keeps its worktree. -/
theorem Sound.interrupted {rounds : List Round} {n : NodeSnapshot} (sound : Sound node rounds n) (interrupted : Bool) :
    Sound node rounds (interrupt interrupted n) := by
  unfold interrupt
  split
  · refine ⟨sound.reask, sound.judged, fun shown => ?_⟩
    have reviewed := sound.reviewed shown
    refine ⟨reviewed.worktree, fun verification member => ?_⟩
    obtain ⟨recorded, held, rfl⟩ := Option.map_eq_some_iff.mp member
    exact reviewed.recorded recorded held
  · exact sound

theorem Inv.canceled (inv : Inv node s) (interrupted : Bool) :
    Inv node { s.canceled interrupted with alive := false, job := none } := by
  have sound := inv.mem.interrupted interrupted
  by_cases settled : (s.update (interrupt interrupted)).mem.status.settled = true
  · rw [GateRun.canceled, if_pos settled]
    exact Inv.of_written sound rfl rfl inv.decisions
  · rw [GateRun.canceled, if_neg settled]
    refine Inv.of_written ⟨sound.reask, .inr (Quiet.of_status nofun), ?_⟩ rfl rfl inv.decisions
    rintro (judge | running | unavailable)
    · exact absurd judge nofun
    · exact absurd running nofun
    · cases unavailable

end Recoveries

/-! ## Runs -/

/-- A worker may start in this step while the record read before it still stands. -/
def startsWorker (s : GateRun) : Label → Bool
  | .dispatch _ => !decide (s.mem.phase = .judge ∧ s.mem.result = true)
  | .gate _ _ revision _ | .workerClosed _ _ revision => revision.isSome
  | _ => false

/-- The step verifies or proves the attempt. -/
def measures (s : GateRun) : Label → Bool
  | .gate .. | .gateLost _ => !s.reask
  | .workerClosed (.finished ..) _ _ | .resume _ (.worker (.finished ..)) _ => s.mem.verification.isNone
  | _ => false

/-- No worker starts under an outstanding re-ask, and the worktree of an attempt stands while it is measured. -/
def Kept (s : GateRun) (label : Label) : Prop :=
  (s.startsWorker label = true → s.mem.outstanding = false) ∧
  (s.measures label = true → s.attemptWorkspace.isSome = true)

instance : DecidableRel Kept := fun _ _ => inferInstanceAs (Decidable (_ ∧ _))

theorem Inv.step {s t : GateRun} (inv : Inv node s) {label : Label} (kept : Kept s label)
    (taken : step node s label = some t) : Inv node t := by
  obtain ⟨clear, stands⟩ := kept
  cases label with
  | dispatch start =>
    simp only [GateRun.step] at taken
    split at taken <;> cases taken
    rename_i ready
    obtain ⟨-, idle, pending⟩ := ready
    have quiet : Quiet node s.mem := Quiet.of_status (by rw [pending]; nofun)
    split
    · rename_i waits
      have reviewed := inv.mem.reviewed (.inl waits.1)
      exact { inv with held := fun _ => reviewed, judge := nofun, quiet := fun _ => .inr (.inl quiet) }
    · rename_i starts
      exact inv.nextAttempt (clear (by simp [startsWorker, starts])) quiet start
  | workerClosed close admitted revision =>
    simp only [GateRun.step] at taken
    split at taken <;> cases taken
    rename_i ready
    obtain ⟨-, job, fits⟩ := ready
    have reviewed := inv.held (by simp [job])
    have quiet : s.mem.outstanding = true ∨ Quiet node s.mem := by
      simpa [job] using inv.quiet (by simp [job])
    refine inv.idle.finishWorker rfl reviewed true admitted revision close fits ?_ ?_ fun _ => quiet
    · rintro changed passed commands rfl unverified
      exact stands (by simpa [measures] using unverified)
    · intro started
      have clear := clear (by simpa [startsWorker, Option.isSome_iff_ne_none] using started)
      exact ⟨clear, quiet.resolve_left (by simp [clear])⟩
  | gate measure start revision integration =>
    simp only [GateRun.step] at taken
    split at taken <;> cases taken
    rename_i ready
    have reviewed := inv.held (by simp [ready.2])
    have quiet : s.mem.outstanding = true ∨ Quiet node s.mem := by
      simpa [ready.2] using inv.quiet (by simp [ready.2])
    refine inv.idle.gate rfl reviewed (fun first => stands ?_) measure start revision integration fun started => ?_
    · have first : s.reask = false := first
      simp [measures, first]
    · have clear := clear (by simpa [startsWorker, Option.isSome_iff_ne_none] using started)
      exact ⟨clear, quiet.resolve_left (by simp [clear])⟩
  | gateLost measure =>
    simp only [GateRun.step] at taken
    split at taken <;> cases taken
    exact (inv.evaluate measure).lose
  | judgeClosed close admitted revision integration =>
    simp only [GateRun.step] at taken
    split at taken <;> cases taken
    rename_i ready
    exact inv.judgeClosed ready.2 close admitted revision integration
  | killed status error retried admitted integration =>
    simp only [GateRun.step] at taken
    split at taken
    · cases taken
    · cases taken
    · rename_i job _ held
      split at taken <;> cases taken
      rename_i ready
      refine inv.killed (inv.held (by simp [held])) job ?_ status ready.2 error retried admitted integration
      rintro rfl
      exact inv.judge held
  | autoRetry =>
    simp only [GateRun.step] at taken
    split at taken <;> cases taken
    refine inv.transition_of ⟨inv.mem.reask, .inr (Quiet.of_status nofun), ?_⟩
    rintro (judge | running | unavailable)
    · have judged : s.mem.phase = .judge := by
        by_contra other
        simp [other] at judge
      exact (inv.mem.reviewed (.inl judged)).of_eq rfl rfl rfl
    · exact absurd running nofun
    · cases unavailable
  | cancel interrupted =>
    simp only [GateRun.step] at taken
    split at taken <;> cases taken
    exact inv.canceled interrupted
  | crash =>
    simp only [GateRun.step] at taken
    split at taken <;> cases taken
    exact inv.lose
  | release =>
    simp only [GateRun.step] at taken
    split at taken <;> cases taken
    exact { inv with }
  | resume request recovery integration =>
    simp only [GateRun.step] at taken
    split at taken <;> cases taken
    rename_i ready
    obtain ⟨-, idle, finishes, fits⟩ := ready
    have alive : Inv node { s with alive := true } := { inv with }
    have same : (GateRun.recoverIntegration node { s with alive := true } integration).mem.status = .running → _ :=
      recoverIntegration_running finishes
    refine (alive.recoverIntegration idle integration).resumed ?_ request recovery (fun running => ?_) ?_
    · exact recoverIntegration_job idle
    · rw [same running |>.1]
      exact fits
    · rintro changed passed commands running rfl unverified
      obtain ⟨mem, worktrees⟩ := same running
      rw [mem] at unverified
      rw [GateRun.attemptWorkspace, mem, worktrees]
      exact stands (by simpa [measures] using unverified)

/-- A rejection that cites nothing. -/
def uncited : JudgeVerdict := { verdict := .fail, maxSeverity := .critical, summary := "", findings := [] }

end Faberun.GateRun
