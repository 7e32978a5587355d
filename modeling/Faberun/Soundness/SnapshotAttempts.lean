import Faberun.Soundness.SnapshotRecords

/-! # The writes of an attempt

A snapshot whose record is valid passes when it fits, so the start, the process and the end of an attempt pass when
there is room for each of them. An attempt whose writes all passed leaves its record as it ended.
-/

namespace Faberun.Verify

open Journal (get)
open JsonText
open Snapshot

/-! ## One write -/

section Writes

variable [Numerals Rat]

theorem validateNodeSnapshot_iff {checks : SnapshotChecks} {snapshot : Snapshot.NodeSnapshot} :
    validateNodeSnapshot checks snapshot = .ok () ↔
      checks.checkFields snapshot.fields = .ok () ∧
        validateVerificationField checks.dateParses snapshot.verification = .ok () ∧
        validateArtifactsField snapshot.verificationArtifacts = .ok () ∧
        serializedBytes snapshot.toJson ≤ snapshotMaxBytes := by
  rw [validateNodeSnapshot, andThen_ok_iff, andThen_ok_iff, andThen_ok_iff, check_ok_iff, decide_eq_true_eq]

variable (context : VerificationContext)

/-- What every write of a pass has beside its size. -/
structure PassValid (pass : ControllerPass) : Prop where
  fields : context.checks.checkFields pass.fields = .ok ()
  artifacts : validateArtifactsField pass.artifacts = .ok ()

/-- A snapshot the pass may be refused: whether it passes is a matter of its size. -/
theorem snapshot_passes_iff {pass : ControllerPass} (valid : PassValid context pass) {state : VerificationState}
    (staged : pass.stage.verification = state.toJson) (commands : state.commands.length ≤ 32)
    (records : RecordsValid context.checks.dateParses state.attempts)
    (error : ∀ text, state.error = some text → charBytes text.toList ≤ 4096) :
    validateNodeSnapshot context.checks pass.snapshot = .ok () ↔
      snapshotBytes pass.fields
        (verificationBytes state.passed state.completed (itemsBytes (state.commands.map commandJson))
          (itemsBytes state.attempts) (restBytes state.error state.progress))
        (artifactsBytes pass.artifacts) ≤ snapshotMaxBytes := by
  have accepted := state_valid commands records error
  have size := serializedBytes_snapshot pass.snapshot (by
    rw [ControllerPass.snapshot, staged]
    simp [VerificationState.toJson])
  rw [validateNodeSnapshot_iff, size, ControllerPass.snapshot, staged, jsonBytes_state]
  exact ⟨fun accepted => accepted.2.2.2, fun room => ⟨valid.fields, accepted, valid.artifacts, room⟩⟩

/-- Whether every snapshot a pass handed over passes. -/
def Passes (pass : ControllerPass) : Prop :=
  ∀ snapshot ∈ pass.handed, validateNodeSnapshot context.checks snapshot = .ok ()

theorem writeNode_handed (pass : ControllerPass) :
    (context.writeNode pass).1 = { pass with handed := pass.handed ++ [pass.snapshot] } := rfl

theorem passes_writeNode_iff (pass : ControllerPass) :
    Passes context (context.writeNode pass).1 ↔
      Passes context pass ∧ validateNodeSnapshot context.checks pass.snapshot = .ok () := by
  simp only [Passes, writeNode_handed, List.forall_mem_append, List.forall_mem_singleton]

theorem writeNode_refused_iff (pass : ControllerPass) :
    (context.writeNode pass).2 = none ↔ validateNodeSnapshot context.checks pass.snapshot = .ok () := by
  rw [VerificationContext.writeNode]
  cases validateNodeSnapshot context.checks pass.snapshot <;> simp

/-! ## One attempt -/

/-- The state with one record behind the ones that stay. -/
def recordedState (pass : ControllerPass) (base : List (JsValue Rat)) (record : JsValue Rat) : VerificationState :=
  ⟨false, [], false, base ++ [record], none, some (context.progressFor pass.results.length)⟩

/-- A pass that wrote that state, refused or not. -/
def recorded (pass : ControllerPass) (base : List (JsValue Rat)) (record : JsValue Rat) : ControllerPass :=
  (context.writeNode { pass with stage := .running (recordedState context pass base record) }).1

/-- A state while commands run. -/
structure StateValid (state : VerificationState) : Prop where
  passed : state.passed = false
  completed : state.completed = false
  commands : state.commands = []
  error : state.error = none
  records : RecordsValid context.checks.dateParses state.attempts

/-- What holds of a pass that is not settled. -/
structure Inv (pass : ControllerPass) : Prop extends PassValid context pass where
  ready : ∀ verification, pass.stage = .ready verification →
    validateVerificationField context.checks.dateParses verification = .ok ()
  running : ∀ state, pass.stage = .running state → StateValid context state

/-- The records beside the one of the attempt under way. -/
structure BaseValid (dateParses : String → Bool) (base : List (JsValue Rat)) (invocationId : String) : Prop where
  short : base.length ≤ 15
  each : ∀ record ∈ base, RecordValid dateParses record
  fresh : base.any (isInvocation invocationId) = false

variable {context} {pass : ControllerPass}

omit [Numerals Rat] in
private theorem base_window {state : VerificationState} {invocationId : String}
    (records : RecordsValid context.checks.dateParses state.attempts)
    (fresh : state.attempts.any (isInvocation invocationId) = false) :
    BaseValid context.checks.dateParses (window state.attempts) invocationId :=
  ⟨window_length _, fun record member => records.each record (List.mem_of_mem_drop member), window_fresh fresh⟩

section Base

variable {base : List (JsValue Rat)} {invocationId : String}
  (beside : BaseValid context.checks.dateParses base invocationId)

include beside

omit [Numerals Rat] in
private theorem recordedState_valid {record : JsValue Rat} (accepted : RecordValid context.checks.dateParses record) :
    StateValid context (recordedState context pass base record) := by
  refine ⟨rfl, rfl, rfl, rfl, ?_, ?_⟩
  · have short := beside.short
    rw [recordedState, List.length_append, List.length_singleton]
    omega
  · intro item member
    rcases List.mem_append.mp member with earlier | last
    · exact beside.each item earlier
    · rw [List.mem_singleton.mp last]
      exact accepted

/-- A record that is written passes when there is room for it. -/
private theorem recorded_spec (valid : PassValid context pass) {record : JsValue Rat}
    (accepted : RecordValid context.checks.dateParses record) :
    Inv context (recorded context pass base record) ∧
      (Passes context (recorded context pass base record) ↔ Passes context pass ∧
        snapshotBytes pass.fields
          (verificationBytes false false 0 (itemsBytes base + (jsonBytes record + 1))
            (restBytes none (some (context.progressFor pass.results.length))))
          (artifactsBytes pass.artifacts) ≤ snapshotMaxBytes) := by
  have state : StateValid context (recordedState context pass base record) := recordedState_valid beside accepted
  constructor
  · refine ⟨⟨valid.fields, valid.artifacts⟩, nofun, ?_⟩
    rintro next ⟨⟩
    exact state
  · have written : PassValid context { pass with stage := .running (recordedState context pass base record) } :=
      ⟨valid.fields, valid.artifacts⟩
    rw [recorded, passes_writeNode_iff, snapshot_passes_iff context written rfl (Nat.zero_le _) state.records nofun]
    simp only [recordedState, List.map_nil, itemsBytes, itemsBytes_append, Nat.add_zero]
    rfl

end Base

section Attempt

variable {state : VerificationState} {number : Nat} {run : AttemptRun context.checks.dateParses}

/-- The record of an attempt under way, and of one that ended. -/
def active (identity : AttemptIdentity context.checks.dateParses) : JsValue Rat :=
  .object (recordFields identity "active" .null .null)

def ended (identity : AttemptIdentity context.checks.dateParses) (run : AttemptRun context.checks.dateParses)
    (ending : AttemptEnding) : JsValue Rat :=
  let result := attemptResult identity.attempt run.durationMs ending
  .object (recordFields identity (if result.passed then "closed" else "failed") (.string run.completedAt.text)
    (boundedVerificationAttemptResult result))

/-- An attempt that had a directory to run in. -/
def AttemptRun.resolved (run : AttemptRun context.checks.dateParses) : Bool :=
  match run.outcome with
  | .unresolved _ => false
  | _ => true

def AttemptRun.process (run : AttemptRun context.checks.dateParses) : SpawnedProcess :=
  match run.outcome with
  | .spawned process _ => process
  | _ => VerificationContext.unspawnedProcess

def AttemptRun.ending (run : AttemptRun context.checks.dateParses) : AttemptEnding :=
  match run.outcome with
  | .unresolved message | .unspawned message => .failed message
  | .spawned _ ending => ending

/-- The start of an attempt, as it is written. -/
private theorem persist_start (pass : ControllerPass) (valid : StateValid context state)
    (identity : AttemptIdentity context.checks.dateParses) (named : identity.invocationId = run.invocationId)
    (fresh : state.attempts.any (isInvocation run.invocationId) = false) :
    context.persistVerificationAttempt pass state run.invocationId (identity.record "active")
        (some (context.progressFor pass.results.length)) =
      let next := recordedState context pass (window state.attempts) (active identity)
      (next, context.writeNode { pass with stage := .running next }) := by
  rw [← named] at fresh ⊢
  have attempts := persistedAttempts_open identity "active" fresh
  obtain ⟨passed, commands, completed, attempts', error, progress⟩ := state
  obtain ⟨rfl, rfl, rfl, rfl, _⟩ := valid
  rw [VerificationContext.persistVerificationAttempt]
  simp only [attempts]
  rfl

variable {base : List (JsValue Rat)}

/-- A later write of an attempt, over its own record. -/
private theorem persist_again (pass : ControllerPass) {old : JsonFields} (update : JsonFields)
    (progress : Option VerificationProgress) (beside : BaseValid context.checks.dateParses base run.invocationId)
    (same : isInvocation run.invocationId (.object old) = true)
    (shown : progress = none ∨ progress = some (context.progressFor pass.results.length)) :
    context.persistVerificationAttempt pass (recordedState context pass base (.object old)) run.invocationId update
        progress =
      let next := recordedState context pass base (.object (spread old update))
      (next, context.writeNode { pass with stage := .running next }) := by
  have attempts : persistedAttempts run.invocationId update (base ++ [.object old]) =
      base ++ [.object (spread old update)] := persistedAttempts_merge beside.short beside.fresh same
  rw [VerificationContext.persistVerificationAttempt]
  rcases shown with rfl | rfl <;> simp only [recordedState, attempts] <;> rfl

omit [Numerals Rat] in
private theorem active_valid (identity : AttemptIdentity context.checks.dateParses) (positive : 0 < identity.attempt) :
    RecordValid context.checks.dateParses (active identity) :=
  record_valid positive (by decide) rfl fun _ => rfl

omit [Numerals Rat] in
private theorem ended_valid {identity : AttemptIdentity context.checks.dateParses} (positive : 0 < identity.attempt)
    (run : AttemptRun context.checks.dateParses) (ending : AttemptEnding) :
    RecordValid context.checks.dateParses (ended identity run ending) := by
  refine record_valid positive ?_ ?_ (boundedResult_valid _)
  · split <;> decide
  · exact isTimestamp_text run.completedAt

private theorem jsonBytes_active (identity : AttemptIdentity context.checks.dateParses) :
    jsonBytes (active identity) = recordBytes identity "active" 4 4 :=
  jsonBytes_record identity "active" .null .null nofun nofun

theorem jsonBytes_ended (identity : AttemptIdentity context.checks.dateParses)
    (run : AttemptRun context.checks.dateParses) (ending : AttemptEnding) :
    jsonBytes (ended identity run ending) =
      recordBytes identity (if (attemptResult identity.attempt run.durationMs ending).passed then "closed" else "failed")
        (quotedBytes run.completedAt.text) (resultBytes (attemptResult identity.attempt run.durationMs ending)) := by
  have size := jsonBytes_record identity
    (if (attemptResult identity.attempt run.durationMs ending).passed then "closed" else "failed")
    (.string run.completedAt.text) (boundedVerificationAttemptResult (attemptResult identity.attempt run.durationMs ending))
    nofun (by simp [boundedVerificationAttemptResult])
  rw [jsonBytes_boundedResult] at size
  exact size

/-- The end of an attempt, written over its record. -/
private theorem finish_eq (pass : ControllerPass) {before identity : AttemptIdentity context.checks.dateParses}
    (ending : AttemptEnding) (beside : BaseValid context.checks.dateParses base run.invocationId)
    (earlier : before.invocationId = run.invocationId) (named : identity.invocationId = run.invocationId) :
    (context.finish pass (recordedState context pass base (active before)) identity run ending).1 =
      recorded context pass base (ended identity run ending) := by
  have same : isInvocation run.invocationId (active before) = true := by
    rw [← earlier]
    exact isInvocation_record before "active" .null .null
  have written := persist_again pass (recordFields identity
      (if (attemptResult identity.attempt run.durationMs ending).passed then "closed" else "failed")
      (.string run.completedAt.text)
      (boundedVerificationAttemptResult (attemptResult identity.attempt run.durationMs ending))) none beside same (.inl rfl)
  rw [spread_recordFields, ← named] at written
  rw [VerificationContext.finish]
  exact congrArg (·.2.1) written

private theorem not_passes_refused {record : JsValue Rat} {refusal : Refusal}
    (refused : (context.writeNode { pass with stage := .running (recordedState context pass base record) }).2 =
      some refusal) : ¬ Passes context (recorded context pass base record) := by
  intro passes
  have accepted := ((passes_writeNode_iff context _).mp passes).2
  rw [(writeNode_refused_iff context _).mpr accepted] at refused
  cases refused

/-- An attempt that ended passes when what came before passed and there was room for its end. -/
private theorem finish_spec {before identity : AttemptIdentity context.checks.dateParses} (ending : AttemptEnding)
    (inv : PassValid context pass) (beside : BaseValid context.checks.dateParses (window state.attempts) run.invocationId)
    (earlier : before.invocationId = run.invocationId) (named : identity.invocationId = run.invocationId)
    (positive : 0 < identity.attempt) :
    Inv context
        (context.finish pass (recordedState context pass (window state.attempts) (active before)) identity run ending).1 ∧
      (Passes context
          (context.finish pass (recordedState context pass (window state.attempts) (active before)) identity run ending).1 ↔
        Passes context pass ∧ context.roomForEnding pass state identity run ending) := by
  have written := recorded_spec beside inv (ended_valid positive run ending)
  rw [jsonBytes_ended] at written
  rw [finish_eq pass ending beside earlier named]
  exact written

/-- The record of an attempt under way passes when there is room for it. -/
private theorem active_spec (inv : PassValid context pass) (identity : AttemptIdentity context.checks.dateParses)
    (beside : BaseValid context.checks.dateParses (window state.attempts) run.invocationId)
    (positive : 0 < identity.attempt) :
    Inv context (recorded context pass (window state.attempts) (active identity)) ∧
      (Passes context (recorded context pass (window state.attempts) (active identity)) ↔
        Passes context pass ∧ context.roomForRecord pass state (recordBytes identity "active" 4 4)) := by
  have written := recorded_spec beside inv (active_valid identity positive)
  rw [jsonBytes_active] at written
  exact written

/-- The process of an attempt, written over its start. -/
private theorem persist_spawn (pass : ControllerPass) (started spawned : AttemptIdentity context.checks.dateParses)
    (beside : BaseValid context.checks.dateParses base run.invocationId)
    (named : started.invocationId = run.invocationId) :
    context.persistVerificationAttempt pass (recordedState context pass base (active started)) run.invocationId
        (spawned.record "active") (some (context.progressFor pass.results.length)) =
      let next := recordedState context pass base (active spawned)
      (next, context.writeNode { pass with stage := .running next }) := by
  have same : isInvocation run.invocationId (active started) = true := by
    rw [← named]
    exact isInvocation_record started "active" .null .null
  have again := persist_again pass (spawned.record "active") (some (context.progressFor pass.results.length)) beside same
    (.inr rfl)
  rw [spread_record] at again
  exact again

/-- Going on behind a record of an attempt: when it is refused there was no room, and otherwise what follows decides. -/
private theorem persistActive_spec {identity : AttemptIdentity context.checks.dateParses}
    {go : ControllerPass → VerificationState → ControllerPass × VerificationAttemptResult} {room : Prop}
    (inv : PassValid context pass)
    (beside : BaseValid context.checks.dateParses (window state.attempts) run.invocationId)
    (named : identity.invocationId = run.invocationId) (positive : 0 < identity.attempt) {before : VerificationState}
    (written : context.persistVerificationAttempt pass before run.invocationId (identity.record "active")
        (some (context.progressFor pass.results.length)) =
      let next := recordedState context pass (window state.attempts) (active identity)
      (next, context.writeNode { pass with stage := .running next }))
    (follows : let next := recorded context pass (window state.attempts) (active identity)
      let final := (go next (recordedState context pass (window state.attempts) (active identity))).1
      Inv context final ∧ (Passes context final ↔ Passes context next ∧ room)) :
    let final := (context.persistActive pass before run identity go).1
    Inv context final ∧
      (Passes context final ↔
        Passes context pass ∧ context.roomForRecord pass state (recordBytes identity "active" 4 4) ∧ room) := by
  obtain ⟨opened, startPasses⟩ := active_spec inv identity beside positive
  rw [VerificationContext.persistActive, written]
  cases outcome : context.writeNode { pass with
      stage := .running (recordedState context pass (window state.attempts) (active identity)) } with
  | mk next refusal =>
    obtain rfl : recorded context pass (window state.attempts) (active identity) = next := by rw [recorded, outcome]
    simp only [outcome]
    cases refusal with
    | some refusal =>
      obtain ⟨valid, passes⟩ := finish_spec (.failed refusal.message) opened.toPassValid beside named named positive
      have failed := not_passes_refused (congrArg (·.2) outcome)
      refine ⟨valid, iff_of_false (fun all => failed (passes.mp all).1) ?_⟩
      exact fun ⟨before, fits, _⟩ => failed (startPasses.mpr ⟨before, fits⟩)
    | none =>
      obtain ⟨valid, passes⟩ := follows
      exact ⟨valid, by rw [passes, startPasses, and_assoc]⟩

/-- What an attempt leaves, and that all it wrote passes when there was room for each write. -/
theorem runCommand_spec (inv : Inv context pass) (staged : pass.stage = .running state)
    (fresh : state.attempts.any (isInvocation run.invocationId) = false) (positive : 0 < number) :
    Inv context (context.runCommand pass state number run).1 ∧
      (Passes context (context.runCommand pass state number run).1 ↔
        Passes context pass ∧ context.roomForAttempt pass state number run) := by
  have valid := inv.running state staged
  have beside := base_window valid.records fresh
  rw [VerificationContext.runCommand, VerificationContext.roomForAttempt]
  generalize first : context.identityOf run pass.results.length number VerificationContext.unspawnedProcess = started
  have named : started.invocationId = run.invocationId := by rw [← first]; rfl
  have counted : 0 < started.attempt := by rw [← first]; exact positive
  have start := persist_start pass valid started named fresh
  obtain ⟨opened, _⟩ := active_spec inv.toPassValid started beside counted
  cases outcome : run.outcome with
  | unresolved message =>
    simp only [and_true, iff_self]
    exact inv
  | unspawned message =>
    exact persistActive_spec inv.toPassValid beside named counted start
      (finish_spec (.failed message) opened.toPassValid beside named named counted)
  | spawned process ending =>
    have spawnedNamed : (context.identityOf run pass.results.length number process).invocationId = run.invocationId := rfl
    have spawn := persist_spawn (recorded context pass (window state.attempts) (active started)) started
      (context.identityOf run pass.results.length number process) beside named
    obtain ⟨running, _⟩ := active_spec opened.toPassValid
      (context.identityOf run pass.results.length number process) beside positive
    exact persistActive_spec inv.toPassValid beside named counted start
      (persistActive_spec opened.toPassValid beside spawnedNamed positive spawn
        (finish_spec ending running.toPassValid beside spawnedNamed spawnedNamed positive))

/-- Behind a record that passed, the attempt goes on. -/
private theorem persistActive_passed {identity : AttemptIdentity context.checks.dateParses}
    {go : ControllerPass → VerificationState → ControllerPass × VerificationAttemptResult} (inv : PassValid context pass)
    (beside : BaseValid context.checks.dateParses (window state.attempts) run.invocationId)
    (named : identity.invocationId = run.invocationId) (positive : 0 < identity.attempt) {before : VerificationState}
    (written : context.persistVerificationAttempt pass before run.invocationId (identity.record "active")
        (some (context.progressFor pass.results.length)) =
      let next := recordedState context pass (window state.attempts) (active identity)
      (next, context.writeNode { pass with stage := .running next }))
    (passes : Passes context (context.persistActive pass before run identity go).1) :
    context.persistActive pass before run identity go =
      go (recorded context pass (window state.attempts) (active identity))
        (recordedState context pass (window state.attempts) (active identity)) := by
  rw [VerificationContext.persistActive, written] at passes ⊢
  obtain ⟨opened, _⟩ := active_spec inv identity beside positive
  cases outcome : context.writeNode { pass with
      stage := .running (recordedState context pass (window state.attempts) (active identity)) } with
  | mk next refusal =>
    obtain rfl : recorded context pass (window state.attempts) (active identity) = next := by rw [recorded, outcome]
    simp only [outcome] at passes ⊢
    cases refusal with
    | none => rfl
    | some refusal =>
      have ending := (finish_spec (.failed refusal.message) opened.toPassValid beside named named positive).2.mp passes
      exact absurd ending.1 (not_passes_refused (congrArg (·.2) outcome))

/-- An attempt that had no directory writes nothing. -/
theorem runCommand_unresolved (unresolved : run.resolved = false) :
    context.runCommand pass state number run = (pass, attemptResult number run.durationMs run.ending) := by
  rw [AttemptRun.resolved] at unresolved
  rw [VerificationContext.runCommand, AttemptRun.ending]
  cases outcome : run.outcome with
  | unresolved message => rfl
  | unspawned message =>
    rw [outcome] at unresolved
    cases unresolved
  | spawned process ending =>
    rw [outcome] at unresolved
    cases unresolved

/-- An attempt that was started, and whose writes all passed: its record is that of its end, and its result what its child
left. -/
theorem runCommand_passed (inv : Inv context pass) (staged : pass.stage = .running state)
    (fresh : state.attempts.any (isInvocation run.invocationId) = false) (positive : 0 < number) (resolved : run.resolved = true)
    (passes : Passes context (context.runCommand pass state number run).1) :
    ∃ before : ControllerPass, before.fields = pass.fields ∧ before.artifacts = pass.artifacts ∧ before.results = pass.results ∧
      context.runCommand pass state number run = (recorded context before (window state.attempts)
        (ended (context.identityOf run pass.results.length number run.process) run run.ending),
          attemptResult number run.durationMs run.ending) := by
  have valid := inv.running state staged
  have beside := base_window valid.records fresh
  rw [VerificationContext.runCommand] at passes ⊢
  rw [AttemptRun.process, AttemptRun.ending]
  generalize first : context.identityOf run pass.results.length number VerificationContext.unspawnedProcess = started
    at passes ⊢
  have named : started.invocationId = run.invocationId := by rw [← first]; rfl
  have numbered : started.attempt = number := by rw [← first]; rfl
  have counted : 0 < started.attempt := numbered ▸ positive
  have start := persist_start pass valid started named fresh
  obtain ⟨opened, _⟩ := active_spec inv.toPassValid started beside counted
  rw [AttemptRun.resolved] at resolved
  cases outcome : run.outcome with
  | unresolved message =>
    rw [outcome] at resolved
    cases resolved
  | unspawned message =>
    simp only [outcome] at passes ⊢
    have went := persistActive_passed inv.toPassValid beside named counted start passes
    refine ⟨recorded context pass (window state.attempts) (active started), rfl, rfl, rfl, went.trans (Prod.ext ?_ ?_)⟩
    · rw [first]
      exact finish_eq _ (.failed message) beside named named
    · rw [VerificationContext.finish, numbered]
  | spawned process ending =>
    simp only [outcome] at passes ⊢
    have spawnedNamed : (context.identityOf run pass.results.length number process).invocationId = run.invocationId := rfl
    have spawn := persist_spawn (recorded context pass (window state.attempts) (active started)) started
      (context.identityOf run pass.results.length number process) beside named
    have went := persistActive_passed inv.toPassValid beside named counted start passes
    have later := passes
    rw [went] at later
    have whole := went.trans (persistActive_passed opened.toPassValid beside spawnedNamed positive spawn later)
    refine ⟨recorded context (recorded context pass (window state.attempts) (active started)) (window state.attempts)
      (active (context.identityOf run pass.results.length number process)), rfl, rfl, rfl, whole.trans (Prod.ext ?_ rfl)⟩
    exact finish_eq _ ending beside spawnedNamed spawnedNamed

end Attempt

end Writes

end Faberun.Verify
