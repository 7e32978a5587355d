import Mathlib.Algebra.Order.BigOperators.Group.List
import Mathlib.Algebra.Order.Group.Nat
import Faberun.Soundness.SnapshotWrites
import Faberun.Soundness.VerificationLists

/-! # The budget of a verification pass

The ceiling of a snapshot is on its text, the bounds of a pass are on what its commands print. What the text takes is
bounded by the attempts the commands declare and by what each output takes once it is escaped, so a pass whose outputs
keep such limits, with declarations that fit, writes nothing it would refuse.
-/

namespace Faberun.Verify

open Journal (get)
open JsonText
open Snapshot

/-! ## Limits -/

/-- The attempts a command may take: each of its repeats once more after a death by a signal. A mutation entry is run as
often as its runner asks, and sixteen records are kept. -/
def declaredAttempts (command : VerificationCommand) : Nat := if command.mutation.isSome then 16 else 2 * command.repeatCount

def allDeclared (commands : List VerificationCommand) : Nat := (commands.map declaredAttempts).sum

/-- What each output may take as JSON: the record of an attempt, the attempt among the results, a command beside its
attempts, the progress or the error of the pass, and the paths it leaves. -/
structure OutputLimits where
  record : Nat
  attempt : Nat
  command : Nat
  note : Nat
  paths : Nat

namespace OutputLimits

variable (limits : OutputLimits)

/-- What a command may take with the attempts that are kept of it. -/
def commandTotal (command : VerificationCommand) : Nat :=
  limits.command + min VerificationLimits.stateAttempts (declaredAttempts command) * (limits.attempt + 1)

/-- What the records may take, behind those of an interrupted pass. -/
def recordsTotal (commands : List VerificationCommand) (earlier : Nat) : Nat :=
  min 16 (earlier + allDeclared commands) * (limits.record + 1)

def commandsTotal (commands : List VerificationCommand) : Nat :=
  ((commands.take VerificationLimits.stateCommands).map fun command => limits.commandTotal command + 1).sum

/-- The most a snapshot of the pass may take: 16 KiB of other fields, the names of the members, and the outputs. -/
def total (commands : List VerificationCommand) (earlier : Nat) : Nat :=
  16 * 1024 + 128 + limits.recordsTotal commands earlier + limits.commandsTotal commands + limits.note + limits.paths

section

variable [Numerals Rat]

/-- A result of another pass that is served in the place of a run. -/
structure Serves (command : VerificationCommand) (result : VerificationCommandResult) : Prop where
  text : commandBytes { result with passed := false, attempts := [] } ≤ limits.command
  declared : result.attempts.length ≤ declaredAttempts command
  each : ∀ attempt ∈ result.attempts, attemptBytes attempt ≤ limits.attempt

variable (context : VerificationContext)

/-- The paths a pass leaves untracked are neither too long nor too many. -/
def KeepsPaths (pass : ControllerPass) (untrackedAfter : List String) : Prop :=
  ∀ before ∈ context.untrackedBefore,
    let paths := context.verificationArtifacts before pass.artifacts untrackedAfter
    (∀ path ∈ paths, charBytes path.toList ≤ 1024) ∧
      fieldBytes "verificationArtifacts" (textsBytes paths) ≤ limits.paths

/-- An output keeps its limits. -/
def Keeps (pass : ControllerPass) : Label context → Prop
  | .begin => True
  | .attempt run =>
      let number := (VerificationContext.countedAttempts pass.attempts).length + 1
      let result := attemptResult number run.durationMs run.ending
      attemptBytes { result with signalDeath := true } ≤ limits.attempt ∧
        fieldBytes "progress" (progressBytes (context.progressFor pass.results.length)) ≤ limits.note ∧
        (run.resolved = true →
          recordBytes (context.identityOf run pass.results.length number run.process) "closed"
            (quotedBytes run.completedAt.text) (resultBytes result) ≤ limits.record)
  | .serve result => ∀ command ∈ context.commands[pass.results.length]?, limits.Serves command result
  | .close cwd _ =>
      ∀ command ∈ context.commands[pass.results.length]?,
        commandBytes { command with cwd := some cwd, passed := false, attempts := [] } ≤ limits.command
  | .returned untrackedAfter => limits.KeepsPaths context pass untrackedAfter
  | .threw message untrackedAfter =>
      fieldBytes "error" (quotedBytes (boundedUtf8 message (4 * 1024))) ≤ limits.note ∧
        limits.KeepsPaths context pass untrackedAfter

/-- A node before its verification, with commands whose outputs fit. -/
def Opens (snapshot : Snapshot.NodeSnapshot) : Prop :=
  let earlier := (VerificationContext.openedState snapshot.verification).attempts
  validateNodeSnapshot context.checks snapshot = .ok () ∧
    serializedBytes { snapshot with verification := .undefined }.toJson ≤ 16 * 1024 ∧
    (∀ record ∈ earlier, jsonBytes record ≤ limits.record) ∧
    limits.total context.commands earlier.length ≤ snapshotMaxBytes

end

end OutputLimits

/-! ## Counting the attempts -/

/-- The attempts of a command under way: at most one death by a signal before each that counts. -/
structure Tries (command : VerificationCommand) (attempts : List VerificationAttemptResult) : Prop where
  counted : command.mutation.isSome = false →
    (VerificationContext.countedAttempts attempts).length +
        ((attempts.getLast?.map (·.signalDeath)).getD false).toNat ≤ command.repeatCount ∧
      attempts.length ≤ 2 * (VerificationContext.countedAttempts attempts).length +
        ((attempts.getLast?.map (·.signalDeath)).getD false).toNat

theorem Tries.nil (command : VerificationCommand) : Tries command [] := ⟨fun _ => ⟨Nat.zero_le _, Nat.zero_le _⟩⟩

theorem Tries.length {command : VerificationCommand} {attempts : List VerificationAttemptResult}
    (tries : Tries command attempts) : min 16 attempts.length ≤ declaredAttempts command := by
  rw [declaredAttempts]
  split_ifs with mutates
  · exact Nat.min_le_left _ _
  · obtain ⟨counted, all⟩ := tries.counted (by simpa using mutates)
    omega

theorem Tries.marked {command : VerificationCommand} {attempts : List VerificationAttemptResult}
    (tries : Tries command attempts) (allowed : VerificationContext.attemptAllowed command attempts = true)
    {result : VerificationAttemptResult} (fresh : result.signalDeath = false) :
    Tries command (attempts ++ [VerificationContext.marked command attempts result]) := by
  refine ⟨fun plain => ?_⟩
  obtain ⟨counted, all⟩ := tries.counted plain
  have more : (VerificationContext.countedAttempts attempts).length < command.repeatCount := by
    simpa [VerificationContext.attemptAllowed, plain] using allowed
  rw [List.getLast?_concat, VerificationContext.countedAttempts, List.filter_append, List.length_append, List.length_append,
    List.length_singleton, Option.map_some, Option.getD_some]
  rw [VerificationContext.countedAttempts] at counted all more
  rw [VerificationContext.marked]
  cases again : (attempts.getLast?.map (·.signalDeath)).getD false with
  | true =>
    simp only [again, Bool.not_true, Bool.and_false, Bool.false_eq_true, if_false, Bool.toNat_true, fresh,
      Bool.toNat_false, List.filter_cons, Bool.not_false, if_true, List.filter_nil, List.length_singleton] at counted all ⊢
    omega
  | false =>
    simp only [again, Bool.not_false, Bool.and_true, Bool.toNat_false] at counted all ⊢
    split_ifs <;> simp [fresh] <;> omega

section Budget

variable [Numerals Rat]

/-! ## What the outputs take -/

/-- A verification record and its surroundings take little beside what is in them. -/
private theorem snapshotBytes_le (fields : JsonFields) (passed completed : Bool) (commands attempts rest artifacts : Nat) :
    snapshotBytes fields (verificationBytes passed completed commands attempts rest) artifacts ≤
      fieldsBytes fields + artifacts + commands + attempts + rest + 128 := by
  have keys : quotedBytes "verification" = 14 ∧ quotedBytes "passed" = 8 ∧ quotedBytes "commands" = 10 ∧
      quotedBytes "completed" = 11 ∧ quotedBytes "attempts" = 10 := by decide
  have flag (value : Bool) : boolBytes value ≤ 5 := by cases value <;> decide
  have first := flag passed
  have second := flag completed
  simp only [snapshotBytes, verificationBytes, fieldBytes, bracketBytes, keys]
  omega

private theorem attemptBytes_marked (result : VerificationAttemptResult) :
    attemptBytes result ≤ attemptBytes { result with signalDeath := true } := by
  have marks : markBytes "signalDeath" result.signalDeath ≤ markBytes "signalDeath" true := by
    cases result.signalDeath <;> decide
  simp only [attemptBytes, bracketBytes]
  omega

/-- The start of an attempt takes no more than its end. -/
private theorem active_le_ended {dateParses : String → Bool} (identity : AttemptIdentity dateParses)
    {process : SpawnedProcess} (earlier : process = VerificationContext.unspawnedProcess ∨ process = identity.process)
    (completedAt : Nat) (result : VerificationAttemptResult) :
    recordBytes { identity with process } "active" 4 4 ≤ recordBytes identity "closed" completedAt (resultBytes result) := by
  have statuses : quotedBytes "active" = quotedBytes "closed" := by decide
  have stdout : quotedBytes "stdout" = 8 ∧ quotedBytes "stderr" = 8 ∧ quotedBytes "passed" = 8 := by decide
  have answer : 20 ≤ resultBytes result := by
    simp only [resultBytes, fieldBytes, bracketBytes, stdout]
    omega
  rcases earlier with rfl | rfl
  · simp only [recordBytes, VerificationContext.unspawnedProcess, Option.map_none, numberBytes, textBytes, Option.getD_none,
      fieldBytes, bracketBytes, statuses]
    omega
  · simp only [recordBytes, fieldBytes, bracketBytes, statuses]
    omega

private theorem recordBytes_failed {dateParses : String → Bool} (identity : AttemptIdentity dateParses)
    (completedAt result : Nat) (passed : Bool) :
    recordBytes identity (if passed then "closed" else "failed") completedAt result =
      recordBytes identity "closed" completedAt result := by
  have statuses : quotedBytes "failed" = quotedBytes "closed" := by decide
  cases passed
  · simp only [recordBytes, statuses, Bool.false_eq_true, if_false]
  · rfl

omit [Numerals Rat] in
private theorem sum_le_length {α : Type} {items : List α} {bytes : α → Nat} {most : Nat}
    (each : ∀ item ∈ items, bytes item ≤ most) : (items.map fun item => bytes item + 1).sum ≤ items.length * (most + 1) := by
  have bound := List.sum_le_card_nsmul (items.map fun item => bytes item + 1) (most + 1) (by simpa using each)
  rwa [List.length_map, Nat.nsmul_eq_mul] at bound

private theorem itemsBytes_le {attempts : List (JsValue Rat)} {most : Nat} (each : ∀ record ∈ attempts, jsonBytes record ≤ most) :
    itemsBytes attempts ≤ attempts.length * (most + 1) := by
  have sum := itemsBytes_map attempts id jsonBytes fun _ => rfl
  rw [List.map_id] at sum
  rw [sum]
  exact sum_le_length each

variable {limits : OutputLimits} {context : VerificationContext}

/-- A command that keeps the limits, served or run. -/
private theorem commandBytes_le {command : VerificationCommand} {result : VerificationCommandResult}
    (text : commandBytes { result with passed := false, attempts := [] } ≤ limits.command)
    (declared : min VerificationLimits.stateAttempts result.attempts.length ≤ declaredAttempts command)
    (each : ∀ attempt ∈ result.attempts, attemptBytes attempt ≤ limits.attempt) :
    commandBytes result ≤ limits.commandTotal command := by
  have kept : ((result.attempts.take VerificationLimits.stateAttempts).map fun attempt => attemptBytes attempt + 1).sum ≤
      min VerificationLimits.stateAttempts (declaredAttempts command) * (limits.attempt + 1) := by
    have few : (result.attempts.take VerificationLimits.stateAttempts).length ≤
        min VerificationLimits.stateAttempts (declaredAttempts command) := by
      rw [List.length_take]
      exact Nat.le_min.mpr ⟨Nat.min_le_left _ _, declared⟩
    exact (sum_le_length fun attempt member => each attempt (List.mem_of_mem_take member)).trans
      (Nat.mul_le_mul_right _ few)
  have flag : boolBytes result.passed ≤ boolBytes false := by cases result.passed <;> decide
  simp only [commandBytes, bracketBytes, fieldBytes, List.take_nil, List.map_nil, List.sum_nil] at text ⊢
  rw [OutputLimits.commandTotal]
  omega

private theorem keptBytes_le (results : List VerificationCommandResult) (count argvBytes envBytes : Nat) :
    keptBytes count argvBytes envBytes results ≤
      ((results.take (VerificationLimits.stateCommands - count)).map fun result => commandBytes result + 1).sum := by
  induction results generalizing count argvBytes envBytes with
  | nil => exact Nat.le_of_eq (by simp [keptBytes])
  | cons result rest ih =>
    simp only [keptBytes]
    split_ifs with beyond
    · exact Nat.zero_le _
    · have room : VerificationLimits.stateCommands - count = VerificationLimits.stateCommands - (count + 1) + 1 := by omega
      have later := ih (count + 1) (argvBytes + totalBytes result.argv) (envBytes + totalBytes result.env)
      rw [room, List.take_succ_cons, List.map_cons, List.sum_cons]
      omega

private theorem commandsTotal_le {results : List VerificationCommandResult} {commands : List VerificationCommand}
    (each : List.Forall₂ (fun result command => commandBytes result ≤ limits.commandTotal command) results commands) :
    keptBytes 0 0 0 results ≤ limits.commandsTotal commands := by
  refine (keptBytes_le results 0 0 0).trans ?_
  rw [Nat.sub_zero, OutputLimits.commandsTotal]
  have taken := List.forall₂_take VerificationLimits.stateCommands each
  generalize results.take VerificationLimits.stateCommands = first at taken
  generalize commands.take VerificationLimits.stateCommands = declared at taken
  induction taken with
  | nil => exact Nat.le_refl _
  | cons within _ ih =>
    rw [List.map_cons, List.map_cons, List.sum_cons, List.sum_cons]
    omega

/-! ## A pass within its limits -/

def Stage.records : Stage → List (JsValue Rat)
  | .ready verification => (VerificationContext.openedState verification).attempts
  | .running state | .settled state => state.attempts

/-- The attempts of a pass so far, as far as the commands declare them. -/
def spentAttempts (context : VerificationContext) (pass : ControllerPass) : Nat :=
  allDeclared (context.commands.take pass.results.length) + min 16 pass.attempts.length

/-- The limits a pass has kept, behind the records of an interrupted one. -/
structure Within (limits : OutputLimits) (context : VerificationContext) (earlier : Nat) (pass : ControllerPass) : Prop where
  rest : fieldsBytes pass.fields + artifactsBytes pass.artifacts ≤ 16 * 1024
  records : ∀ record ∈ pass.stage.records, jsonBytes record ≤ limits.record
  counted : pass.stage.records.length ≤ earlier + spentAttempts context pass
  results : List.Forall₂ (fun result command => commandBytes result ≤ limits.commandTotal command) pass.results
    (context.commands.take pass.results.length)
  attempts : ∀ attempt ∈ pass.attempts, attemptBytes attempt ≤ limits.attempt
  tries : ∀ command ∈ context.commands[pass.results.length]?, Tries command pass.attempts
  ended : context.commands[pass.results.length]? = none → pass.attempts = []

omit [Numerals Rat] in
private theorem take_allDeclared {commands : List VerificationCommand} {index : Nat} {command : VerificationCommand}
    (under : commands[index]? = some command) :
    allDeclared (commands.take (index + 1)) = allDeclared (commands.take index) + declaredAttempts command := by
  simp [allDeclared, List.take_add_one, under]

omit [Numerals Rat] in
private theorem allDeclared_take_le (commands : List VerificationCommand) (index : Nat) :
    allDeclared (commands.take index) ≤ allDeclared commands := by
  have whole : allDeclared commands = allDeclared (commands.take index) + allDeclared (commands.drop index) := by
    rw [allDeclared, allDeclared, allDeclared, ← List.sum_append, ← List.map_append, List.take_append_drop]
  omega

variable {earlier : Nat} {pass : ControllerPass}

/-- No pass spends more than its commands declare. -/
private theorem Within.spent (within : Within limits context earlier pass) :
    spentAttempts context pass ≤ allDeclared context.commands := by
  rw [spentAttempts]
  cases under : context.commands[pass.results.length]? with
  | none =>
    rw [within.ended under]
    exact allDeclared_take_le context.commands pass.results.length
  | some command =>
    have declared := (within.tries command under).length
    have taken := take_allDeclared under
    have all := allDeclared_take_le context.commands (pass.results.length + 1)
    omega

/-- The records of a pass take what is theirs. -/
private theorem Within.recordsBytes (within : Within limits context earlier pass) (short : pass.stage.records.length ≤ 16) :
    itemsBytes pass.stage.records ≤ limits.recordsTotal context.commands earlier := by
  have spent := within.spent
  have counted := within.counted
  refine (itemsBytes_le within.records).trans (Nat.mul_le_mul_right _ ?_)
  omega

/-- Commands that are kept of a pass under way are kept of what is declared. -/
private theorem Within.resultsBytes (within : Within limits context earlier pass)
    (complete : pass.results.length = context.commands.length) :
    keptBytes 0 0 0 pass.results ≤ limits.commandsTotal context.commands := by
  have results := within.results
  rw [complete, List.take_length] at results
  exact commandsTotal_le results

/-! ## Room -/

omit [Numerals Rat] in
private theorem window_within (attempts : List (JsValue Rat)) : (window attempts).length ≤ attempts.length := by
  rw [window, List.length_drop]
  exact Nat.sub_le _ _

section Attempt

variable {state : VerificationState} {command : VerificationCommand} {run : AttemptRun context.checks.dateParses}
  (within : Within limits context earlier pass) (staged : pass.stage = .running state)
  (under : context.commands[pass.results.length]? = some command)
  (allowed : VerificationContext.attemptAllowed command pass.attempts = true)

include within staged under allowed

/-- One more record is one of those declared. -/
private theorem Within.more : (window state.attempts).length + 1 ≤ min 16 (earlier + allDeclared context.commands) := by
  have tries := ((within.tries command under).marked allowed
    (show (attemptResult 0 0 (.failed "")).signalDeath = false from rfl)).length
  have counted := within.counted
  have taken := take_allDeclared under
  have all := allDeclared_take_le context.commands (pass.results.length + 1)
  have short := window_length state.attempts
  have fewer := window_within state.attempts
  rw [staged] at counted
  simp only [Stage.records, spentAttempts] at counted
  rw [List.length_append, List.length_singleton] at tries
  omega

variable (fits : limits.total context.commands earlier ≤ snapshotMaxBytes)
  (note : fieldBytes "progress" (progressBytes (context.progressFor pass.results.length)) ≤ limits.note)

include fits note

private theorem Within.roomForRecord {record : Nat} (kept : record ≤ limits.record) :
    context.roomForRecord pass state record := by
  have more := within.more staged under allowed
  have stay : itemsBytes (window state.attempts) ≤ (window state.attempts).length * (limits.record + 1) := by
    refine itemsBytes_le fun record member => within.records record ?_
    rw [staged]
    exact List.mem_of_mem_drop member
  have records : ((window state.attempts).length + 1) * (limits.record + 1) ≤
      limits.recordsTotal context.commands earlier := Nat.mul_le_mul_right _ more
  have rest := within.rest
  rw [Nat.succ_mul] at records
  refine (snapshotBytes_le _ _ _ _ _ _ _).trans ?_
  simp only [restBytes, optionalBytes, Option.map_none, Option.map_some, Option.getD_none, Option.getD_some]
  rw [OutputLimits.total] at fits
  omega

/-- An attempt whose record keeps its limit has room for each of its writes. -/
private theorem Within.roomForAttempt {number : Nat}
    (kept : run.resolved = true → recordBytes (context.identityOf run pass.results.length number run.process) "closed"
      (quotedBytes run.completedAt.text) (resultBytes (attemptResult number run.durationMs run.ending)) ≤ limits.record) :
    context.roomForAttempt pass state number run := by
  have active {process : SpawnedProcess} (resolved : run.resolved = true)
      (earlier : process = VerificationContext.unspawnedProcess ∨ process = run.process) :
      context.roomForRecord pass state
        (recordBytes (context.identityOf run pass.results.length number process) "active" 4 4) :=
    within.roomForRecord staged under allowed fits note
      ((active_le_ended (context.identityOf run pass.results.length number run.process) earlier _ _).trans (kept resolved))
  have ended (resolved : run.resolved = true) :
      context.roomForEnding pass state (context.identityOf run pass.results.length number run.process) run run.ending := by
    refine within.roomForRecord staged under allowed fits note ?_
    rw [recordBytes_failed]
    exact kept resolved
  rw [AttemptRun.resolved, AttemptRun.process] at active ended
  rw [AttemptRun.ending] at ended
  rw [VerificationContext.roomForAttempt]
  cases outcome : run.outcome with
  | unresolved message => trivial
  | unspawned message =>
    simp only [outcome, true_implies] at active ended
    exact ⟨active (.inl rfl), ended⟩
  | spawned process ending =>
    simp only [outcome, true_implies] at active ended
    exact ⟨active (.inl rfl), active (.inr rfl), ended⟩

end Attempt

/-- The last write of a pass has room for its commands, its error and its paths. -/
private theorem Within.roomForSettlement (within : Within limits context earlier pass) {commands rest : Nat}
    (passed completed : Bool) (fits : limits.total context.commands earlier ≤ snapshotMaxBytes)
    (short : pass.stage.records.length ≤ 16) (kept : commands ≤ limits.commandsTotal context.commands)
    (noted : rest ≤ limits.note) {untrackedAfter : List String} (paths : limits.KeepsPaths context pass untrackedAfter) :
    context.roomForSettlement pass (verificationBytes passed completed commands (itemsBytes pass.stage.records) rest)
      untrackedAfter := by
  have records := within.recordsBytes short
  have others := within.rest
  rw [OutputLimits.total] at fits
  rw [VerificationContext.roomForSettlement]
  cases begun : context.untrackedBefore with
  | none =>
    refine (snapshotBytes_le _ _ _ _ _ _ _).trans ?_
    omega
  | some before =>
    obtain ⟨lengths, bytes⟩ := paths before begun
    refine ⟨lengths, (snapshotBytes_le _ _ _ _ _ _ _).trans ?_⟩
    split_ifs <;> omega

/-! ## Steps -/

/-- What a step leaves of the limits: the pass is over, or goes on within them. -/
def WithinOrOver (limits : OutputLimits) (context : VerificationContext) (earlier : Nat) (pass : ControllerPass) : Prop :=
  (∃ state, pass.stage = .settled state) ∨ Inv context pass ∧ Within limits context earlier pass

private theorem withinOrOver_of {next : ControllerPass} (sound : Sound context next) (within : Within limits context earlier next) :
    WithinOrOver limits context earlier next := sound.imp_right fun inv => ⟨inv, within⟩

/-- The attempt joins those of its command. -/
private theorem Within.grown (within : Within limits context earlier pass) {command : VerificationCommand}
    (under : context.commands[pass.results.length]? = some command)
    (allowed : VerificationContext.attemptAllowed command pass.attempts = true) {result : VerificationAttemptResult}
    (unmarked : result.signalDeath = false) (sized : attemptBytes { result with signalDeath := true } ≤ limits.attempt)
    {ran : ControllerPass} (fields : ran.fields = pass.fields) (artifacts : ran.artifacts = pass.artifacts)
    (results : ran.results = pass.results) (records : ∀ record ∈ ran.stage.records, jsonBytes record ≤ limits.record)
    (counted : ran.stage.records.length ≤ pass.stage.records.length ∨
      ran.stage.records.length ≤ min 15 pass.stage.records.length + 1) :
    Within limits context earlier
      { ran with attempts := pass.attempts ++ [VerificationContext.marked command pass.attempts result] } := by
  obtain ⟨_, stage, _, _, _, handed⟩ := ran
  obtain rfl := fields
  obtain rfl := artifacts
  obtain rfl := results
  have before := within.counted
  refine ⟨within.rest, records, ?_, within.results, ?_, ?_, ?_⟩
  · simp only [spentAttempts, List.length_append, List.length_singleton] at before counted ⊢
    omega
  · intro attempt member
    rcases List.mem_append.mp member with already | last
    · exact within.attempts attempt already
    · rw [List.mem_singleton.mp last, VerificationContext.marked]
      split_ifs
      · exact sized
      · exact (attemptBytes_marked result).trans sized
  · intro other same
    obtain rfl : command = other := Option.some.inj (under.symm.trans same)
    exact (within.tries command under).marked allowed unmarked
  · intro none
    rw [under] at none
    cases none

/-- A command that ends joins the results. -/
private theorem Within.closed (within : Within limits context earlier pass) {command : VerificationCommand}
    (under : context.commands[pass.results.length]? = some command) {result : VerificationCommandResult}
    {attempts : List VerificationAttemptResult} (emptied : attempts = []) (sized : commandBytes result ≤ limits.commandTotal command) :
    Within limits context earlier { pass with results := pass.results ++ [result], attempts } := by
  obtain rfl := emptied
  have declared := (within.tries command under).length
  have before := within.counted
  have taken := take_allDeclared under
  refine ⟨within.rest, within.records, ?_, ?_, List.forall_mem_nil _, fun command _ => .nil command, fun _ => rfl⟩
  · simp only [spentAttempts, List.length_append, List.length_singleton, List.length_nil, taken] at before ⊢
    omega
  · rw [List.length_append, List.length_singleton, List.take_add_one, under]
    exact List.rel_append within.results (.cons sized .nil)

section Step

variable {next : ControllerPass} (inv : Inv context pass) (within : Within limits context earlier pass)
  (passes : Passes context pass)

include inv within passes

private theorem within_serve {result : VerificationCommandResult} (keeps : limits.Keeps context pass (.serve result))
    (taken : context.step pass (.serve result) = some next) :
    Passes context next ∧ WithinOrOver limits context earlier next := by
  obtain ⟨sound, accepted⟩ := step_spec inv taken
  simp only [VerificationContext.step] at taken
  split at taken
  · rename_i state command staged under
    split_ifs at taken with able
    obtain rfl := Option.some.inj taken
    rw [Bool.and_eq_true, List.isEmpty_iff] at able
    obtain ⟨text, declared, each⟩ := keeps command under
    refine ⟨accepted.mpr ⟨passes, by simp only [VerificationContext.room, staged]⟩, withinOrOver_of sound ?_⟩
    refine within.closed under able.2 (commandBytes_le text ?_ each)
    exact (Nat.min_le_right _ _).trans declared
  · cases taken

private theorem within_close {cwd : String} {mutantsKilled : Bool} (keeps : limits.Keeps context pass (.close cwd mutantsKilled))
    (taken : context.step pass (.close cwd mutantsKilled) = some next) :
    Passes context next ∧ WithinOrOver limits context earlier next := by
  obtain ⟨sound, accepted⟩ := step_spec inv taken
  simp only [VerificationContext.step] at taken
  split at taken
  · rename_i state command staged under
    obtain ⟨passed, _, rfl⟩ := Option.map_eq_some_iff.mp taken
    refine ⟨accepted.mpr ⟨passes, by simp only [VerificationContext.room, staged]⟩, withinOrOver_of sound ?_⟩
    have declared := (within.tries command under).length
    refine within.closed under rfl (commandBytes_le (keeps command under) ?_ within.attempts)
    simp only [VerificationLimits.stateAttempts]
    omega
  · cases taken

variable (fits : limits.total context.commands earlier ≤ snapshotMaxBytes)

include fits

private theorem within_begin (taken : context.step pass .begin = some next) :
    Passes context next ∧ WithinOrOver limits context earlier next := by
  obtain ⟨sound, accepted⟩ := step_spec inv taken
  obtain ⟨fields, stage, artifacts, results, attempts, handed⟩ := pass
  cases stage with
  | running state => cases taken
  | settled state => cases taken
  | ready verification =>
    have short := (openedState_valid (inv.ready verification rfl)).short
    have records := within.recordsBytes short
    have rest := within.rest
    refine ⟨accepted.mpr ⟨passes, (snapshotBytes_le _ _ _ _ _ _ _).trans ?_⟩, ?_⟩
    · simp only [Stage.records, restBytes, optionalBytes, Option.map_none, Option.getD_none] at records rest ⊢
      rw [OutputLimits.total] at fits
      omega
    · simp only [VerificationContext.step] at taken
      split_ifs at taken
      obtain rfl := Option.some.inj taken
      refine withinOrOver_of sound ⟨within.rest, ?_, ?_, within.results, within.attempts, within.tries, within.ended⟩
      · intro record member
        refine within.records record ?_
        simp only [VerificationContext.openPass] at member
        split_ifs at member <;> exact member
      · have counted := within.counted
        simp only [VerificationContext.openPass]
        split_ifs <;> exact counted

private theorem within_attempt {run : AttemptRun context.checks.dateParses} (keeps : limits.Keeps context pass (.attempt run))
    (taken : context.step pass (.attempt run) = some next) :
    Passes context next ∧ WithinOrOver limits context earlier next := by
  obtain ⟨sound, accepted⟩ := step_spec inv taken
  simp only [VerificationContext.step] at taken
  split at taken
  · rename_i state command staged under
    split_ifs at taken with able
    obtain rfl := Option.some.inj taken
    rw [Bool.and_eq_true, Bool.not_eq_true'] at able
    obtain ⟨allowed, fresh⟩ := able
    obtain ⟨attempt, note, record⟩ := keeps
    have room := within.roomForAttempt staged under allowed fits note record
    have written := accepted.mpr ⟨passes, by
      simp only [VerificationContext.room, staged]
      exact room⟩
    refine ⟨written, withinOrOver_of sound ?_⟩
    cases resolved : run.resolved with
    | false =>
      rw [runCommand_unresolved resolved]
      exact within.grown under allowed rfl attempt rfl rfl rfl within.records (.inl (Nat.le_refl _))
    | true =>
      obtain ⟨before, fields, artifacts, results, ran⟩ := runCommand_passed inv staged fresh (Nat.succ_pos _) resolved written
      rw [ran]
      refine within.grown under allowed rfl attempt fields artifacts results ?_ (.inr ?_)
      · intro item member
        rcases List.mem_append.mp member with earlier | last
        · refine within.records item ?_
          rw [staged]
          exact List.mem_of_mem_drop earlier
        · rw [List.mem_singleton.mp last, jsonBytes_ended, recordBytes_failed]
          exact record resolved
      · have short := window_length state.attempts
        have fewer := window_within state.attempts
        have length : (window state.attempts ++ [ended (context.identityOf run pass.results.length
            ((VerificationContext.countedAttempts pass.attempts).length + 1) run.process) run run.ending]).length =
              (window state.attempts).length + 1 := List.length_append
        rw [staged]
        exact length.trans_le (by simp only [Stage.records]; omega)
  · cases taken

private theorem within_returned {untrackedAfter : List String} (keeps : limits.Keeps context pass (.returned untrackedAfter))
    (taken : context.step pass (.returned untrackedAfter) = some next) :
    Passes context next ∧ WithinOrOver limits context earlier next := by
  obtain ⟨sound, accepted⟩ := step_spec inv taken
  simp only [VerificationContext.step] at taken
  split at taken
  · rename_i state staged
    split_ifs at taken with whole
    obtain rfl := Option.some.inj taken
    have short := (inv.running state staged).records.short
    have room := within.roomForSettlement (pass.results.all (·.passed)) true fits (by rw [staged]; exact short) (within.resultsBytes whole.1)
      (Nat.zero_le limits.note) keeps
    refine ⟨accepted.mpr ⟨passes, ?_⟩, .inl ⟨_, rfl⟩⟩
    rw [staged] at room
    simp only [VerificationContext.room, staged]
    exact room
  · cases taken

private theorem within_threw {message : String} {untrackedAfter : List String}
    (keeps : limits.Keeps context pass (.threw message untrackedAfter))
    (taken : context.step pass (.threw message untrackedAfter) = some next) :
    Passes context next ∧ WithinOrOver limits context earlier next := by
  obtain ⟨sound, accepted⟩ := step_spec inv taken
  simp only [VerificationContext.step] at taken
  split at taken
  · rename_i state staged
    obtain rfl := Option.some.inj taken
    obtain ⟨error, paths⟩ := keeps
    have short := (inv.running state staged).records.short
    have rest : restBytes (some (boundedUtf8 message (4 * 1024))) none =
        fieldBytes "error" (quotedBytes (boundedUtf8 message (4 * 1024))) := by
      simp only [restBytes, optionalBytes, Option.map_none, Option.map_some, Option.getD_none, Option.getD_some, Nat.add_zero]
    rw [← rest] at error
    have room := within.roomForSettlement false true fits (by rw [staged]; exact short) (Nat.zero_le _) error paths
    refine ⟨accepted.mpr ⟨passes, ?_⟩, .inl ⟨_, rfl⟩⟩
    rw [staged] at room
    simp only [VerificationContext.room, staged]
    exact room
  · cases taken

/-- One step within the limits: what it wrote passes. -/
private theorem within_step {label : Label context} (keeps : limits.Keeps context pass label)
    (taken : context.step pass label = some next) :
    Passes context next ∧ WithinOrOver limits context earlier next := by
  cases label with
  | begin => exact within_begin inv within passes fits taken
  | attempt run => exact within_attempt inv within passes fits keeps taken
  | serve result => exact within_serve inv within passes keeps taken
  | close cwd mutantsKilled => exact within_close inv within passes keeps taken
  | returned untrackedAfter => exact within_returned inv within passes fits keeps taken
  | threw message untrackedAfter => exact within_threw inv within passes fits keeps taken

end Step

/-! ## Runs -/

/-- A pass of a node that opens within the limits. -/
private theorem opens_within {snapshot : Snapshot.NodeSnapshot} (opens : limits.Opens context snapshot) :
    Passes context (.ready snapshot) ∧ Inv context (.ready snapshot) ∧
      Within limits context (VerificationContext.openedState snapshot.verification).attempts.length (.ready snapshot) := by
  obtain ⟨accepted, small, records, _⟩ := opens
  obtain ⟨inv, passes⟩ := opened_inv (⟨snapshot, accepted, rfl⟩ : Opened context (.ready snapshot))
  rw [serializedBytes_unverified _ rfl, bracketBytes] at small
  refine ⟨passes, inv, ?_, records, Nat.le_add_right _ _, .nil, List.forall_mem_nil _, fun command _ => .nil command,
    fun _ => rfl⟩
  simp only [ControllerPass.ready] at small ⊢
  omega

/-- What a run within the limits keeps. -/
private theorem reach_within {snapshot : Snapshot.NodeSnapshot} (opens : limits.Opens context snapshot)
    (reach : context.machine.Reach (limits.Keeps context) (fun pass => pass = .ready snapshot) pass) :
    Passes context pass ∧
      WithinOrOver limits context (VerificationContext.openedState snapshot.verification).attempts.length pass := by
  refine reach.invariant (fun pass => Passes context pass ∧
      WithinOrOver limits context (VerificationContext.openedState snapshot.verification).attempts.length pass) ?_ ?_
  · rintro _ rfl
    obtain ⟨passes, inv, within⟩ := opens_within opens
    exact ⟨passes, .inr ⟨inv, within⟩⟩
  · rintro pass label next ⟨passes, ⟨state, ended⟩ | ⟨inv, within⟩⟩ keeps taken
    · rw [VerificationContext.machine] at taken
      cases label <;> simp only [VerificationContext.step, ended, reduceCtorEq] at taken
    · exact within_step inv within passes opens.2.2.2 keeps taken

/-- A pass whose outputs keep their limits, with declarations that fit, writes nothing it would refuse. -/
theorem executeControllerVerification_writes (limits : OutputLimits) (context : VerificationContext)
    (snapshot : Snapshot.NodeSnapshot) (opens : limits.Opens context snapshot) (pass : ControllerPass)
    (reach : context.machine.Reach (limits.Keeps context) (fun pass => pass = .ready snapshot) pass) :
    ∀ snapshot ∈ pass.handed, validateNodeSnapshot context.checks snapshot = .ok () :=
  (reach_within opens reach).1

end Budget

/-! ## Passes of one command -/

/-- The numerals of the whole numbers, which are all that the run below prints. -/
@[reducible] def wholeNumerals : Numerals Rat where
  print number := if number.den = 1 ∧ 0 ≤ number.num then some (Nat.toDigits 10 number.num.toNat) else none
  scan text := (Numerals.scan text : Option Nat).map fun number : Nat => (number : Rat)
  scan_print := by
    intro number text printed
    split_ifs at printed with whole
    have read : (Numerals.scan text : Option Nat) = some number.num.toNat := Numerals.scan_print printed
    rw [read, Option.map_some]
    congr 1
    apply Rat.ext
    · rw [Rat.num_natCast, Int.toNat_of_nonneg whole.2]
    · rw [Rat.den_natCast, whole.1]
  numeral := by
    intro number text printed
    split_ifs at printed with whole
    have digits : Numerals.print number.num.toNat = some text := printed
    exact Numerals.numeral digits
  starts := by
    intro number text printed
    split_ifs at printed with whole
    have digits : Numerals.print number.num.toNat = some text := printed
    exact Numerals.starts digits

/-- A command that is run three times. -/
def printCommand (argv : List String) : VerificationCommand := ⟨argv, 120, 3, [], none, none, none⟩

def printContext (argv : List String) : VerificationContext :=
  ⟨⟨fun _ => true, fun _ => .ok ()⟩, [printCommand argv], [], [], some []⟩

/-- A node as it is when its worker has finished. -/
def finishedNode : Snapshot.NodeSnapshot where
  fields := [("schemaVersion", .number 3), ("contractVersion", .string "0.3.0"), ("id", .string "build"),
    ("type", .string "implement"),
    ("sourceIdentity", .object [("kind", .string "node"), ("contractId", .string "demo"), ("nodeId", .string "build")]),
    ("packetHash", .string "7d865e959b2466918c9863afca942d0fb89d7c9ac0c99bafc3749504ded97730"),
    ("status", .string "running"), ("phase", .string "worker"), ("attempt", .number 1), ("revisions", .number 0),
    ("runtime", .null), ("blockedBy", .array []), ("startedAt", .string "2026-10-04T10:00:00.000Z"),
    ("updatedAt", .string "2026-10-04T10:05:00.000Z"), ("result", .null), ("gate", .null), ("error", .null)]
  verification := .undefined
  verificationArtifacts := .undefined

def printTime (text : String) (named : isBlank text = false) : Timestamp fun _ => true := ⟨text, by rw [named]; rfl⟩

/-- A child that prints the same text on both streams and exits. -/
def printedEnding (output : String) : AttemptEnding := ⟨output, output, some 0, none, false, none, none⟩

def printedRun (argv : List String) (output invocationId : String) (named : isBlank invocationId = false) :
    AttemptRun (printContext argv).checks.dateParses where
  invocationId := invocationId
  named := named
  startedAt := printTime "2026-10-04T10:05:01.000Z" (by decide)
  deadlineAt := printTime "2026-10-04T10:07:01.000Z" (by decide)
  completedAt := printTime "2026-10-04T10:05:02.000Z" (by decide)
  durationMs := 5
  outcome := .spawned ⟨some 4242, none, some 4242⟩ (printedEnding output)

/-- A text that is cut neither in a record nor in a result. -/
private structure Printable (output : String) : Prop where
  bounded : boundedUtf8 output (2 * 1024) = output
  tail : tailText output VerificationLimits.stateStdoutBytes = output

private theorem Printable.of_fits {output : String} (fits : charBytes output.toList ≤ 2 * 1024) : Printable output := by
  have whole : ∀ text : List Char, charBytes text ≤ 2 * 1024 → tailChars (2 * 1024) text = text := by
    intro text fits
    cases text with
    | nil => rfl
    | cons c rest => rw [tailChars, if_pos fits]
  refine ⟨by rw [boundedUtf8, if_pos fits], ?_⟩
  rw [tailText]
  exact (congrArg String.ofList (whole _ fits)).trans String.ofList_toList

/-- The names of the attempts. -/
def invocation : Nat → String
  | 0 => "2b1f-1"
  | 1 => "2b1f-2"
  | _ => "2b1f-3"

private theorem invocation_named : ∀ count, isBlank (invocation count) = false
  | 0 => by decide
  | 1 => by decide
  | _ + 2 => show isBlank "2b1f-3" = false by decide

section Prints

variable [Numerals Rat] {argv : List String} {output : String} {guard : ControllerPass → Label (printContext argv) → Prop}

/-- The run of an attempt of the command. -/
private abbrev nextRun (argv : List String) (output : String) (count : Nat) : AttemptRun (printContext argv).checks.dateParses :=
  printedRun argv output (invocation count) (invocation_named count)

/-- The states of the runs on the node. -/
private def Reached (guard : ControllerPass → Label (printContext argv) → Prop) (pass : ControllerPass) : Prop :=
  (printContext argv).machine.Reach guard (fun pass => pass = .ready finishedNode) pass

private theorem Reached.step {pass next : ControllerPass} (reached : Reached guard pass) {label : Label (printContext argv)}
    (allowed : guard pass label) (taken : (printContext argv).step pass label = some next) : Reached guard next :=
  .next reached allowed taken

private theorem openPass_passes {pass : ControllerPass} {state : VerificationState}
    (passes : Passes (printContext argv) ((printContext argv).openPass pass state)) :
    Passes (printContext argv) ((printContext argv).writeNode { pass with stage := .running state }).1 := passes

/-- Some run has handed over a snapshot that is refused. -/
private def Refused (guard : ControllerPass → Label (printContext argv) → Prop) : Prop :=
  ∃ pass, Reached guard pass ∧ ¬ Passes (printContext argv) pass

/-- What both streams of an attempt take. -/
private def printedBytes (output : String) : Nat := quotedBytes output + quotedBytes output

/-- The results of so many attempts. -/
private def printedResults (output : String) (count : Nat) : List VerificationAttemptResult :=
  (List.range count).map fun index => attemptResult (index + 1) 5 (printedEnding output)

/-- A pass that goes on after some attempts of the command. -/
private structure Going (guard : ControllerPass → Label (printContext argv) → Prop) (output : String) (pass : ControllerPass)
    (state : VerificationState) (count : Nat) : Prop where
  reached : Reached guard pass
  inv : Inv (printContext argv) pass
  staged : pass.stage = .running state
  results : pass.results = []
  attempts : pass.attempts = printedResults output count
  short : state.attempts.length = count
  records : count * printedBytes output ≤ itemsBytes state.attempts

omit [Numerals Rat] in
private theorem le_fieldBytes (key : String) (bytes : Nat) : bytes ≤ fieldBytes key bytes := by
  rw [fieldBytes]
  omega

omit [Numerals Rat] in
private theorem le_bracketBytes (before last : Nat) : last ≤ bracketBytes (before + last) := by
  rw [bracketBytes]
  omega

omit [Numerals Rat] in
/-- Two members in a row, with others before and behind. -/
private theorem two_le_bracketBytes (a o e b c d f g : Nat) : o + e ≤ bracketBytes (a + o + e + b + c + d + f + g) := by
  rw [bracketBytes]
  omega

private theorem streams_record (printable : Printable output) (identity : AttemptIdentity (printContext argv).checks.dateParses)
    (status : String) (completedAt number : Nat) :
    printedBytes output ≤ recordBytes identity status completedAt (resultBytes (attemptResult number 5 (printedEnding output))) := by
  have result : printedBytes output ≤ resultBytes (attemptResult number 5 (printedEnding output)) := by
    simp only [resultBytes, attemptResult, printedEnding, printable.bounded]
    exact Nat.le_trans (Nat.add_le_add (le_fieldBytes "stdout" _) (le_fieldBytes "stderr" _))
      (two_le_bracketBytes _ _ _ _ _ _ _ _)
  exact result.trans ((le_fieldBytes "result" _).trans (le_bracketBytes _ _))

omit [Numerals Rat] in
private theorem counted_printed (output : String) (count : Nat) :
    (VerificationContext.countedAttempts (printedResults output count)).length = count := by
  rw [printedResults, VerificationContext.countedAttempts, List.filter_eq_self.mpr, List.length_map, List.length_range]
  intro attempt member
  obtain ⟨index, _, rfl⟩ := List.mem_map.mp member
  rfl

/-- The pass after one more attempt. -/
private def attempted (pass : ControllerPass) (state : VerificationState) (number : Nat)
    (run : AttemptRun (printContext argv).checks.dateParses) : ControllerPass :=
  { ((printContext argv).runCommand pass state number run).1 with
    attempts := pass.attempts ++ [VerificationContext.marked (printCommand argv) pass.attempts
      ((printContext argv).runCommand pass state number run).2] }

private theorem going_step {pass : ControllerPass} {state : VerificationState} {count : Nat}
    (going : Going guard output pass state count) (more : count < 3) {run : AttemptRun (printContext argv).checks.dateParses}
    (fresh : state.attempts.any (isInvocation run.invocationId) = false) :
    (printContext argv).machine.step pass (.attempt run) = some (attempted pass state (count + 1) run) := by
  have counted := counted_printed output count
  rw [← going.attempts] at counted
  have allowed : VerificationContext.attemptAllowed (printCommand argv) pass.attempts = true := by
    rw [VerificationContext.attemptAllowed, counted]
    exact decide_eq_true more
  have command : (printContext argv).commands[pass.results.length]? = some (printCommand argv) := by
    rw [going.results]
    rfl
  simp only [VerificationContext.machine, VerificationContext.step, going.staged, command]
  rw [if_pos (by rw [allowed, fresh]; rfl), counted]
  rfl

private theorem going_attempt (printable : Printable output) {pass : ControllerPass} {state : VerificationState} {count : Nat}
    (going : Going guard output pass state count) (more : count < 3)
    (allowed : guard pass (.attempt (nextRun argv output count)))
    (fresh : state.attempts.any (isInvocation (invocation count)) = false) :
    Refused guard ∨ ∃ next, Going guard output next (recordedState (printContext argv) pass state.attempts
      (ended ((printContext argv).identityOf (nextRun argv output count) 0 (count + 1) ⟨some 4242, none, some 4242⟩)
        (nextRun argv output count) (printedEnding output))) (count + 1) := by
  have all : window state.attempts = state.attempts := by
    rw [window, going.short, Nat.sub_eq_zero_of_le (by omega), List.drop_zero]
  have taken : (printContext argv).step pass (.attempt (nextRun argv output count)) = some
      (attempted pass state (count + 1) (nextRun argv output count)) := going_step going more fresh
  have later := going.reached.step allowed taken
  obtain ⟨sound, _⟩ := step_spec going.inv taken
  by_cases passes : Passes (printContext argv) ((printContext argv).runCommand pass state (count + 1) (nextRun argv output count)).1
  · right
    obtain ⟨before, _, _, results, ran⟩ :=
      runCommand_passed going.inv going.staged fresh (Nat.succ_pos count) rfl passes
    rw [all, going.results] at ran
    have staged : (attempted pass state (count + 1) (nextRun argv output count)).stage =
        .running (recordedState (printContext argv) pass state.attempts
          (ended ((printContext argv).identityOf (nextRun argv output count) 0 (count + 1) ⟨some 4242, none, some 4242⟩)
            (nextRun argv output count) (printedEnding output))) := by
      rw [attempted, ran, recordedState, going.results]
      rw [going.results] at results
      simp only [recorded, VerificationContext.writeNode, recordedState, results]
      rfl
    refine ⟨_, later, ?_, staged, ?_, ?_, ?_, ?_⟩
    · rcases sound with ⟨settled, beyond⟩ | inv
      · have same := staged.symm.trans beyond
        cases same
      · exact inv
    · rw [attempted, ran]
      exact results.trans going.results
    · rw [attempted, ran, going.attempts, printedResults, printedResults, List.range_succ, List.map_append]
      rfl
    · rw [recordedState, List.length_append, going.short]
      rfl
    · have size := streams_record printable ((printContext argv).identityOf (nextRun argv output count) 0 (count + 1)
        ⟨some 4242, none, some 4242⟩) "closed" (quotedBytes "2026-10-04T10:05:02.000Z") (count + 1)
      have records := going.records
      have record : jsonBytes (ended ((printContext argv).identityOf (nextRun argv output count) 0 (count + 1)
          ⟨some 4242, none, some 4242⟩) (nextRun argv output count) (printedEnding output)) = recordBytes
            ((printContext argv).identityOf (nextRun argv output count) 0 (count + 1) ⟨some 4242, none, some 4242⟩) "closed"
            (quotedBytes "2026-10-04T10:05:02.000Z") (resultBytes (attemptResult (count + 1) 5 (printedEnding output))) :=
        jsonBytes_ended _ _ _
      rw [recordedState, itemsBytes_append, itemsBytes, itemsBytes, record, Nat.succ_mul]
      omega
  · exact .inl ⟨_, later, passes⟩

/-- The node when the record of its verification is open. -/
private def openedNode : ControllerPass :=
  { ControllerPass.ready finishedNode with stage := .running (VerificationContext.openedState .undefined) }

private theorem going_begin {guard : ControllerPass → Label (printContext argv) → Prop} (output : String)
    (allowed : guard (.ready finishedNode) .begin)
    (accepted : validateNodeSnapshot (printContext argv).checks finishedNode = .ok ()) :
    Refused guard ∨ ∃ next, Going guard output next (VerificationContext.openedState .undefined) 0 := by
  have taken : (printContext argv).step (.ready finishedNode) .begin =
      some ((printContext argv).openPass (.ready finishedNode) (VerificationContext.openedState .undefined)) := rfl
  obtain ⟨inv, _⟩ := opened_inv (⟨finishedNode, accepted, rfl⟩ : Opened (printContext argv) (.ready finishedNode))
  obtain ⟨sound, _⟩ := step_spec inv taken
  have later : Reached guard ((printContext argv).openPass (.ready finishedNode) (VerificationContext.openedState .undefined)) :=
    Reached.step (.start rfl) allowed taken
  cases refused : ((printContext argv).writeNode openedNode).2 with
  | some refusal =>
    refine .inl ⟨_, later, fun passes => ?_⟩
    have written := ((passes_writeNode_iff (printContext argv) openedNode).mp (openPass_passes passes)).2
    rw [(writeNode_refused_iff (printContext argv) openedNode).mpr written] at refused
    cases refused
  | none =>
    have staged : ((printContext argv).openPass (.ready finishedNode) (VerificationContext.openedState .undefined)).stage =
        .running (VerificationContext.openedState .undefined) := by
      rw [openedNode] at refused
      simp [VerificationContext.openPass, refused]
    refine .inr ⟨_, later, ?_, staged, rfl, rfl, rfl, ?_⟩
    · rcases sound with ⟨state, beyond⟩ | inv
      · rw [staged] at beyond
        cases beyond
      · exact inv
    · rw [Nat.zero_mul]
      exact Nat.zero_le _

/-- The result of the command when its attempts are over. -/
private def printedResult (argv : List String) (output : String) : VerificationCommandResult :=
  { printCommand argv with cwd := some "/work", passed := true, attempts := printedResults output 3 }

private theorem closed_step {pass : ControllerPass} {state : VerificationState} (going : Going guard output pass state 3) :
    (printContext argv).step pass (.close "/work" false) =
      some { pass with results := [printedResult argv output], attempts := [] } := by
  simp only [VerificationContext.step, going.staged, going.attempts, going.results]
  rfl

/-- Three attempts, each allowed, end in a pass that may return. -/
private theorem going_returned (printable : Printable output)
    (accepted : validateNodeSnapshot (printContext argv).checks finishedNode = .ok ())
    (begins : guard (.ready finishedNode) .begin)
    (attempts : ∀ {pass state count}, Going guard output pass state count → count < 3 →
      guard pass (.attempt (nextRun argv output count)))
    (closes : ∀ {pass state}, Going guard output pass state 3 → guard pass (.close "/work" false)) :
    Refused guard ∨ ∃ pass state, Reached guard pass ∧ Inv (printContext argv) pass ∧ pass.stage = .running state ∧
      pass.results = [printedResult argv output] ∧ pass.attempts = [] ∧
      3 * printedBytes output ≤ itemsBytes state.attempts := by
  rcases going_begin output begins accepted with refused | ⟨_, opened⟩
  · exact .inl refused
  rcases going_attempt printable opened (by decide) (attempts opened (by decide)) rfl with refused | ⟨_, first⟩
  · exact .inl refused
  rcases going_attempt printable first (by decide) (attempts first (by decide)) rfl with refused | ⟨_, second⟩
  · exact .inl refused
  rcases going_attempt printable second (by decide) (attempts second (by decide)) rfl with refused | ⟨last, third⟩
  · exact .inl refused
  have closed := closed_step third
  obtain ⟨sound, _⟩ := step_spec third.inv closed
  refine .inr ⟨_, _, third.reached.step (closes third) closed, ?_, third.staged, rfl, rfl, third.records⟩
  rcases sound with ⟨_, beyond⟩ | inv
  · cases third.staged.symm.trans beyond
  · exact inv

omit [Numerals Rat] in
private theorem more_le_bracketBytes (a o e b c d f g h i j : Nat) :
    o + e ≤ bracketBytes (a + o + e + b + c + d + f + g + h + i + j) := by
  rw [bracketBytes]
  omega

private theorem streams_attempt (printable : Printable output) (number : Nat) :
    printedBytes output ≤ attemptBytes (attemptResult number 5 (printedEnding output)) := by
  simp only [attemptBytes, attemptResult, printedEnding, printable.tail]
  exact Nat.le_trans (Nat.add_le_add (le_fieldBytes "stdout" _) (le_fieldBytes "stderr" _))
    (more_le_bracketBytes _ _ _ _ _ _ _ _ _ _ _)

private theorem streams_command (printable : Printable output) :
    printedBytes output + (printedBytes output + printedBytes output) ≤ commandBytes (printedResult argv output) := by
  have attempts : printedBytes output + (printedBytes output + printedBytes output) ≤
      (((printedResults output 3).take VerificationLimits.stateAttempts).map fun attempt => attemptBytes attempt + 1).sum := by
    simp only [printedResults, List.range, List.range.loop, List.map_cons, List.map_nil, VerificationLimits.stateAttempts,
      List.take_succ_cons, List.take_nil, List.sum_cons, List.sum_nil]
    refine Nat.add_le_add (Nat.le_succ_of_le (streams_attempt printable 1)) ?_
    exact Nat.add_le_add (Nat.le_succ_of_le (streams_attempt printable 2)) (Nat.le_succ_of_le (streams_attempt printable 3))
  have bracket : ∀ members, members ≤ bracketBytes members := by
    intro members
    rw [bracketBytes]
    omega
  exact attempts.trans ((bracket _).trans ((le_fieldBytes "attempts" _).trans (le_bracketBytes _ _)))

private theorem keptBytes_single (command : VerificationCommandResult)
    (argv : totalBytes command.argv ≤ VerificationLimits.stateArgvBytes)
    (env : totalBytes command.env ≤ VerificationLimits.stateEnvBytes) :
    keptBytes 0 0 0 [command] = commandBytes command + 1 := by
  have first : ¬ VerificationLimits.stateCommands ≤ 0 := by decide
  simp only [keptBytes, Nat.zero_add, first, false_or]
  rw [if_neg (by omega), Nat.add_zero]

private theorem returned_step {pass : ControllerPass} {state : VerificationState} (staged : pass.stage = .running state)
    (results : pass.results = [printedResult argv output]) (attempts : pass.attempts = []) :
    (printContext argv).step pass (.returned []) =
      some ((printContext argv).settle pass (VerificationContext.returnedState state pass.results) []) := by
  simp only [VerificationContext.step, staged]
  rw [if_pos (by rw [results, attempts]; exact ⟨rfl, rfl⟩)]

/-- With three attempts of long outputs the record of the result has no room. -/
private theorem printed_refused (printable : Printable output) (long : 21846 ≤ printedBytes output)
    (argv : List String) (short : totalBytes argv ≤ VerificationLimits.stateArgvBytes)
    (accepted : validateNodeSnapshot (printContext argv).checks finishedNode = .ok ()) :
    Refused (Machine.free : ControllerPass → Label (printContext argv) → Prop) := by
  have ran := @going_returned _ argv output Machine.free printable accepted trivial (fun _ _ => trivial) fun _ => trivial
  rcases ran with refused | opened
  · exact refused
  obtain ⟨pass, state, reached, inv, staged, results, attempts, records⟩ := opened
  have settled := returned_step staged results attempts
  refine ⟨_, reached.step trivial settled, fun passes => ?_⟩
  obtain ⟨_, room⟩ := (step_spec inv settled).2.mp passes
  simp only [VerificationContext.room, staged] at room
  obtain ⟨_, room⟩ := room
  have command := @streams_command _ argv output printable
  rw [results, keptBytes_single (printedResult argv output) short (Nat.zero_le _)] at room
  simp only [snapshotBytes, verificationBytes, bracketBytes, fieldBytes, snapshotMaxBytes] at room
  omega

end Prints

section Node

local instance : Numerals Rat := wholeNumerals

private theorem finishedNode_small : serializedBytes finishedNode.toJson ≤ 16 * 1024 := by
  have first : fieldsBytes (finishedNode.fields.take 5) ≤ 1024 := by decide
  have hash : fieldsBytes ((finishedNode.fields.drop 5).take 1) ≤ 1024 := by decide
  have others : fieldsBytes ((finishedNode.fields.drop 5).drop 1) ≤ 1024 := by decide
  have whole : fieldsBytes finishedNode.fields = fieldsBytes (finishedNode.fields.take 5) +
      (fieldsBytes ((finishedNode.fields.drop 5).take 1) + fieldsBytes ((finishedNode.fields.drop 5).drop 1)) := by
    rw [← fieldsBytes_append, List.take_append_drop, ← fieldsBytes_append, List.take_append_drop]
  have artifacts : artifactsBytes finishedNode.verificationArtifacts = 0 := rfl
  rw [serializedBytes_unverified _ rfl, whole, artifacts, bracketBytes]
  omega

private theorem finishedNode_valid (argv : List String) :
    validateNodeSnapshot (printContext argv).checks finishedNode = .ok () :=
  validateNodeSnapshot_iff.mpr ⟨rfl, rfl, rfl, Nat.le_trans finishedNode_small (by decide)⟩

/-- `echo ok; echo ok >&2`. -/
def quietArgv : List String := ["sh", "-c", "echo ok; echo ok >&2"]

def quietLimits : OutputLimits := ⟨1024, 1024, 1024, 1024, 1024⟩

/-- A run is named and numbered in as many bytes as the first. -/
private theorem named_bytes {count : Nat} (few : count < 3) :
    quotedBytes (invocation count) = quotedBytes (invocation 0) ∧
      numeralBytes ((count + 1 : Nat) : Rat) = numeralBytes ((0 + 1 : Nat) : Rat) := by
  match count, few with
  | 0, _ => exact ⟨rfl, rfl⟩
  | 1, _ => decide
  | 2, _ => decide

private theorem quiet_bytes :
    attemptBytes { attemptResult 1 5 (printedEnding "ok\n") with signalDeath := true } ≤ 1024 ∧
      recordBytes ((printContext quietArgv).identityOf (nextRun quietArgv "ok\n" 0) 0 1 ⟨some 4242, none, some 4242⟩) "closed"
        (quotedBytes "2026-10-04T10:05:02.000Z") (resultBytes (attemptResult 1 5 (printedEnding "ok\n"))) ≤ 1024 ∧
      fieldBytes "progress" (progressBytes ((printContext quietArgv).progressFor 0)) ≤ 1024 ∧
      commandBytes { printCommand quietArgv with cwd := some "/work", passed := false, attempts := [] } ≤ 1024 := by
  decide

private theorem quiet_attempt {count : Nat} (few : count < 3) :
    attemptBytes { attemptResult (count + 1) 5 (printedEnding "ok\n") with signalDeath := true } ≤ 1024 := by
  have first := quiet_bytes.1
  have numbered := (named_bytes few).2
  simp only [attemptBytes, attemptResult] at first ⊢
  rw [numbered]
  exact first

private theorem quiet_record {count : Nat} (few : count < 3) :
    recordBytes ((printContext quietArgv).identityOf (nextRun quietArgv "ok\n" count) 0 (count + 1)
      ⟨some 4242, none, some 4242⟩) "closed" (quotedBytes "2026-10-04T10:05:02.000Z")
      (resultBytes (attemptResult (count + 1) 5 (printedEnding "ok\n"))) ≤ 1024 := by
  have first := quiet_bytes.2.1
  obtain ⟨named, numbered⟩ := named_bytes few
  simp only [recordBytes, VerificationContext.identityOf, nextRun, printedRun] at first ⊢
  rw [named, numbered]
  exact first

private theorem quiet_opens : quietLimits.Opens (printContext quietArgv) finishedNode :=
  ⟨finishedNode_valid quietArgv, finishedNode_small, nofun, by decide⟩

/-- The run of the three attempts to the end of the pass. -/
private theorem quiet_returned : ∃ pass state,
    (printContext quietArgv).machine.Reach (quietLimits.Keeps (printContext quietArgv))
      (fun pass => pass = .ready finishedNode) pass ∧ pass.stage = .settled state ∧ state.passed = true := by
  have printable : Printable "ok\n" := .of_fits (by decide)
  obtain ⟨_, _, progress, command⟩ := quiet_bytes
  have ran := @going_returned _ quietArgv "ok\n" (quietLimits.Keeps (printContext quietArgv)) printable
    (finishedNode_valid quietArgv) trivial
    (by
      intro pass state count going more
      simp only [OutputLimits.Keeps, going.results, going.attempts, counted_printed]
      exact ⟨quiet_attempt more, progress, fun _ => quiet_record more⟩)
    (by
      intro pass state going
      simp only [OutputLimits.Keeps, going.results]
      rintro _ ⟨⟩
      exact command)
  rcases ran with ⟨pass, reached, refused⟩ | ⟨pass, state, reached, inv, staged, results, attempts, _⟩
  · exact absurd (reach_within quiet_opens reached).1 refused
  · have settled := returned_step staged results attempts
    have keeps : quietLimits.Keeps (printContext quietArgv) pass (.returned []) := by
      rintro before -
      have none : fieldBytes "verificationArtifacts" (textsBytes []) ≤ 1024 := by decide
      exact ⟨nofun, none⟩
    refine ⟨_, _, reached.step keeps settled, rfl, ?_⟩
    rw [results]
    rfl

/-- The theorem at a run of three attempts that print a word. -/
theorem executeControllerVerification_writes_quiet : ∃ pass state,
    (printContext quietArgv).machine.Reach (quietLimits.Keeps (printContext quietArgv))
      (fun pass => pass = .ready finishedNode) pass ∧ pass.stage = .settled state ∧ state.passed = true ∧
      ∀ snapshot ∈ pass.handed, validateNodeSnapshot (printContext quietArgv).checks snapshot = .ok () := by
  obtain ⟨pass, state, reached, settled, passed⟩ := quiet_returned
  exact ⟨pass, state, reached, settled, passed,
    executeControllerVerification_writes quietLimits (printContext quietArgv) finishedNode quiet_opens pass reached⟩

end Node

/-- `head -c 2048 /dev/zero; head -c 2048 /dev/zero >&2`. -/
def zeroArgv : List String := ["sh", "-c", "head -c 2048 /dev/zero; head -c 2048 /dev/zero >&2"]

/-- Some bytes of zeroes. -/
@[irreducible] def zeroes (count : Nat) : String := String.ofList (List.replicate count '\x00')

private theorem zeroes_printable : Printable (zeroes 2048) ∧ 21846 ≤ printedBytes (zeroes 2048) := by
  have chars : (zeroes 2048).toList = List.replicate 2048 '\x00' := by rw [zeroes, String.toList_ofList]
  have one : '\x00'.utf8Size = 1 := by decide
  have escape : escapeBytes '\x00' = 6 := by decide
  refine ⟨.of_fits ?_, ?_⟩
  · rw [chars, charBytes_replicate, one]
  · rw [printedBytes, quotedBytes, chars, List.map_replicate, List.sum_replicate_nat, escape]
    decide

private theorem printCommand_runnable {argv : List String} (allowed : argvAllowed argv = true)
    (short : totalBytes argv ≤ VerificationLimits.maxArgvBytes) :
    runnableCommands (printContext argv).commands = .ok (printContext argv).commands := by
  have read (label : String) : readArgv label (some (.ofStrings argv)) = .ok argv := by
    simp only [readArgv, Option.bind_some, JsonValue.strings?_ofStrings, check, allowed, decide_eq_true short, if_true, bind,
      Except.bind, pure, Except.pure]
  have normal : ∀ command ∈ [printCommand argv], Normal command := by
    intro command member label
    rw [List.mem_singleton.mp member, validateVerificationCommand_toJson, printCommand]
    simp only [read, bind, Except.bind]
    rfl
  have few : ((printContext argv).commands.map (·.toJson)).length ≤ VerificationLimits.maxCommands := by
    rw [List.length_map]
    exact (by decide : 1 ≤ VerificationLimits.maxCommands)
  simp only [runnableCommands, validateVerificationCommands, if_pos few]
  exact validateEach_normal normal 0

/-- One command of three attempts, each printing two kilobytes of zeroes on both streams: a snapshot it hands over is
refused. -/
theorem executeControllerVerification_overflows :
    ∃ _ : Numerals Rat, runnableCommands (printContext zeroArgv).commands = .ok (printContext zeroArgv).commands ∧
      validateNodeSnapshot (printContext zeroArgv).checks finishedNode = .ok () ∧
      serializedBytes finishedNode.toJson ≤ 16 * 1024 ∧
      ∃ pass, (printContext zeroArgv).machine.Reach Machine.free (fun pass => pass = .ready finishedNode) pass ∧
        ¬ ∀ snapshot ∈ pass.handed, validateNodeSnapshot (printContext zeroArgv).checks snapshot = .ok () := by
  refine ⟨wholeNumerals, printCommand_runnable (by decide) (by decide), finishedNode_valid zeroArgv, finishedNode_small, ?_⟩
  let _ := wholeNumerals
  exact printed_refused zeroes_printable.1 zeroes_printable.2 zeroArgv (by decide) (finishedNode_valid zeroArgv)

end Faberun.Verify
