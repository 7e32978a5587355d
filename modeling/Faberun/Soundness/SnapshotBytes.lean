import Faberun.Model.Engine.Verify

/-! # What a pass has to write

The bytes of a snapshot during a verification pass, counted over what the commands printed and how they were named,
and the room a step needs: the records of the last attempts, then those of the commands that are kept.
-/

namespace Faberun.Verify

open Journal (get)
open JsonText
open Snapshot

/-- The fields of a record with its completion and its result. -/
def recordFields {dateParses : String → Bool} (identity : AttemptIdentity dateParses) (status : String)
    (completedAt result : JsValue Rat) : JsonFields :=
  identity.record status ++ [("completedAt", completedAt), ("result", result)]

/-! ## Counting -/

/-- A member of an object: its key, its value, a colon and a comma. -/
def fieldBytes (key : String) (bytes : Nat) : Nat := quotedBytes key + 1 + bytes + 1

def boolBytes (value : Bool) : Nat := if value then 4 else 5

def optionalBytes (key : String) (bytes : Option Nat) : Nat := (bytes.map (fieldBytes key)).getD 0

def markBytes (key : String) (flag : Bool) : Nat := if flag then fieldBytes key 4 else 0

def textBytes (text : Option String) : Nat := (text.map quotedBytes).getD 4

def textsBytes (texts : List String) : Nat := bracketBytes (texts.map fun text => quotedBytes text + 1).sum

section

variable [Numerals Rat]

def numeralBytes (value : Rat) : Nat := charBytes ((Numerals.print value).getD nullText)

def numberBytes (value : Option Rat) : Nat := (value.map numeralBytes).getD 4

def blockedWriteBytes (write : SandboxBlockedWrite) : Nat :=
  bracketBytes (fieldBytes "classification" (quotedBytes "sandbox_blocked_write") +
    fieldBytes "mode" (quotedBytes write.mode) + fieldBytes "path" (quotedBytes write.path))

/-- An attempt among the results of its command: the ends of both streams, and the rest of it whole. -/
def attemptBytes (result : VerificationAttemptResult) : Nat :=
  bracketBytes (fieldBytes "attempt" (numeralBytes result.attempt) +
    fieldBytes "stdout" (quotedBytes (tailText result.stdout VerificationLimits.stateStdoutBytes)) +
    fieldBytes "stderr" (quotedBytes (tailText result.stderr VerificationLimits.stateStdoutBytes)) +
    fieldBytes "durationMs" (numeralBytes result.durationMs) +
    fieldBytes "exitCode" (numberBytes (result.exitCode.map fun code : Int => (code : Rat))) +
    fieldBytes "signal" (textBytes result.signal) + fieldBytes "timedOut" (boolBytes result.timedOut) +
    fieldBytes "error" (textBytes result.error) + fieldBytes "passed" (boolBytes result.passed) +
    optionalBytes "sandboxBlockedWrite" (result.sandboxBlockedWrite.map blockedWriteBytes) +
    markBytes "signalDeath" result.signalDeath)

/-- A command with its first attempts. -/
def commandBytes (command : VerificationCommandResult) : Nat :=
  bracketBytes (fieldBytes "argv" (textsBytes command.argv) + optionalBytes "cwd" (command.cwd.map quotedBytes) +
    fieldBytes "timeoutSec" (numeralBytes command.timeoutSec) +
    fieldBytes "repeat" (numeralBytes command.repeatCount) + fieldBytes "env" (textsBytes command.env) +
    fieldBytes "passed" (boolBytes command.passed) +
    fieldBytes "attempts" (bracketBytes
      ((command.attempts.take VerificationLimits.stateAttempts).map fun attempt => attemptBytes attempt + 1).sum))

/-- The commands that are kept: so many, while their argv and env fit. -/
def keptBytes (count argvBytes envBytes : Nat) : List VerificationCommandResult → Nat
  | [] => 0
  | command :: rest =>
      let nextArgvBytes := argvBytes + totalBytes command.argv
      let nextEnvBytes := envBytes + totalBytes command.env
      if VerificationLimits.stateCommands ≤ count ∨ VerificationLimits.stateArgvBytes < nextArgvBytes ∨
          VerificationLimits.stateEnvBytes < nextEnvBytes then 0
      else commandBytes command + 1 + keptBytes (count + 1) nextArgvBytes nextEnvBytes rest

/-- The result in the record of an attempt: the beginnings of both streams and of the error. -/
def resultBytes (result : VerificationAttemptResult) : Nat :=
  bracketBytes (fieldBytes "passed" (boolBytes result.passed) +
    fieldBytes "stdout" (quotedBytes (boundedUtf8 result.stdout (2 * 1024))) +
    fieldBytes "stderr" (quotedBytes (boundedUtf8 result.stderr (2 * 1024))) +
    fieldBytes "error" (textBytes ((result.error.filter (· != "")).map fun error => boundedUtf8 error (2 * 1024))) +
    fieldBytes "exitCode" (numberBytes (result.exitCode.map fun code : Int => (code : Rat))) +
    fieldBytes "signal" (textBytes result.signal) + fieldBytes "timedOut" (boolBytes result.timedOut) +
    fieldBytes "durationMs" (numeralBytes result.durationMs))

/-- The record of an attempt whose completion and result take so many bytes. -/
def recordBytes {dateParses : String → Bool} (identity : AttemptIdentity dateParses) (status : String)
    (completedAt result : Nat) : Nat :=
  bracketBytes (fieldBytes "invocationId" (quotedBytes identity.invocationId) +
    fieldBytes "commandIndex" (numeralBytes identity.commandIndex) +
    fieldBytes "attempt" (numeralBytes identity.attempt) +
    fieldBytes "pid" (numberBytes (identity.process.pid.map fun pid : Nat => (pid : Rat))) +
    fieldBytes "processStartToken" (textBytes (identity.process.processStartToken.map (·.text))) +
    fieldBytes "processGroupId" (numberBytes (identity.process.processGroupId.map fun group : Nat => (group : Rat))) +
    fieldBytes "startedAt" (quotedBytes identity.startedAt.text) +
    fieldBytes "deadlineAt" (quotedBytes identity.deadlineAt.text) + fieldBytes "status" (quotedBytes status) +
    fieldBytes "completedAt" completedAt + fieldBytes "result" result)

def progressBytes (progress : VerificationProgress) : Nat :=
  bracketBytes (fieldBytes "index" (numeralBytes progress.index) + fieldBytes "total" (numeralBytes progress.total) +
    fieldBytes "argv" (quotedBytes progress.argv))

/-- A verification record whose commands and attempts take so many bytes, with what else is in it. -/
def verificationBytes (passed completed : Bool) (commands attempts rest : Nat) : Nat :=
  bracketBytes (fieldBytes "passed" (boolBytes passed) + fieldBytes "commands" (bracketBytes commands) +
    fieldBytes "completed" (boolBytes completed) + fieldBytes "attempts" (bracketBytes attempts) + rest)

def artifactsBytes : JsValue Rat → Nat
  | .undefined => 0
  | artifacts => fieldBytes "verificationArtifacts" (jsonBytes artifacts)

/-- A snapshot whose verification record takes so many bytes. -/
def snapshotBytes (fields : JsonFields) (verification : Nat) (artifacts : Nat) : Nat :=
  bracketBytes (fieldsBytes fields + fieldBytes "verification" verification + artifacts)

/-! ## The counts are those of the text -/

private theorem fieldsBytes_single {key : String} {value : JsValue Rat} {rest : JsonFields}
    (defined : value ≠ .undefined) : fieldsBytes ((key, value) :: rest) = fieldBytes key (jsonBytes value) + fieldsBytes rest := by
  rw [fieldsBytes_defined defined, fieldBytes]

@[simp] theorem fieldsBytes_nil : fieldsBytes ([] : JsonFields) = 0 := rfl

@[simp] theorem fieldsBytes_string (key text : String) (rest : JsonFields) :
    fieldsBytes ((key, .string text) :: rest) = fieldBytes key (quotedBytes text) + fieldsBytes rest := by
  rw [fieldsBytes_single (by nofun), jsonBytes]

@[simp] theorem fieldsBytes_number (key : String) (value : Rat) (rest : JsonFields) :
    fieldsBytes ((key, .number value) :: rest) = fieldBytes key (numeralBytes value) + fieldsBytes rest := by
  rw [fieldsBytes_single (by nofun), jsonBytes, numeralBytes]

@[simp] theorem fieldsBytes_bool (key : String) (value : Bool) (rest : JsonFields) :
    fieldsBytes ((key, .bool value) :: rest) = fieldBytes key (boolBytes value) + fieldsBytes rest := by
  rw [fieldsBytes_single (by nofun)]
  cases value <;> rfl

@[simp] theorem fieldsBytes_mark (key : String) (flag : Bool) (rest : JsonFields) :
    fieldsBytes ((key, mark flag) :: rest) = markBytes key flag + fieldsBytes rest := by
  cases flag with
  | false => simp [mark, markBytes, fieldsBytes]
  | true => exact fieldsBytes_bool key true rest

@[simp] theorem fieldsBytes_array (key : String) (items : List (JsValue Rat)) (rest : JsonFields) :
    fieldsBytes ((key, .array items) :: rest) = fieldBytes key (bracketBytes (itemsBytes items)) + fieldsBytes rest := by
  rw [fieldsBytes_single (by nofun), jsonBytes]

@[simp] theorem fieldsBytes_object (key : String) (fields rest : JsonFields) :
    fieldsBytes ((key, .object fields) :: rest) =
      fieldBytes key (bracketBytes (fieldsBytes fields)) + fieldsBytes rest := by
  rw [fieldsBytes_single (by nofun), jsonBytes]

@[simp] theorem fieldsBytes_nullText (key : String) (text : Option String) (rest : JsonFields) :
    fieldsBytes ((key, orNull (text.map .string)) :: rest) = fieldBytes key (textBytes text) + fieldsBytes rest := by
  cases text with
  | none => rw [fieldsBytes_single (by simp [orNull])]; rfl
  | some text => exact fieldsBytes_string key text rest

@[simp] theorem fieldsBytes_nullNumber {α : Type} (key : String) (value : Option α) (number : α → Rat) (rest : JsonFields) :
    fieldsBytes ((key, orNull (value.map fun value => .number (number value))) :: rest) =
      fieldBytes key (numberBytes (value.map fun value => number value)) + fieldsBytes rest := by
  cases value with
  | none => rw [fieldsBytes_single (by simp [orNull])]; rfl
  | some value => exact fieldsBytes_number key (number value) rest

/-- A field that is left out when there is nothing to write. -/
theorem fieldsBytes_optional {α : Type} (key : String) (value : Option α) (json : α → JsValue Rat)
    (bytes : α → Nat) (counted : ∀ value, json value ≠ .undefined ∧ jsonBytes (json value) = bytes value)
    (rest : JsonFields) :
    fieldsBytes ((key, orUndefined (value.map json)) :: rest) =
      optionalBytes key (value.map bytes) + fieldsBytes rest := by
  cases value with
  | none => simp [orUndefined, fieldsBytes, optionalBytes]
  | some value =>
    obtain ⟨defined, size⟩ := counted value
    simp only [orUndefined, Option.map_some, Option.getD_some, optionalBytes]
    rw [fieldsBytes_single defined, size]

theorem itemsBytes_map {α : Type} (items : List α) (json : α → JsValue Rat) (bytes : α → Nat)
    (counted : ∀ item, jsonBytes (json item) = bytes item) :
    itemsBytes (items.map json) = (items.map fun item => bytes item + 1).sum := by
  induction items with
  | nil => rfl
  | cons item rest ih => rw [List.map_cons, itemsBytes, counted, ih, List.map_cons, List.sum_cons]

theorem jsonBytes_ofStrings (texts : List String) : jsonBytes (ofStrings texts) = textsBytes texts := by
  rw [ofStrings, jsonBytes, itemsBytes_map texts _ quotedBytes fun text => by rw [jsonBytes], textsBytes]

@[simp] theorem fieldsBytes_ofStrings (key : String) (texts : List String) (rest : JsonFields) :
    fieldsBytes ((key, ofStrings texts) :: rest) = fieldBytes key (textsBytes texts) + fieldsBytes rest := by
  rw [fieldsBytes_single (by simp [ofStrings]), jsonBytes_ofStrings]

private theorem jsonBytes_blockedWrite (write : SandboxBlockedWrite) :
    blockedWriteJson write ≠ .undefined ∧ jsonBytes (blockedWriteJson write) = blockedWriteBytes write := by
  refine ⟨by simp [blockedWriteJson], ?_⟩
  simp only [blockedWriteJson, jsonBytes, blockedWriteBytes, fieldsBytes_string, fieldsBytes_nil, Nat.add_assoc,
    Nat.add_zero]

theorem jsonBytes_attempt (result : VerificationAttemptResult) :
    jsonBytes (attemptJson (compactAttempt result)) = attemptBytes result := by
  simp only [attemptJson, compactAttempt, jsonBytes, attemptBytes, fieldsBytes_number, fieldsBytes_string,
    fieldsBytes_nullNumber, fieldsBytes_nullText, fieldsBytes_bool, fieldsBytes_mark,
    fieldsBytes_optional _ _ _ _ jsonBytes_blockedWrite, fieldsBytes_nil, Nat.add_assoc, Nat.add_zero]

theorem jsonBytes_command (command : VerificationCommandResult) :
    jsonBytes (commandJson (compactCommand command)) = commandBytes command := by
  have cwd := fieldsBytes_optional "cwd" command.cwd .string quotedBytes fun text => ⟨by nofun, by rw [jsonBytes]⟩
  have attempts := itemsBytes_map (command.attempts.take VerificationLimits.stateAttempts)
    (fun attempt => attemptJson (compactAttempt attempt)) attemptBytes jsonBytes_attempt
  simp only [commandJson, compactCommand, jsonBytes, commandBytes, fieldsBytes_ofStrings, cwd, fieldsBytes_number,
    fieldsBytes_bool, fieldsBytes_array, List.map_map, Function.comp_def, attempts, fieldsBytes_nil, Nat.add_assoc,
    Nat.add_zero]

theorem itemsBytes_compactCommands (results : List VerificationCommandResult) (count argvBytes envBytes : Nat) :
    itemsBytes ((compactCommands count argvBytes envBytes results).map commandJson) =
      keptBytes count argvBytes envBytes results := by
  induction results generalizing count argvBytes envBytes with
  | nil => rfl
  | cons command rest ih =>
    simp only [compactCommands, keptBytes]
    by_cases full : VerificationLimits.stateCommands ≤ count
    · rw [if_pos full, if_pos (.inl full)]
      rfl
    rw [if_neg full]
    by_cases beyond : VerificationLimits.stateArgvBytes < argvBytes + totalBytes command.argv ∨
        VerificationLimits.stateEnvBytes < envBytes + totalBytes command.env
    · rw [if_pos beyond, if_pos (.inr beyond)]
      rfl
    · rw [if_neg beyond, if_neg (by simp only [full, beyond, or_self, not_false_eq_true]), List.map_cons, itemsBytes,
        jsonBytes_command, ih]

omit [Numerals Rat] in
private theorem boundedError_map (error : Option String) :
    orNull ((error.filter (· != "")).map fun error => .string (boundedUtf8 error (2 * 1024)) : Option (JsValue Rat)) =
      orNull (((error.filter (· != "")).map fun error => boundedUtf8 error (2 * 1024)).map .string) := by
  rw [Option.map_map]
  rfl

theorem jsonBytes_boundedResult (result : VerificationAttemptResult) :
    jsonBytes (boundedVerificationAttemptResult result) = resultBytes result := by
  simp only [boundedVerificationAttemptResult, jsonBytes, resultBytes, boundedError_map, fieldsBytes_bool,
    fieldsBytes_string, fieldsBytes_nullText, fieldsBytes_nullNumber, fieldsBytes_number, fieldsBytes_nil, Nat.add_assoc,
    Nat.add_zero]

theorem jsonBytes_record {dateParses : String → Bool} (identity : AttemptIdentity dateParses) (status : String)
    (completedAt result : JsValue Rat) (completed : completedAt ≠ .undefined) (answered : result ≠ .undefined) :
    jsonBytes (.object (recordFields identity status completedAt result)) =
      recordBytes identity status (jsonBytes completedAt) (jsonBytes result) := by
  have token (rest : JsonFields) :
      fieldsBytes (("processStartToken",
        orNull (identity.process.processStartToken.map fun token => .string token.text)) :: rest) =
      fieldBytes "processStartToken" (textBytes (identity.process.processStartToken.map (·.text))) + fieldsBytes rest := by
    have texts := fieldsBytes_nullText "processStartToken" (identity.process.processStartToken.map (·.text)) rest
    rw [Option.map_map] at texts
    exact texts
  simp only [recordFields, AttemptIdentity.record, List.cons_append, List.nil_append, jsonBytes, recordBytes,
    numberOrNull, token, fieldsBytes_string, fieldsBytes_nullNumber, fieldsBytes_number,
    fieldsBytes_single completed, fieldsBytes_single answered, fieldsBytes_nil, Nat.add_assoc, Nat.add_zero]

theorem jsonBytes_progress (progress : VerificationProgress) :
    progress.toJson ≠ .undefined ∧ jsonBytes progress.toJson = progressBytes progress := by
  refine ⟨by simp [VerificationProgress.toJson], ?_⟩
  simp only [VerificationProgress.toJson, jsonBytes, progressBytes, fieldsBytes_number, fieldsBytes_string,
    fieldsBytes_nil, Nat.add_assoc, Nat.add_zero]

/-- What is in a verification record beside its commands and attempts. -/
def restBytes (error : Option String) (progress : Option VerificationProgress) : Nat :=
  optionalBytes "error" (error.map quotedBytes) + optionalBytes "progress" (progress.map progressBytes)

theorem jsonBytes_state (state : VerificationState) :
    jsonBytes state.toJson =
      verificationBytes state.passed state.completed (itemsBytes (state.commands.map commandJson))
        (itemsBytes state.attempts) (restBytes state.error state.progress) := by
  have error := fieldsBytes_optional "error" state.error .string quotedBytes fun text => ⟨by nofun, by rw [jsonBytes]⟩
  have progress := fieldsBytes_optional "progress" state.progress (·.toJson) progressBytes jsonBytes_progress
  simp only [VerificationState.toJson, jsonBytes, verificationBytes, restBytes, error, progress, fieldsBytes_bool,
    fieldsBytes_array, fieldsBytes_nil, Nat.add_assoc, Nat.add_zero]

private theorem fieldsBytes_artifacts (artifacts : JsValue Rat) :
    fieldsBytes [("verificationArtifacts", artifacts)] = artifactsBytes artifacts := by
  cases artifacts with
  | undefined => rfl
  | _ => rw [fieldsBytes_single (by nofun), artifactsBytes, fieldsBytes_nil, Nat.add_zero]; nofun

/-- The size of a snapshot whose verification record is there. -/
theorem serializedBytes_snapshot (snapshot : Snapshot.NodeSnapshot) (present : snapshot.verification ≠ .undefined) :
    serializedBytes snapshot.toJson =
      snapshotBytes snapshot.fields (jsonBytes snapshot.verification) (artifactsBytes snapshot.verificationArtifacts) := by
  rw [serializedBytes, charBytes_render, Snapshot.NodeSnapshot.toJson, jsonBytes, fieldsBytes_append,
    fieldsBytes_single present, fieldsBytes_artifacts, snapshotBytes, Nat.add_assoc]

/-- The size of a snapshot without one. -/
theorem serializedBytes_unverified (snapshot : Snapshot.NodeSnapshot) (absent : snapshot.verification = .undefined) :
    serializedBytes snapshot.toJson =
      bracketBytes (fieldsBytes snapshot.fields + artifactsBytes snapshot.verificationArtifacts) := by
  rw [serializedBytes, charBytes_render, Snapshot.NodeSnapshot.toJson, jsonBytes, fieldsBytes_append, absent, fieldsBytes,
    fieldsBytes_artifacts]

/-! ## Room -/

/-- The records that stay beside a new one. -/
def window (attempts : List (JsValue Rat)) : List (JsValue Rat) := attempts.drop (attempts.length - 15)

namespace VerificationContext

variable (context : VerificationContext)

/-- Room for a record of the attempt under way, beside the last fifteen. -/
def roomForRecord (pass : ControllerPass) (state : VerificationState) (record : Nat) : Prop :=
  snapshotBytes pass.fields
    (verificationBytes false false 0 (itemsBytes (window state.attempts) + (record + 1))
      (restBytes none (some (context.progressFor pass.results.length))))
    (artifactsBytes pass.artifacts) ≤ snapshotMaxBytes

/-- Room for an attempt that ends: its identity and its bounded result. -/
def roomForEnding (pass : ControllerPass) (state : VerificationState) (identity : AttemptIdentity context.checks.dateParses)
    (run : AttemptRun context.checks.dateParses) (ending : AttemptEnding) : Prop :=
  let result := attemptResult identity.attempt run.durationMs ending
  context.roomForRecord pass state
    (recordBytes identity (if result.passed then "closed" else "failed") (quotedBytes run.completedAt.text)
      (resultBytes result))

/-- Room for the writes of an attempt: its start, the process it spawned, and its end. -/
def roomForAttempt (pass : ControllerPass) (state : VerificationState) (number : Nat)
    (run : AttemptRun context.checks.dateParses) : Prop :=
  let started := context.identityOf run pass.results.length number unspawnedProcess
  match run.outcome with
  | .unresolved _ => True
  | .unspawned message =>
      context.roomForRecord pass state (recordBytes started "active" 4 4) ∧
        context.roomForEnding pass state started run (.failed message)
  | .spawned process ending =>
      let spawned := context.identityOf run pass.results.length number process
      context.roomForRecord pass state (recordBytes started "active" 4 4) ∧
        context.roomForRecord pass state (recordBytes spawned "active" 4 4) ∧
        context.roomForEnding pass state spawned run ending

/-- Room for the last record of a pass, with the paths it left: none of them over 1024 bytes. -/
def roomForSettlement (pass : ControllerPass) (verification : Nat) (untrackedAfter : List String) : Prop :=
  match context.untrackedBefore with
  | none => snapshotBytes pass.fields verification (artifactsBytes pass.artifacts) ≤ snapshotMaxBytes
  | some before =>
      let paths := context.verificationArtifacts before pass.artifacts untrackedAfter
      (∀ path ∈ paths, charBytes path.toList ≤ 1024) ∧
        snapshotBytes pass.fields verification
          (if paths = [] then 0 else fieldBytes "verificationArtifacts" (textsBytes paths)) ≤ snapshotMaxBytes

/-- Room for what a step writes. -/
def room (pass : ControllerPass) (label : Label context) : Prop :=
  match pass.stage, label with
  | .ready verification, .begin =>
      snapshotBytes pass.fields
        (verificationBytes false false 0 (itemsBytes (openedState verification).attempts) (restBytes none none))
        (artifactsBytes pass.artifacts) ≤ snapshotMaxBytes
  | .running state, .attempt run =>
      context.roomForAttempt pass state ((countedAttempts pass.attempts).length + 1) run
  | .running state, .returned untrackedAfter =>
      context.roomForSettlement pass
        (verificationBytes (pass.results.all (·.passed)) true (keptBytes 0 0 0 pass.results)
          (itemsBytes state.attempts) (restBytes none none)) untrackedAfter
  | .running state, .threw message untrackedAfter =>
      context.roomForSettlement pass
        (verificationBytes false true 0 (itemsBytes state.attempts) (restBytes (some (boundedUtf8 message (4 * 1024))) none))
        untrackedAfter
  | _, _ => True

end VerificationContext

end

end Faberun.Verify
