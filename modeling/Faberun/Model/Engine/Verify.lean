import Faberun.Model.Contract.Snapshot
import Faberun.Model.Engine.RunCommand
import Faberun.Machine.Core

/-! # What a verification pass writes

`executeControllerVerification` of `engine/verify.mjs` with the callbacks of `runCommand`: every snapshot the pass
hands to `writeNode`, and what a refused one does to the command under way. A label is one attempt of a command, a
command that ends or is served, or the end of the pass; a record keeps what it wrote although the write was refused.
-/

namespace Faberun.Verify

open Journal (get)
open JsonText (setField)
open Snapshot

/-! ## Results as they are written -/

def ofStrings (values : List String) : JsValue Rat := .array (values.map .string)

def orNull (value : Option (JsValue Rat)) : JsValue Rat := value.getD .null

def orUndefined (value : Option (JsValue Rat)) : JsValue Rat := value.getD .undefined

/-- A flag that is written only when it is set. -/
def mark (flag : Bool) : JsValue Rat := if flag then .bool true else .undefined

def blockedWriteJson (write : SandboxBlockedWrite) : JsValue Rat :=
  .object [("classification", .string "sandbox_blocked_write"), ("mode", .string write.mode),
    ("path", .string write.path)]

def attemptJson (result : VerificationAttemptResult) : JsValue Rat :=
  .object [("attempt", .number result.attempt), ("stdout", .string result.stdout), ("stderr", .string result.stderr),
    ("durationMs", .number result.durationMs), ("exitCode", orNull (result.exitCode.map fun code : Int => .number code)),
    ("signal", orNull (result.signal.map .string)), ("timedOut", .bool result.timedOut),
    ("error", orNull (result.error.map .string)), ("passed", .bool result.passed),
    ("sandboxBlockedWrite", orUndefined (result.sandboxBlockedWrite.map blockedWriteJson)),
    ("signalDeath", mark result.signalDeath)]

/-- A command of a compacted result. -/
def commandJson (command : VerificationCommandResult) : JsValue Rat :=
  .object [("argv", ofStrings command.argv), ("cwd", orUndefined (command.cwd.map .string)),
    ("timeoutSec", .number command.timeoutSec), ("repeat", .number command.repeatCount),
    ("env", ofStrings command.env), ("passed", .bool command.passed),
    ("attempts", .array (command.attempts.map attemptJson))]

def boundedVerificationAttemptResult (result : VerificationAttemptResult) : JsValue Rat :=
  .object [("passed", .bool result.passed), ("stdout", .string (boundedUtf8 result.stdout (2 * 1024))),
    ("stderr", .string (boundedUtf8 result.stderr (2 * 1024))),
    ("error", orNull ((result.error.filter (· != "")).map fun error => .string (boundedUtf8 error (2 * 1024)))),
    ("exitCode", orNull (result.exitCode.map fun code : Int => .number code)),
    ("signal", orNull (result.signal.map .string)), ("timedOut", .bool result.timedOut),
    ("durationMs", .number result.durationMs)]

structure VerificationProgress where
  index : Nat
  total : Nat
  argv : String

def verificationProgress (index total : Nat) (argv : List String) : VerificationProgress :=
  ⟨index, total, boundedUtf8 (" ".intercalate argv) 120⟩

def VerificationProgress.toJson (progress : VerificationProgress) : JsValue Rat :=
  .object [("index", .number progress.index), ("total", .number progress.total), ("argv", .string progress.argv)]

/-- `state.verification` during a pass and after it. -/
structure VerificationState where
  passed : Bool
  commands : List VerificationCommandResult
  completed : Bool
  attempts : List (JsValue Rat)
  error : Option String
  progress : Option VerificationProgress

def VerificationState.toJson (state : VerificationState) : JsValue Rat :=
  .object [("passed", .bool state.passed), ("commands", .array (state.commands.map commandJson)),
    ("completed", .bool state.completed), ("attempts", .array state.attempts),
    ("error", orUndefined (state.error.map .string)),
    ("progress", orUndefined (state.progress.map (·.toJson)))]

/-! ## The records of the attempts -/

/-- A time as `toISOString` prints it. -/
structure Timestamp (dateParses : String → Bool) where
  text : String
  parses : (!isBlank text && dateParses text) = true

/-- The start token of a process. -/
structure StartToken where
  text : String
  named : isBlank text = false

structure SpawnedProcess where
  pid : Option Nat
  processStartToken : Option StartToken
  processGroupId : Option Nat

/-- What `runCommand` names an attempt by. -/
structure AttemptIdentity (dateParses : String → Bool) where
  invocationId : String
  named : isBlank invocationId = false
  commandIndex : Nat
  attempt : Nat
  process : SpawnedProcess
  startedAt : Timestamp dateParses
  deadlineAt : Timestamp dateParses

def numberOrNull (value : Option Nat) : JsValue Rat := orNull (value.map fun value : Nat => .number value)

/-- `{ ...identity, status }`. -/
def AttemptIdentity.record {dateParses : String → Bool} (identity : AttemptIdentity dateParses) (status : String) :
    JsonFields :=
  [("invocationId", .string identity.invocationId), ("commandIndex", .number identity.commandIndex),
    ("attempt", .number identity.attempt), ("pid", numberOrNull identity.process.pid),
    ("processStartToken", orNull (identity.process.processStartToken.map fun token => .string token.text)),
    ("processGroupId", numberOrNull identity.process.processGroupId), ("startedAt", .string identity.startedAt.text),
    ("deadlineAt", .string identity.deadlineAt.text), ("status", .string status)]

/-- `{ ...first, ...second }`. -/
def spread (first second : JsonFields) : JsonFields := second.foldl setField first

def propertiesOf : JsValue Rat → JsonFields
  | .object fields => fields
  | _ => []

def string? : JsValue Rat → Option String
  | .string value => some value
  | _ => none

/-- The paths of a recorded list. -/
def pathsOf : JsValue Rat → List String
  | .array paths => paths.filterMap string?
  | _ => []

/-- Whether a record is the one of an invocation. -/
def isInvocation (invocationId : String) (item : JsValue Rat) : Bool :=
  string? (get (propertiesOf item) "invocationId") == some invocationId

/-- Write an update over the record of its invocation, if there is one. -/
def mergeAttempt (invocationId : String) (update : JsonFields) : List (JsValue Rat) → Option (List (JsValue Rat))
  | [] => none
  | item :: rest =>
      if isInvocation invocationId item then some (.object (spread (propertiesOf item) update) :: rest)
      else (mergeAttempt invocationId update rest).map (item :: ·)

/-- `value ?? null`. -/
def presentOrNull (value : JsValue Rat) : JsValue Rat := if value.isUndefined then .null else value

/-- A record as it is first written. -/
def openedRecord (update : JsonFields) : JsValue Rat :=
  .object (spread update
    [("completedAt", presentOrNull (get update "completedAt")), ("result", presentOrNull (get update "result"))])

/-- `attempts.slice(-16)`. -/
def lastRecords (attempts : List (JsValue Rat)) : List (JsValue Rat) := attempts.drop (attempts.length - 16)

def persistedAttempts (invocationId : String) (update : JsonFields) (attempts : List (JsValue Rat)) :
    List (JsValue Rat) :=
  lastRecords ((mergeAttempt invocationId update attempts).getD (attempts ++ [openedRecord update]))

/-! ## The pass -/

/-- What a pass is given: the commands it runs, the packet's writes, and what was untracked when it began. -/
structure VerificationContext where
  checks : SnapshotChecks
  commands : List VerificationCommand
  writeFiles : List String
  writeRoots : List String
  untrackedBefore : Option (List String)

inductive Stage where
  | ready (verification : JsValue Rat)
  | running (verification : VerificationState)
  | settled (verification : VerificationState)

def Stage.verification : Stage → JsValue Rat
  | .ready verification => verification
  | .running verification => verification.toJson
  | .settled verification => verification.toJson

/-- A pass: the snapshot in memory, the results so far, the attempts of the command under way, and every snapshot
handed to `writeNode`. -/
structure ControllerPass where
  fields : JsonFields
  stage : Stage
  artifacts : JsValue Rat
  results : List VerificationCommandResult
  attempts : List VerificationAttemptResult
  handed : List Snapshot.NodeSnapshot

namespace ControllerPass

def snapshot (pass : ControllerPass) : Snapshot.NodeSnapshot := ⟨pass.fields, pass.stage.verification, pass.artifacts⟩

/-- A pass before its first write. -/
def ready (snapshot : Snapshot.NodeSnapshot) : ControllerPass :=
  ⟨snapshot.fields, .ready snapshot.verification, snapshot.verificationArtifacts, [], [], []⟩

end ControllerPass

/-- How an attempt ended, as its child process or the controller has it. -/
structure AttemptEnding where
  stdout : String
  stderr : String
  exitCode : Option Int
  signal : Option String
  timedOut : Bool
  error : Option String
  sandboxBlockedWrite : Option SandboxBlockedWrite

/-- An attempt that threw before its child was listened to. -/
def AttemptEnding.failed (message : String) : AttemptEnding := ⟨"", "", none, none, false, some message, none⟩

/-- What one call of `runCommand` met: no directory to run in, a `spawn` that threw, or a child. -/
inductive AttemptOutcome where
  | unresolved (message : String)
  | unspawned (message : String)
  | spawned (process : SpawnedProcess) (ending : AttemptEnding)

structure AttemptRun (dateParses : String → Bool) where
  invocationId : String
  named : isBlank invocationId = false
  startedAt : Timestamp dateParses
  deadlineAt : Timestamp dateParses
  completedAt : Timestamp dateParses
  durationMs : Rat
  outcome : AttemptOutcome

def attemptResult (number : Nat) (durationMs : Rat) (ending : AttemptEnding) : VerificationAttemptResult :=
  let passed := ending.error.isNone && !ending.timedOut && ending.exitCode == some 0 && ending.signal.isNone
  { attempt := number, stdout := ending.stdout, stderr := ending.stderr, durationMs, exitCode := ending.exitCode,
    signal := ending.signal, timedOut := ending.timedOut, error := ending.error, passed,
    sandboxBlockedWrite := if passed then none else ending.sandboxBlockedWrite, signalDeath := false }

inductive Label (context : VerificationContext) where
  | begin
  | attempt (run : AttemptRun context.checks.dateParses)
  | serve (result : VerificationCommandResult)
  | close (cwd : String) (mutantsKilled : Bool)
  | returned (untrackedAfter : List String)
  | threw (message : String) (untrackedAfter : List String)

namespace VerificationContext

variable (context : VerificationContext)

/-- Whether a path is declared: as a file, as a root, or below one. -/
def declaredWrite (path : String) : Bool :=
  let roots := context.writeRoots.map fun root => root.toList.rdropWhile (· == '/')
  context.writeFiles.contains path ||
    roots.any fun root => path.toList == root || (root ++ ['/']).isPrefixOf path.toList

/-- `verificationArtifacts`: what the pass left untracked outside the declared writes. -/
def verificationArtifacts (before : List String) (recorded : JsValue Rat) (after : List String) : List String :=
  let previous := pathsOf recorded
  ((after.filter fun path => !before.contains path || previous.contains path).filter
    fun path => !context.declaredWrite path).take maxScopeFindingPaths

/-- `state.verificationArtifacts` after a pass. -/
def leftArtifacts (recorded : JsValue Rat) (after : List String) : JsValue Rat :=
  match context.untrackedBefore with
  | none => recorded
  | some before =>
      match context.verificationArtifacts before recorded after with
      | [] => .undefined
      | paths => ofStrings paths

/-- `progressFor`. -/
def progressFor (commandIndex : Nat) : VerificationProgress :=
  verificationProgress (commandIndex + 1) context.commands.length ((context.commands[commandIndex]?.map (·.argv)).getD [])

/-- The attempts that were not run again. -/
def countedAttempts (attempts : List VerificationAttemptResult) : List VerificationAttemptResult :=
  attempts.filter fun attempt => !attempt.signalDeath

variable [Numerals Rat]

/-- `writeNode`: the snapshot is handed over, and refused when it does not validate. -/
def writeNode (pass : ControllerPass) : ControllerPass × Option Refusal :=
  ({ pass with handed := pass.handed ++ [pass.snapshot] },
    match validateNodeSnapshot context.checks pass.snapshot with
    | .ok _ => none
    | .error refusal => some refusal)

/-- `persistVerificationAttempt`. -/
def persistVerificationAttempt (pass : ControllerPass) (state : VerificationState) (invocationId : String)
    (update : JsonFields) (progress : Option VerificationProgress) : VerificationState × ControllerPass × Option Refusal :=
  let next := { state with
    attempts := persistedAttempts invocationId update state.attempts
    progress := progress <|> state.progress }
  (next, context.writeNode { pass with stage := .running next })

/-- `finish`: the completion is persisted, and a refusal of it is swallowed. -/
def finish (pass : ControllerPass) (state : VerificationState) (identity : AttemptIdentity context.checks.dateParses)
    (run : AttemptRun context.checks.dateParses) (ending : AttemptEnding) : ControllerPass × VerificationAttemptResult :=
  let result := attemptResult identity.attempt run.durationMs ending
  let update := identity.record (if result.passed then "closed" else "failed") ++
    [("completedAt", .string run.completedAt.text), ("result", boundedVerificationAttemptResult result)]
  ((context.persistVerificationAttempt pass state identity.invocationId update none).2.1, result)

/-- What an attempt is named by before its child runs. -/
def identityOf (run : AttemptRun context.checks.dateParses) (commandIndex number : Nat) (process : SpawnedProcess) :
    AttemptIdentity context.checks.dateParses :=
  ⟨run.invocationId, run.named, commandIndex, number, process, run.startedAt, run.deadlineAt⟩

def unspawnedProcess : SpawnedProcess := ⟨none, none, none⟩

/-- Write an attempt under way; a record that is refused ends it as failed. -/
def persistActive (pass : ControllerPass) (state : VerificationState) (run : AttemptRun context.checks.dateParses)
    (identity : AttemptIdentity context.checks.dateParses)
    (go : ControllerPass → VerificationState → ControllerPass × VerificationAttemptResult) :
    ControllerPass × VerificationAttemptResult :=
  match context.persistVerificationAttempt pass state run.invocationId (identity.record "active")
      (some (context.progressFor pass.results.length)) with
  | (next, written, some refusal) => context.finish written next identity run (.failed refusal.message)
  | (next, written, none) => go written next

/-- `runCommand` with its callbacks. -/
def runCommand (pass : ControllerPass) (state : VerificationState) (number : Nat)
    (run : AttemptRun context.checks.dateParses) : ControllerPass × VerificationAttemptResult :=
  let started := context.identityOf run pass.results.length number unspawnedProcess
  match run.outcome with
  | .unresolved message => (pass, attemptResult number run.durationMs (.failed message))
  | .unspawned message =>
      context.persistActive pass state run started fun pass state =>
        context.finish pass state started run (.failed message)
  | .spawned process ending =>
      let spawned := context.identityOf run pass.results.length number process
      context.persistActive pass state run started fun pass state =>
        context.persistActive pass state run spawned fun pass state => context.finish pass state spawned run ending

/-- The record a pass opens with: the attempts of an interrupted one are kept. -/
def openedState (verification : JsValue Rat) : VerificationState where
  passed := false
  commands := []
  completed := false
  attempts := match get (propertiesOf verification) "attempts" with
    | .array attempts => attempts
    | _ => []
  error := none
  progress := none

/-- `state.verification?.completed === true`: there is nothing to run. -/
def alreadyCompleted (verification : JsValue Rat) : Bool :=
  match get (propertiesOf verification) "completed" with
  | .bool completed => completed
  | _ => false

/-- The first write of a pass, which throws when it is refused. -/
def openPass (pass : ControllerPass) (state : VerificationState) : ControllerPass :=
  let (written, refusal) := context.writeNode { pass with stage := .running state }
  { written with stage := if refusal.isSome then .settled state else .running state }

/-- The last write of a pass. -/
def settle (pass : ControllerPass) (state : VerificationState) (untrackedAfter : List String) : ControllerPass :=
  (context.writeNode
    { pass with stage := .settled state, artifacts := context.leftArtifacts pass.artifacts untrackedAfter }).1

/-- The record of a pass whose commands all ran. -/
def returnedState (state : VerificationState) (results : List VerificationCommandResult) : VerificationState :=
  let compacted := compactVerification ⟨results.all (·.passed), results⟩
  ⟨compacted.passed, compacted.commands, true, state.attempts, none, none⟩

/-- The record of a pass that threw. -/
def thrownState (state : VerificationState) (message : String) : VerificationState :=
  ⟨false, state.commands, true, state.attempts, some (boundedUtf8 message (4 * 1024)), none⟩

/-- Whether the command under way may run once more: a mutation entry as often as its runner asks. -/
def attemptAllowed (command : VerificationCommand) (attempts : List VerificationAttemptResult) : Bool :=
  command.mutation.isSome || decide ((countedAttempts attempts).length < command.repeatCount)

/-- The verdict of a command whose attempts are complete. -/
def verdict? (command : VerificationCommand) (attempts : List VerificationAttemptResult) (mutantsKilled : Bool) :
    Option Bool :=
  if command.mutation.isSome then some mutantsKilled
  else if (countedAttempts attempts).length = command.repeatCount then some ((countedAttempts attempts).all (·.passed))
  else none

/-- An attempt that died of a signal is marked and run again, once. -/
def marked (command : VerificationCommand) (attempts : List VerificationAttemptResult)
    (result : VerificationAttemptResult) : VerificationAttemptResult :=
  let again := (attempts.getLast?.map (·.signalDeath)).getD false
  if VerificationHost.signalDeathRetry result && command.mutation.isNone && !again then { result with signalDeath := true }
  else result

def step (pass : ControllerPass) : Label context → Option ControllerPass
  | .begin =>
      match pass.stage with
      | .ready verification =>
          if alreadyCompleted verification then none else some (context.openPass pass (openedState verification))
      | _ => none
  | .attempt run =>
      match pass.stage, context.commands[pass.results.length]? with
      | .running state, some command =>
          -- `randomUUID` names no two attempts alike
          if attemptAllowed command pass.attempts && !state.attempts.any (isInvocation run.invocationId) then
            let number := (countedAttempts pass.attempts).length + 1
            let (ran, result) := context.runCommand pass state number run
            some { ran with attempts := pass.attempts ++ [marked command pass.attempts result] }
          else none
      | _, _ => none
  | .serve result =>
      match pass.stage, context.commands[pass.results.length]? with
      | .running _, some command =>
          if command.mutation.isNone && pass.attempts.isEmpty then some { pass with results := pass.results ++ [result] }
          else none
      | _, _ => none
  | .close cwd mutantsKilled =>
      match pass.stage, context.commands[pass.results.length]? with
      | .running _, some command =>
          (verdict? command pass.attempts mutantsKilled).map fun passed =>
            { pass with
              results := pass.results ++ [{ command with cwd := some cwd, passed, attempts := pass.attempts }]
              attempts := [] }
      | _, _ => none
  | .returned untrackedAfter =>
      match pass.stage with
      | .running state =>
          if pass.results.length = context.commands.length ∧ pass.attempts.isEmpty then
            some (context.settle pass (returnedState state pass.results) untrackedAfter)
          else none
      | _ => none
  | .threw message untrackedAfter =>
      match pass.stage with
      | .running state => some (context.settle pass (thrownState state message) untrackedAfter)
      | _ => none

/-- The writes of a pass as a machine. -/
def machine : Machine ControllerPass (Label context) where
  step pass label := context.step pass label

end VerificationContext

end Faberun.Verify
