import Mathlib.Data.List.Sort
import Faberun.Machine.CutTail
import Faberun.Model.Contract.VerificationResult
import Faberun.Text.Utf8Encode

/-! # Running a verification list

`runVerification` of `engine/run-command.mjs` over a log directory: the commands run in order on one workspace, and
each completed one leaves a checkpoint that a later pass serves when its identity is unchanged. The workspace is
whatever a command may read or write; what the controller asks of it, and what a command makes of it, is a
`VerificationHost`.
-/

namespace Faberun

/-- The workspace as a pass meets it: the paths below its base directory, its repository, and the commands. -/
structure VerificationHost (ω : Type) where
  /-- `realpathSync` of a path below the base directory. -/
  realpath : ω → String → Option String
  isContained : String → Bool
  isDirectory : ω → String → Bool
  /-- The `dirtyTreeFingerprint` of `gitIdentity`. -/
  dirtyTreeFingerprint : ω → String → Option String
  headTreeId : ω → String → Option String
  readFile : ω → String → Option String
  /-- The controller's own environment. -/
  processEnv : String → Option String
  /-- The packet's `writeFiles`. -/
  writeFiles : List String
  runCommand : VerificationCommand → Nat → ω → ω × VerificationAttemptResult
  runMutation : VerificationCommand → ω → ω × Bool × List VerificationAttemptResult

/-- The two tree hashes a checkpoint identity sits on. -/
structure WorkspaceTreeIdentity where
  dirtyTreeFingerprint : Option String
  headTree : Option String
  deriving DecidableEq

def verificationEnvBaseNames : List String :=
  ["PATH", "HOME", "USER", "LOGNAME", "SHELL", "TMPDIR", "TEMP", "TMP", "SYSTEMROOT", "WINDIR", "COMSPEC", "PATHEXT",
    "LANG", "LC_ALL", "LC_CTYPE", "TERM"]

namespace VerificationHost

variable {ω : Type}

def verificationEnv (host : VerificationHost ω) (command : VerificationCommand) : List (String × String) :=
  (command.env ++ verificationEnvBaseNames).eraseDups.filterMap fun name => (host.processEnv name).map (name, ·)

def resolveVerificationCwd (host : VerificationHost ω) (workspace : ω) (commandCwd : String) :
    Except Refusal String :=
  if !cwdAllowed commandCwd then
    .error ⟨some "verification_cwd_invalid", "verification command.cwd must be a relative path without .."⟩
  else
    match host.realpath workspace commandCwd with
    | none => .error ⟨some "ENOENT", s!"ENOENT: no such file or directory, lstat '{commandCwd}'"⟩
    | some target =>
        if !host.isContained target then
          .error ⟨some "verification_cwd_escape", s!"verification cwd escapes workspace: {commandCwd}"⟩
        else if !host.isDirectory workspace target then
          .error ⟨some "verification_cwd_invalid", s!"verification cwd is not a directory: {commandCwd}"⟩
        else .ok target

/-- `dependencyInputsHash`: the text that is hashed. -/
def dependencyInputsHash (host : VerificationHost ω) (workspace : ω) : String :=
  let paths := host.writeFiles.eraseDups.insertionSort fun left right => !textLess right left
  String.join (paths.map fun path => path ++ "\x00" ++ (host.readFile workspace path).getD "missing" ++ "\x00")

/-! ## One command -/

/-- Whether an attempt died from a signal the controller did not send. -/
def signalDeathRetry (result : VerificationAttemptResult) : Bool := result.signal.isSome && !result.timedOut

/-- The attempts of `runRepeatedCommand`, from one number on. -/
def runAttempts (host : VerificationHost ω) (command : VerificationCommand) :
    Nat → Nat → ω → ω × List VerificationAttemptResult
  | 0, _, workspace => (workspace, [])
  | remaining + 1, attempt, workspace =>
      let (after, result) := host.runCommand command attempt workspace
      if signalDeathRetry result then
        let (again, second) := host.runCommand command attempt after
        let (final, rest) := host.runAttempts command remaining (attempt + 1) again
        (final, { result with signalDeath := true } :: second :: rest)
      else
        let (final, rest) := host.runAttempts command remaining (attempt + 1) after
        (final, result :: rest)

/-- The attempts of a command and its verdict. -/
def runEntry (host : VerificationHost ω) (command : VerificationCommand) (workspace : ω) :
    ω × Bool × List VerificationAttemptResult :=
  match command.mutation with
  | some _ => host.runMutation command workspace
  | none =>
      let (after, attempts) := host.runAttempts command command.repeatCount 1 workspace
      (after, (attempts.filter fun item => !item.signalDeath).all (·.passed), attempts)

/-- `runRepeatedCommand` and `runMutationCommand`: the working directory is resolved once more at the end. -/
def runRepeatedCommand (host : VerificationHost ω) (command : VerificationCommand) (workspace : ω) :
    Except Refusal (ω × VerificationCommandResult) := do
  let (after, passed, attempts) := host.runEntry command workspace
  let cwd ← host.resolveVerificationCwd after (command.cwd.getD ".")
  return (after, { command with cwd := some cwd, passed, attempts })

end VerificationHost

/-! ## A pass -/

/-- A pass between two commands: the workspace, the checkpoint files by ordinal, the caches and the results. -/
structure VerificationPass (ω : Type) where
  workspace : ω
  log : Nat → Option CheckpointRecord
  trees : String → Option WorkspaceTreeIdentity
  dependencyHash : Option String
  results : List VerificationCommandResult

namespace VerificationHost

variable {ω : Type}

/-- A pass before its first command. -/
def opened (workspace : ω) (log : Nat → Option CheckpointRecord) : VerificationPass ω :=
  ⟨workspace, log, fun _ => none, none, []⟩

/-- The tree of a working directory, asked once a pass. -/
def treeIdentity (host : VerificationHost ω) (pass : VerificationPass ω) (cwd : String) : WorkspaceTreeIdentity :=
  (pass.trees cwd).getD ⟨host.dirtyTreeFingerprint pass.workspace cwd, host.headTreeId pass.workspace cwd⟩

/-- The dependency inputs, read once a pass. -/
def dependencyInputs (host : VerificationHost ω) (pass : VerificationPass ω) : String :=
  pass.dependencyHash.getD (host.dependencyInputsHash pass.workspace)

/-- The identity of a command's proof from what the caches hold. -/
def commandIdentity (host : VerificationHost ω) (pass : VerificationPass ω) (command : VerificationCommand)
    (cwd : String) : CheckpointIdentity where
  dependencyHash := host.dependencyInputs pass
  command := command
  env := host.verificationEnv command
  headTree := (host.treeIdentity pass cwd).headTree
  treeFingerprint := (host.treeIdentity pass cwd).dirtyTreeFingerprint

/-- `checkpointIdentity`: the caches filled, and the identity. -/
def checkpointIdentity (host : VerificationHost ω) (command : VerificationCommand) (pass : VerificationPass ω) :
    Except Refusal (VerificationPass ω × CheckpointIdentity) := do
  let cwd ← host.resolveVerificationCwd pass.workspace (command.cwd.getD ".")
  let trees := fun other => if other = cwd then some (host.treeIdentity pass cwd) else pass.trees other
  return ({ pass with trees, dependencyHash := some (host.dependencyInputs pass) },
    host.commandIdentity pass command cwd)

/-- The recorded result of an ordinal, when its identity is unchanged and the tree had a fingerprint. -/
def servedCheckpoint (log : Nat → Option CheckpointRecord) (ordinal : Nat) (identity : CheckpointIdentity) :
    Option VerificationCommandResult := do
  let record ← log ordinal
  let parsed ← (parseCommandCheckpoint record).toOption
  if identity.treeFingerprint.isSome ∧ parsed.identity = identity then some parsed.result else none

/-- The result of a command and the checkpoint written for it. -/
def recordResult (pass : VerificationPass ω) (workspace : ω) (result : VerificationCommandResult)
    (identity : Option CheckpointIdentity) : VerificationPass ω :=
  let ordinal := pass.results.length + 1
  let written := identity.map fun identity => CheckpointRecord.mk identity (compactVerification ⟨result.passed, [result]⟩)
  { pass with
    workspace := workspace
    results := pass.results ++ [result]
    log := fun other => if other = ordinal ∧ written.isSome then written else pass.log other }

/-- The identity of a command that is not a mutation entry. -/
def identify (host : VerificationHost ω) (command : VerificationCommand) (pass : VerificationPass ω) :
    Except Refusal (VerificationPass ω × Option CheckpointIdentity) :=
  if command.mutation.isSome then .ok (pass, none)
  else (host.checkpointIdentity command pass).map fun (cached, identity) => (cached, some identity)

/-- What a command is served instead of being run. -/
def reused (pass : VerificationPass ω) (identity : Option CheckpointIdentity) : Option VerificationCommandResult :=
  identity.bind (servedCheckpoint pass.log (pass.results.length + 1))

/-- One turn of the loop of `runVerification`. -/
def runListed (host : VerificationHost ω) (pass : VerificationPass ω) (command : VerificationCommand) :
    Except Refusal (VerificationPass ω) := do
  let (cached, identity) ← host.identify command pass
  match reused cached identity with
  | some result => return recordResult cached cached.workspace result identity
  | none =>
      let (after, result) ← host.runRepeatedCommand command cached.workspace
      return recordResult cached after result identity

/-- A pass over some commands of a validated list, up to the one that throws. -/
def runCommands (host : VerificationHost ω) : List VerificationCommand → VerificationPass ω →
    VerificationPass ω × Option Refusal
  | [], pass => (pass, none)
  | command :: rest, pass =>
      match host.runListed pass command with
      | .ok next => host.runCommands rest next
      | .error refusal => (pass, some refusal)

/-- The pass over a declared list, and what `runVerification` answers or throws. -/
def runVerification (host : VerificationHost ω) (commands : List VerificationCommand) (workspace : ω)
    (log : Nat → Option CheckpointRecord) : VerificationPass ω × Except Refusal VerificationResult :=
  match runnableCommands commands with
  | .error refusal => (opened workspace log, .error refusal)
  | .ok validated =>
      match host.runCommands validated (opened workspace log) with
      | (pass, some refusal) => (pass, .error refusal)
      | (pass, none) => (pass, .ok ⟨pass.results.all (·.passed), pass.results⟩)

/-- The verdicts of the commands that completed, and the one of the pass unless it threw. -/
def verdicts (run : VerificationPass ω × Except Refusal VerificationResult) : List Bool × Option Bool :=
  (run.1.results.map (·.passed), run.2.toOption.map (·.passed))

end VerificationHost

/-! ## Output -/

/-- `(byte & 0xc0) === 0x80`. -/
def isContinuation (byte : UInt8) : Bool := byte &&& 0xC0 == 0x80

/-- The buffer of `boundedTail`, after `add` of each chunk. -/
def boundedTail (maxBytes : Nat) (chunks : List (List UInt8)) : List UInt8 := accumulate isContinuation maxBytes [] chunks

/-- `tailText`, as it cuts the bytes. -/
def tailTextBytes (value : String) (maxBytes : Nat) : String :=
  String.ofList (Utf8.decode (cutTail isContinuation maxBytes (Utf8.encode value.toList)))

end Faberun
