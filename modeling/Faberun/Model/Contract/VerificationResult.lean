import Faberun.Model.Util
import Faberun.Model.Contract.Verification

/-! # Verification results and checkpoints

What a verification pass answers, the bounded form `compactVerification` persists, and the checkpoint records of
`contract/verification.mjs`. A checkpoint's identity is the record the source hashes: equal hashes are equal records.
-/

namespace Faberun

/-- The refusal of a write outside the worktree, as the controller names it. -/
structure SandboxBlockedWrite where
  mode : String
  path : String
  deriving DecidableEq

/-- What one attempt of a command left; `signalDeath` marks an attempt that was run again. -/
structure VerificationAttemptResult where
  attempt : Nat
  stdout : String
  stderr : String
  durationMs : Rat
  exitCode : Option Int
  signal : Option String
  timedOut : Bool
  error : Option String
  passed : Bool
  sandboxBlockedWrite : Option SandboxBlockedWrite
  signalDeath : Bool
  deriving DecidableEq

/-- A command with its attempts. -/
structure VerificationCommandResult extends VerificationCommand where
  passed : Bool
  attempts : List VerificationAttemptResult
  deriving DecidableEq

structure VerificationResult where
  passed : Bool
  commands : List VerificationCommandResult
  deriving DecidableEq

/-! ## The persisted form -/

def compactAttempt (attempt : VerificationAttemptResult) : VerificationAttemptResult :=
  { attempt with
    stdout := tailText attempt.stdout VerificationLimits.stateStdoutBytes
    stderr := tailText attempt.stderr VerificationLimits.stateStdoutBytes }

/-- A command of the persisted form: neither its mutation tier nor its requirement is kept. -/
def compactCommand (command : VerificationCommandResult) : VerificationCommandResult :=
  { command with
    mutation := none
    requirementId := none
    attempts := (command.attempts.take VerificationLimits.stateAttempts).map compactAttempt }

/-- The loop of `compactVerification`: how many commands it holds and what their argv and env take. -/
def compactCommands (count argvBytes envBytes : Nat) : List VerificationCommandResult → List VerificationCommandResult
  | [] => []
  | command :: rest =>
      if VerificationLimits.stateCommands ≤ count then []
      else
        let nextArgvBytes := argvBytes + totalBytes command.argv
        let nextEnvBytes := envBytes + totalBytes command.env
        if VerificationLimits.stateArgvBytes < nextArgvBytes ∨ VerificationLimits.stateEnvBytes < nextEnvBytes then []
        else compactCommand command :: compactCommands (count + 1) nextArgvBytes nextEnvBytes rest

def compactVerification (result : VerificationResult) : VerificationResult :=
  ⟨result.passed, compactCommands 0 0 0 result.commands⟩

/-! ## Checkpoints -/

/-- What `commandCheckpointIdentity` hashes. -/
structure CheckpointIdentity where
  dependencyHash : String
  command : VerificationCommand
  env : List (String × String)
  headTree : Option String
  treeFingerprint : Option String
  deriving DecidableEq

/-- The file `checkpoint-<ordinal>.json`. -/
structure CheckpointRecord where
  identity : CheckpointIdentity
  result : VerificationResult
  deriving DecidableEq

structure CommandCheckpoint where
  identity : CheckpointIdentity
  result : VerificationCommandResult
  deriving DecidableEq

/-- `parseCommandCheckpoint`, of a record the engine wrote. -/
def parseCommandCheckpoint (record : CheckpointRecord) : Except Refusal CommandCheckpoint :=
  match record.result.commands with
  | [_] =>
      match (compactVerification record.result).commands with
      | [command] => .ok ⟨record.identity, command⟩
      | _ => .error ⟨none, "command checkpoint.result exceeds the persisted command bounds"⟩
  | _ => .error ⟨none, "command checkpoint.result must carry exactly one command"⟩

/-! ## A record of one command -/

/-- Whether the argv and env of a command fit the persisted bounds. -/
def fitsState (command : VerificationCommand) : Bool :=
  decide (totalBytes command.argv ≤ VerificationLimits.stateArgvBytes) &&
    decide (totalBytes command.env ≤ VerificationLimits.stateEnvBytes)

@[simp] theorem compactCommand_passed (command : VerificationCommandResult) :
    (compactCommand command).passed = command.passed := rfl

theorem compactCommands_single (command : VerificationCommandResult) :
    compactCommands 0 0 0 [command] =
      if fitsState command.toVerificationCommand then [compactCommand command] else [] := by
  have room : ¬ VerificationLimits.stateCommands ≤ 0 := by decide
  simp only [compactCommands, if_neg room, Nat.zero_add, fitsState, Bool.and_eq_true, decide_eq_true_eq]
  by_cases fits : totalBytes command.argv ≤ VerificationLimits.stateArgvBytes ∧
      totalBytes command.env ≤ VerificationLimits.stateEnvBytes
  · rw [if_neg (by omega), if_pos fits]
  · rw [if_pos (by omega), if_neg fits]

end Faberun
