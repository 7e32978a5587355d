import Faberun.Model.Json
import Faberun.Model.Contract.Graph

/-! # Verification commands

`validateVerificationCommands` of `contract/verification.mjs`: what a contract may declare and what
`runVerification` of `engine/run-command.mjs` accepts, with the list `executeControllerVerification` and
`verifyCandidateWorkspace` of `engine/verify.mjs` hand to it. The paths are those of a POSIX host.
-/

namespace Faberun

namespace VerificationLimits

def maxCommands : Nat := 32
def maxRepeat : Nat := 8
def maxTimeoutSec : Nat := 1800
def maxArgvBytes : Nat := 32 * 1024
def maxEnvBytes : Nat := 8 * 1024
def stateStdoutBytes : Nat := 2 * 1024
def stateCommands : Nat := 16
def stateAttempts : Nat := 4
def stateArgvBytes : Nat := 8 * 1024
def stateEnvBytes : Nat := 4 * 1024

end VerificationLimits

inductive MutationTier where
  | high
  | medium
  | low
  deriving DecidableEq, Repr

def MutationTier.name : MutationTier → String
  | high => "high"
  | medium => "medium"
  | low => "low"

/-- `MUTATION_TIERS`. -/
def MutationTier.all : List MutationTier := [high, medium, low]

/-- A normalized command; `repeatCount` is its `repeat`. -/
structure VerificationCommand where
  argv : List String
  timeoutSec : Rat
  repeatCount : Nat
  env : List String
  cwd : Option String
  mutation : Option MutationTier
  requirementId : Option String
  deriving DecidableEq

namespace VerificationCommand

def toJson (command : VerificationCommand) : JsonValue :=
  .object ([("argv", .ofStrings command.argv), ("timeoutSec", .number (.finite command.timeoutSec)),
      ("repeat", .number (.finite command.repeatCount)), ("env", .ofStrings command.env)] ++
    JsonValue.optional "cwd" (command.cwd.map .string) ++
    JsonValue.optional "mutation" (command.mutation.map fun tier => .object [("tier", .string tier.name)]) ++
    JsonValue.optional "requirementId" (command.requirementId.map .string))

end VerificationCommand

/-! ## The fields of a command -/

/-- The fields a command may have. -/
def commandFields : List String := ["argv", "cwd", "timeoutSec", "repeat", "env", "mutation", "requirementId"]

def argvAllowed (argv : List String) : Bool :=
  !argv.isEmpty && decide (argv.length ≤ 64) && argv.all fun item => !isBlank item && decide (byteLength item ≤ 8 * 1024)

def readArgv (label : String) (value : Option JsonValue) : Except Refusal (List String) := do
  match value.bind JsonValue.strings? with
  | some argv =>
      check (argvAllowed argv) s!"{label}.argv must be a non-empty array of strings"
      check (decide (totalBytes argv ≤ VerificationLimits.maxArgvBytes)) s!"{label}.argv exceeds aggregate byte limit"
      return argv
  | none => .error ⟨none, s!"{label}.argv must be a non-empty array of strings"⟩

/-- A path a command may run in: relative, and without a `..` segment. -/
def cwdAllowed (cwd : String) : Bool :=
  let segments := cwd.toList.splitOnP fun c => c == '/' || c == '\\'
  let drive := match cwd.toList with
    | letter :: ':' :: separator :: _ => letter.isAlpha && (separator == '/' || separator == '\\')
    | _ => false
  cwd.toList.head? != some '/' && !drive && !segments.contains ['.', '.']

/-- `validateRelativeCwd`, of a field that may be absent. -/
def readCwd (label : String) : Option JsonValue → Except Refusal (Option String)
  | none => .ok none
  | some (.string cwd) =>
      if cwdAllowed cwd then .ok (some cwd)
      else .error ⟨some "verification_cwd_invalid", s!"{label}.cwd must be a relative path without .."⟩
  | some _ => .error ⟨some "verification_cwd_invalid", s!"{label}.cwd must be a relative path without .."⟩

def timeoutAllowed (timeoutSec : Rat) : Bool :=
  decide (0 < timeoutSec) && decide (timeoutSec ≤ (VerificationLimits.maxTimeoutSec : Rat))

def readTimeoutSec (label : String) (value : Option JsonValue) : Except Refusal Rat :=
  match value with
  | none => .ok 120
  | some (.number (.finite timeoutSec)) =>
      if timeoutAllowed timeoutSec then .ok timeoutSec
      else .error ⟨none, s!"{label}.timeoutSec must be between 0 and {VerificationLimits.maxTimeoutSec}"⟩
  | some _ => .error ⟨none, s!"{label}.timeoutSec must be between 0 and {VerificationLimits.maxTimeoutSec}"⟩

def repeatAllowed (repeatCount : Nat) : Bool :=
  decide (0 < repeatCount) && decide (repeatCount ≤ VerificationLimits.maxRepeat)

def readRepeat (label : String) (value : Option JsonValue) : Except Refusal Nat :=
  match value with
  | none => .ok 1
  | some (.number (.finite amount)) =>
      if amount.den = 1 ∧ 0 < amount.num ∧ repeatAllowed amount.num.toNat = true then .ok amount.num.toNat
      else .error ⟨none, s!"{label}.repeat must be between 1 and {VerificationLimits.maxRepeat}"⟩
  | some _ => .error ⟨none, s!"{label}.repeat must be between 1 and {VerificationLimits.maxRepeat}"⟩

/-- The name of an environment variable. -/
def envNameAllowed (name : String) : Bool :=
  match name.toList with
  | [] => false
  | first :: rest =>
      (first.isAlpha || first == '_') && rest.all fun c => c.isAlphanum || c == '_'

def readEnv (label : String) (value : Option JsonValue) : Except Refusal (List String) :=
  match value with
  | none | some .null => .ok []
  | some value => do
      match JsonValue.strings? value with
      | some env =>
          check (env.all envNameAllowed) s!"{label}.env must be an array of environment-variable names"
          check (decide (totalBytes env ≤ VerificationLimits.maxEnvBytes)) s!"{label}.env exceeds aggregate byte limit"
          return env
      | none => .error ⟨none, s!"{label}.env must be an array of environment-variable names"⟩

def readMutation (label : String) (value : Option JsonValue) : Except Refusal (Option MutationTier) :=
  match value with
  | none => .ok none
  | some (.object fields) =>
      match fields.find? fun field => field.1 != "tier" with
      | some field => .error ⟨none, s!"{label}.mutation has unexpected field {field.1}"⟩
      | none =>
          let tiers := ", ".intercalate (MutationTier.all.map (·.name))
          match MutationTier.all.find? fun tier =>
              ((JsonValue.field? fields "tier").bind JsonValue.string?) == some tier.name with
          | some tier => .ok (some tier)
          | none => .error ⟨none, s!"{label}.mutation.tier must be one of {tiers}"⟩
  | some _ => .error ⟨none, s!"{label}.mutation must be an object with a declared risk tier"⟩

def requirementIdAllowed (id : String) : Bool := !isBlank id && decide (byteLength id ≤ 128)

def readRequirementId (label : String) (value : Option JsonValue) : Except Refusal (Option String) :=
  match value with
  | none => .ok none
  | some (.string id) =>
      if requirementIdAllowed id then .ok (some id)
      else .error ⟨none, s!"{label}.requirementId must be a requirement id of at most 128 bytes"⟩
  | some _ => .error ⟨none, s!"{label}.requirementId must be a requirement id of at most 128 bytes"⟩

def validateVerificationCommand (command : JsonValue) (label : String) : Except Refusal VerificationCommand :=
  match command with
  | .object record => do
      match record.find? fun field => !commandFields.contains field.1 with
      | some field => throw ⟨none, s!"{label} has unexpected field {field.1}"⟩
      | none => pure ()
      let argv ← readArgv label (JsonValue.field? record "argv")
      let cwd ← readCwd label (JsonValue.field? record "cwd")
      let timeoutSec ← readTimeoutSec label (JsonValue.field? record "timeoutSec")
      let repeatCount ← readRepeat label (JsonValue.field? record "repeat")
      let env ← readEnv label (JsonValue.field? record "env")
      let mutation ← readMutation label (JsonValue.field? record "mutation")
      let requirementId ← readRequirementId label (JsonValue.field? record "requirementId")
      return { argv, timeoutSec, repeatCount, env, cwd, mutation, requirementId }
  | _ => .error ⟨none, s!"{label} must be an argv command object"⟩

/-- The commands of a list, each under its own label. -/
def validateEach (label : String) : Nat → List JsonValue → Except Refusal (List VerificationCommand)
  | _, [] => .ok []
  | index, command :: rest => do
      let first ← validateVerificationCommand command s!"{label}[{index}]"
      let others ← validateEach label (index + 1) rest
      return first :: others

def validateVerificationCommands (commands : JsonValue) (label : String) : Except Refusal (List VerificationCommand) :=
  match commands with
  | .array items =>
      if items.length ≤ VerificationLimits.maxCommands then validateEach label 0 items
      else
        .error ⟨none, s!"{label} must be an array of at most {VerificationLimits.maxCommands} command objects"⟩
  | _ => .error ⟨none, s!"{label} must be an array of at most {VerificationLimits.maxCommands} command objects"⟩

/-! ## Running them -/

/-- A contract whose three kinds of lists each validated. -/
structure DeclaredVerification (ν : Type) where
  contract : Contract ν VerificationCommand
  packets : ∀ node ∈ contract.nodes, ∃ raw, ∃ index : Nat,
    validateVerificationCommands raw s!"nodes[{index}].taskPacket.verification" = .ok node.verification
  shared : ∀ commands ∈ contract.sharedVerification, ∃ raw,
    validateVerificationCommands raw "contract.sharedVerification" = .ok commands
  final : ∀ commands ∈ contract.finalVerification, ∃ raw,
    validateVerificationCommands raw "contract.finalVerification" = .ok commands

/-- The validation `runVerification` opens with: the commands are the objects validated before. -/
def runnableCommands (commands : List VerificationCommand) : Except Refusal (List VerificationCommand) :=
  validateVerificationCommands (.array (commands.map (·.toJson))) "verification"

/-- What `executeControllerVerification` records of a pass whose commands answer `execute`. -/
def controllerVerification (commands : List VerificationCommand) (execute : List VerificationCommand → Bool) :
    Bool × Option String :=
  match runnableCommands commands with
  | .ok validated => (execute validated, none)
  | .error refusal => (false, some refusal.message)

end Faberun
