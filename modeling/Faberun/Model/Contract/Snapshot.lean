import Faberun.Model.Campaign.Journal
import Faberun.Text.JsonSize

/-! # Node snapshots

`validateNodeSnapshot` of `contract/snapshot.mjs` with `validateVerificationSnapshot` of
`contract/final-verification.mjs`: what the controller reads back of a node, and what it refuses to write. The
verification record and the paths a verification left are checked here; the checks of the other fields, which read
nothing else, are one parameter.
-/

namespace Faberun.Snapshot

open Journal (get isText requireText requireTimestamp nullOr)
open JsonText (render)

/-- The properties of an object whose numbers are doubles. -/
abbrev JsonFields := List (String × JsValue Rat)

/-! ## Numbers and bounded texts -/

/-- `Number.isInteger(value)`. -/
def isInteger : JsValue Rat → Bool
  | .number value => value.den == 1
  | _ => false

def isNonNegativeInteger : JsValue Rat → Bool
  | .number value => value.den == 1 && decide (0 ≤ value)
  | _ => false

def isPositiveInteger : JsValue Rat → Bool
  | .number value => value.den == 1 && decide (0 < value)
  | _ => false

/-- A string of at most so many bytes. -/
def isBoundedText (maxBytes : Nat) : JsValue Rat → Bool
  | .string value => decide (charBytes value.toList ≤ maxBytes)
  | _ => false

def isBool : JsValue Rat → Bool
  | .bool _ => true
  | _ => false

/-! ## The verification record -/

/-- The fields a record of an attempt may have. -/
def attemptFields : List String :=
  ["invocationId", "commandIndex", "attempt", "pid", "processStartToken", "processGroupId", "startedAt", "deadlineAt",
    "status", "completedAt", "result"]

def attemptStatusNames : List String := ["active", "closed", "failed", "crashed", "canceled"]

/-- A status an attempt may have. -/
def isAttemptStatus : JsValue Rat → Bool
  | .string status => attemptStatusNames.contains status
  | _ => false

def validateAttemptResult (value : JsValue Rat) (label : String) : Except Refusal Unit :=
  match value with
  | .null => .ok ()
  | .object result => do
    ["stdout", "stderr", "error"].forM fun key =>
      check ((get result key).isNull || (get result key).isUndefined || isBoundedText 2048 (get result key))
        s!"{label}.result.{key} is invalid"
    check (isBool (get result "passed")) s!"{label}.result.passed is invalid"
  | _ => .error ⟨none, s!"{label}.result must be an object"⟩

section Validate

variable (dateParses : String → Bool)

def validateVerificationAttempt (value : JsValue Rat) (label : String) : Except Refusal Unit :=
  match value with
  | .object record => do
    match record.find? fun field => !attemptFields.contains field.1 with
    | some field => throw ⟨none, s!"{label} has unexpected field {field.1}"⟩
    | none => pure ()
    requireText (get record "invocationId") s!"{label}.invocationId"
    check (isNonNegativeInteger (get record "commandIndex")) s!"{label}.commandIndex must be a non-negative integer"
    check (isPositiveInteger (get record "attempt")) s!"{label}.attempt must be a positive integer"
    check (nullOr isInteger (get record "pid")) s!"{label}.pid must be an integer"
    check (nullOr isInteger (get record "processGroupId")) s!"{label}.processGroupId must be an integer"
    check (nullOr isText (get record "processStartToken")) s!"{label}.processStartToken must be a non-empty string"
    requireTimestamp dateParses (get record "startedAt") s!"{label}.startedAt"
    requireTimestamp dateParses (get record "deadlineAt") s!"{label}.deadlineAt"
    check (isAttemptStatus (get record "status")) s!"{label}.status is invalid"
    check (nullOr (Journal.isTimestamp dateParses) (get record "completedAt"))
      s!"{label}.completedAt must be a valid timestamp"
    validateAttemptResult (get record "result") label
  | _ => .error ⟨none, s!"{label} must be an object"⟩

/-- The attempts of a record, each under its own label. -/
def validateAttempts : Nat → List (JsValue Rat) → Except Refusal Unit
  | _, [] => .ok ()
  | index, attempt :: rest => do
    validateVerificationAttempt dateParses attempt s!"node snapshot.verification.attempts[{index}]"
    validateAttempts (index + 1) rest

def validateAttemptList : JsValue Rat → Except Refusal Unit
  | .undefined => .ok ()
  | .array attempts => do
    check (decide (attempts.length ≤ 16)) "node snapshot.verification.attempts is invalid"
    validateAttempts dateParses 0 attempts
  | _ => .error ⟨none, "node snapshot.verification.attempts is invalid"⟩

/-- An array of at most so many items. -/
def isBoundedArray (maxItems : Nat) : JsValue Rat → Bool
  | .array items => decide (items.length ≤ maxItems)
  | _ => false

def validateVerificationSnapshot : JsValue Rat → Except Refusal Unit
  | .object value => do
    check (isBool (get value "passed") && isBoundedArray 32 (get value "commands"))
      "node snapshot.verification is invalid"
    check ((get value "completed").isUndefined || isBool (get value "completed"))
      "node snapshot.verification.completed is invalid"
    validateAttemptList dateParses (get value "attempts")
    check ((get value "error").isUndefined || isBoundedText 4096 (get value "error"))
      "node snapshot.verification.error is invalid"
  | _ => .error ⟨none, "node snapshot.verification must be an object"⟩

end Validate

/-! ## The snapshot -/

/-- `MAX_SCOPE_FINDING_PATHS`. -/
def maxScopeFindingPaths : Nat := 64

def validatePathList (value : JsValue Rat) (label : String) : Except Refusal Unit :=
  match value with
  | .array paths => do
    check (decide (paths.length ≤ maxScopeFindingPaths) && paths.all JsValue.isString) s!"{label} is invalid"
    check (paths.all (isBoundedText 1024)) s!"{label} contains an oversized path"
  | _ => .error ⟨none, s!"{label} is invalid"⟩

/-- The check of a verification record, when there is one. -/
def validateVerificationField (dateParses : String → Bool) (value : JsValue Rat) : Except Refusal Unit :=
  if value.isUndefined || value.isNull then .ok () else validateVerificationSnapshot dateParses value

/-- The check of the paths a verification left, when there are some. -/
def validateArtifactsField (value : JsValue Rat) : Except Refusal Unit :=
  if value.isUndefined then .ok () else validatePathList value "node snapshot.verificationArtifacts"

/-- A node snapshot: the two fields a verification writes, and the others. -/
structure NodeSnapshot where
  fields : JsonFields
  verification : JsValue Rat
  verificationArtifacts : JsValue Rat

def NodeSnapshot.toJson (snapshot : NodeSnapshot) : JsValue Rat :=
  .object (snapshot.fields ++
    [("verification", snapshot.verification), ("verificationArtifacts", snapshot.verificationArtifacts)])

/-- What a snapshot is checked with beside its own data: `Date.parse` giving a number, and the checks of the other
fields. -/
structure SnapshotChecks where
  dateParses : String → Bool
  checkFields : JsonFields → Except Refusal Unit

section

variable [Numerals Rat]

/-- `Buffer.byteLength(JSON.stringify(value), "utf8")`. -/
def serializedBytes (value : JsValue Rat) : Nat := charBytes (render value)

def snapshotMaxBytes : Nat := 128 * 1024

def validateNodeSnapshot (checks : SnapshotChecks) (snapshot : NodeSnapshot) : Except Refusal Unit := do
  checks.checkFields snapshot.fields
  validateVerificationField checks.dateParses snapshot.verification
  validateArtifactsField snapshot.verificationArtifacts
  check (decide (serializedBytes snapshot.toJson ≤ snapshotMaxBytes)) "node snapshot exceeds 131072 bytes"

end

end Faberun.Snapshot
