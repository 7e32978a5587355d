import Faberun.Model.Contract.Runtime
import Faberun.Model.Contract.Verification
import Faberun.Model.Engine.JudgeGate

/-! # Definition of Done items

`contract/definition-of-done.mjs` on items whose fields have their types: what `validateDefinitionOfDone` asks of an
item, and the quotes a command proof may not leave open. A `verification` proof is its normalized index.
-/

namespace Faberun

/-- An item with all it declares. -/
structure DoneItem where
  id : String
  text : String
  proof : Option DefinitionOfDoneProof
  judgment : Bool
  reason : Option String
  deriving DecidableEq, Repr

/-- The `options` of a caller that knows the commands of its packet. -/
structure DoneOptions where
  verificationCount : Option Nat
  recordableCount : Option Nat

/-- The `options` `validateContract` gives the items of a node. -/
def nodeDoneOptions (packet : List VerificationCommand) : DoneOptions :=
  ⟨some packet.length, some VerificationLimits.stateCommands⟩

/-- `checkedIndex`. -/
def checkedIndex (index : Nat) (label : String) (options : DoneOptions) : Except Refusal Unit := do
  check (options.verificationCount.all fun count => decide (index < count))
    s!"{label}.ref {index} names no verification command: the packet declares {options.verificationCount.getD 0}"
  check (options.recordableCount.all fun count => decide (index < count))
    s!"{label}.ref {index} cannot be reused at gate time: only the first {options.recordableCount.getD 0} verification commands are recorded on the node"

def validateProof (proof : DefinitionOfDoneProof) (label : String) (options : DoneOptions) : Except Refusal Unit :=
  match proof with
  | .verification index => checkedIndex index label options
  | .command ref | .path ref => check (!isBlank ref) s!"{label}.ref must be a non-empty string"

/-- A reason stands beside a judgment only. -/
def validateReason (item : DoneItem) (label : String) : Except Refusal Unit :=
  match item.reason with
  | none => .ok ()
  | some reason => do
    check item.judgment s!"{label}.reason requires judgment: true"
    check (!isBlank reason) s!"{label}.reason must be a non-empty string"

/-- One item of `validateDefinitionOfDone`. -/
def validateDoneItem (item : DoneItem) (label : String) (options : DoneOptions) : Except Refusal Unit := do
  requireId item.id s!"{label}.id"
  check (!isBlank item.text) s!"{label}.text must be a non-empty string"
  validateReason item label
  match item.proof with
  | some proof => validateProof proof s!"{label}.proof" options
  | none => check item.judgment s!"{label} must declare proof or judgment: true"

/-- The items from an index on, in order. -/
def validateDoneItems (label : String) (options : DoneOptions) : Nat → List DoneItem → Except Refusal Unit
  | _, [] => .ok ()
  | index, item :: rest => do
    validateDoneItem item s!"{label}[{index}]" options
    validateDoneItems label options (index + 1) rest

def validateDefinitionOfDone (items : List DoneItem) (label : String) (options : DoneOptions) : Except Refusal Unit :=
  validateDoneItems label options 0 items

/-! ## Quotes of a command proof -/

/-- The loop of `unclosedQuote`: the open quote, and whether the next character is escaped. -/
def scanQuotes : Option Char → Bool → List Char → Option Char
  | quote, _, [] => quote
  | quote, true, _ :: rest => scanQuotes quote false rest
  | quote, false, c :: rest =>
    if quote ≠ some '\'' ∧ c = '\\' then scanQuotes quote true rest
    else if quote = none ∧ (c = '\'' ∨ c = '"') then scanQuotes (some c) false rest
    else if quote = some c then scanQuotes none false rest
    else scanQuotes quote false rest

/-- The quote a command leaves open. -/
def unclosedQuote (command : String) : Option Char := scanQuotes none false command.toList

example : unclosedQuote "node --test 'a \\' b" = none := by decide

end Faberun
