import Faberun.Model.Contract.Status
import Faberun.Model.Util
import Faberun.Text.Utf8Encode
import Mathlib.Data.List.Basic

/-! # The deterministic gate

The embedding of `engine/judge-gate.mjs`: the Definition of Done items of a gated node, the mechanical
proofs a gate round settles before any judge is asked, and the execution override that records a spent
re-ask. What a command or a path proof answers is an argument; a `verification` proof reads the recorded
verification. Texts are not cut to their byte ceilings.
-/

namespace Faberun

inductive ReviewMode where
  | none
  | advisory
  | blocking
  deriving DecidableEq, Repr

inductive Severity where
  | none
  | minor
  | major
  | critical
  deriving DecidableEq, Repr

/-- A validated proof: the `ref` of a `verification` is the index of a recorded command. -/
inductive DefinitionOfDoneProof where
  | command (ref : String)
  | path (ref : String)
  | verification (index : Nat)
  deriving DecidableEq, Repr

namespace DefinitionOfDoneProof

def kind : DefinitionOfDoneProof → String
  | command _ => "command"
  | path _ => "path"
  | verification _ => "verification"

def ref : DefinitionOfDoneProof → String
  | command ref | path ref => ref
  | verification index => toString index

end DefinitionOfDoneProof

structure DefinitionOfDoneItem where
  id : String
  proof : Option DefinitionOfDoneProof
  judgment : Bool
  deriving DecidableEq, Repr

/-- An enabled gate. `skipWhen` is the `maxChangedPaths` of a green-and-small change. -/
structure Gate where
  review : ReviewMode
  failOn : Option (List Severity)
  maxRevisions : Option Nat
  skipWhen : Option Nat
  deriving DecidableEq, Repr

structure GatedNode where
  definitionOfDone : List DefinitionOfDoneItem
  gate : Gate
  deriving DecidableEq, Repr

inductive VerdictKind where
  | pass
  | fail
  | invalidJudgeOutput
  deriving DecidableEq, Repr

structure Finding where
  severity : Severity
  description : String
  evidence : String
  deriving DecidableEq, Repr

structure JudgeVerdict where
  verdict : VerdictKind
  maxSeverity : Severity
  summary : String
  findings : List Finding
  deriving DecidableEq, Repr

/-- One controller verification entry, with the output streams of its last attempt. -/
structure RecordedCommand where
  argv : List String
  passed : Bool
  stdout : String
  stderr : String
  deriving DecidableEq, Repr

structure ProofResult where
  id : String
  proof : DefinitionOfDoneProof
  pass : Bool
  detail : String
  deriving DecidableEq, Repr

/-! ## Bounded text -/

/-- `MAX_PROOF_OUTPUT_BYTES`. -/
def maxProofOutputBytes : Nat := 4 * 1024

/-- The cut at `room` bytes and its marker, shortened byte by byte until it fits. -/
def shrinkToFit (bytes : List UInt8) (maxBytes : Nat) : Nat → String
  | 0 => "…"
  | room + 1 =>
      let out := String.ofList (Utf8.decode (bytes.take (room + 1)) ++ ['…'])
      if byteLength out > maxBytes then shrinkToFit bytes maxBytes room else out

/-- `boundedText` of the gate. -/
def boundedProofText (value : String) : String :=
  let bytes := Utf8.encode value.toList
  if bytes.length ≤ maxProofOutputBytes then value
  else shrinkToFit bytes maxProofOutputBytes (maxProofOutputBytes - byteLength "…")

/-! ## The items -/

def mechanicalItems (node : GatedNode) : List (String × DefinitionOfDoneProof) :=
  node.definitionOfDone.filterMap fun item => item.proof.map (item.id, ·)

def judgmentItems (node : GatedNode) : List DefinitionOfDoneItem :=
  node.definitionOfDone.filter (·.judgment)

def judgeRequired (node : GatedNode) : Bool :=
  decide (node.gate.review ≠ .none) && node.definitionOfDone.any (·.judgment)

/-- The green-and-small escape hatch. -/
def judgeSkippedByScope (node : GatedNode) (verified : Bool) (changedPathCount : Option Nat) : Bool :=
  match node.gate.skipWhen, changedPathCount with
  | some maxChangedPaths, some changed => verified && decide (changed ≤ maxChangedPaths)
  | _, _ => false

/-! ## The mechanical proofs -/

/-- What the workspace answers to a command or a path proof: whether it passes, and the detail. -/
abbrev Measurement := String × DefinitionOfDoneProof → Bool × String

/-- Reuse the recorded result of one controller verification entry. -/
def proveVerification (index : Nat) (recorded : List RecordedCommand) : Bool × String :=
  match recorded[index]? with
  | none => (false, s!"verification command {index} has no recorded result for this attempt")
  | some entry =>
      let argv := " ".intercalate entry.argv
      let output := ([entry.stderr, entry.stdout].find? fun text => !isBlank text).getD ""
      (entry.passed, if entry.passed then s!"reused recorded verification result: {argv} passed"
        else boundedProofText s!"reused recorded verification result: {argv} failed: {String.ofList (trimText output.toList)}")

def prove (measure : Measurement) (recorded : List RecordedCommand) (item : String × DefinitionOfDoneProof) :
    ProofResult :=
  let (pass, detail) :=
    match item.2 with
    | .verification index => proveVerification index recorded
    | _ => measure item
  ⟨item.1, item.2, pass, detail⟩

def runMechanicalProofs (node : GatedNode) (measure : Measurement) (recorded : List RecordedCommand) :
    List ProofResult :=
  (mechanicalItems node).map (prove measure recorded)

/-- Verdict a deterministic gate from its per-item mechanical results. -/
def mechanicalVerdict (results : List ProofResult) : JudgeVerdict :=
  let failed := results.filter fun result => !result.pass
  if failed = [] then
    { verdict := .pass
      maxSeverity := .none
      summary := "every deterministic Definition of Done item passed"
      findings := [] }
  else
    { verdict := .fail
      maxSeverity := .critical
      summary := "deterministic Definition of Done item failed"
      findings := failed.map fun result =>
        { severity := .critical
          description := s!"Definition of Done item [{result.id}] failed its {result.proof.kind} proof"
          evidence := boundedProofText s!"{result.proof.ref}: {result.detail}" } }

/-- The deterministic evidence a re-ask reports without running a proof again. -/
def provenDeterministicResults (node : GatedNode) : List ProofResult :=
  (mechanicalItems node).map fun item => ⟨item.1, item.2, true, ""⟩

def deterministicGate (node : GatedNode) (reask : Bool) (measure : Measurement) (recorded : List RecordedCommand) :
    JudgeVerdict × List ProofResult :=
  let results := if reask then provenDeterministicResults node else runMechanicalProofs node measure recorded
  (mechanicalVerdict results, results)

theorem mechanicalVerdict_fail_iff {results : List ProofResult} :
    (mechanicalVerdict results).verdict = .fail ↔ ∃ result ∈ results, result.pass = false := by
  by_cases clean : (results.filter fun result => !result.pass) = []
  · simp only [mechanicalVerdict, clean, if_true, reduceCtorEq, false_iff, not_exists, not_and]
    intro result member failed
    have := List.filter_eq_nil_iff.mp clean result member
    simp [failed] at this
  · simp only [mechanicalVerdict, clean, if_false, true_iff]
    obtain ⟨result, member⟩ := List.exists_mem_of_ne_nil _ clean
    obtain ⟨member, failed⟩ := List.mem_filter.mp member
    exact ⟨result, member, by simpa using failed⟩

/-- A round the proofs ran in accounts for every mechanical item. -/
theorem exists_result (node : GatedNode) (measure : Measurement) (recorded : List RecordedCommand)
    {item : String × DefinitionOfDoneProof} (member : item ∈ mechanicalItems node) :
    ∃ result ∈ runMechanicalProofs node measure recorded, result.id = item.1 ∧ result.proof = item.2 :=
  ⟨prove measure recorded item, List.mem_map_of_mem member, rfl, rfl⟩

/-! ## Judge verdicts -/

/-- The characters a token of a finding is made of. -/
def tokenCharacter (c : Char) : Bool :=
  c.isAlphanum || c == '.' || c == '_' || c == '-'

def citesItem (text : String) (ids : List String) : Bool :=
  (text.toList.splitOnP fun c => !tokenCharacter c).any fun token => decide (String.ofList token ∈ ids)

/-- A rejection none of whose findings cites a judgment item. -/
def uncitedRejection (verdict : JudgeVerdict) (node : GatedNode) : Bool :=
  let ids := (judgmentItems node).map (·.id)
  decide (verdict.verdict = .fail) && !ids.isEmpty &&
    !verdict.findings.any fun finding => citesItem finding.description ids || citesItem finding.evidence ids

/-- `invalidJudgeVerdict` of `contract/review-modes.mjs`. -/
def invalidJudgeVerdict (reason : String) : JudgeVerdict :=
  { verdict := .invalidJudgeOutput
    maxSeverity := .none
    summary := s!"judge produced no usable verdict: {reason}"
    findings := [] }

/-! ## The re-ask record -/

structure ExecutionOverride where
  kind : String
  reason : Option String
  deriving DecidableEq, Repr

/-- `JUDGE_REASK_KIND`. -/
def judgeReaskKind : String := "judge-reask"

/-- `UNCITED_REJECTION_REASON`. -/
def uncitedRejectionReason : String := "uncited judge rejection spent its one bounded re-ask"

def isJudgeReask (override : ExecutionOverride) : Bool := override.kind == judgeReaskKind

def judgeReaskRecord (overrides : List ExecutionOverride) : Option ExecutionOverride :=
  overrides.reverse.find? isJudgeReask

def judgeReaskOutstanding (overrides : List ExecutionOverride) : Bool := (judgeReaskRecord overrides).isSome

def judgeReaskReason (overrides : List ExecutionOverride) : Option String :=
  (judgeReaskRecord overrides).bind (·.reason)

def markJudgeReask (overrides : List ExecutionOverride) (reason : String) : List ExecutionOverride :=
  if judgeReaskOutstanding overrides then overrides else overrides ++ [⟨judgeReaskKind, some reason⟩]

def clearJudgeReask (overrides : List ExecutionOverride) : List ExecutionOverride :=
  if judgeReaskOutstanding overrides then overrides.filter fun override => !isJudgeReask override else overrides

theorem judgeReaskOutstanding_iff {overrides : List ExecutionOverride} :
    judgeReaskOutstanding overrides = true ↔ ∃ override ∈ overrides, isJudgeReask override = true := by
  simp [judgeReaskOutstanding, judgeReaskRecord, List.find?_isSome]

/-- The bound is spent once marked. -/
@[simp] theorem judgeReaskOutstanding_mark (overrides : List ExecutionOverride) (reason : String) :
    judgeReaskOutstanding (markJudgeReask overrides reason) = true := by
  by_cases outstanding : judgeReaskOutstanding overrides = true
  · simp [markJudgeReask, outstanding]
  · simp [markJudgeReask, outstanding, judgeReaskOutstanding_iff, isJudgeReask]

/-- The bound is released once cleared. -/
@[simp] theorem judgeReaskOutstanding_clear (overrides : List ExecutionOverride) :
    judgeReaskOutstanding (clearJudgeReask overrides) = false := by
  by_cases outstanding : judgeReaskOutstanding overrides = true
  · rw [clearJudgeReask, if_pos outstanding, Bool.eq_false_iff, Ne, judgeReaskOutstanding_iff]
    rintro ⟨override, member, reask⟩
    simp [reask] at member
  · simp [clearJudgeReask, outstanding]

/-- Only an outstanding record gives a reason. -/
theorem outstanding_of_reason {overrides : List ExecutionOverride}
    (reason : (judgeReaskReason overrides).isSome = true) : judgeReaskOutstanding overrides = true := by
  cases record : judgeReaskRecord overrides with
  | none => simp [judgeReaskReason, record] at reason
  | some override => simp [judgeReaskOutstanding, record]

end Faberun
