import Mathlib.Data.Rat.Defs
import Mathlib.Data.List.Nodup
import Faberun.Model.Json

/-! # Runtimes and their providers

A runtime names a harness and a model; the provider it talks to follows from the route its configuration declares, from
the family of its model or from its harness, and only a runtime none of them decides keeps the vendor it declares. The
contract validator writes that provider into the vendor of every runtime, and refuses a label that contradicts it.
-/

namespace Faberun

/-- A tier is ranked when it is a number. -/
inductive RuntimeTier where
  | number (value : Rat)
  | name (label : String)
  deriving DecidableEq

structure Runtime where
  harness : String
  model : String
  vendor : Option String
  /-- `config.model_provider`, when it is a text. -/
  modelProvider : Option String
  /-- `config.provider`, when it is a text. -/
  provider : Option String
  tier : Option RuntimeTier
  costRank : Option Rat
  fallback : Option String
  deriving DecidableEq

/-! ## The provider of a runtime -/

/-- `CANONICAL_PROVIDERS`. -/
def canonicalProviders : List String := ["openai", "anthropic", "zhipu", "deepseek", "google"]

/-- `DEFAULT_HARNESS_VENDORS`. -/
def defaultHarnessVendor : String → Option String
  | "claude" => some "anthropic"
  | "codex" => some "openai"
  | "agy" => some "google"
  | "zcode" => some "zhipu"
  | _ => none

/-- `NO_CANONICAL_PROVIDER_HARNESSES.has(harness)`. -/
def hasNoCanonicalProvider (harness : String) : Bool := harness == "replay" || harness == "exec-jsonl"

/-- The case folding of an expression with flags `iu`, as far as it reaches an ASCII letter. -/
def foldCase (c : Char) : Char := if c = 'ſ' then 's' else if c = '\u212A' then 'k' else c.toLower

/-- `\w`. -/
def isWordChar (c : Char) : Bool := c.isAlphanum || c == '_'

/-- What follows a text at the beginning of a folded model id. -/
def afterStart? (start : String) (model : List Char) : Option (List Char) :=
  if start.toList.isPrefixOf model then some (model.drop start.toList.length) else none

/-- A word at the beginning of a folded model id. -/
def startsWord (word : String) (model : List Char) : Bool :=
  (afterStart? word model).any fun rest => !rest.head?.any isWordChar

/-- `MODEL_FAMILY_PROVIDERS`: the first family whose expression matches. -/
def modelFamilyProvider (model : String) : Option String :=
  let text := model.toList.map foldCase
  if (afterStart? "claude-" text).isSome || startsWord "opus" text || startsWord "sonnet" text || startsWord "fable" text ||
      startsWord "haiku" text then some "anthropic"
  else if (afterStart? "gpt-" text).isSome || (afterStart? "o" text).any fun rest => rest.head?.any Char.isDigit then some "openai"
  else if (afterStart? "gemini-" text).isSome then some "google"
  else if (afterStart? "glm-" text).isSome then some "zhipu"
  else if (afterStart? "deepseek-" text).isSome then some "deepseek"
  else none

/-- `toLowerCase()` on a text searched for ASCII letters: two other characters have one in their lower case. -/
def lowerChars (text : List Char) : List Char :=
  text.flatMap fun c => if c = '\u212A' then ['k'] else if c = '\u0130' then ['i', '\u0307'] else [c.toLower]

/-- `lowered.includes(provider)`. -/
def includesText (provider : String) (lowered : List Char) : Bool :=
  lowered.tails.any fun tail => provider.toList.isPrefixOf tail

/-- The configuration key a harness reads a route from. -/
def declaredRoute (runtime : Runtime) : Option String :=
  if runtime.harness = "codex" then runtime.modelProvider
  else if runtime.harness = "dsh" then runtime.provider
  else none

def routedProvider (runtime : Runtime) : Option String :=
  (declaredRoute runtime).bind fun route =>
    canonicalProviders.find? fun provider => includesText provider (lowerChars route.toList)

def canonicalProvider (runtime : Runtime) : Option String :=
  if hasNoCanonicalProvider runtime.harness then none
  else (routedProvider runtime).or ((modelFamilyProvider runtime.model).or (defaultHarnessVendor runtime.harness))

/-- What a comparison of a worker with a judge compares. -/
def effectiveProvider (runtime : Runtime) : Option String := (canonicalProvider runtime).or runtime.vendor

/-! ## The vendor of a validated runtime -/

/-- A text that is there and not empty. -/
def nonempty? (text : Option String) : Option String := text.filter fun value => value ≠ ""

def resolveVendor (runtime : Runtime) : Option String :=
  (nonempty? runtime.vendor).or ((nonempty? runtime.modelProvider).or (defaultHarnessVendor runtime.harness))

/-- `/^[A-Za-z0-9._-]+$/u`, a character. -/
def isIdChar (c : Char) : Bool := c.isAlphanum || c == '.' || c == '_' || c == '-'

def requireId (value label : String) : Except Refusal Unit := do
  check (value != "") s!"{label} is required"
  check (value.toList.all isIdChar) s!"{label} must contain only letters, numbers, dot, underscore, or dash"
  check (value != "." && value != "..") (label ++ " must not be \".\" or \"..\"")

/-- `validateRuntime`: the id and the vendor it checks, and the vendor it writes. -/
def validateRuntime (id : String) (runtime : Runtime) : Except Refusal Runtime := do
  requireId id s!"runtime {id}"
  check (runtime.vendor.all fun vendor => !isBlank vendor) s!"runtime {id}.vendor must be a non-empty string"
  match canonicalProvider runtime with
  | some derived =>
    check (runtime.vendor.all fun declared => declared == derived)
      s!"runtime {id} declares vendor {runtime.vendor.getD derived} but {runtime.harness} {runtime.model} is provider {derived}"
    return { runtime with vendor := some derived }
  | none =>
    match resolveVendor runtime with
    | some vendor => return { runtime with vendor := some vendor }
    | none => .error ⟨none, s!"runtime {id} has no resolvable vendor"⟩

/-! ## Tiers -/

/-- `ANTHROPIC_MODEL_TIERS`. -/
def anthropicModelTier : String → Option Nat
  | "claude-sonnet-5" => some 2
  | "claude-opus-5" => some 3
  | "claude-opus-5-5" => some 3
  | "claude-fable-5" => some 4
  | "claude-fable-5-1" => some 4
  | _ => none

def declaredModelTier (harness model : String) : Option Nat :=
  if harness = "claude" then anthropicModelTier model else none

/-- Why a judge may not review a worker of its own vendor. -/
def sameVendorTierRefusal (worker judge : Runtime) : Option Refusal :=
  match declaredModelTier judge.harness judge.model, declaredModelTier worker.harness worker.model with
  | none, _ =>
    some ⟨some "same_vendor_judge_no_tier",
      s!"judge model {judge.model} declares no tier and cannot judge in same-vendor mode"⟩
  | some judgeTier, some workerTier =>
    if judgeTier < workerTier then
      some ⟨some "same_vendor_judge_tier_too_low",
        s!"judge tier {judgeTier} ({judge.model}) is below worker tier {workerTier} ({worker.model})"⟩
    else none
  | some _, none => none

/-! ## Catalogues -/

/-- An object of runtimes. -/
structure Catalogue where
  entries : List (String × Runtime)
  distinct : (entries.map (·.1)).Nodup

namespace Catalogue

/-- `runtimes[id]`. -/
def get? (runtimes : Catalogue) (id : String) : Option Runtime :=
  (runtimes.entries.find? fun entry => entry.1 == id).map (·.2)

theorem mem_of_get? {runtimes : Catalogue} {id : String} {runtime : Runtime}
    (found : runtimes.get? id = some runtime) : (id, runtime) ∈ runtimes.entries := by
  obtain ⟨entry, here, rfl⟩ := Option.map_eq_some_iff.mp found
  have same : entry.1 = id := by simpa using List.find?_some here
  subst same
  exact List.mem_of_find?_eq_some here

theorem get?_of_mem {runtimes : Catalogue} {id : String} {runtime : Runtime}
    (member : (id, runtime) ∈ runtimes.entries) : runtimes.get? id = some runtime := by
  have only (other : String × Runtime) (present : other ∈ runtimes.entries) (same : other.1 = id) :
      other = (id, runtime) := List.inj_on_of_nodup_map runtimes.distinct present member same
  cases here : runtimes.entries.find? fun entry => entry.1 == id with
  | none =>
    have absent := List.find?_eq_none.mp here _ member
    simp at absent
  | some entry =>
    have same : entry.1 = id := by simpa using List.find?_some here
    rw [get?, here, only entry (List.mem_of_find?_eq_some here) same]
    rfl

end Catalogue

end Faberun
