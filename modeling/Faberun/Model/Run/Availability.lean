import Faberun.Machine.KeyedStore
import Faberun.Machine.UnlockedFile
import Faberun.Model.Plan.Routing
import Faberun.Model.Util

/-! # Verdicts of the providers

The embedding of `run/availability.mjs`: the file of the machine that holds the last verdict of each provider, whether it
answered or refused. Every process on the machine reads it before it asks or spends, and none takes a lock to write it.
Instants in it are printed by `toISOString`, those of a provider's reset by `resetTimestamp`.
-/

namespace Faberun.Availability

/-- `Date.parse` and `toISOString`. -/
structure Dates where
  parse : String → Option Int
  toIso : Int → String
  parse_toIso : ∀ instant, parse (toIso instant) = some instant
  parse_empty : parse "" = none

/-- The verdict of a provider, as the file has it. -/
structure Verdict where
  available : Bool
  exhaustedUntil : Option String
  reason : String
  observedAt : Option String
  window : Option String
  deriving DecidableEq, Repr

structure Provider where
  harness : String
  model : String
  executable : String
  deriving DecidableEq, Repr

def availabilityKey (provider : Provider) : String := s!"{provider.harness}:{provider.model}:{provider.executable}"

/-- `REFUSAL_REASONS`. -/
def refusalReasons : List String := ["quota_exhausted", "insufficient_balance", "model_not_supported"]

/-- `REFUSAL_HOLD_MS`. -/
def refusalHoldMs : Int := 15 * 60 * 1000

/-- `PREFLIGHT_WINDOW`. -/
def preflightWindow : String := "preflight"

/-- What `refusalOfAvailability` lets through; the reset is the instant the provider named. -/
structure Refusal where
  reason : String
  exhaustedUntil : Option Int
  known : reason ∈ refusalReasons
  deriving DecidableEq, Repr

/-- What a probe or an envelope says of its provider. -/
structure Observed where
  available : Bool
  exhaustedUntil : Option Int
  reason : String
  deriving DecidableEq, Repr

def refusalOfAvailability (availability : Option Observed) : Option Refusal :=
  match availability with
  | none => none
  | some observed =>
    if known : observed.reason ∈ refusalReasons then
      if observed.available then none else some ⟨observed.reason, observed.exhaustedUntil, known⟩
    else none

/-- `loadStore().verdicts`. -/
abbrev Verdicts := KeyedStore String Verdict

section

variable (dates : Dates)

/-- `validateRuntimeAvailability`, of the fields a verdict has. -/
def validates (verdict : Verdict) : Bool :=
  verdict.exhaustedUntil.all (fun moment => (dates.parse moment).isSome) && decide (trimText verdict.reason.toList ≠ []) &&
    verdict.observedAt.all (fun moment => (dates.parse moment).isSome) &&
    verdict.window.all fun window => decide (trimText window.toList ≠ [])

/-- The verdict of `loadVerdicts` under a key. -/
def loadVerdict (verdicts : Verdicts) (key : String) : Option Verdict := (verdicts.get? key).filter (validates dates)

/-- The verdict that a provider answered. -/
def answeredAt (now : Int) : Verdict := ⟨true, none, "answered", some (dates.toIso now), some preflightWindow⟩

/-- Until when a refusal is held. -/
def heldUntil (refusal : Refusal) (now : Int) : Int := refusal.exhaustedUntil.getD (now + refusalHoldMs)

def refusedAt (refusal : Refusal) (now : Int) : Verdict :=
  ⟨false, some (dates.toIso (heldUntil refusal now)), refusal.reason, some (dates.toIso now), some preflightWindow⟩

def recordAvailability (verdicts : Verdicts) (keys : List String) (now : Int) : Verdicts :=
  keys.foldl (fun verdicts key => verdicts.set key (answeredAt dates now)) verdicts

def recordRefusal (verdicts : Verdicts) (key : String) (refusal : Refusal) (now : Int) : Verdicts :=
  verdicts.set key (refusedAt dates refusal now)

def isFresh (verdict : Verdict) (now : Int) : Bool :=
  Routing.isRuntimeAvailable ⟨dates.parse, now, fun _ => ""⟩
    (some ⟨verdict.available, verdict.exhaustedUntil, verdict.observedAt, verdict.window, none⟩)

def readAvailability (verdicts : Verdicts) (key : String) (now : Int) : Option Verdict :=
  (loadVerdict dates verdicts key).filter fun verdict => isFresh dates verdict now

def readRefusal (verdicts : Verdicts) (key : String) (now : Int) : Option Verdict :=
  (loadVerdict dates verdicts key).filter fun verdict =>
    !verdict.available && (nonempty? verdict.exhaustedUntil).any fun moment => (dates.parse moment).any fun reset => now < reset

/-! ## The processes -/

/-- A write of a process. -/
inductive Change where
  | answered (keys : List String) (now : Int)
  | refused (key : String) (refusal : Refusal) (now : Int)
  deriving DecidableEq, Repr

def apply (verdicts : Verdicts) : Change → Verdicts
  | .answered keys now => recordAvailability dates verdicts keys now
  | .refused key refusal now => recordRefusal dates verdicts key refusal now

/-- What `recordProbeVerdicts` writes, one after the other. -/
def recordProbeVerdicts (probes : List (Provider × Option Observed)) (now : Int) : List Change :=
  let answered := probes.filter fun probe => (refusalOfAvailability probe.2).isNone
  let refused := probes.filterMap fun probe =>
    (refusalOfAvailability probe.2).map fun refusal => Change.refused (availabilityKey probe.1) refusal now
  if answered.isEmpty then refused else .answered (answered.map fun probe => availabilityKey probe.1) now :: refused

def machine : Machine (UnlockedFile Verdicts Change) (UnlockedFile.Label Change) := UnlockedFile.machine (apply dates) .empty

end

end Faberun.Availability
