import Mathlib.Data.List.Sort
import Faberun.Model.Contract.JudgeIndependence

/-! # Planner routing

A plan's nodes name no runtime: an override, the operator's defaults, a row of the routing table or discovery assigns a
worker and a judge to each. The judge's bar follows the worker that was chosen, through its fallback chain. Before a
plan spends anything, a pair of defaults no frozen node could route is refused.
-/

namespace Faberun.Routing

/-! ## Availability -/

structure Availability where
  available : Bool
  exhaustedUntil : Option String
  observedAt : Option String
  window : Option String
  remaining : Option Rat

/-- `AVAILABILITY_WINDOW_SEC`. -/
def availabilityWindowSec : String → Option Int
  | "five_hour" => some (5 * 3600)
  | "seven_day" => some (7 * 86400)
  | "preflight" => some (15 * 60)
  | _ => none

/-- The clock: `Date.parse` and `Date.now()`, and how a text shows a number. -/
structure Clock where
  parse : String → Option Int
  now : Int
  showNumber : Rat → String

/-- Whether a moment has passed; a text that is no moment never has. -/
def Clock.passed (clock : Clock) (moment : String) : Bool := (clock.parse moment).any fun time => time ≤ clock.now

def isRuntimeAvailable (clock : Clock) (availability : Option Availability) : Bool :=
  match availability with
  | none => false
  | some record =>
    let until? := nonempty? record.exhaustedUntil
    let rested := if record.available then until?.all clock.passed else until?.any clock.passed
    rested && match record.window.bind availabilityWindowSec, record.observedAt with
      | some seconds, some observedAt =>
        (clock.parse observedAt).any fun observed => clock.now ≤ observed + seconds * 1000
      | _, _ => true

/-! ## Ranking -/

/-- `Number.MAX_SAFE_INTEGER`. -/
def maxSafeInteger : Rat := 9007199254740991

def runtimeOrder (runtime : Runtime) : Rat := runtime.costRank.getD maxSafeInteger

def tierOrder (runtime : Runtime) : Rat :=
  match runtime.tier with
  | some (.number tier) => tier
  | _ => runtimeOrder runtime

/-- A candidate: an entry of the catalogue and its place. -/
structure Candidate where
  id : String
  runtime : Runtime
  order : Nat

/-- Lowest tier, then lowest cost rank, then declaration order. -/
def cheaper (left right : Candidate) : Prop :=
  tierOrder left.runtime < tierOrder right.runtime ∨ (tierOrder left.runtime = tierOrder right.runtime ∧
    (runtimeOrder left.runtime < runtimeOrder right.runtime ∨
      (runtimeOrder left.runtime = runtimeOrder right.runtime ∧ left.order ≤ right.order)))

/-- Highest tier, then highest cost rank, then declaration order. -/
def stronger (left right : Candidate) : Prop :=
  tierOrder right.runtime < tierOrder left.runtime ∨ (tierOrder right.runtime = tierOrder left.runtime ∧
    (runtimeOrder right.runtime < runtimeOrder left.runtime ∨
      (runtimeOrder right.runtime = runtimeOrder left.runtime ∧ left.order ≤ right.order)))

instance : DecidableRel cheaper := fun _ _ => inferInstanceAs (Decidable (_ ∨ _))

instance : DecidableRel stronger := fun _ _ => inferInstanceAs (Decidable (_ ∨ _))

def cheapest (candidates : List Candidate) : Option Candidate := (candidates.insertionSort cheaper).head?

def strongest (candidates : List Candidate) (vendor : String) : Option Candidate :=
  ((candidates.filter fun candidate => effectiveProvider candidate.runtime ≠ some vendor).insertionSort stronger).head?

/-! ## The judge's bar -/

/-- Why a runtime may not take a role, when it may not. -/
abbrev JudgeBar := String → Runtime → Option String

/-- `NO_BAR`. -/
def noBar : JudgeBar := fun _ _ => none

/-- The runtimes a fallback chain reaches, each once. -/
def chainFrom (runtimes : Catalogue) : Nat → List String → Option String → List (String × Runtime)
  | _, _, none => []
  | 0, _, some _ => []
  | fuel + 1, seen, some id =>
    if seen.contains id then []
    else match runtimes.get? id with
      | none => []
      | some runtime => (id, runtime) :: chainFrom runtimes fuel (id :: seen) runtime.fallback

/-- The chain of a worker, itself first. -/
def workerChain (runtimes : Catalogue) (workerId : String) : List (String × Runtime) :=
  chainFrom runtimes (runtimes.entries.length + 1) [] (some workerId)

def judgeBarFor (workerId : String) (runtimes : Catalogue) (sameVendor : Bool) : JudgeBar := fun candidateId candidate =>
  let chain := (workerChain runtimes workerId).map (·.2)
  match effectiveProvider candidate with
  | none => none
  | some provider =>
    if (chain.filterMap effectiveProvider).contains provider then
      if !sameVendor then some s!"carries forbidden vendor {provider}"
      else if candidateId = workerId then some "is the worker runtime itself"
      else (chain.filter fun member => effectiveProvider member = some provider).findSome? fun member =>
        (sameVendorTierRefusal member candidate).map fun refusal => s!"shares vendor {provider} and {refusal.message}"
    else none

/-! ## One role of one node -/

/-- The strategies of a rule. -/
inductive Strategy where
  | priority
  | cost
  | resetProximity
  | attemptAffinity
  deriving DecidableEq

/-- `ROUTING_STRATEGIES`, by name. -/
def strategy? : String → Option Strategy
  | "priority" => some .priority
  | "cost" => some .cost
  | "reset-proximity" => some .resetProximity
  | "attempt-affinity" => some .attemptAffinity
  | _ => none

inductive Role where
  | worker
  | judge
  deriving DecidableEq

def Role.name : Role → String
  | worker => "worker"
  | judge => "judge"

def roleOf (map : RoleMap) : Role → Option String
  | .worker => map.worker
  | .judge => map.judge

structure RoutingNode where
  id : String
  taskKind : Option String
  riskTier : Option String

structure RoutingRule where
  name : Option String
  taskKind : Option String
  riskTier : Option String
  prefer : List String
  role : Role
  strategy : Option String

def ruleLabel (row : RoutingRule) : String :=
  match nonempty? row.name with
  | some name => name
  | none =>
    let kind := row.taskKind.getD "*"
    let tier := row.riskTier.getD "*"
    s!"table:{row.role.name}:{kind}:{tier}"

structure RoutingConfig where
  table : List RoutingRule
  runtimes : Catalogue
  availability : String → Option Availability
  runtimeDefaults : RoleMap
  overrides : String → RoleMap
  sameVendor : Bool
  previous : String → RoleMap
  clock : Clock

/-- What `resolveRole` answers; the strategy is the name of one, or `declared`. -/
structure Decision where
  runtimeId : Option String
  rule : String
  strategy : String
  reason : String

namespace RoutingConfig

variable (config : RoutingConfig)

def isAvailable (id : String) : Bool := isRuntimeAvailable config.clock (config.availability id)

def admits (bar : JudgeBar) (id : String) : Bool :=
  match config.runtimes.get? id with
  | none => false
  | some runtime => (bar id runtime).isNone && config.isAvailable id

def blockedWhy (bar : JudgeBar) (id : String) : String :=
  match config.runtimes.get? id with
  | none => "is not declared in runtimes"
  | some runtime => (bar id runtime).getD "is unavailable"

/-- The first of the candidates with the least measure. -/
def leastBy (measure : String → Option Rat) : List String → Option (String × Rat)
  | [] => none
  | id :: rest =>
    match measure id, leastBy measure rest with
    | none, best => best
    | some here, none => some (id, here)
    | some here, some (best, value) => if value < here then some (best, value) else some (id, here)

/-- A strategy over a `prefer` list. -/
def chooseByStrategy (strategy : Strategy) (preferred : List String) (bar : JudgeBar) (previousId : Option String) :
    Option String × String :=
  match preferred.filter (config.admits bar) with
  | [] => (none, "no admissible candidate in the prefer list")
  | first :: others =>
    let admissible := first :: others
    match strategy with
    | .attemptAffinity =>
      match previousId with
      | none => (some first, "attempt-affinity inert: no previous attempt recorded; prefer order decided")
      | some previous =>
        if config.admits bar previous then
          (some previous, s!"attempt-affinity: previous attempt's runtime {previous} still admissible")
        else
          let why := config.blockedWhy bar previous
          (some first, s!"attempt-affinity yielded: {previous} {why}; prefer order decided")
    | .cost =>
      match leastBy (fun id => (config.runtimes.get? id).bind Runtime.costRank) admissible with
      | none => (some first, "cost inert: no admissible candidate exposes costRank; prefer order decided")
      | some (winner, rank) =>
        let value := config.clock.showNumber rank
        (some winner, s!"cost: lowest costRank {value} among ranked candidates")
    | .resetProximity =>
      match leastBy (fun id => (config.availability id).bind Availability.remaining) admissible with
      | none => (some first, "reset-proximity inert: no admissible candidate exposes remaining; prefer order decided")
      | some (winner, remaining) =>
        let value := config.clock.showNumber remaining
        (some winner, s!"reset-proximity: least remaining allowance ({value})")
    | .priority => (some first, "priority: first admissible of the prefer list")

/-- The entries a role may be discovered among. -/
def candidateEntries (bar : JudgeBar) : List Candidate :=
  (config.runtimes.entries.zipIdx.map fun entry => ⟨entry.1.1, entry.1.2, entry.2⟩).filter fun candidate =>
    (bar candidate.id candidate.runtime).isNone && config.isAvailable candidate.id

def cheapestAvailable (bar : JudgeBar) : Option String := (cheapest (config.candidateEntries bar)).map (·.id)

def strongestAvailable (bar : JudgeBar) : Option String := (strongest (config.candidateEntries bar) "").map (·.id)

/-- Whether a row is about a role and a node. -/
def rowMatches (node : RoutingNode) (role : Role) (row : RoutingRule) : Bool :=
  decide (row.role = role) && row.taskKind.all (fun kind => node.taskKind = some kind) &&
    row.riskTier.all (fun tier => node.riskTier = some tier)

def discover (role : Role) (bar : JudgeBar) : Decision :=
  match role with
  | .worker => ⟨config.cheapestAvailable bar, "discovery", "cost", "discovery: cheapest available runtime"⟩
  | .judge => ⟨config.strongestAvailable bar, "discovery", "priority", "discovery: strongest available runtime"⟩

/-- A declared runtime, unless the bar or its availability forbids it. -/
def declared (bar : JudgeBar) (id rule reason : String) : Decision :=
  ⟨if config.admits bar id then some id else none, rule, "declared", reason⟩

def resolveRole (node : RoutingNode) (role : Role) (bar : JudgeBar) : Decision :=
  match roleOf (config.overrides node.id) role, roleOf config.runtimeDefaults role with
  | some id, _ => config.declared bar id "override" s!"operator override on node {node.id}"
  | none, some id => config.declared bar id "runtimeDefaults" "operator runtimeDefaults"
  | none, none =>
    match config.table.find? (rowMatches node role) with
    | some row =>
      let name := row.strategy.getD "priority"
      let choice := config.chooseByStrategy ((strategy? name).getD .priority) row.prefer bar
        (roleOf (config.previous node.id) role)
      ⟨choice.1, ruleLabel row, name, choice.2⟩
    | none => config.discover role bar

end RoutingConfig

/-! ## All nodes -/

structure Assignment where
  worker : Decision
  judge : Decision

/-- A role without a runtime, by its rule. -/
structure Unmet where
  nodeId : String
  role : Role
  rule : String

structure Result where
  assignments : String → Option Assignment
  unmet : List Unmet

def unmetRole (nodeId : String) (role : Role) (decision : Decision) : List Unmet :=
  if decision.runtimeId = none then [⟨nodeId, role, decision.rule⟩] else []

namespace RoutingConfig

variable (config : RoutingConfig)

/-- The bar of a node's judge follows the worker that was chosen. -/
def judgeBar (worker : Decision) : JudgeBar :=
  match nonempty? worker.runtimeId with
  | some workerId => judgeBarFor workerId config.runtimes config.sameVendor
  | none => noBar

def assign (node : RoutingNode) : Assignment :=
  let worker := config.resolveRole node .worker noBar
  ⟨worker, config.resolveRole node .judge (config.judgeBar worker)⟩

/-- The loop over the nodes. -/
def assignNodes : List RoutingNode → Result
  | [] => ⟨fun _ => none, []⟩
  | node :: rest =>
    let later := assignNodes rest
    let here := config.assign node
    ⟨fun id => (later.assignments id).or (if id = node.id then some here else none),
      unmetRole node.id .worker here.worker ++ unmetRole node.id .judge here.judge ++ later.unmet⟩

end RoutingConfig

def unmetText (unmet : Unmet) : String := s!"{unmet.nodeId}.{unmet.role.name} (rule: {unmet.rule})"

/-- A strategy name outside the vocabulary fails first. -/
def checkTable (table : List RoutingRule) : Except Refusal Unit :=
  table.forM fun row =>
    let name := row.strategy.getD "priority"
    check (strategy? name).isSome s!"routing rule {ruleLabel row} names unknown strategy {name}"

/-- `resolveRuntimes`; a node without a runtime is an error unless the caller takes a partial result. -/
def resolveRuntimes (nodes : List RoutingNode) (config : RoutingConfig) (allowsUnmet : Bool) : Except Refusal Result := do
  checkTable config.table
  let result := config.assignNodes nodes
  let detail := String.intercalate "; " (result.unmet.map unmetText)
  check (result.unmet.isEmpty || allowsUnmet) s!"runtime_routing_unmet: {detail}"
  return result

/-- What the contract carries of an assignment: `toContractNode`, as far as the runtimes go. -/
def toContractNode (node : RoutingNode) (assignment : Option Assignment) : ReviewNode :=
  ⟨node.riskTier ≠ some "low", nonempty? (assignment.bind fun given => given.judge.runtimeId),
    nonempty? (assignment.bind fun given => given.worker.runtimeId), false⟩

/-! ## Before a plan spends -/

/-- The loop of `refuseUnplannableRuntimes` over the default worker's chain. -/
def refuseChain (sameVendor : Bool) (worker judge judgeVendor : String) (judgeRuntime : Runtime) :
    List (String × Runtime) → Except Refusal Unit
  | [] => .ok ()
  | (id, runtime) :: rest =>
    if effectiveProvider runtime = some judgeVendor then
      if sameVendor then
        match sameVendorTierRefusal runtime judgeRuntime with
        | some refusal =>
          let place := if id = worker then "worker" else "worker fallback"
          .error ⟨none, s!"--runtime-defaults judge={judge} shares vendor {judgeVendor} with {place} {id} under --judge-independence same-vendor, but {refusal.message}"⟩
        | none => refuseChain sameVendor worker judge judgeVendor judgeRuntime rest
      else
        .error ⟨none, s!"--runtime-defaults judge={judge} shares vendor {judgeVendor} with worker {worker} or its fallback, so no frozen node could route its judge; name a judge of another vendor, or pass --judge-independence same-vendor"⟩
    else refuseChain sameVendor worker judge judgeVendor judgeRuntime rest

/-- The chain of a worker up to an empty id. -/
def plannableChain (runtimes : Catalogue) (worker : String) : List (String × Runtime) :=
  (workerChain runtimes worker).takeWhile fun entry => entry.1 ≠ ""

/-- `executionRefusal` is what `assertRuntimeExecutesCommands` throws about a runtime, if it does. -/
def refuseUnplannableRuntimes (executionRefusal : Runtime → Option String) (runtimes : Catalogue) (defaults : RoleMap)
    (implementation sameVendor : Bool) : Except Refusal Unit :=
  match (nonempty? defaults.worker).bind fun worker => (runtimes.get? worker).map fun runtime => (worker, runtime) with
  | none => .ok ()
  | some (worker, runtime) =>
    match (executionRefusal runtime).filter fun _ => implementation with
    | some message =>
      .error ⟨none, s!"--runtime-defaults worker={worker} cannot run the verification an implementation plan carries: {message}"⟩
    | none =>
      match (nonempty? defaults.judge).bind fun judge => (runtimes.get? judge).map fun runtime => (judge, runtime) with
      | none => .ok ()
      | some (judge, judgeRuntime) =>
        match effectiveProvider judgeRuntime with
        | none => .ok ()
        | some judgeVendor => refuseChain sameVendor worker judge judgeVendor judgeRuntime (plannableChain runtimes worker)

end Faberun.Routing
