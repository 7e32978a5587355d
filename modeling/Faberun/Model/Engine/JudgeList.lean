import Faberun.Model.Plan.Routing

/-! # Judge lists

The judge of a gated node as the first eligible entry of an ordered list, and the hop out of one that was refused, as
`engine/judge-list.mjs` takes them. What was tried before is read back from the reasons the last pick recorded. Every call
finds the machine's refusals and usage windows as they are at that moment.
-/

namespace Faberun.JudgeList

open Routing (Clock)

structure JudgeSkip where
  id : String
  reason : String
  deriving DecidableEq

structure JudgeListPick where
  chosen : Option String
  skipped : List JudgeSkip
  deriving DecidableEq

structure JudgeListState where
  list : List String
  chosen : Option String
  skipped : List JudgeSkip
  deriving DecidableEq

/-! ## What a call finds on the machine -/

/-- A verdict of the availability store. -/
structure RuntimeAvailability where
  available : Bool
  exhaustedUntil : Option String
  reason : String

structure UsageWindow where
  window : String
  /-- The number, when it is one. -/
  usedPercent : Option Rat
  resetsAt : String

/-- The machine at a call. -/
structure Surroundings where
  clock : Clock
  /-- The availability store, by key. -/
  verdicts : String → Option RuntimeAvailability
  /-- The usage-window store, by account. -/
  windows : String → List UsageWindow
  codexHome : String

/-- `readRefusal`: the refusal of a key that has not yet reset. -/
def readRefusal (machine : Surroundings) (key : String) : Option RuntimeAvailability :=
  (machine.verdicts key).filter fun record =>
    !record.available && (nonempty? record.exhaustedUntil).any fun moment =>
      (machine.clock.parse moment).any fun time => machine.clock.now < time

/-- `usageAccountOf`. -/
def usageAccountOf (machine : Surroundings) (runtime : Runtime) : Option String :=
  if runtime.harness = "codex" then some s!"codex:{machine.codexHome}" else none

/-- `readUsageWindows`: the windows of an account that have not reset, with their numbers. -/
def readUsageWindows (machine : Surroundings) (account : String) : List (UsageWindow × Rat) :=
  (machine.windows account).filterMap fun window =>
    window.usedPercent.bind fun percent =>
      if (machine.clock.parse window.resetsAt).any fun time => machine.clock.now < time then some (window, percent) else none

/-- `JUDGE_USAGE_WINDOW_LIMIT_PERCENT`. -/
def judgeUsageWindowLimitPercent : Rat := 90

/-- `overspentWindow`. -/
def overspentWindow (machine : Surroundings) (runtime : Runtime) : Option (UsageWindow × Rat) :=
  (usageAccountOf machine runtime).bind fun account =>
    (readUsageWindows machine account).find? fun window => judgeUsageWindowLimitPercent < window.2

/-! ## The worker's providers -/

/-- The loop of `reachableWorkerProviders`: the runtimes seen when it ends. -/
def fallbackIds (runtimes : Catalogue) : Nat → List String → String → List String
  | 0, seen, _ => seen
  | fuel + 1, seen, current =>
    match nonempty? ((runtimes.get? current).bind Runtime.fallback) with
    | none => seen
    | some next =>
      if seen.contains next || (runtimes.get? next).isNone then seen
      else fallbackIds runtimes fuel (next :: seen) next

/-- `reachableWorkerProviders`; a worker that is not declared has no vendor to read. -/
def reachableWorkerProviders (runtimes : Catalogue) (workerId : String) : Except Refusal (List (Option String)) :=
  if (runtimes.get? workerId).isSome then
    .ok (((fallbackIds runtimes runtimes.entries.length [workerId] workerId).filterMap runtimes.get?).map effectiveProvider)
  else .error ⟨none, "Cannot read properties of undefined (reading 'vendor')"⟩

/-! ## Picking -/

def attemptedReason : String := "already attempted this run"

section

-- `executable` is what the adapter of a harness answers for a runtime; a harness without an adapter is refused
variable (executable : Runtime → Except Refusal String) (runtimes : Catalogue)

/-- `availabilityKey`. -/
def availabilityKey (runtime : Runtime) (program : String) : String := s!"{runtime.harness}:{runtime.model}:{program}"

/-- Why the loop goes past a runtime the worker does not run. -/
def unavailableReason (machine : Surroundings) (runtime : Runtime) (program : String) : Option String :=
  match readRefusal machine (availabilityKey runtime program) with
  | some refusal => some s!"recorded refusal: {refusal.reason}"
  | none => (overspentWindow machine runtime).map fun window =>
    s!"usage window {window.1.window} at {machine.clock.showNumber window.2}%, above {machine.clock.showNumber judgeUsageWindowLimitPercent}%"

/-- Why the loop goes past an entry, when it does. -/
def skipReason (machine : Surroundings) (attempted : List String) (workerProviders : List (Option String)) (id : String) :
    Except Refusal (Option String) :=
  if attempted.contains id then .ok (some attemptedReason)
  else match runtimes.get? id with
    | none => .ok (some "not declared in contract.runtimes")
    | some runtime =>
      if workerProviders.contains (effectiveProvider runtime) then
        .ok (some s!"same provider as the worker: {shown (effectiveProvider runtime)}")
      else (executable runtime).map fun program => unavailableReason machine runtime program

/-- The entries after a pick that were tried before. -/
def attemptedAfter (list attempted : List String) (id : String) : List JudgeSkip :=
  ((list.drop (list.idxOf id + 1)).filter attempted.contains).map fun later => ⟨later, attemptedReason⟩

/-- The loop of `selectListJudge`. -/
def pickFrom (machine : Surroundings) (list attempted : List String) (workerProviders : List (Option String)) :
    List JudgeSkip → List String → Except Refusal JudgeListPick
  | skipped, [] => .ok ⟨none, skipped⟩
  | skipped, id :: rest =>
    match skipReason executable runtimes machine attempted workerProviders id with
    | .error refusal => .error refusal
    | .ok (some reason) => pickFrom machine list attempted workerProviders (skipped ++ [⟨id, reason⟩]) rest
    | .ok none => .ok ⟨some id, skipped ++ attemptedAfter list attempted id⟩

def selectListJudge (machine : Surroundings) (list : List String) (workerId : String) (attempted : List String) :
    Except Refusal JudgeListPick := do
  let workerProviders ← reachableWorkerProviders runtimes workerId
  pickFrom executable runtimes machine list attempted workerProviders [] list

def initialJudgeListState (machine : Surroundings) (list : List String) (workerId : String) : Except Refusal JudgeListState :=
  (selectListJudge executable runtimes machine list workerId []).map fun pick => ⟨list, pick.chosen, pick.skipped⟩

/-- The judges the last pick names as tried. -/
def previouslyChosen (skipped : List JudgeSkip) : List String :=
  (skipped.filter fun entry => entry.reason = attemptedReason).map (·.id)

def nextListJudge (machine : Surroundings) (judgeListState : JudgeListState) (workerId : String) :
    Except Refusal JudgeListState :=
  let attempted := previouslyChosen judgeListState.skipped ++ (nonempty? judgeListState.chosen).toList
  (selectListJudge executable runtimes machine judgeListState.list workerId attempted).map fun pick =>
    ⟨judgeListState.list, pick.chosen, pick.skipped⟩

/-! ## Hops -/

/-- A call: the worker it names and the machine it finds. -/
structure JudgeCall where
  workerId : String
  machine : Surroundings

/-- What later calls return; one that throws leaves the state it was called with. -/
def hopsFrom (state : JudgeListState) : List JudgeCall → List (JudgeCall × JudgeListState)
  | [] => []
  | call :: rest =>
    match nextListJudge executable runtimes call.machine state call.workerId with
    | .error _ => hopsFrom state rest
    | .ok after => (call, after) :: hopsFrom after rest

/-- What a first call and later ones return. -/
def judgeHops (list : List String) (first : JudgeCall) (later : List JudgeCall) : List (JudgeCall × JudgeListState) :=
  match initialJudgeListState executable runtimes first.machine list first.workerId with
  | .error _ => []
  | .ok state => (first, state) :: hopsFrom executable runtimes state later

end

end Faberun.JudgeList
