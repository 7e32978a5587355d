import Faberun.Machine.KeyedStore
import Faberun.Machine.UnlockedFile
import Faberun.Model.Engine.JudgeList
import Faberun.Model.Harnesses.SessionMetrics

/-! # Usage of the accounts

The embedding of `run/usage-windows.mjs`: the file of the machine that holds, for each account, the windows its provider
last reported and what was spent since. Every controller on the machine adds to it, and none takes a lock.
-/

namespace Faberun.UsageWindows

open JudgeList (UsageWindow)
open SessionMetrics (addMeasured)

structure UsageCounters (ν : Type) where
  bytes : Option ν
  inputTokens : Option ν
  cacheReadInputTokens : Option ν
  cacheWriteInputTokens : Option ν
  outputTokens : Option ν
  deriving DecidableEq, Repr

/-- `emptyCounters`. -/
def emptyCounters {ν : Type} : UsageCounters ν := ⟨none, none, none, none, none⟩

/-- The record of an account. -/
structure AccountWindows (ν : Type) where
  windows : List UsageWindow
  observedAt : Int
  totals : Option (UsageCounters ν)

/-- `loadStore().accounts`. -/
abbrev Accounts (ν : Type) := KeyedStore String (AccountWindows ν)

/-- `usageAccountOf`. -/
def usageAccountOf (harness codexHome : String) : Option String := if harness = "codex" then some s!"codex:{codexHome}" else none

/-- A write of a process. -/
inductive Change (ν : Type) where
  /-- `recordUsageWindows`, when there is a window. -/
  | windows (account : String) (reported : List UsageWindow) (now : Int)
  /-- `addAccountUsage`, when there is an account. -/
  | usage (account : String) (counters : UsageCounters ν) (now : Int)

variable {ν : Type}

/-- `recordUsageWindows` writes nothing without a window. -/
def recordUsageWindows (account : String) (reported : List UsageWindow) (now : Int) : Option (Change ν) :=
  if reported.isEmpty then none else some (.windows account reported now)

/-- `recordInvocationWindows`; `reported` is what the session file of a continuation says. -/
def recordInvocationWindows (harness codexHome : String) (continuationId : Option String)
    (reported : String → List UsageWindow) (now : Int) : Option (Change ν) :=
  (usageAccountOf harness codexHome).bind fun account =>
    (nonempty? continuationId).bind fun id => recordUsageWindows account (reported id) now

/-- `addAccountUsage` writes nothing for a harness without an account. -/
def addAccountUsage (harness codexHome : String) (counters : UsageCounters ν) (now : Int) : Option (Change ν) :=
  (usageAccountOf harness codexHome).map fun account => .usage account counters now

/-- Those of the windows of an account that have not reset. -/
def unreset (clock : Routing.Clock) (windows : List UsageWindow) (account : String) : List (UsageWindow × Rat) :=
  JudgeList.readUsageWindows ⟨clock, fun _ => none, fun _ => windows, ""⟩ account

def readUsageWindows (clock : Routing.Clock) (accounts : Accounts ν) (account : String) : List (UsageWindow × Rat) :=
  unreset clock (((accounts.get? account).map AccountWindows.windows).getD []) account

def readAccountUsage (accounts : Accounts ν) (account : String) : Option (UsageCounters ν) :=
  (accounts.get? account).bind AccountWindows.totals

section

variable [Add ν] [Zero ν]

/-- `addCounters`; totals that are absent count as unmeasured. -/
def addCounters (left : Option (UsageCounters ν)) (right : UsageCounters ν) : UsageCounters ν where
  bytes := addMeasured (left.bind UsageCounters.bytes) right.bytes
  inputTokens := addMeasured (left.bind UsageCounters.inputTokens) right.inputTokens
  cacheReadInputTokens := addMeasured (left.bind UsageCounters.cacheReadInputTokens) right.cacheReadInputTokens
  cacheWriteInputTokens := addMeasured (left.bind UsageCounters.cacheWriteInputTokens) right.cacheWriteInputTokens
  outputTokens := addMeasured (left.bind UsageCounters.outputTokens) right.outputTokens

def apply (accounts : Accounts ν) : Change ν → Accounts ν
  | .windows account reported now => accounts.set account ⟨reported, now, none⟩
  | .usage account counters now =>
    accounts.set account <| match accounts.get? account with
      | some existing => { existing with totals := some (addCounters existing.totals counters) }
      | none => ⟨[], now, some (addCounters (some emptyCounters) counters)⟩

def machine : Machine (UnlockedFile (Accounts ν) (Change ν)) (UnlockedFile.Label (Change ν)) := UnlockedFile.machine apply .empty

end

end Faberun.UsageWindows
