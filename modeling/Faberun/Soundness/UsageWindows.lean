import Mathlib.Algebra.BigOperators.Group.List.Basic
import Faberun.Model.Run.UsageWindows

/-! # What an account was asked to spend

The totals of an account are the measured counters of the invocations since its provider last reported its windows, and
the windows are the last ones reported. Processes that overlap may lose changes to the file, and only that.
-/

namespace Faberun.UsageWindows

open SessionMetrics (addMeasured)
open JudgeList (UsageWindow)

variable {ν : Type} [AddCommMonoid ν] {account : String}

/-! ## Sums -/

/-- The sum of what was measured, if anything was. -/
def measuredSum (values : List (Option ν)) : Option ν :=
  if (values.filterMap id).isEmpty then none else some (values.filterMap id).sum

theorem measuredSum_cons (value : Option ν) (values : List (Option ν)) :
    measuredSum (value :: values) = addMeasured (measuredSum values) value := by
  rw [measuredSum, measuredSum]
  cases value with
  | none =>
    rw [List.filterMap_cons_none rfl]
    cases values.filterMap id <;> simp [addMeasured]
  | some value =>
    have more : (some value :: values).filterMap id = value :: values.filterMap id := rfl
    rw [more]
    cases values.filterMap id <;> simp [addMeasured, add_comm]

/-- The measured sum of every counter. -/
def UsageCounters.sum (all : List (UsageCounters ν)) : UsageCounters ν where
  bytes := measuredSum (all.map UsageCounters.bytes)
  inputTokens := measuredSum (all.map UsageCounters.inputTokens)
  cacheReadInputTokens := measuredSum (all.map UsageCounters.cacheReadInputTokens)
  cacheWriteInputTokens := measuredSum (all.map UsageCounters.cacheWriteInputTokens)
  outputTokens := measuredSum (all.map UsageCounters.outputTokens)

theorem sum_cons (counters : UsageCounters ν) (all : List (UsageCounters ν)) :
    UsageCounters.sum (counters :: all) = addCounters (some (.sum all)) counters := by
  simp only [UsageCounters.sum, addCounters, List.map_cons, measuredSum_cons, Option.bind_some]

theorem sum_singleton (counters : UsageCounters ν) : UsageCounters.sum [counters] = addCounters none counters :=
  sum_cons counters []

/-! ## The record of an account -/

namespace Change

/-- The windows the provider of an account reported. -/
def reported (account : String) : Change ν → Option (List UsageWindow)
  | windows other reported _ => if other = account then some reported else none
  | usage _ _ _ => none

def spent (account : String) : Change ν → Option (UsageCounters ν)
  | usage other counters _ => if other = account then some counters else none
  | windows _ _ _ => none

end Change

/-- What was spent since the last report, the last invocation first. -/
def spentSince (account : String) (changes : List (Change ν)) : List (UsageCounters ν) :=
  (changes.takeWhile fun change => (change.reported account).isNone).filterMap (Change.spent account)

def totalsOf (spent : List (UsageCounters ν)) : Option (UsageCounters ν) := if spent.isEmpty then none else some (.sum spent)

theorem totalsOf_cons (counters : UsageCounters ν) (spent : List (UsageCounters ν)) :
    totalsOf (counters :: spent) = some (addCounters (totalsOf spent) counters) := by
  cases spent with
  | nil => rw [totalsOf, List.isEmpty_cons, if_neg Bool.false_ne_true, sum_singleton]; rfl
  | cons first rest => simp [totalsOf, sum_cons counters]

/-- The record some changes make of an account. -/
theorem get?_contentOf (account : String) (changes : List (Change ν)) :
    ((UnlockedFile.contentOf apply .empty changes).get? account).bind AccountWindows.totals =
        totalsOf (spentSince account changes) ∧
      (((UnlockedFile.contentOf apply .empty changes).get? account).map AccountWindows.windows).getD [] =
        (changes.findSome? (Change.reported account)).getD [] := by
  induction changes with
  | nil => exact ⟨rfl, rfl⟩
  | cons change changes ih =>
    obtain ⟨totals, windows⟩ := ih
    have read : UnlockedFile.contentOf apply .empty (change :: changes) =
        apply (UnlockedFile.contentOf apply .empty changes) change := rfl
    rw [read]
    generalize UnlockedFile.contentOf apply .empty changes = accounts at totals windows
    rw [spentSince, List.takeWhile_cons, List.findSome?_cons]
    cases change with
    | windows other reported now =>
      rw [apply, KeyedStore.get?_set]
      by_cases same : account = other
      · subst same
        simp [Change.reported, totalsOf]
      · simpa [same, Ne.symm same, Change.reported, Change.spent] using ⟨totals, windows⟩
    | usage other counters now =>
      rw [apply, KeyedStore.get?_set]
      by_cases same : account = other
      · subst same
        have spent : Change.spent account (.usage account counters now) = some counters := by simp [Change.spent]
        have none' : Change.reported account (.usage account counters now) = none := rfl
        simp only [if_true, none', Option.isNone_none, List.filterMap_cons_some spent, totalsOf_cons, Option.bind_some,
          Option.map_some, Option.getD_some]
        rw [← spentSince, ← totals, ← windows]
        cases accounts.get? account <;> exact ⟨rfl, rfl⟩
      · simpa [same, Ne.symm same, Change.reported, Change.spent] using ⟨totals, windows⟩

def Initial (f : UnlockedFile (Accounts ν) (Change ν)) : Prop := f = UnlockedFile.untouched .empty

/-- Over every interleaving of the processes of a machine, with processes that die and files that are lost: there is a
part of the changes made, in their order, such that an account's totals are the measured sums of what was spent since the
last report among them, and its windows those of that report that have not reset. When no process reads the file while
another one has yet to write it, the part is all that was written. -/
theorem account_totals {f : UnlockedFile (Accounts ν) (Change ν)} (reach : machine.Reach Machine.free Initial f) :
    ∃ kept, kept.Sublist f.opened ∧ (machine.Reach UnlockedFile.Serial Initial f → kept = f.written) ∧ ∀ account,
      readAccountUsage f.file.content account = totalsOf (spentSince account kept) ∧
      ∀ clock, readUsageWindows clock f.file.content account =
        unreset clock ((kept.findSome? (Change.reported account)).getD []) account := by
  obtain ⟨made, part⟩ := UnlockedFile.file_sound reach
  refine ⟨f.file.lineage, part, UnlockedFile.lineage_of_serial, fun account => ?_⟩
  obtain ⟨totals, windows⟩ := get?_contentOf account f.file.lineage
  refine ⟨?_, fun clock => ?_⟩
  · rw [readAccountUsage, made, totals]
  · rw [readUsageWindows, made, windows]

/-- Two invocations, and a report between them. -/
def reportedBetween : List (UnlockedFile.Label (Change Nat)) :=
  let spent (tokens : Nat) : UsageCounters Nat := { emptyCounters with outputTokens := some tokens }
  [.opens (.usage "codex:home" (spent 5) 0), .write 0,
    .opens (.windows "codex:home" [⟨"five_hour", some 40, "1970-01-01T05:00:00.000Z"⟩] 1), .write 0,
    .opens (.usage "codex:home" (spent 7) 2), .write 0]

theorem account_totals_reported : ∃ f,
    machine.replay? UnlockedFile.Serial (UnlockedFile.untouched .empty) reportedBetween = some f ∧
    (spentSince "codex:home" f.written).map UsageCounters.outputTokens = [some 7] ∧
    readAccountUsage f.file.content "codex:home" = totalsOf (spentSince "codex:home" f.written) := by
  refine Machine.exists_replay (fun f => (spentSince "codex:home" f.written).map UsageCounters.outputTokens = [some 7])
    (fun f ran last => ⟨last, ?_⟩) (by decide)
  have reach : machine.Reach UnlockedFile.Serial Initial f := .of_replay rfl _ ran
  have free : machine.Reach Machine.free Initial f := reach.mono fun _ _ _ => trivial
  obtain ⟨kept, -, all, told⟩ := account_totals free
  rw [(told "codex:home").1, all reach]

end Faberun.UsageWindows
