import Faberun.Model.Engine.RunProgress

/-! # What the progress of a run says

Each declared node gets a verdict from the snapshot of its id that was read last. The two reductions of a run directory,
its state and its outcome, are functions of these verdicts, and so is the classification the campaign chain acts on. A
run that waits names an instant: it waits until that instant, and not from then on.
-/

namespace Faberun.Supervise

open RetryPlan (RetryClock RetryState earliestTierReset)
open Chain (classifyRunProgress)

/-- What a declared node is to its run. -/
inductive Verdict where
  | succeeded
  /-- It ended, and not in success. -/
  | settled
  /-- Its tier is exhausted, and the first reset it recorded is still to come. -/
  | waits (reset : Int)
  | due
  | moving
  /-- It has no snapshot, or one that cannot be read. -/
  | absent
  deriving DecidableEq, Repr

namespace Verdict

def settles : Verdict → Bool
  | succeeded | settled => true
  | waits _ | due | moving | absent => false

def stirs : Verdict → Bool
  | due | moving | absent => true
  | succeeded | settled | waits _ => false

def reset? : Verdict → Option Int
  | waits reset => some reset
  | succeeded | settled | due | moving | absent => none

/-- The outcome counts a due node as waiting. -/
def waitsOrDue : Verdict → Bool
  | waits _ | due => true
  | succeeded | settled | moving | absent => false

end Verdict

variable {clock : RetryClock} {files : List SnapshotFile} {contract : Option (List String)} {canceled : Bool} {id : String}

/-- The snapshot of an id: of the files that give it, the last one read. -/
def snapshotOf (files : List SnapshotFile) (id : String) : Option (Except String RetryState) :=
  (files.filter fun file => decide (file.key = id)).getLast?.map fun file => file.read.map Prod.snd

def verdictOf (clock : RetryClock) : Option (Except String RetryState) → Verdict
  | none | some (.error _) => .absent
  | some (.ok state) =>
    if success state.status then .succeeded
    else match tierReset clock state with
      | some reset => if clock.now < reset then .waits reset else .due
      | none => if state.status.settled then .settled else .moving

def verdict (clock : RetryClock) (files : List SnapshotFile) (id : String) : Verdict := verdictOf clock (snapshotOf files id)

theorem get?_snapshotsOf : (snapshotsOf files).get? id = snapshotOf files id := by
  rw [snapshotsOf, KeyedStore.get?_foldl_set, KeyedStore.get?_empty, Option.or_none]
  rfl

theorem blocked_of_blockedWith {code : String} {status : NodeStatus} {error : Option NodeError}
    (blocked : blockedWith code status error = true) : status = .blocked := by
  rw [blockedWith, Bool.and_eq_true, decide_eq_true_eq] at blocked
  exact blocked.1

/-! ## The state -/

def Tally.after (so : Tally) (verdict : Verdict) : Tally where
  terminal := so.terminal + if verdict.settles then 1 else 0
  unfinished := so.unfinished || verdict.stirs
  earliestWaiting := match verdict.reset? with
    | some reset => earlier so.earliestWaiting reset
    | none => so.earliestWaiting

theorem tallyNode_eq (so : Tally) : tallyNode clock (snapshotsOf files) so id = so.after (verdict clock files id) := by
  rw [tallyNode, get?_snapshotsOf, verdict, verdictOf.eq_def]
  rcases snapshotOf files id with _ | _ | state
  · simp [Tally.after, Verdict.settles, Verdict.stirs, Verdict.reset?]
  · simp [Tally.after, Verdict.settles, Verdict.stirs, Verdict.reset?]
  · by_cases exhausted : blockedWith "runtime_tier_exhausted" state.status state.error = true
    · have blocked : state.status = .blocked := blocked_of_blockedWith exhausted
      have ended : NodeStatus.settled .blocked = true := rfl
      rw [blocked] at exhausted
      simp only [tierReset, blocked, exhausted, if_true, success, Bool.false_eq_true, if_false, ended]
      cases earliestTierReset clock state with
      | none => simp [Tally.after, Verdict.settles, Verdict.stirs, Verdict.reset?]
      | some reset =>
        by_cases ahead : clock.now < reset <;> simp [ahead, Tally.after, Verdict.settles, Verdict.stirs, Verdict.reset?]
    · simp only [tierReset, exhausted, if_false, Bool.false_eq_true]
      cases state.status <;> simp [success, NodeStatus.settled, NodeStatus.terminal, NodeStatus.parked, Tally.after,
        Verdict.settles, Verdict.stirs, Verdict.reset?]

theorem tally_eq (declared : List String) (so : Tally) :
    declared.foldl (tallyNode clock (snapshotsOf files)) so =
      { terminal := so.terminal + declared.countP fun id => (verdict clock files id).settles
        unfinished := so.unfinished || declared.any fun id => (verdict clock files id).stirs
        earliestWaiting := (declared.filterMap fun id => (verdict clock files id).reset?).foldl earlier so.earliestWaiting } := by
  induction declared generalizing so with
  | nil => simp
  | cons id declared ih =>
    rw [List.foldl_cons, ih, tallyNode_eq, List.countP_cons, List.any_cons, List.filterMap_cons]
    simp only [Tally.after, Tally.mk.injEq]
    refine ⟨by omega, Bool.or_assoc _ _ _, ?_⟩
    cases (verdict clock files id).reset? <;> rfl

/-! ## The outcome -/

variable (clock files id) in
theorem reduceNode_step (so : Reduction) :
    (reduceNode clock (snapshotsOf files) so id).nonSuccess.map OutcomeNode.id =
        so.nonSuccess.map OutcomeNode.id ++ (if verdict clock files id = .succeeded then [] else [id]) ∧
      (reduceNode clock (snapshotsOf files) so id).allWaiting =
        (so.allWaiting && (decide (verdict clock files id = .succeeded) || (verdict clock files id).waitsOrDue)) := by
  rw [reduceNode, get?_snapshotsOf, verdict, verdictOf.eq_def]
  rcases snapshotOf files id with _ | _ | state
  · simp [Verdict.waitsOrDue]
  · simp [Verdict.waitsOrDue]
  · dsimp only
    by_cases succeeded : success state.status = true
    · simp [succeeded]
    · simp only [succeeded, if_false, Bool.false_eq_true]
      cases tierReset clock state with
      | none => cases state.status.settled <;> simp [Verdict.waitsOrDue]
      | some reset => by_cases ahead : clock.now < reset <;> simp [ahead, Verdict.waitsOrDue]

variable (clock files) in
/-- The nodes the outcome names, and whether they all wait. -/
theorem reduction_eq (declared : List String) (so : Reduction) :
    (declared.foldl (reduceNode clock (snapshotsOf files)) so).nonSuccess.map OutcomeNode.id =
        so.nonSuccess.map OutcomeNode.id ++ declared.filter (fun id => verdict clock files id ≠ .succeeded) ∧
      (declared.foldl (reduceNode clock (snapshotsOf files)) so).allWaiting =
        (so.allWaiting && declared.all fun id =>
          decide (verdict clock files id = .succeeded) || (verdict clock files id).waitsOrDue) := by
  induction declared generalizing so with
  | nil => simp
  | cons id declared ih =>
    obtain ⟨named, waiting⟩ := reduceNode_step clock files id so
    rw [List.foldl_cons, (ih _).1, (ih _).2, named, waiting, List.filter_cons, List.all_cons, Bool.and_assoc]
    refine ⟨?_, rfl⟩
    by_cases succeeded : verdict clock files id = .succeeded <;> simp [succeeded]

theorem reduceRunOutcome_succeeded {declared : List String} :
    (reduceRunOutcome clock declared (snapshotsOf files) canceled).outcome = .succeeded ↔
      canceled = false ∧ declared ≠ [] ∧ ∀ id ∈ declared, verdict clock files id = .succeeded := by
  have named := (reduction_eq clock files declared ⟨[], true, none⟩).1
  rw [reduceRunOutcome]
  generalize declared.foldl (reduceNode clock (snapshotsOf files)) ⟨[], true, none⟩ = reduced at named ⊢
  have none_named : reduced.nonSuccess.isEmpty = true ↔ ∀ id ∈ declared, verdict clock files id = .succeeded := by
    rw [List.isEmpty_iff, ← List.map_eq_nil_iff (f := OutcomeNode.id), named]
    simp
  cases canceled with
  | true => simp
  | false =>
    simp only [Bool.false_eq_true, if_false, true_and, ← none_named]
    cases declared <;> split_ifs <;> simp_all

theorem reduceRunOutcome_canceled {declared : List String} :
    (reduceRunOutcome clock declared (snapshotsOf files) canceled).outcome = .canceled ↔ canceled = true := by
  rw [reduceRunOutcome]
  cases canceled <;> simp only [Bool.false_eq_true, if_false, if_true]
  split_ifs <;> simp

theorem reduceRunOutcome_names {declared : List String} :
    (reduceRunOutcome clock declared (snapshotsOf files) canceled).nodes.map OutcomeNode.id =
      if canceled then [] else declared.filter fun id => verdict clock files id ≠ .succeeded := by
  have named := (reduction_eq clock files declared ⟨[], true, none⟩).1
  rw [reduceRunOutcome, ← List.nil_append (declared.filter _)]
  generalize declared.foldl (reduceNode clock (snapshotsOf files)) ⟨[], true, none⟩ = reduced at named ⊢
  cases canceled with
  | true => rfl
  | false =>
    simp only [Bool.false_eq_true, if_false]
    split_ifs with empty ended waiting
    · rw [List.isEmpty_iff] at empty
      rw [empty] at named
      exact named
    · rw [List.isEmpty_iff] at empty
      rw [empty] at named
      exact named
    · exact named
    · exact named

/-! ## The classification -/

variable (clock files contract canceled) in
/-- What the campaign chain acts on. -/
def told : Chain.Classification := classifyRunProgress (runProgress clock files contract canceled).toRunProgress

theorem runProgress_of_files (some' : files ≠ []) :
    (runProgress clock files contract canceled).toRunProgress =
      { state :=
          if unreadable files then .unknown
          else if ∀ id ∈ declaredOf contract files, (verdict clock files id).settles = true then .done
          else if ∃ id ∈ declaredOf contract files, (verdict clock files id).stirs = true then .unfinished
          else .waiting
        runOutcome := some (reduceRunOutcome clock (declaredOf contract files) (snapshotsOf files) canceled).outcome } := by
  simp only [runProgress, List.isEmpty_iff, some', if_false, tally_eq, Nat.zero_add, Bool.false_or, List.countP_eq_length,
    List.any_eq_true]

theorem told_of_no_files (none' : files = []) : told clock files contract canceled = .unfinished := by
  subst none'
  rfl

theorem settles_or_stirs (said : Verdict) : said.settles = true ∨ said.stirs = true ∨ ∃ reset, said = .waits reset := by
  cases said <;> simp [Verdict.settles, Verdict.stirs]

theorem quiet_of_settles {said : Verdict} (settles : said.settles = true) : said.stirs = false := by
  cases said <;> simp_all [Verdict.settles, Verdict.stirs]

/-- A run none of whose nodes stirs waits if one of its nodes does. -/
theorem waits_of_quiet {declared : List String} {said : String → Verdict}
    (quiet : ∀ id ∈ declared, (said id).stirs = false) :
    (¬∀ id ∈ declared, (said id).settles = true) ↔ ∃ id ∈ declared, ∃ reset, said id = .waits reset := by
  constructor
  · intro open'
    obtain ⟨id, member, unsettled⟩ : ∃ id ∈ declared, ¬(said id).settles = true := by simpa using open'
    obtain settles | stirs | waits := settles_or_stirs (said id)
    · exact absurd settles unsettled
    · exact absurd stirs (by simp [quiet id member])
    · exact ⟨id, member, waits⟩
  · rintro ⟨id, member, reset, waits⟩ settled
    have settles := settled id member
    rw [waits] at settles
    exact Bool.false_ne_true settles

theorem told_of_files (some' : files ≠ []) :
    told clock files contract canceled =
      if canceled then .canceled
      else if declaredOf contract files ≠ [] ∧ ∀ id ∈ declaredOf contract files, verdict clock files id = .succeeded then
        .succeeded
      else if unreadable files then .unfinished
      else if ∀ id ∈ declaredOf contract files, (verdict clock files id).settles = true then .parked
      else if ∃ id ∈ declaredOf contract files, (verdict clock files id).stirs = true then .unfinished
      else .waiting := by
  rw [told, runProgress_of_files some', classifyRunProgress]
  simp only [Option.some.injEq, reduceRunOutcome_succeeded, reduceRunOutcome_canceled]
  cases canceled with
  | true => rfl
  | false =>
    simp only [Bool.false_eq_true, if_false, true_and]
    refine if_congr Iff.rfl rfl ?_
    cases unreadable files with
    | true => rfl
    | false =>
      by_cases ended : ∀ id ∈ declaredOf contract files, (verdict clock files id).settles = true
      · simp only [if_pos ended, reduceCtorEq, Bool.false_eq_true, if_false, if_true]
      · by_cases stirs : ∃ id ∈ declaredOf contract files, (verdict clock files id).stirs = true
        · simp only [if_neg ended, if_pos stirs, reduceCtorEq, Bool.false_eq_true, if_false]
        · simp only [if_neg ended, if_neg stirs, Bool.false_eq_true, if_false, if_true]

/-- A waiting run: a declared node waits for its reset, and none stirs. -/
theorem told_waiting : told clock files contract canceled = .waiting ↔ canceled = false ∧ unreadable files = false ∧
    (∃ id ∈ declaredOf contract files, ∃ reset, verdict clock files id = .waits reset) ∧
    ∀ id ∈ declaredOf contract files, (verdict clock files id).stirs = false := by
  by_cases none' : files = []
  · rw [told_of_no_files none']
    refine iff_of_false (by decide) ?_
    rintro ⟨-, -, ⟨id, -, reset, waits⟩, -⟩
    rw [none'] at waits
    cases waits
  rw [told_of_files none']
  split_ifs with stopped succeeded torn ended stirs
  · simp [stopped]
  · refine iff_of_false (by decide) ?_
    rintro ⟨-, -, ⟨id, member, reset, waits⟩, -⟩
    rw [succeeded.2 id member] at waits
    cases waits
  · simp [torn]
  · refine iff_of_false (by decide) ?_
    rintro ⟨-, -, waits, quiet⟩
    exact (waits_of_quiet quiet).mpr waits ended
  · refine iff_of_false (by decide) ?_
    rintro ⟨-, -, -, quiet⟩
    obtain ⟨id, member, stirs⟩ := stirs
    exact Bool.false_ne_true ((quiet id member).symm.trans stirs)
  · have quiet : ∀ id ∈ declaredOf contract files, (verdict clock files id).stirs = false :=
      fun id member => Bool.eq_false_iff.mpr fun stirring => stirs ⟨id, member, stirring⟩
    exact iff_of_true rfl ⟨Bool.eq_false_iff.mpr stopped, Bool.eq_false_iff.mpr torn, (waits_of_quiet quiet).mp ended, quiet⟩

/-- A parked run: all its declared nodes ended, and not all of them in success. -/
theorem told_parked : told clock files contract canceled = .parked ↔
    files ≠ [] ∧ canceled = false ∧ unreadable files = false ∧
      (∀ id ∈ declaredOf contract files, (verdict clock files id).settles = true) ∧
      ¬(declaredOf contract files ≠ [] ∧ ∀ id ∈ declaredOf contract files, verdict clock files id = .succeeded) := by
  by_cases none' : files = []
  · rw [told_of_no_files none']
    exact iff_of_false (by decide) fun parked => parked.1 none'
  rw [told_of_files none']
  split_ifs with stopped succeeded torn ended stirs
  · simp [stopped]
  · exact iff_of_false (by decide) fun parked => parked.2.2.2.2 succeeded
  · simp [torn]
  · exact iff_of_true rfl ⟨none', Bool.eq_false_iff.mpr stopped, Bool.eq_false_iff.mpr torn, ended, succeeded⟩
  · exact iff_of_false (by decide) fun parked => ended parked.2.2.2.1
  · exact iff_of_false (by decide) fun parked => ended parked.2.2.2.1

theorem told_succeeded : told clock files contract canceled = .succeeded ↔
    files ≠ [] ∧ canceled = false ∧ declaredOf contract files ≠ [] ∧
      ∀ id ∈ declaredOf contract files, verdict clock files id = .succeeded := by
  by_cases none' : files = []
  · rw [told_of_no_files none']
    exact iff_of_false (by decide) fun succeeded => succeeded.1 none'
  rw [told_of_files none']
  split_ifs with stopped succeeded
  · simp [stopped]
  · exact iff_of_true rfl ⟨none', Bool.eq_false_iff.mpr stopped, succeeded⟩
  all_goals exact iff_of_false (by decide) fun told => succeeded told.2.2

theorem told_canceled : told clock files contract canceled = .canceled ↔ files ≠ [] ∧ canceled = true := by
  by_cases none' : files = []
  · rw [told_of_no_files none']
    exact iff_of_false (by decide) fun stopped => stopped.1 none'
  rw [told_of_files none']
  split_ifs with stopped
  · exact iff_of_true rfl ⟨none', stopped⟩
  all_goals exact iff_of_false (by decide) fun told => stopped told.2

/-- Over every run directory: the classification the chain acts on is the one the verdicts of the declared nodes give. A
directory without snapshots, with one that cannot be read or with a node that stirs is unfinished unless it was
canceled, or all its nodes succeeded. The outcome names the nodes without success, in the order of the contract. -/
theorem runProgress_classified :
    let declared := declaredOf contract files
    let said := verdict clock files
    (told clock files contract canceled = .canceled ↔ files ≠ [] ∧ canceled = true) ∧
    (told clock files contract canceled = .succeeded ↔
      files ≠ [] ∧ canceled = false ∧ declared ≠ [] ∧ ∀ id ∈ declared, said id = .succeeded) ∧
    (told clock files contract canceled = .waiting ↔ canceled = false ∧ unreadable files = false ∧
      (∃ id ∈ declared, ∃ reset, said id = .waits reset) ∧ ∀ id ∈ declared, (said id).stirs = false) ∧
    (told clock files contract canceled = .parked ↔ files ≠ [] ∧ canceled = false ∧ unreadable files = false ∧
      (∀ id ∈ declared, (said id).settles = true) ∧ ¬(declared ≠ [] ∧ ∀ id ∈ declared, said id = .succeeded)) ∧
    (runProgress clock files contract canceled).outcomeNodes.map OutcomeNode.id =
      if files = [] ∨ canceled = true then [] else declared.filter fun id => said id ≠ .succeeded := by
  refine ⟨told_canceled, told_succeeded, told_waiting, told_parked, ?_⟩
  by_cases none' : files = []
  · subst none'
    rfl
  · simp only [none', false_or]
    rw [← reduceRunOutcome_names, runProgress, if_neg (by simpa using none')]

/-! ## The wait -/

/-- A recorded reset does not depend on when it is read. -/
theorem tierReset_at (now : Int) (state : RetryState) : tierReset { clock with now := now } state = tierReset clock state := rfl

theorem verdictOf_waits {read : Option (Except String RetryState)} {reset : Int} :
    verdictOf clock read = .waits reset ↔ ∃ state, read = some (.ok state) ∧ success state.status = false ∧
      tierReset clock state = some reset ∧ clock.now < reset := by
  rcases read with _ | _ | state
  · simp [verdictOf]
  · simp [verdictOf]
  · simp only [verdictOf, Option.some.injEq, Except.ok.injEq, exists_eq_left']
    cases success state.status with
    | true => simp
    | false =>
      cases tierReset clock state with
      | none => cases state.status.settled <;> simp
      | some other =>
        by_cases ahead : clock.now < other
        · simp only [if_pos ahead, Bool.false_eq_true, if_false, Verdict.waits.injEq, Option.some.injEq, true_and]
          exact ⟨fun same => ⟨same, same ▸ ahead⟩, And.left⟩
        · simp only [if_neg ahead, Bool.false_eq_true, if_false, reduceCtorEq, Option.some.injEq, true_and, false_iff]
          rintro ⟨rfl, ahead'⟩
          exact ahead ahead'

theorem verdictOf_settles {read : Option (Except String RetryState)} :
    (verdictOf clock read).settles = true ↔ ∃ state, read = some (.ok state) ∧
      (success state.status = true ∨ tierReset clock state = none ∧ state.status.settled = true) := by
  rcases read with _ | _ | state
  · simp [verdictOf, Verdict.settles]
  · simp [verdictOf, Verdict.settles]
  · simp only [verdictOf, Option.some.injEq, Except.ok.injEq, exists_eq_left']
    cases success state.status with
    | true => simp [Verdict.settles]
    | false =>
      cases tierReset clock state with
      | none => cases state.status.settled <;> simp [Verdict.settles]
      | some reset => by_cases ahead : clock.now < reset <;> simp [ahead, Verdict.settles]

theorem verdict_at_of_settles (now : Int) (settles : (verdict clock files id).settles = true) :
    (verdict { clock with now := now } files id).settles = true := by
  rw [verdict, verdictOf_settles] at settles ⊢
  exact settles

theorem verdict_at_of_waits {reset : Int} (now : Int) (waits : verdict clock files id = .waits reset) :
    verdict { clock with now := now } files id = if now < reset then .waits reset else .due := by
  obtain ⟨state, read, open', exhausted, -⟩ := verdictOf_waits.mp waits
  rw [verdict, read, verdictOf]
  simp [open', tierReset_at, exhausted]

theorem foldl_earlier_some (first : Int) (resets : List Int) :
    resets.foldl earlier (some first) = some (resets.foldl min first) := by
  induction resets generalizing first with
  | nil => rfl
  | cons reset resets ih => exact ih (min first reset)

theorem foldl_earlier (resets : List Int) : resets.foldl earlier none = resets.min? := by
  cases resets with
  | nil => rfl
  | cons reset resets => exact foldl_earlier_some reset resets

variable (clock files contract) in
/-- The resets the nodes of the run wait for. -/
def resetsOf : List Int := (declaredOf contract files).filterMap fun id => (verdict clock files id).reset?

theorem mem_resetsOf {reset : Int} :
    reset ∈ resetsOf clock files contract ↔ ∃ id ∈ declaredOf contract files, verdict clock files id = .waits reset := by
  rw [resetsOf, List.mem_filterMap]
  refine exists_congr fun id => and_congr_right fun _ => ?_
  cases verdict clock files id <;> simp [Verdict.reset?]

/-- A run that waits says until when: until the first of the resets. -/
theorem waitingUntil_of_told (waiting : told clock files contract canceled = .waiting) :
    (runProgress clock files contract canceled).waitingUntil = (resetsOf clock files contract).min?.map clock.toIso := by
  obtain ⟨-, readable, waits, quiet⟩ := told_waiting.mp waiting
  have some' : files ≠ [] := by
    rintro rfl
    cases waiting
  have open' : ¬∀ id ∈ declaredOf contract files, (verdict clock files id).settles = true := (waits_of_quiet quiet).mpr waits
  have still : (declaredOf contract files).any (fun id => (verdict clock files id).stirs) = false := by
    simpa [List.any_eq_false] using quiet
  simp only [runProgress, List.isEmpty_iff, some', if_false, tally_eq, Nat.zero_add, Bool.false_or, List.countP_eq_length,
    open', readable, still, Bool.false_eq_true, if_true, foldl_earlier]
  rfl

/-- Over every run directory that waits: it names the first reset its nodes wait for, and as long as its files stay as
they are, it waits before that instant, naming the same one, and is unfinished from then on. -/
theorem runProgress_waits_until (waiting : told clock files contract canceled = .waiting) :
    ∃ reset, (∃ id ∈ declaredOf contract files, verdict clock files id = .waits reset) ∧ clock.now < reset ∧
      ∀ now, told { clock with now := now } files contract canceled = (if now < reset then .waiting else .unfinished) ∧
        (now < reset →
          (runProgress { clock with now := now } files contract canceled).waitingUntil = some (clock.toIso reset)) := by
  obtain ⟨going, readable, waits, quiet⟩ := told_waiting.mp waiting
  obtain ⟨reset, first⟩ : ∃ reset, (resetsOf clock files contract).min? = some reset := by
    obtain ⟨id, member, reset, waits⟩ := waits
    exact List.isSome_min?_of_mem (mem_resetsOf.mpr ⟨id, member, waits⟩) |> Option.isSome_iff_exists.mp
  obtain ⟨listed, least⟩ := List.min?_eq_some_iff.mp first
  obtain ⟨id, member, waits⟩ := mem_resetsOf.mp listed
  have ahead : clock.now < reset := by
    obtain ⟨_, _, _, _, ahead⟩ := verdictOf_waits.mp waits
    exact ahead
  refine ⟨reset, ⟨id, member, waits⟩, ahead, fun now => ?_⟩
  have at' := verdict_at_of_waits now waits
  by_cases early : now < reset
  · rw [if_pos early] at at' ⊢
    -- every other node settled, or waits no shorter
    have stands (id : String) (member : id ∈ declaredOf contract files) :
        (verdict { clock with now := now } files id).settles = true ∨
          ∃ other, verdict { clock with now := now } files id = .waits other ∧ reset ≤ other := by
      obtain settles | stirs | ⟨other, waits⟩ := settles_or_stirs (verdict clock files id)
      · exact .inl (verdict_at_of_settles now settles)
      · exact absurd stirs (by simp [quiet id member])
      · have later : reset ≤ other := least other (mem_resetsOf.mpr ⟨id, member, waits⟩)
        refine .inr ⟨other, ?_, later⟩
        rw [verdict_at_of_waits now waits, if_pos (early.trans_le later)]
    have waiting' : told { clock with now := now } files contract canceled = .waiting := by
      refine told_waiting.mpr ⟨going, readable, ⟨id, member, reset, at'⟩, fun id member => ?_⟩
      obtain settles | ⟨other, waits, -⟩ := stands id member
      · exact quiet_of_settles settles
      · rw [waits]
        rfl
    refine ⟨waiting', fun _ => ?_⟩
    have first' : (resetsOf { clock with now := now } files contract).min? = some reset := by
      refine List.min?_eq_some_iff.mpr ⟨mem_resetsOf.mpr ⟨id, member, at'⟩, fun other listed => ?_⟩
      obtain ⟨id, member, waits⟩ := mem_resetsOf.mp listed
      obtain settles | ⟨same, waits', later⟩ := stands id member
      · rw [waits] at settles
        exact absurd settles Bool.false_ne_true
      · rw [waits] at waits'
        exact (Verdict.waits.inj waits').symm ▸ later
    rw [waitingUntil_of_told waiting', first']
    rfl
  · rw [if_neg early] at at' ⊢
    refine ⟨?_, fun early' => absurd early' early⟩
    have some' : files ≠ [] := by
      rintro rfl
      cases waiting
    have stirs : (verdict { clock with now := now } files id).stirs = true := by
      rw [at']
      rfl
    rw [told_of_files some', if_neg (by simp [going]), if_neg, if_neg (by simp [readable]), if_neg, if_pos ⟨id, member, stirs⟩]
    · intro ended
      have settles := ended id member
      rw [at'] at settles
      exact absurd settles Bool.false_ne_true
    · rintro ⟨-, succeeded⟩
      have same := succeeded id member
      rw [at'] at same
      cases same

/-- A run of two nodes, of which one is done and one waits for its tier. -/
def waitingFiles : List SnapshotFile :=
  let node (status : NodeStatus) (error : Option NodeError) (reset : List (Option String)) : RetryState :=
    { status, phase := .worker, error, blockedBy := [], result := false, backoff := false, quotaReset := false,
      sealed := false, updatedAt := none, startedAt := none, exhaustedUntil := reset }
  [⟨"a", .ok (some "a", node .done none [])⟩,
   ⟨"b", .ok (some "b", node .blocked (some ⟨"runtime_tier_exhausted", "no runtime of the tier answers"⟩)
      [none, some "1970-01-01T00:00:00.700Z", some "1970-01-01T00:00:00.500Z"])⟩]

def firstSecond : RetryClock where
  parse moment :=
    if moment = "1970-01-01T00:00:00.500Z" then some 500 else if moment = "1970-01-01T00:00:00.700Z" then some 700 else none
  now := 100
  toIso instant := if instant = 500 then "1970-01-01T00:00:00.500Z" else "1970-01-01T00:00:00.700Z"

theorem runProgress_waits_until_reset :
    ∃ reset, told { firstSecond with now := reset } waitingFiles (some ["a", "b"]) false = .unfinished := by
  have waiting : told firstSecond waitingFiles (some ["a", "b"]) false = .waiting := by decide
  obtain ⟨reset, -, -, at'⟩ := runProgress_waits_until waiting
  refine ⟨reset, ?_⟩
  rw [(at' reset).1, if_neg (Int.lt_irrefl reset)]

end Faberun.Supervise
