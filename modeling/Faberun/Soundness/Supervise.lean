import Faberun.Model.Engine.Supervise

/-! # A run is not relaunched forever

Whatever its controllers write and however often its supervisor is restarted, a run is relaunched at most twice between
two writes of `lastProgressAt`, not counting the relaunches whose supervisor died before it recorded them, and only where
no controller holds the lock or the one that holds it is frozen.
-/

namespace Faberun.Supervise

variable {w next : Watch} {seen : Observation} {outcome : LaunchOutcome} {failures count : Nat}

/-! ## The last progress on disk -/

/-- The writer holds what the file says. -/
def Heartbeats.Agree (h : Heartbeats) : Prop :=
  ∀ beat, h.controller = some beat → h.lastProgressAt = some beat.lastProgressAt

theorem Heartbeats.agree_of_step {h after : Heartbeats} {beat : Beat} (taken : h.step beat = some after) : after.Agree := by
  cases beat with
  | starts now =>
    simp only [Heartbeats.step] at taken
    split_ifs at taken
    obtain rfl := Option.some.inj taken
    rintro _ ⟨⟩
    rfl
  | write now | progress nodeId budgetBasis now | setActive nodes now =>
    obtain ⟨writer, -, rfl⟩ := Option.map_eq_some_iff.mp taken
    rintro _ ⟨⟩
    rfl
  | recovering until' now =>
    simp only [Heartbeats.step] at taken
    split_ifs at taken
    obtain rfl := Option.some.inj taken
    rintro _ ⟨⟩
  | stops =>
    obtain rfl := Option.some.inj taken
    rintro _ ⟨⟩

/-- A beat that does not advance leaves the last progress as it was. -/
theorem Heartbeats.lastProgressAt_of_step {h after : Heartbeats} (agree : h.Agree) {beat : Beat}
    (taken : h.step beat = some after) (still : h.advances beat = false) : after.lastProgressAt = h.lastProgressAt := by
  have written : h.file.isNone = false → ∃ file, h.file = some file := by
    cases h.file with
    | none => simp
    | some file => exact fun _ => ⟨file, rfl⟩
  cases beat with
  | starts now =>
    obtain ⟨file, here⟩ := written still
    simp only [Heartbeats.step] at taken
    split_ifs at taken
    obtain rfl := Option.some.inj taken
    simp [Heartbeats.lastProgressAt, Heartbeats.beats, Heartbeat.snapshot, Heartbeat.create, here]
  | write now | setActive nodes now =>
    obtain ⟨writer, alive, rfl⟩ := Option.map_eq_some_iff.mp taken
    exact (agree writer alive).symm
  | progress nodeId budgetBasis now => cases still
  | recovering until' now =>
    obtain ⟨file, here⟩ := written still
    simp only [Heartbeats.step] at taken
    split_ifs at taken
    obtain rfl := Option.some.inj taken
    simp [Heartbeats.lastProgressAt, markRecovering, here]
  | stops =>
    obtain rfl := Option.some.inj taken
    rfl

/-! ## The relaunch guard -/

/-- The recorded launches since the last progress. -/
def barren : List Deed → Nat
  | [] | .advanced :: _ => 0
  | .launched true _ _ :: before => barren before + 1
  | .launched false _ _ :: before => barren before

/-- The launches since the last progress whose supervisor died before `persistRelaunch`. -/
def unrecorded : List Deed → Nat
  | [] | .advanced :: _ => 0
  | .launched true _ _ :: before => unrecorded before
  | .launched false _ _ :: before => unrecorded before + 1

/-- The launches since the last progress. -/
def relaunched : List Deed → Nat
  | [] | .advanced :: _ => 0
  | .launched _ _ _ :: before => relaunched before + 1

theorem relaunched_eq (history : List Deed) : relaunched history = barren history + unrecorded history := by
  induction history with
  | nil => rfl
  | cons deed before ih =>
    match deed with
    | .advanced => rfl
    | .launched true _ _ => simp only [relaunched, barren, unrecorded, ih]; omega
    | .launched false _ _ => simp only [relaunched, barren, unrecorded, ih]; omega

/-- No controller holds the lock, or its heartbeat breaches; and the run is neither settled nor waiting, unless the
controller that waits is frozen. -/
def Deed.Due : Deed → Prop
  | .advanced => True
  | .launched _ seen breach => (seen.lockAlive = false ∨ breach.isSome = true) ∧
      (seen.progress.state = .unfinished ∨ breach.isSome = true) ∧
      seen.progress.runOutcome ≠ some .succeeded ∧ seen.progress.runOutcome ≠ some .canceled

/-- The count in `run.json` covers the launches since the last progress, and beside such a launch is the progress it saw. -/
structure Inv (w : Watch) : Prop where
  agree : w.heartbeats.Agree
  count : w.metadata.relaunchCount.getD 0 ≤ maxConsecutiveRelaunches
  covered : barren w.history ≤ w.metadata.relaunchCount.getD 0
  recorded : 0 < barren w.history → w.metadata.lastRelaunchProgressAt = w.heartbeats.lastProgressAt
  due : ∀ deed ∈ w.history, deed.Due
  patient : ∀ failures, w.supervisor = some failures → failures < maxConsecutiveLaunchFailures

private theorem advancedPast_self (progressAt : Option Int) : advancedPast progressAt progressAt = false := by
  cases progressAt <;> simp [advancedPast]

/-- Beside the progress it saw last, a relaunch counts on. -/
theorem nextRelaunch_still {metadata : RunMetadata} {progressAt : Option Int}
    (same : metadata.lastRelaunchProgressAt = progressAt) :
    nextRelaunch metadata progressAt =
      if maxConsecutiveRelaunches ≤ metadata.relaunchCount.getD 0 then .error (metadata.relaunchCount.getD 0)
      else .ok (metadata.relaunchCount.getD 0 + 1) := by
  simp only [nextRelaunch, same, advancedPast_self, Bool.false_eq_true, if_false]

theorem nextRelaunch_ok {metadata : RunMetadata} {progressAt : Option Int}
    (allowed : nextRelaunch metadata progressAt = .ok count) :
    0 < count ∧ count ≤ maxConsecutiveRelaunches := by
  simp only [nextRelaunch] at allowed
  split_ifs at allowed <;> cases allowed <;> simp only [maxConsecutiveRelaunches] at * <;> omega

/-- A launch that is recorded is covered by its count. -/
private theorem Inv.counts (inv : Inv w) (allowed : nextRelaunch w.metadata w.heartbeats.lastProgressAt = .ok count) :
    barren w.history + 1 ≤ count := by
  rcases Nat.eq_zero_or_pos (barren w.history) with none | some
  · have := (nextRelaunch_ok allowed).1
    omega
  · rw [nextRelaunch_still (inv.recorded some)] at allowed
    split_ifs at allowed
    cases allowed
    exact Nat.succ_le_succ inv.covered

private theorem Inv.launch (inv : Inv w)
    (allowed : nextRelaunch w.metadata w.heartbeats.lastProgressAt = .ok count)
    (due : ∀ recorded, (Deed.launched recorded seen (w.breach seen)).Due) : Inv (w.launch seen failures count outcome) := by
  cases outcome with
  | launched =>
    exact {
      agree := inv.agree
      count := (nextRelaunch_ok allowed).2
      covered := inv.counts allowed
      recorded := fun _ => rfl
      due := List.forall_mem_cons.mpr ⟨due true, inv.due⟩
      patient := by
        rintro _ ⟨⟩
        decide }
  | unrecorded =>
    exact { inv with
      due := List.forall_mem_cons.mpr ⟨due false, inv.due⟩
      patient := by rintro _ ⟨⟩ }
  | threw message =>
    simp only [Watch.launch]
    split_ifs with enough
    · exact { inv with patient := by rintro _ ⟨⟩ }
    · refine { inv with patient := ?_ }
      rintro _ ⟨⟩
      exact Nat.lt_of_not_le enough

private theorem Watch.due_of_relaunches (relaunches : w.relaunches seen = true)
    (open' : ¬(seen.progress.runOutcome = some .succeeded ∨ seen.progress.runOutcome = some .canceled)) (recorded : Bool) :
    (Deed.launched recorded seen (w.breach seen)).Due := by
  simp only [Watch.relaunches, Bool.and_eq_true, Bool.or_eq_true, decide_eq_true_eq, Bool.not_eq_true', Bool.and_eq_false_iff,
    Option.isNone_eq_false_iff] at relaunches
  obtain ⟨moves, free⟩ := relaunches
  exact ⟨free, moves, fun succeeded => open' (.inl succeeded), fun canceled => open' (.inr canceled)⟩

private theorem Inv.tick (inv : Inv w) : Inv (w.tick seen failures outcome) := by
  unfold Watch.tick
  split_ifs with settled parked relaunches
  · exact { inv with patient := by rintro _ ⟨⟩ }
  · exact { inv with }
  · cases decision : nextRelaunch w.metadata w.heartbeats.lastProgressAt with
    | error count => exact { inv with patient := by rintro _ ⟨⟩ }
    | ok count => exact inv.launch decision (Watch.due_of_relaunches relaunches settled)
  · exact inv

theorem Inv.step (inv : Inv w) {label : Label} (taken : Supervise.step w label = some next) : Inv next := by
  cases label with
  | beat beat =>
    obtain ⟨heartbeats, beaten, rfl⟩ := Option.map_eq_some_iff.mp taken
    cases advances : w.heartbeats.advances beat with
    | true =>
      exact {
        agree := Heartbeats.agree_of_step beaten
        count := inv.count
        covered := by simp [barren]
        recorded := by simp [barren]
        due := by simpa [advances, Deed.Due] using inv.due
        patient := inv.patient }
    | false =>
      have still := Heartbeats.lastProgressAt_of_step inv.agree beaten advances
      exact {
        agree := Heartbeats.agree_of_step beaten
        count := inv.count
        covered := by simpa [advances] using inv.covered
        recorded := by simpa [advances, still] using inv.recorded
        due := by simpa [advances] using inv.due
        patient := inv.patient }
  | clears =>
    obtain rfl := Option.some.inj taken
    exact { inv with }
  | supervise =>
    simp only [Supervise.step] at taken
    split_ifs at taken
    obtain rfl := Option.some.inj taken
    refine { inv with patient := ?_ }
    rintro _ ⟨⟩
    decide
  | tick seen outcome =>
    obtain ⟨failures, -, rfl⟩ := Option.map_eq_some_iff.mp taken
    exact inv.tick
  | killed =>
    obtain rfl := Option.some.inj taken
    exact { inv with patient := by rintro _ ⟨⟩ }

/-! ## Runs -/

/-- The pass comes to its relaunch. -/
structure Watch.Relaunching (w : Watch) (seen : Observation) : Prop where
  unsettled : ¬(seen.progress.runOutcome = some .succeeded ∨ seen.progress.runOutcome = some .canceled)
  unparked : ¬(seen.progress.state = .done ∧ seen.progress.runOutcome = some .parked)
  due : w.relaunches seen = true

/-- A supervised run directory. -/
structure Supervised (w : Watch) : Prop where
  /-- The launches since the last progress are at most two, beside those that were not recorded. -/
  spaced : relaunched w.history ≤ maxConsecutiveRelaunches + unrecorded w.history
  /-- Every launch was due. -/
  due : ∀ deed ∈ w.history, deed.Due
  /-- After two recorded launches without progress the pass that comes to a third one parks the run instead. -/
  parks : ∀ seen outcome next, barren w.history = maxConsecutiveRelaunches → w.Relaunching seen →
    step w (.tick seen outcome) = some next → next = { w with
      metadata := { w.metadata with attention := some (unresponsive maxConsecutiveRelaunches seen.now) }
      supervisor := none
      returned := some (.stopped "controller_unresponsive") }
  /-- A supervisor that goes on has failed to launch at most twice in a row. -/
  patient : ∀ failures, w.supervisor = some failures → failures < maxConsecutiveLaunchFailures

theorem Inv.supervised (inv : Inv w) : Supervised w where
  spaced := by
    have counted := inv.covered.trans inv.count
    rw [relaunched_eq]
    omega
  due := inv.due
  parks seen outcome next full relaunching taken := by
    obtain ⟨failures, -, rfl⟩ := Option.map_eq_some_iff.mp taken
    have count : w.metadata.relaunchCount.getD 0 = maxConsecutiveRelaunches :=
      Nat.le_antisymm inv.count (full ▸ inv.covered)
    have recorded := inv.recorded (by rw [full]; decide)
    have decision : nextRelaunch w.metadata w.heartbeats.lastProgressAt = .error maxConsecutiveRelaunches := by
      rw [nextRelaunch_still recorded, count, if_pos (Nat.le_refl _)]
    rw [Watch.tick, if_neg relaunching.unsettled, if_neg relaunching.unparked, if_pos relaunching.due, decision]
  patient := inv.patient

/-- Nothing holds the lock and a node is left. -/
def orphaned (now : Int) : Observation := ⟨now, ⟨.unfinished, some .parked⟩, ("parked", "run parked"), false⟩

end Faberun.Supervise
