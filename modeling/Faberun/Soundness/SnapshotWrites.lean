import Faberun.Soundness.SnapshotAttempts

/-! # The snapshots a verification pass writes

Every check of a snapshot but its size holds of what a pass hands to `writeNode`, and every path check but the length
of a path. What a step wrote is accepted exactly when there was room for it.
-/

namespace Faberun.Verify

open Journal (get)
open JsonText
open Snapshot

section Writes

variable [Numerals Rat] {context : VerificationContext} {pass : ControllerPass}

/-! ## The end of a pass -/

omit [Numerals Rat] in
private theorem compactCommands_length (results : List VerificationCommandResult) (count argvBytes envBytes : Nat)
    (within : count ≤ VerificationLimits.stateCommands) :
    count + (compactCommands count argvBytes envBytes results).length ≤ VerificationLimits.stateCommands := by
  induction results generalizing count argvBytes envBytes with
  | nil => simpa [compactCommands] using within
  | cons command rest ih =>
    simp only [compactCommands]
    split_ifs with full beyond
    · simpa using within
    · simpa using within
    · have later := ih (count + 1) (argvBytes + totalBytes command.argv) (envBytes + totalBytes command.env) (by omega)
      rw [List.length_cons]
      omega

omit [Numerals Rat] in
private theorem validatePathList_iff {paths : List String} (bound : paths.length ≤ maxScopeFindingPaths) (label : String) :
    validatePathList (ofStrings paths) label = .ok () ↔ ∀ path ∈ paths, charBytes path.toList ≤ 1024 := by
  have strings : (paths.map JsValue.string : List (JsValue Rat)).all JsValue.isString = true := by
    simp [JsValue.isString]
  rw [ofStrings, validatePathList, andThen_ok_iff, check_ok_iff, check_ok_iff, strings, Bool.and_true, decide_eq_true_eq,
    List.length_map, List.all_map, List.all_eq_true, and_iff_right bound]
  simp only [Function.comp_apply, isBoundedText, decide_eq_true_eq]

/-- The last write of a pass: its paths may be too long, and its snapshot too large. -/
private theorem settle_spec (inv : PassValid context pass) {state : VerificationState} (after : List String)
    (commands : state.commands.length ≤ 32) (records : RecordsValid context.checks.dateParses state.attempts)
    (error : ∀ text, state.error = some text → charBytes text.toList ≤ 4096) :
    Passes context (context.settle pass state after) ↔ Passes context pass ∧
      context.roomForSettlement pass
        (verificationBytes state.passed state.completed (itemsBytes (state.commands.map commandJson))
          (itemsBytes state.attempts) (restBytes state.error state.progress)) after := by
  rw [VerificationContext.settle, passes_writeNode_iff, VerificationContext.roomForSettlement]
  refine and_congr_right fun _ => ?_
  have size (artifacts : JsValue Rat) (accepted : validateArtifactsField artifacts = .ok ()) :=
    snapshot_passes_iff context (⟨inv.fields, accepted⟩ : PassValid context { pass with stage := .settled state, artifacts })
      rfl commands records error
  cases begun : context.untrackedBefore with
  | none =>
    have left : context.leftArtifacts pass.artifacts after = pass.artifacts := by
      rw [VerificationContext.leftArtifacts, begun]
    rw [left]
    exact size pass.artifacts inv.artifacts
  | some before =>
    have bound : (context.verificationArtifacts before pass.artifacts after).length ≤ maxScopeFindingPaths :=
      List.length_take_le _ _
    cases paths : context.verificationArtifacts before pass.artifacts after with
    | nil =>
      have left : context.leftArtifacts pass.artifacts after = .undefined := by
        rw [VerificationContext.leftArtifacts, begun]
        simp only [paths]
      rw [left, size .undefined rfl]
      simp [paths, artifactsBytes]
    | cons first rest =>
      have left : context.leftArtifacts pass.artifacts after = ofStrings (first :: rest) := by
        rw [VerificationContext.leftArtifacts, begun]
        simp only [paths]
      rw [paths] at bound
      have short := validatePathList_iff bound "node snapshot.verificationArtifacts"
      have counted : artifactsBytes (ofStrings (first :: rest)) =
          fieldBytes "verificationArtifacts" (textsBytes (first :: rest)) := by
        rw [← jsonBytes_ofStrings]
        rfl
      simp only [left, paths, if_neg (List.cons_ne_nil first rest), ← counted]
      constructor
      · intro passes
        have accepted := (validateNodeSnapshot_iff.mp passes).2.2.1
        exact ⟨short.mp accepted, (size _ accepted).mp passes⟩
      · rintro ⟨fits, room⟩
        exact (size (ofStrings (first :: rest)) (short.mpr fits)).mpr room

/-! ## Runs -/

/-- A pass before its first write, on a snapshot that passes. -/
def Opened (context : VerificationContext) (pass : ControllerPass) : Prop :=
  ∃ snapshot, validateNodeSnapshot context.checks snapshot = .ok () ∧ pass = .ready snapshot

/-- What holds in every state: the pass is over, or the next write is a matter of room. -/
def Sound (context : VerificationContext) (pass : ControllerPass) : Prop :=
  (∃ state, pass.stage = .settled state) ∨ Inv context pass

theorem opened_inv (opened : Opened context pass) : Inv context pass ∧ Passes context pass := by
  obtain ⟨snapshot, accepted, rfl⟩ := opened
  obtain ⟨fields, verification, artifacts, _⟩ := validateNodeSnapshot_iff.mp accepted
  refine ⟨⟨⟨fields, artifacts⟩, ?_, nofun⟩, nofun⟩
  rintro _ ⟨⟩
  exact verification

private theorem begin_spec (inv : Inv context pass) {next : ControllerPass}
    (taken : context.step pass .begin = some next) :
    Sound context next ∧ (Passes context next ↔ Passes context pass ∧ context.room pass .begin) := by
  obtain ⟨fields, stage, artifacts, results, attempts, handed⟩ := pass
  cases stage with
  | running state => cases taken
  | settled state => cases taken
  | ready verification =>
    simp only [VerificationContext.step] at taken
    split_ifs at taken
    obtain rfl := Option.some.inj taken
    generalize opening : VerificationContext.openedState verification = state
    have records := openedState_valid (inv.ready verification rfl)
    rw [opening] at records
    have written : PassValid context ⟨fields, .running state, artifacts, results, attempts, handed⟩ :=
      ⟨inv.fields, inv.artifacts⟩
    have valid : StateValid context state := by
      subst opening
      exact ⟨rfl, rfl, rfl, rfl, records⟩
    have size := snapshot_passes_iff context written rfl (by rw [valid.commands]; exact Nat.zero_le _) records
      (by rw [valid.error]; nofun)
    constructor
    · cases refused : (context.writeNode ⟨fields, .running state, artifacts, results, attempts, handed⟩).2 with
      | some refusal =>
        refine .inl ⟨state, ?_⟩
        simp [VerificationContext.openPass, refused]
      | none =>
        have staged : (context.openPass ⟨fields, .ready verification, artifacts, results, attempts, handed⟩ state).stage =
            .running state := by simp [VerificationContext.openPass, refused]
        refine .inr ⟨⟨inv.fields, inv.artifacts⟩, ?_, ?_⟩
        · rw [staged]
          nofun
        · rw [staged]
          rintro _ ⟨⟩
          exact valid
    · refine (passes_writeNode_iff context _).trans (and_congr_right fun _ => ?_)
      rw [size]
      subst opening
      rfl

/-- A step that writes nothing and keeps the record. -/
private theorem quiet_spec (inv : Inv context pass) {results : List VerificationCommandResult}
    {attempts : List VerificationAttemptResult} {label : Label context} (roomy : context.room pass label) :
    Sound context { pass with results, attempts } ∧
      (Passes context { pass with results, attempts } ↔ Passes context pass ∧ context.room pass label) :=
  ⟨.inr ⟨⟨inv.fields, inv.artifacts⟩, inv.ready, inv.running⟩, (and_iff_left roomy).symm⟩

/-- One step: what it wrote passes when there was room for it. -/
theorem step_spec (inv : Inv context pass) {label : Label context} {next : ControllerPass}
    (taken : context.step pass label = some next) :
    Sound context next ∧ (Passes context next ↔ Passes context pass ∧ context.room pass label) := by
  obtain ⟨fields, stage, artifacts, results, attempts, handed⟩ := pass
  cases stage with
  | ready verification =>
    cases label with
    | begin => exact begin_spec inv taken
    | _ => cases taken
  | settled state => cases label <;> cases taken
  | running state =>
    have valid := inv.running state rfl
    cases label with
    | begin => cases taken
    | attempt run =>
      simp only [VerificationContext.step] at taken
      split at taken
      · rename_i running command same listed
        obtain rfl := Stage.running.inj same
        split_ifs at taken with allowed
        obtain rfl := Option.some.inj taken
        rw [Bool.and_eq_true, Bool.not_eq_true'] at allowed
        obtain ⟨ran, passes⟩ := runCommand_spec inv rfl allowed.2
          (Nat.succ_pos (VerificationContext.countedAttempts attempts).length)
        exact ⟨.inr ⟨⟨ran.fields, ran.artifacts⟩, ran.ready, ran.running⟩, passes⟩
      · cases taken
    | serve result =>
      simp only [VerificationContext.step] at taken
      split at taken
      · split_ifs at taken
        obtain rfl := Option.some.inj taken
        exact quiet_spec inv trivial
      · cases taken
    | close cwd mutantsKilled =>
      simp only [VerificationContext.step] at taken
      split at taken
      · obtain ⟨passed, _, rfl⟩ := Option.map_eq_some_iff.mp taken
        exact quiet_spec inv trivial
      · cases taken
    | returned after =>
      simp only [VerificationContext.step] at taken
      split_ifs at taken
      obtain rfl := Option.some.inj taken
      have kept := compactCommands_length results 0 0 0 (Nat.zero_le _)
      have few : (VerificationContext.returnedState state results).commands.length ≤ 32 := by
        simp only [VerificationContext.returnedState, compactVerification, VerificationLimits.stateCommands] at kept ⊢
        omega
      have settled := settle_spec inv.toPassValid after few valid.records (by rintro _ ⟨⟩)
      refine ⟨.inl ⟨_, rfl⟩, settled.trans ?_⟩
      simp only [VerificationContext.returnedState, compactVerification, itemsBytes_compactCommands]
      rfl
    | threw message after =>
      obtain rfl := Option.some.inj taken
      have none : (VerificationContext.thrownState state message).commands.length ≤ 32 := by
        simp [VerificationContext.thrownState, valid.commands]
      have error : ∀ text, (VerificationContext.thrownState state message).error = some text →
          charBytes text.toList ≤ 4096 := by
        rintro text ⟨⟩
        exact charBytes_boundedUtf8_le message (by decide)
      have settled := settle_spec inv.toPassValid after none valid.records error
      refine ⟨.inl ⟨_, rfl⟩, settled.trans ?_⟩
      simp only [VerificationContext.thrownState, valid.commands, List.map_nil, itemsBytes]
      rfl

end Writes

end Faberun.Verify
