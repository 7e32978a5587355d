import Faberun.Model.Contract.Verification

/-! # What a contract declares and what a node verifies

A normalized command is its own normal form, so `runVerification` refuses a list only for its length. The
three lists of a contract are bounded one by one and run as one, under the same bound.
-/

namespace Faberun

variable {label other : String}

/-! ## The fields of a normalized command -/

theorem readArgv_normal {raw : Option JsonValue} {argv : List String} (read : readArgv label raw = .ok argv) :
    readArgv other (some (.ofStrings argv)) = .ok argv := by
  simp only [readArgv] at read
  split at read
  · rename_i items _
    simp only [bind, Except.bind, pure, Except.pure] at read
    split at read
    · cases read
    · rename_i allowed
      split at read
      · cases read
      · rename_i bounded
        cases read
        simp [readArgv, check_ok_iff.mp allowed, of_decide_eq_true (check_ok_iff.mp bounded), check, bind, Except.bind,
          pure, Except.pure]
  · cases read

theorem readCwd_normal {raw : Option JsonValue} {cwd : Option String} (read : readCwd label raw = .ok cwd) :
    readCwd other (cwd.map .string) = .ok cwd := by
  cases cwd with
  | none => rfl
  | some path =>
    unfold readCwd at read
    split at read
    · cases read
    · split at read <;> cases read
      rename_i allowed
      simp [readCwd, allowed]
    · cases read

theorem readTimeoutSec_normal {raw : Option JsonValue} {timeoutSec : Rat}
    (read : readTimeoutSec label raw = .ok timeoutSec) :
    readTimeoutSec other (some (.number (.finite timeoutSec))) = .ok timeoutSec := by
  have allowed : timeoutAllowed timeoutSec = true := by
    unfold readTimeoutSec at read
    split at read
    · cases read
      decide
    · split at read <;> cases read
      assumption
    · cases read
  simp [readTimeoutSec, allowed]

theorem readRepeat_normal {raw : Option JsonValue} {repeatCount : Nat} (read : readRepeat label raw = .ok repeatCount) :
    readRepeat other (some (.number (.finite repeatCount))) = .ok repeatCount := by
  have allowed : repeatAllowed repeatCount = true := by
    unfold readRepeat at read
    split at read
    · cases read
      decide
    · split at read <;> cases read
      rename_i integral
      exact integral.2.2
    · cases read
  have positive : 0 < repeatCount := by
    simp only [repeatAllowed, Bool.and_eq_true, decide_eq_true_eq] at allowed
    exact allowed.1
  simp [readRepeat, allowed, positive]

theorem readEnv_normal {raw : Option JsonValue} {env : List String} (read : readEnv label raw = .ok env) :
    readEnv other (some (.ofStrings env)) = .ok env := by
  have allowed : env.all envNameAllowed = true ∧ totalBytes env ≤ VerificationLimits.maxEnvBytes := by
    unfold readEnv at read
    split at read
    · cases read
      exact ⟨rfl, by decide⟩
    · cases read
      exact ⟨rfl, by decide⟩
    · split at read
      · simp only [bind, Except.bind, pure, Except.pure] at read
        split at read
        · cases read
        · rename_i named
          split at read <;> cases read
          rename_i bounded
          exact ⟨check_ok_iff.mp named, of_decide_eq_true (check_ok_iff.mp bounded)⟩
      · cases read
  unfold readEnv
  split
  · contradiction
  · simp [JsonValue.ofStrings] at *
  · rename_i value _ given
    obtain rfl := Option.some.inj given
    rw [JsonValue.strings?_ofStrings]
    simp only [check, allowed.1, decide_eq_true allowed.2, if_true, bind, Except.bind, pure, Except.pure]

theorem readMutation_normal (mutation : Option MutationTier) :
    readMutation other (mutation.map fun tier => .object [("tier", .string tier.name)]) = .ok mutation := by
  cases mutation with
  | none => rfl
  | some tier =>
    cases tier <;> simp [readMutation, MutationTier.all, MutationTier.name, JsonValue.field?, JsonValue.string?]

theorem readRequirementId_normal {raw : Option JsonValue} {id : Option String}
    (read : readRequirementId label raw = .ok id) : readRequirementId other (id.map .string) = .ok id := by
  cases id with
  | none => rfl
  | some id =>
    unfold readRequirementId at read
    split at read
    · cases read
    · split at read <;> cases read
      rename_i allowed
      simp [readRequirementId, allowed]
    · cases read

/-! ## Normal forms -/

/-- Read back from the object it is kept as, a command has the fields it was normalized to. -/
theorem validateVerificationCommand_toJson (command : VerificationCommand) :
    validateVerificationCommand command.toJson other = (do
      let argv ← readArgv other (some (.ofStrings command.argv))
      let cwd ← readCwd other (command.cwd.map .string)
      let timeoutSec ← readTimeoutSec other (some (.number (.finite command.timeoutSec)))
      let repeatCount ← readRepeat other (some (.number (.finite command.repeatCount)))
      let env ← readEnv other (some (.ofStrings command.env))
      let mutation ← readMutation other (command.mutation.map fun tier => .object [("tier", .string tier.name)])
      let requirementId ← readRequirementId other (command.requirementId.map .string)
      return { argv, timeoutSec, repeatCount, env, cwd, mutation, requirementId }) := by
  obtain ⟨argv, timeoutSec, repeatCount, env, cwd, mutation, requirementId⟩ := command
  cases cwd <;> cases mutation <;> cases requirementId <;> rfl

/-- A command that validated is accepted again, as itself. -/
theorem validateVerificationCommand_normal {raw : JsonValue} {command : VerificationCommand}
    (validated : validateVerificationCommand raw label = .ok command) :
    validateVerificationCommand command.toJson other = .ok command := by
  unfold validateVerificationCommand at validated
  split at validated
  · split at validated
    · cases validated
    · simp only [bind, Except.bind, pure, Except.pure] at validated
      split at validated
      · cases validated
      rename_i argv readsArgv
      split at validated
      · cases validated
      rename_i cwd readsCwd
      split at validated
      · cases validated
      rename_i timeoutSec readsTimeout
      split at validated
      · cases validated
      rename_i repeatCount readsRepeat
      split at validated
      · cases validated
      rename_i env readsEnv
      split at validated
      · cases validated
      rename_i mutation _
      split at validated
      · cases validated
      rename_i requirementId readsRequirement
      cases validated
      simp only [validateVerificationCommand_toJson, readArgv_normal readsArgv, readCwd_normal readsCwd,
        readTimeoutSec_normal readsTimeout, readRepeat_normal readsRepeat, readEnv_normal readsEnv,
        readMutation_normal, readRequirementId_normal readsRequirement, bind, Except.bind, pure, Except.pure]
  · cases validated

/-- A command in normal form. -/
def Normal (command : VerificationCommand) : Prop :=
  ∀ label, validateVerificationCommand command.toJson label = .ok command

theorem normal_of_validateEach {items : List JsonValue} {index : Nat} {commands : List VerificationCommand}
    (validated : validateEach label index items = .ok commands) : ∀ command ∈ commands, Normal command := by
  induction items generalizing index commands with
  | nil =>
    cases validated
    nofun
  | cons item rest ih =>
    simp only [validateEach, bind, Except.bind, pure, Except.pure] at validated
    split at validated
    · cases validated
    rename_i first validatesFirst
    split at validated
    · cases validated
    rename_i others validatesRest
    cases validated
    intro command member
    rcases List.mem_cons.mp member with rfl | member
    · exact fun _ => validateVerificationCommand_normal validatesFirst
    · exact ih validatesRest command member

/-- A list that validated is within its bound, and every command of it is in normal form. -/
theorem validateVerificationCommands_ok {raw : JsonValue} {commands : List VerificationCommand}
    (validated : validateVerificationCommands raw label = .ok commands) : ∀ command ∈ commands, Normal command := by
  unfold validateVerificationCommands at validated
  split at validated
  · split at validated
    · exact normal_of_validateEach validated
    · cases validated
  · cases validated

theorem validateEach_normal {commands : List VerificationCommand} (normal : ∀ command ∈ commands, Normal command)
    (index : Nat) : validateEach label index (commands.map (·.toJson)) = .ok commands := by
  induction commands generalizing index with
  | nil => rfl
  | cons command rest ih =>
    have rest := ih (fun command member => normal command (List.mem_cons_of_mem _ member)) (index + 1)
    have first : ∀ label, validateVerificationCommand command.toJson label = .ok command :=
      normal command List.mem_cons_self
    simp only [List.map_cons, validateEach, first, rest, bind, Except.bind, pure, Except.pure]

/-- Normal commands run exactly when they are few enough. -/
theorem runnableCommands_ok_iff {commands : List VerificationCommand} (normal : ∀ command ∈ commands, Normal command) :
    (∃ accepted, runnableCommands commands = .ok accepted) ↔ commands.length ≤ VerificationLimits.maxCommands := by
  unfold runnableCommands validateVerificationCommands
  constructor
  · rintro ⟨accepted, accepts⟩
    by_contra long
    simp only [List.length_map, if_neg long] at accepts
    cases accepts
  · intro bound
    exact ⟨commands, by simp only [List.length_map, if_pos bound, validateEach_normal normal]⟩

/-! ## The lists of a contract -/

variable {ν : Type} [DecidableEq ν]

/-- The commands a verification of the node runs, given the settled siblings. -/
def verificationCommands (contract : Contract ν VerificationCommand) (node : ContractNode ν VerificationCommand)
    (settledIds : List ν) : List VerificationCommand :=
  node.verification ++ sharedVerificationCommands contract ++ finalVerificationCommands contract node (some settledIds)

/-- The node is phase-terminal, and every other phase-terminal node has settled. -/
def closesPhase (contract : Contract ν VerificationCommand) (node : ContractNode ν VerificationCommand)
    (settledIds : List ν) : Prop :=
  phaseTerminalNode contract node = true ∧ ∀ sibling ∈ contract.nodes, sibling.id ≠ node.id →
    phaseTerminalNode contract sibling = true → sibling.id ∈ settledIds

instance (contract : Contract ν VerificationCommand) (node : ContractNode ν VerificationCommand) (settledIds : List ν) :
    Decidable (closesPhase contract node settledIds) := inferInstanceAs (Decidable (_ ∧ _))

theorem finalVerificationCommands_eq (contract : Contract ν VerificationCommand)
    (node : ContractNode ν VerificationCommand) (settledIds : List ν) :
    finalVerificationCommands contract node (some settledIds) =
      if closesPhase contract node settledIds then contract.finalVerification.getD [] else [] := by
  by_cases terminal : phaseTerminalNode contract node = true
  · have closes : ((contract.nodes.filter fun candidate =>
        decide (candidate.id ≠ node.id) && phaseTerminalNode contract candidate).all
          fun sibling => decide (sibling.id ∈ settledIds)) = true ↔ closesPhase contract node settledIds := by
      rw [List.all_eq_true]
      constructor
      · intro all
        refine ⟨terminal, fun sibling inside differs siblingTerminal => of_decide_eq_true (all sibling ?_)⟩
        simp [List.mem_filter, inside, differs, siblingTerminal]
      · rintro ⟨-, settled⟩ sibling listed
        rw [List.mem_filter, Bool.and_eq_true, decide_eq_true_eq] at listed
        exact decide_eq_true (settled sibling listed.1 listed.2.1 listed.2.2)
    simp only [finalVerificationCommands, terminal, Bool.true_eq_false, if_false]
    by_cases settled : closesPhase contract node settledIds
    · rw [if_pos settled, if_pos (closes.mpr settled)]
      split_ifs with none
      · exact none.symm
      · rfl
    · rw [if_neg settled, if_neg (mt closes.mp settled)]
      exact ite_self _
  · have open_ : ¬ closesPhase contract node settledIds := fun closes => terminal closes.1
    simp [finalVerificationCommands, terminal, open_]

theorem verificationCommands_normal (declared : DeclaredVerification ν) {node : ContractNode ν VerificationCommand}
    (member : node ∈ declared.contract.nodes) (settledIds : List ν) :
    ∀ command ∈ verificationCommands declared.contract node settledIds, Normal command := by
  have packet : ∀ command ∈ node.verification, Normal command := by
    obtain ⟨raw, index, validated⟩ := declared.packets node member
    exact validateVerificationCommands_ok validated
  have shared : ∀ command ∈ declared.contract.sharedVerification.getD [], Normal command := by
    cases lists : declared.contract.sharedVerification with
    | none => nofun
    | some commands =>
      obtain ⟨raw, validated⟩ := declared.shared commands lists
      exact validateVerificationCommands_ok validated
  have final : ∀ command ∈ declared.contract.finalVerification.getD [], Normal command := by
    cases lists : declared.contract.finalVerification with
    | none => nofun
    | some commands =>
      obtain ⟨raw, validated⟩ := declared.final commands lists
      exact validateVerificationCommands_ok validated
  intro command listed
  rw [verificationCommands, finalVerificationCommands_eq] at listed
  rcases List.mem_append.mp listed with listed | listed
  · rcases List.mem_append.mp listed with listed | listed
    · exact packet command listed
    · exact shared command listed
  · split at listed
    · exact final command listed
    · cases listed

/-- A node's verification is accepted exactly when its lists together are within the bound of one. -/
theorem verification_accepted_iff (declared : DeclaredVerification ν) {node : ContractNode ν VerificationCommand}
    (member : node ∈ declared.contract.nodes) (settledIds : List ν) :
    (∃ accepted, runnableCommands (verificationCommands declared.contract node settledIds) = .ok accepted) ↔
      node.verification.length + (declared.contract.sharedVerification.getD []).length +
        (if closesPhase declared.contract node settledIds then (declared.contract.finalVerification.getD []).length
          else 0) ≤ VerificationLimits.maxCommands := by
  rw [runnableCommands_ok_iff (verificationCommands_normal declared member settledIds), verificationCommands,
    finalVerificationCommands_eq, List.length_append, List.length_append, sharedVerificationCommands]
  split <;> rfl

/-- The command `true`. -/
def trueCommand : VerificationCommand :=
  { argv := ["true"], timeoutSec := 120, repeatCount := 1, env := [], cwd := none, mutation := none
    requirementId := none }

theorem trueCommand_normal : Normal trueCommand := fun _ => rfl

theorem validate_trueCommands (amount : Nat) (bound : amount ≤ VerificationLimits.maxCommands) (label : String) :
    validateVerificationCommands (.array ((List.replicate amount trueCommand).map (·.toJson))) label =
      .ok (List.replicate amount trueCommand) := by
  unfold validateVerificationCommands
  simp only [List.length_map, List.length_replicate, if_pos bound]
  exact validateEach_normal (fun command member => List.eq_of_mem_replicate member ▸ trueCommand_normal) 0

/-- One node that declares some commands of each kind. -/
def declareCommands (packet shared final : Fin (VerificationLimits.maxCommands + 1)) : DeclaredVerification String where
  contract :=
    { nodes := [⟨"build", [], none, List.replicate packet trueCommand⟩]
      sharedVerification := some (List.replicate shared trueCommand)
      finalVerification := some (List.replicate final trueCommand)
      nonempty := nofun
      nodup := List.nodup_singleton _
      known := by
        intro node member
        obtain rfl := List.mem_singleton.mp member
        nofun
      acyclic := ⟨fun _ => 0, by
        intro node member
        obtain rfl := List.mem_singleton.mp member
        nofun⟩ }
  packets := by
    intro node member
    obtain rfl := List.mem_singleton.mp member
    exact ⟨_, 0, validate_trueCommands packet (Nat.le_of_lt_succ packet.isLt) _⟩
  shared := by
    rintro _ ⟨rfl⟩
    exact ⟨_, validate_trueCommands shared (Nat.le_of_lt_succ shared.isLt) _⟩
  final := by
    rintro _ ⟨rfl⟩
    exact ⟨_, validate_trueCommands final (Nat.le_of_lt_succ final.isLt) _⟩

theorem verification_accepted_sixteen :
    ∃ accepted, runnableCommands (verificationCommands (declareCommands 16 8 8).contract
      ⟨"build", [], none, List.replicate 16 trueCommand⟩ []) = .ok accepted :=
  (verification_accepted_iff (declareCommands 16 8 8) (List.mem_singleton_self _) []).mpr (by decide)

/-- A node that declares the bound fails on one shared command more, whatever its commands answer. -/
theorem verification_refused :
    ∃ (declared : DeclaredVerification String), ∃ node ∈ declared.contract.nodes, ∀ execute,
      controllerVerification (verificationCommands declared.contract node []) execute =
        (false, some "verification must be an array of at most 32 command objects") :=
  ⟨declareCommands 32 1 0, _, List.mem_singleton_self _, fun _ => rfl⟩

end Faberun
