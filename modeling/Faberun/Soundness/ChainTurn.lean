import Faberun.Model.Campaign.Chain

/-! # What a turn of the chain reads

A turn that has come to a contract reads no run directory but that of the contract, up to the promotion, the resume or
the launch it ends in: on other directories it takes the same steps.
-/

namespace Faberun.Chain

variable {γ : Type} {campaign : Campaign γ} {contract : CampaignContract} {runs : String → RunDirectory γ}
  {s : State γ} {coordinator : Coordinator γ} {point : Point γ} {label : Label γ}

/-- The contract a coordinator is at. -/
def contractAt : Point γ → Option CampaignContract
  | .reading | .parking _ => none
  | .validating contract | .looking contract | .classifying contract _ | .promoting contract _ | .advancing contract _ _
  | .recording contract | .recovering contract | .resuming contract | .verifying contract | .launching contract
  | .bootstrapping contract => some contract

/-- The steps of a turn. -/
def turns : Label γ → Bool
  | .validate _ | .look | .classify | .promote _ | .recover => true
  | _ => false

/-- The same chain on other directories. -/
def withRuns (runs : String → RunDirectory γ) (s : State γ) : State γ := { s with runs := runs }

theorem look_withRuns (same : runs contract.runDir = s.runs contract.runDir) :
    look (withRuns runs s) coordinator contract = withRuns runs (look s coordinator contract) := by
  simp only [look, withRuns, same]
  split
  · rfl
  · split_ifs <;> rfl

theorem classify_withRuns (same : runs contract.runDir = s.runs contract.runDir) {baseSha : Option γ} :
    classify (withRuns runs s) coordinator contract baseSha =
      withRuns runs (classify s coordinator contract baseSha) := by
  simp only [classify, withRuns, same]
  split <;> try rfl
  split_ifs <;> rfl

theorem resumeDeadRun_withRuns (same : runs contract.runDir = s.runs contract.runDir) :
    resumeDeadRun (withRuns runs s) coordinator contract = withRuns runs (resumeDeadRun s coordinator contract) := by
  simp only [resumeDeadRun, withRuns, same]
  split_ifs <;> rfl

variable [DecidableEq γ]

theorem promoteRun_withRuns {baseSha : Option γ} {head : γ} :
    promoteRun campaign (withRuns runs s) coordinator contract baseSha head =
      withRuns runs (promoteRun campaign s coordinator contract baseSha head) := by
  simp only [promoteRun, withRuns]
  split
  · split_ifs <;> rfl
  · split
    · rfl
    · split_ifs <;> rfl

theorem coordinatorStep_withRuns (turning : turns label = true) (on : ∀ found ∈ contractAt point, found = contract)
    (same : runs contract.runDir = s.runs contract.runDir) :
    coordinatorStep campaign (withRuns runs s) coordinator point label =
      (coordinatorStep campaign s coordinator point label).map (withRuns runs) := by
  cases label with
  | look => cases point with
    | looking found =>
      obtain rfl := on found rfl
      exact congrArg some (look_withRuns same)
    | _ => rfl
  | classify => cases point with
    | classifying found baseSha =>
      obtain rfl := on found rfl
      exact congrArg some (classify_withRuns same)
    | _ => rfl
  | recover => cases point with
    | recovering found =>
      obtain rfl := on found rfl
      exact congrArg some (resumeDeadRun_withRuns same)
    | _ => rfl
  | validate failure => cases point with
    | validating found => cases failure <;> rfl
    | _ => rfl
  | promote checkedOut => cases point with
    | promoting found baseSha =>
      have refusal : promotionRefusal campaign (withRuns runs s) found checkedOut =
        promotionRefusal campaign s found checkedOut := rfl
      have heads : (withRuns runs s).heads = s.heads := rfl
      simp only [coordinatorStep, refusal, heads]
      split
      · exact congrArg some promoteRun_withRuns
      · rfl
      · rfl
    | _ => rfl
  | _ => exact nomatch turning

/-- A chain is on a contract, or between two, and its directories are these. -/
structure On (contract : CampaignContract) (runs : String → RunDirectory γ) (s : State γ) : Prop where
  runs : s.runs = runs
  point : ∀ coordinator, s.coordinator = some coordinator → ∀ found ∈ contractAt coordinator.point, found = contract

omit [DecidableEq γ] in
theorem On.goto (on : On contract runs s) (at' : ∀ found ∈ contractAt point, found = contract) :
    On contract runs (s.goto coordinator point) := by
  refine ⟨on.runs, fun other here => ?_⟩
  obtain rfl := Option.some.inj here
  exact at'

omit [DecidableEq γ] in
theorem On.log (on : On contract runs s) (event : Event γ) : On contract runs (s.log event) := ⟨on.runs, on.point⟩

omit [DecidableEq γ] in
theorem On.halt (on : On contract runs s) (code : String) : On contract runs (s.halt coordinator code) :=
  (on.log _).goto nofun

omit [DecidableEq γ] in
theorem On.look (on : On contract runs s) : On contract runs (Chain.look s coordinator contract) := by
  unfold Chain.look
  split
  · exact (on.log _).goto fun found here => (Option.some.inj here).symm
  · split_ifs
    · exact on.goto fun found here => (Option.some.inj here).symm
    · exact on.halt _

omit [DecidableEq γ] in
theorem On.classify (on : On contract runs s) {baseSha : Option γ} :
    On contract runs (Chain.classify s coordinator contract baseSha) := by
  unfold Chain.classify
  split
  · exact (on.log _).goto fun found here => (Option.some.inj here).symm
  · exact on.halt _
  · exact on.halt _
  · exact on.goto nofun
  · split_ifs
    · exact on.goto nofun
    · exact on.goto fun found here => (Option.some.inj here).symm

omit [DecidableEq γ] in
theorem On.resumeDeadRun (on : On contract runs s) : On contract runs (Chain.resumeDeadRun s coordinator contract) := by
  unfold Chain.resumeDeadRun
  dsimp only
  split_ifs
  · exact on.halt _
  · exact on.halt _
  · exact (on.log _).goto fun found here => (Option.some.inj here).symm

theorem On.promoteRun (on : On contract runs s) {baseSha : Option γ} {head : γ} :
    On contract runs (Chain.promoteRun campaign s coordinator contract baseSha head) := by
  unfold Chain.promoteRun
  split
  · split_ifs
    · exact (on.log _).goto nofun
    · exact on.goto fun found here => (Option.some.inj here).symm
    · exact on.halt _
  · split
    · exact on.halt _
    · split_ifs
      · have moved (base : γ) : On contract runs { s with branch := some base } := ⟨on.runs, on.point⟩
        refine (moved _).goto ?_
        exact fun found here => (Option.some.inj here).symm
      · exact on.halt _

theorem On.coordinatorStep (on : On contract runs s) (turning : turns label = true)
    (at' : ∀ found ∈ contractAt point, found = contract) {t : State γ}
    (steps : Chain.coordinatorStep campaign s coordinator point label = some t) : On contract runs t := by
  cases label with
  | look => cases point with
    | looking found =>
      obtain rfl := at' found rfl
      exact Option.some.inj steps ▸ on.look
    | _ => exact nomatch steps
  | classify => cases point with
    | classifying found baseSha =>
      obtain rfl := at' found rfl
      exact Option.some.inj steps ▸ on.classify
    | _ => exact nomatch steps
  | recover => cases point with
    | recovering found =>
      obtain rfl := at' found rfl
      exact Option.some.inj steps ▸ on.resumeDeadRun
    | _ => exact nomatch steps
  | validate failure => cases point with
    | validating found =>
      obtain rfl := at' found rfl
      cases failure with
      | none => exact Option.some.inj steps ▸ on.goto fun found here => (Option.some.inj here).symm
      | some code => exact Option.some.inj steps ▸ on.halt code
    | _ => exact nomatch steps
  | promote checkedOut => cases point with
    | promoting found baseSha =>
      obtain rfl := at' found rfl
      simp only [Chain.coordinatorStep] at steps
      split at steps
      · exact Option.some.inj steps ▸ on.promoteRun
      · exact Option.some.inj steps ▸ on.halt _
      · exact Option.some.inj steps ▸ on.halt _
    | _ => exact nomatch steps
  | _ => exact nomatch turning

theorem step_of_turns (turning : turns label = true) :
    step campaign s label =
      s.coordinator.bind fun coordinator => Chain.coordinatorStep campaign s coordinator coordinator.point label := by
  cases label with
  | look | classify | recover | validate _ | promote _ => rfl
  | _ => exact nomatch turning

/-- A run of turn steps, each taken where it is enabled, comes to the same on directories that agree at the contract. -/
theorem foldl_withRuns {labels : List (Label γ)} {before : String → RunDirectory γ}
    (same : runs contract.runDir = before contract.runDir) (turning : ∀ label ∈ labels, turns label = true)
    (on : On contract before s) :
    labels.foldl (fun s label => (step campaign s label).getD s) (withRuns runs s) =
      withRuns runs (labels.foldl (fun s label => (step campaign s label).getD s) s) := by
  induction labels generalizing s with
  | nil => rfl
  | cons label labels ih =>
    have first := turning label List.mem_cons_self
    have rest (other) (member : other ∈ labels) := turning other (List.mem_cons_of_mem _ member)
    simp only [List.foldl_cons, step_of_turns first]
    cases here : s.coordinator with
    | none =>
      have none' : (withRuns runs s).coordinator = none := here
      rw [none']
      exact ih rest on
    | some coordinator =>
      have some' : (withRuns runs s).coordinator = some coordinator := here
      have at' := on.point coordinator here
      rw [some', Option.bind_some, Option.bind_some, coordinatorStep_withRuns first at' (same.trans (on.runs ▸ rfl))]
      cases steps : Chain.coordinatorStep campaign s coordinator coordinator.point label with
      | none => exact ih rest on
      | some next => exact ih rest (on.coordinatorStep first at' steps)

/-! ## Launches -/

/-- The coordinator is past the look for `run.json`, and has found one. -/
def Found (s : State γ) : Prop :=
  ∀ coordinator, s.coordinator = some coordinator →
    match coordinator.point with
    | .validating _ | .looking _ | .verifying _ => False
    | _ => True

omit [DecidableEq γ] in
theorem found_goto (at' : match point with | .validating _ | .looking _ | .verifying _ => False | _ => True) :
    Found (s.goto coordinator point) := by
  intro other here
  obtain rfl := Option.some.inj here
  exact at'

/-- From there no step of a turn comes to a launch. -/
theorem Found.step (found : Found s) {t : State γ} (turning : turns label = true)
    (steps : Chain.step campaign s label = some t) : Found t := by
  rw [step_of_turns turning] at steps
  obtain ⟨coordinator, here, steps⟩ := Option.bind_eq_some_iff.mp steps
  have found := found coordinator here
  revert steps found
  generalize coordinator.point = point
  intro steps found
  cases label with
  | look => cases point with
    | looking _ => exact found.elim
    | _ => exact nomatch steps
  | classify => cases point with
    | classifying contract baseSha =>
      obtain rfl := Option.some.inj steps
      unfold classify
      split
      · exact found_goto trivial
      · exact found_goto trivial
      · exact found_goto trivial
      · exact found_goto trivial
      · split_ifs <;> exact found_goto trivial
    | _ => exact nomatch steps
  | recover => cases point with
    | recovering contract =>
      obtain rfl := Option.some.inj steps
      unfold resumeDeadRun
      dsimp only
      split_ifs <;> exact found_goto trivial
    | _ => exact nomatch steps
  | validate failure => cases point with
    | validating _ => exact found.elim
    | _ => exact nomatch steps
  | promote checkedOut => cases point with
    | promoting contract baseSha =>
      simp only [coordinatorStep] at steps
      split at steps
      · obtain rfl := Option.some.inj steps
        unfold promoteRun
        split
        · split_ifs <;> exact found_goto trivial
        · split
          · exact found_goto trivial
          · split_ifs <;> exact found_goto trivial
      · exact Option.some.inj steps ▸ found_goto trivial
      · exact Option.some.inj steps ▸ found_goto trivial
    | _ => exact nomatch steps
  | _ => exact nomatch turning

theorem Found.foldl {labels : List (Label γ)} (turning : ∀ label ∈ labels, turns label = true) (found : Found s) :
    Found (labels.foldl (fun s label => (Chain.step campaign s label).getD s) s) := by
  induction labels generalizing s with
  | nil => exact found
  | cons label labels ih =>
    refine ih (fun other member => turning other (List.mem_cons_of_mem _ member)) ?_
    dsimp only
    cases steps : Chain.step campaign s label with
    | none => exact found
    | some next => exact found.step (turning label List.mem_cons_self) steps

end Faberun.Chain
