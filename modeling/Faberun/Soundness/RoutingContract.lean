import Faberun.Soundness.Routing

/-! # What the planner assigns, the contract accepts

Every source a role is resolved from asks the bar, so an assigned judge is one the bar of the assigned worker lets
through (`resolveRole_bar`); with the bar deciding the contract's own rule, the contract the plan freezes is accepted.
-/

namespace Faberun.Routing

namespace RoutingConfig

variable {config : RoutingConfig} {bar : JudgeBar} {id : String}

/-- A runtime of the catalogue a bar lets through. -/
def Passes (config : RoutingConfig) (bar : JudgeBar) (id : String) : Prop :=
  ∃ runtime, config.runtimes.get? id = some runtime ∧ bar id runtime = none

theorem admits_passes (admitted : config.admits bar id = true) : config.Passes bar id := by
  simp only [admits] at admitted
  split at admitted
  · exact nomatch admitted
  · rename_i runtime found
    exact ⟨runtime, found, by simpa using (Bool.and_eq_true_iff.mp admitted).1⟩

theorem leastBy_mem {measure : String → Option Rat} {ids : List String} {value : Rat}
    (least : leastBy measure ids = some (id, value)) : id ∈ ids := by
  induction ids generalizing id value with
  | nil => exact nomatch least
  | cons first rest ih =>
    rw [leastBy] at least
    split at least
    · exact List.mem_cons_of_mem _ (ih least)
    · obtain ⟨rfl, -⟩ := Prod.mk.inj (Option.some.inj least)
      exact List.mem_cons_self
    · rename_i here best later found
      split_ifs at least with below
      · obtain ⟨rfl, -⟩ := Prod.mk.inj (Option.some.inj least)
        exact List.mem_cons_of_mem _ (ih found)
      · obtain ⟨rfl, -⟩ := Prod.mk.inj (Option.some.inj least)
        exact List.mem_cons_self

/-- Every strategy chooses a candidate the bar lets through. -/
theorem chooseByStrategy_passes {strategy : Strategy} {preferred : List String} {previousId : Option String}
    (chosen : (config.chooseByStrategy strategy preferred bar previousId).1 = some id) : config.Passes bar id := by
  have each {candidate : String} (member : candidate ∈ preferred.filter (config.admits bar)) :
      config.Passes bar candidate := admits_passes (List.of_mem_filter member)
  rw [chooseByStrategy] at chosen
  split at chosen
  · exact nomatch chosen
  · rename_i first others admissible
    have head : config.Passes bar first := each (admissible ▸ List.mem_cons_self)
    cases strategy with
    | priority => exact Option.some.inj chosen ▸ head
    | attemptAffinity =>
      cases previousId with
      | none => exact Option.some.inj chosen ▸ head
      | some previous =>
        simp only at chosen
        split_ifs at chosen with again
        · exact Option.some.inj chosen ▸ admits_passes again
        · exact Option.some.inj chosen ▸ head
    | cost =>
      simp only at chosen
      split at chosen
      · exact Option.some.inj chosen ▸ head
      · rename_i winner rank least
        exact Option.some.inj chosen ▸ each (admissible ▸ leastBy_mem least)
    | resetProximity =>
      simp only at chosen
      split at chosen
      · exact Option.some.inj chosen ▸ head
      · rename_i winner remaining least
        exact Option.some.inj chosen ▸ each (admissible ▸ leastBy_mem least)

theorem candidateEntries_passes {candidate : Candidate} (member : candidate ∈ config.candidateEntries bar) :
    config.Passes bar candidate.id := by
  obtain ⟨entry, allowed⟩ := List.mem_filter.mp member
  obtain ⟨⟨⟨id, runtime⟩, order⟩, present, rfl⟩ := List.mem_map.mp entry
  have declared : (id, runtime) ∈ config.runtimes.entries := (List.mem_zipIdx' present).2 ▸ List.getElem_mem _
  exact ⟨runtime, Catalogue.get?_of_mem declared, by simpa using (Bool.and_eq_true_iff.mp allowed).1⟩

theorem discover_passes {role : Role} (chosen : (config.discover role bar).runtimeId = some id) :
    config.Passes bar id := by
  cases role with
  | worker =>
    obtain ⟨candidate, best, rfl⟩ := Option.map_eq_some_iff.mp chosen
    exact candidateEntries_passes ((List.mem_insertionSort _).mp (List.mem_of_head? best))
  | judge =>
    obtain ⟨candidate, best, rfl⟩ := Option.map_eq_some_iff.mp chosen
    exact candidateEntries_passes (List.mem_of_mem_filter ((List.mem_insertionSort _).mp (List.mem_of_head? best)))

theorem declared_passes {named rule reason : String}
    (chosen : (config.declared bar named rule reason).runtimeId = some id) : config.Passes bar id := by
  simp only [declared] at chosen
  split_ifs at chosen with admitted
  exact Option.some.inj chosen ▸ admits_passes admitted

/-- Whatever source a role is resolved from, the bar lets its runtime through. -/
theorem resolveRole_passes {node : RoutingNode} {role : Role}
    (chosen : (config.resolveRole node role bar).runtimeId = some id) : config.Passes bar id := by
  rw [resolveRole] at chosen
  split at chosen
  · exact declared_passes chosen
  · exact declared_passes chosen
  · split at chosen
    · exact chooseByStrategy_passes chosen
    · exact discover_passes chosen

/-! ## All nodes -/

theorem assignNodes_mem {nodes : List RoutingNode} {assignment : Assignment}
    (assigned : (config.assignNodes nodes).assignments id = some assignment) :
    ∃ node ∈ nodes, assignment = config.assign node := by
  induction nodes with
  | nil => exact nomatch assigned
  | cons node rest ih =>
    simp only [assignNodes] at assigned
    rcases Option.or_eq_some_iff.mp assigned with later | ⟨-, here⟩
    · obtain ⟨other, member, same⟩ := ih later
      exact ⟨other, List.mem_cons_of_mem _ member, same⟩
    · split_ifs at here
      exact ⟨node, List.mem_cons_self, (Option.some.inj here).symm⟩

theorem assignNodes_assigned {nodes : List RoutingNode} {node : RoutingNode} (member : node ∈ nodes) :
    ∃ other ∈ nodes, (config.assignNodes nodes).assignments node.id = some (config.assign other) := by
  have given : ((config.assignNodes nodes).assignments node.id).isSome := by
    induction nodes with
    | nil => exact nomatch member
    | cons first rest ih =>
      simp only [assignNodes, Option.isSome_or, Bool.or_eq_true]
      rcases List.mem_cons.mp member with rfl | later
      · right
        rw [if_pos rfl]
        rfl
      · exact .inl (ih later)
  obtain ⟨assignment, assigned⟩ := Option.isSome_iff_exists.mp given
  obtain ⟨other, present, rfl⟩ := assignNodes_mem assigned
  exact ⟨other, present, assigned⟩

/-- A result without unmet roles gives every node both runtimes. -/
theorem assignNodes_met {nodes : List RoutingNode} (met : (config.assignNodes nodes).unmet = []) {node : RoutingNode}
    (member : node ∈ nodes) :
    (config.assign node).worker.runtimeId ≠ none ∧ (config.assign node).judge.runtimeId ≠ none := by
  induction nodes with
  | nil => exact nomatch member
  | cons first rest ih =>
    simp only [assignNodes, List.append_eq_nil_iff, unmetRole, ite_eq_right_iff, reduceCtorEq, imp_false] at met
    rcases List.mem_cons.mp member with rfl | later
    · exact met.1
    · exact ih met.2 later

/-- The judge of an assigned pair is independent of its worker. -/
theorem assign_independent {catalogue : RoutingCatalogue} (declared : config.runtimes = catalogue.toCatalogue)
    (named : catalogue.get? "" = none) {node : RoutingNode} {workerId judgeId : String}
    (worker : (config.assign node).worker.runtimeId = some workerId)
    (judge : (config.assign node).judge.runtimeId = some judgeId) :
    (catalogue.get? workerId).isSome ∧ workerId ≠ "" ∧ judgeId ≠ "" ∧ ∃ runtime, catalogue.get? judgeId = some runtime ∧
      Independent catalogue.toCatalogue config.sameVendor workerId runtime := by
  have nonempty {id : String} {runtime : Runtime} (found : catalogue.get? id = some runtime) : id ≠ "" := by
    rintro rfl
    exact nomatch named.symm.trans found
  have judged : config.Passes (config.judgeBar (config.assign node).worker) judgeId := resolveRole_passes judge
  have worked : config.Passes noBar workerId := resolveRole_passes worker
  obtain ⟨workerRuntime, found, -⟩ := worked
  obtain ⟨judgeRuntime, present, barred⟩ := judged
  rw [declared] at found present
  simp only [judgeBar, worker, nonempty?, Option.filter_some, ne_eq, nonempty found, not_false_eq_true, decide_true,
    ↓reduceIte, declared] at barred
  have declares : judgeRuntime.vendor ≠ none := catalogue.vendors _ (Catalogue.mem_of_get? present)
  exact ⟨by rw [found]; rfl, nonempty found, nonempty present, judgeRuntime, present,
    ((judgeBarFor_eq_none declares).mp barred).1⟩

end RoutingConfig

/-! ## The contract -/

variable {catalogue : RoutingCatalogue} {runtimes : Catalogue} {sameVendor : Bool}

/-- A planned node in the contract, gated or not. -/
def carried (gated : RoutingNode → Bool) (result : Result) (node : RoutingNode) : ReviewNode :=
  { toContractNode node (result.assignments node.id) with gateEnabled := gated node }

private theorem resolveRuntimes_ok {nodes : List RoutingNode} {config : RoutingConfig} {result : Result}
    (success : resolveRuntimes nodes config false = .ok result) :
    result = config.assignNodes nodes ∧ result.unmet = [] := by
  simp only [resolveRuntimes] at success
  cases table : checkTable config.table with
  | error refusal =>
    rw [table] at success
    exact nomatch success
  | ok done =>
    rw [table] at success
    cases met : (config.assignNodes nodes).unmet with
    | nil =>
      simp only [met, List.isEmpty_nil, Bool.true_or] at success
      obtain rfl := Except.ok.inj success
      exact ⟨rfl, met⟩
    | cons unmet rest =>
      simp only [met, List.isEmpty_cons, Bool.or_self] at success
      exact nomatch success

theorem resolveRuntimes_accepted (loaded : Loaded catalogue.toCatalogue runtimes)
    (acyclic : Acyclic catalogue.toCatalogue) {nodes : List RoutingNode} {config : RoutingConfig} {result : Result}
    (declared : config.runtimes = catalogue.toCatalogue)
    (success : resolveRuntimes nodes config false = .ok result) (gated : RoutingNode → Bool) (defaults : RoleMap) :
    (markSameProviderReviewNodes (nodes.map (carried gated result)) runtimes defaults config.sameVendor).isOk = true := by
  obtain ⟨rfl, met⟩ := resolveRuntimes_ok success
  refine markNodesFrom_isOk 0 fun contractNode member index => ?_
  obtain ⟨node, present, rfl⟩ := List.mem_map.mp member
  have given : ∃ other ∈ nodes, (config.assignNodes nodes).assignments node.id = some (config.assign other) :=
    RoutingConfig.assignNodes_assigned present
  obtain ⟨other, there, assigned⟩ := given
  obtain ⟨worked, judged⟩ := RoutingConfig.assignNodes_met met there
  obtain ⟨workerId, worker⟩ := Option.ne_none_iff_exists'.mp worked
  obtain ⟨judgeId, judge⟩ := Option.ne_none_iff_exists'.mp judged
  obtain ⟨known, workerNamed, judgeNamed, runtime, found, independent⟩ :=
    RoutingConfig.assign_independent declared loaded.named worker judge
  refine markNode_isOk loaded acyclic fun _ _ first second => ?_
  simp only [carried, toContractNode, assigned, Option.bind_some, worker, judge, nonempty?, Option.filter_some, ne_eq,
    workerNamed, judgeNamed, not_false_eq_true, decide_true, ↓reduceIte, Option.some_or, Option.some.injEq] at first second
  subst first second
  exact ⟨runtime, known, found, independent⟩

/-- A gated node with two runtimes of its own. -/
def gatedPair (workerId judgeId : String) : ReviewNode := ⟨true, some judgeId, some workerId, false⟩

theorem judgeBarFor_agrees (loaded : Loaded catalogue.toCatalogue runtimes) (acyclic : Acyclic catalogue.toCatalogue)
    {workerId judgeId : String} {worker judge : Runtime} (worked : catalogue.get? workerId = some worker)
    (judged : catalogue.get? judgeId = some judge) (other : judgeId ≠ workerId) (defaults : RoleMap) :
    judgeBarFor workerId catalogue.toCatalogue sameVendor judgeId judge = none ↔
      (markSameProviderReviewNodes [gatedPair workerId judgeId] runtimes defaults sameVendor).isOk = true := by
  have declares : judge.vendor ≠ none := catalogue.vendors _ (Catalogue.mem_of_get? judged)
  have named {id : String} {runtime : Runtime} (found : catalogue.get? id = some runtime) : id ≠ "" := by
    rintro rfl
    cases loaded.named.symm.trans found
  rw [judgeBarFor_eq_none declares, and_iff_left fun same => absurd same other,
    ← reviewRuntimes_isOk loaded acyclic s!"nodes[{0}]" worked judged]
  simp only [markSameProviderReviewNodes, markNodesFrom, markNode, gatedPair, Option.some_or, nonempty?,
    Option.filter_some, ne_eq, named worked, named judged, not_false_eq_true, decide_true, ↓reduceIte]
  cases reviewRuntimes runtimes sameVendor s!"nodes[{0}]" workerId judgeId with
  | error refusal => exact iff_of_false Bool.false_ne_true Bool.false_ne_true
  | ok shared => exact iff_of_true rfl rfl

theorem refuseUnplannableRuntimes_accepted (loaded : Loaded catalogue.toCatalogue runtimes)
    (acyclic : Acyclic catalogue.toCatalogue) {executionRefusal : Runtime → Option String} {defaults : RoleMap}
    {implementation : Bool}
    (success : refuseUnplannableRuntimes executionRefusal catalogue.toCatalogue defaults implementation sameVendor = .ok ())
    (known : ∀ id, defaults.worker = some id ∨ defaults.judge = some id → (catalogue.get? id).isSome)
    {nodes : List ReviewNode}
    (defaulted : ∀ node ∈ nodes, node.gateEnabled = true → node.runtime = none ∧ node.gateRuntime = none) :
    (markSameProviderReviewNodes nodes runtimes defaults sameVendor).isOk = true := by
  refine markNodesFrom_isOk 0 fun node member index => ?_
  cases gated : node.gateEnabled with
  | false =>
    rw [markNode, gated]
    rfl
  | true =>
    obtain ⟨ownWorker, ownJudge⟩ := defaulted node member gated
    refine markNode_isOk loaded acyclic fun workerId judgeId first second => ?_
    rw [ownWorker, Option.none_or] at first
    rw [ownJudge, Option.none_or] at second
    have worked := known workerId (.inl first)
    obtain ⟨worker, found⟩ := Option.isSome_iff_exists.mp worked
    obtain ⟨judge, present⟩ := Option.isSome_iff_exists.mp (known judgeId (.inr second))
    have declares : judge.vendor ≠ none := catalogue.vendors _ (Catalogue.mem_of_get? present)
    exact ⟨judge, worked, present,
      refuseUnplannableRuntimes_ok loaded success found present declares first second⟩

/-- The planner's routing, its bar and its refusal agree with the contract validator. -/
theorem plannerRouting_agrees (loads : contractRuntimes catalogue.toCatalogue = .ok runtimes)
    (acyclic : Acyclic catalogue.toCatalogue) :
    (∀ (nodes : List RoutingNode) (config : RoutingConfig) (result : Result) (gated : RoutingNode → Bool)
      (defaults : RoleMap), config.runtimes = catalogue.toCatalogue → config.sameVendor = sameVendor →
        resolveRuntimes nodes config false = .ok result →
          (markSameProviderReviewNodes (nodes.map (carried gated result)) runtimes defaults sameVendor).isOk = true) ∧
    (∀ (workerId judgeId : String) (worker judge : Runtime) (defaults : RoleMap),
      catalogue.get? workerId = some worker → catalogue.get? judgeId = some judge → judgeId ≠ workerId →
        (judgeBarFor workerId catalogue.toCatalogue sameVendor judgeId judge = none ↔
          (markSameProviderReviewNodes [gatedPair workerId judgeId] runtimes defaults sameVendor).isOk = true)) ∧
    (∀ (executionRefusal : Runtime → Option String) (defaults : RoleMap) (implementation : Bool)
      (nodes : List ReviewNode),
        refuseUnplannableRuntimes executionRefusal catalogue.toCatalogue defaults implementation sameVendor = .ok () →
        (∀ id, defaults.worker = some id ∨ defaults.judge = some id → (catalogue.get? id).isSome) →
        (∀ node ∈ nodes, node.gateEnabled = true → node.runtime = none ∧ node.gateRuntime = none) →
          (markSameProviderReviewNodes nodes runtimes defaults sameVendor).isOk = true) := by
  have loaded := contractRuntimes_ok loads
  refine ⟨?_, ?_, ?_⟩
  · rintro nodes config result gated defaults declared rfl success
    exact resolveRuntimes_accepted loaded acyclic declared success gated defaults
  · intro workerId judgeId worker judge defaults worked judged other
    exact judgeBarFor_agrees loaded acyclic worked judged other defaults
  · intro executionRefusal defaults implementation nodes success known defaulted
    exact refuseUnplannableRuntimes_accepted loaded acyclic success known defaulted

/-! ## A catalogue with a fallback -/

/-- Fallbacks that go down in rank come to an end. -/
theorem acyclic_of_rank {raw : Catalogue} (rank : String → Nat)
    (below : ∀ entry ∈ raw.entries, ∀ fallback, entry.2.fallback = some fallback → rank fallback < rank entry.1) :
    Acyclic raw := by
  intro id cycle
  have down {first last : String} (path : Relation.TransGen (Hop raw) first last) : rank last < rank first := by
    induction path with
    | single hop =>
      obtain ⟨runtime, found, named⟩ := hop
      exact below _ (Catalogue.mem_of_get? found) _ named
    | tail _ hop ih =>
      obtain ⟨runtime, found, named⟩ := hop
      exact (below _ (Catalogue.mem_of_get? found) _ named).trans ih
  exact Nat.lt_irrefl _ (down cycle)

/-- A worker with a fallback of another provider, and a judge of a third. -/
def threeProviders : RoutingCatalogue where
  entries :=
    [("sonnet", ⟨"claude", "claude-sonnet-5", some "anthropic", none, none, none, none, some "glm"⟩),
      ("glm", ⟨"fx", "glm-5.3", some "zhipu", none, none, none, none, none⟩),
      ("gpt", ⟨"codex", "gpt-6", some "openai", none, none, none, none, none⟩)]
  distinct := by decide
  vendors := by decide

/-- A table that prefers the first and the last of them. -/
def preferring : RoutingConfig where
  table := [⟨none, some "code", none, ["sonnet", "glm"], .worker, none⟩, ⟨none, none, none, ["glm", "gpt"], .judge, none⟩]
  runtimes := threeProviders.toCatalogue
  availability _ := some ⟨true, none, none, none, none⟩
  runtimeDefaults := ⟨none, none⟩
  overrides _ := ⟨none, none⟩
  sameVendor := false
  previous _ := ⟨none, none⟩
  clock := ⟨fun _ => none, 0, fun _ => ""⟩

def plannedNode : RoutingNode := ⟨"build", some "code", none⟩

/-- The routing, the bar and the refusal, each where it says yes. -/
theorem plannerRouting_agrees_three : ∃ runtimes, contractRuntimes threeProviders.toCatalogue = .ok runtimes ∧
    (∃ result, resolveRuntimes [plannedNode] preferring false = .ok result ∧
      (markSameProviderReviewNodes ([plannedNode].map (carried (fun _ => true) result)) runtimes ⟨none, none⟩ false).isOk = true) ∧
    (markSameProviderReviewNodes [gatedPair "sonnet" "gpt"] runtimes ⟨none, none⟩ false).isOk = true ∧
    (markSameProviderReviewNodes [⟨true, none, none, false⟩] runtimes ⟨some "sonnet", some "gpt"⟩ false).isOk = true := by
  have loads : (contractRuntimes threeProviders.toCatalogue).isOk = true := by decide
  cases held : contractRuntimes threeProviders.toCatalogue with
  | error refusal =>
    rw [held] at loads
    exact nomatch loads
  | ok runtimes =>
    have acyclic : Acyclic threeProviders.toCatalogue :=
      acyclic_of_rank (fun id => if id = "sonnet" then 1 else 0) (by decide)
    obtain ⟨routing, bar, refusal⟩ := plannerRouting_agrees held acyclic
    refine ⟨runtimes, rfl, ?_, (bar "sonnet" "gpt" _ _ ⟨none, none⟩ rfl rfl (by decide)).mp (by decide), ?_⟩
    · have routes : (resolveRuntimes [plannedNode] preferring false).isOk = true := by decide
      cases routed : resolveRuntimes [plannedNode] preferring false with
      | error refusal =>
        rw [routed] at routes
        exact nomatch routes
      | ok result => exact ⟨result, rfl, routing _ preferring result _ _ rfl rfl routed⟩
    · refine refusal (fun _ => none) _ true _ (by decide) (fun id named => ?_) (by decide)
      rcases named with named | named <;> obtain rfl := Option.some.inj named <;> decide

end Faberun.Routing
