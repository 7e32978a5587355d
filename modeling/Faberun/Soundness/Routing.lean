import Mathlib.Data.List.TakeWhile
import Mathlib.Logic.Relation
import Faberun.Model.Plan.Routing

/-! # One rule in three places

A judge is independent of a worker when no runtime the worker's fallback chain reaches shares its provider, but where
the mode lets it (`Independent`). The planner's bar, the refusal before a plan spends anything and the contract
validator each walk the chain and compare in their own way; on a catalogue whose chains are acyclic and whose contract
loads, each of them decides this predicate.
-/

namespace Faberun.Routing

/-! ## The rule -/

/-- A worker runtime and a judge of one provider need the mode and the tiers. -/
def Admissible (sameVendor : Bool) (worker judge : Runtime) : Prop :=
  effectiveProvider worker = effectiveProvider judge → sameVendor = true ∧ sameVendorTierRefusal worker judge = none

/-- Every runtime of a worker's chain may be reviewed by the judge. -/
def Independent (runtimes : Catalogue) (sameVendor : Bool) (workerId : String) (judge : Runtime) : Prop :=
  ∀ member ∈ workerChain runtimes workerId, Admissible sameVendor member.2 judge

/-- A runtime names another as its fallback. -/
def Hop (runtimes : Catalogue) (id next : String) : Prop :=
  ∃ runtime, runtimes.get? id = some runtime ∧ runtime.fallback = some next

def Acyclic (runtimes : Catalogue) : Prop := ∀ id, ¬ Relation.TransGen (Hop runtimes) id id

/-- What the planner is given: every runtime declares a vendor. -/
structure RoutingCatalogue extends Catalogue where
  vendors : ∀ entry ∈ entries, entry.2.vendor ≠ none

/-! ## A contract's runtimes -/

theorem map_ok {α β : Type} {first : Except Refusal α} {f : α → β} {result : β}
    (success : first.map f = .ok result) : ∃ value, first = .ok value ∧ f value = result := by
  cases first with
  | error refusal => exact nomatch success
  | ok value => exact ⟨value, rfl, Except.ok.inj success⟩

private theorem forM_ok {α : Type} {items : List α} {each : α → Except Refusal Unit} (success : items.forM each = .ok ()) :
    ∀ item ∈ items, each item = .ok () := by
  induction items with
  | nil => exact nofun
  | cons first rest ih =>
    obtain ⟨_, here, later⟩ := bind_ok_iff.mp success
    exact List.forall_mem_cons.mpr ⟨here, ih later⟩

private theorem nonblank_ne {text : String} (shows : isBlank text = false) : text ≠ "" := by
  rintro rfl
  exact absurd shows (by decide)

/-- The validator keeps a runtime and writes its provider into the vendor. -/
theorem validateRuntime_ok {id : String} {runtime validated : Runtime} (declares : runtime.vendor ≠ none)
    (success : validateRuntime id runtime = .ok validated) :
    id ≠ "" ∧ validated = { runtime with vendor := effectiveProvider runtime } := by
  obtain ⟨vendor, named⟩ := Option.ne_none_iff_exists'.mp declares
  obtain ⟨_, identified, success⟩ := bind_ok_iff.mp success
  obtain ⟨_, here, -⟩ := bind_ok_iff.mp identified
  obtain ⟨_, shows, success⟩ := bind_ok_iff.mp success
  have nonempty : id ≠ "" := by simpa [check_ok_iff] using here
  have visible : vendor ≠ "" := by
    apply nonblank_ne
    simpa [check_ok_iff, named] using shows
  refine ⟨nonempty, ?_⟩
  cases derived : canonicalProvider runtime with
  | some provider =>
    simp only [derived] at success
    obtain ⟨_, -, success⟩ := bind_ok_iff.mp success
    rw [effectiveProvider, derived]
    exact (Except.ok.inj success).symm
  | none =>
    have resolved : resolveVendor runtime = some vendor := by
      simp [resolveVendor, nonempty?, named, visible]
    simp only [derived, resolved] at success
    rw [effectiveProvider, derived, named]
    exact (Except.ok.inj success).symm

/-- A runtime as the contract holds it. -/
def withProvider (runtime : Runtime) : Runtime := { runtime with vendor := effectiveProvider runtime }

theorem validateEntries_ok {entries validated : List (String × Runtime)}
    (declares : ∀ entry ∈ entries, entry.2.vendor ≠ none) (success : validateEntries entries = .ok validated) :
    validated = entries.map (fun entry => (entry.1, withProvider entry.2)) ∧ ∀ entry ∈ entries, entry.1 ≠ "" := by
  induction entries generalizing validated with
  | nil =>
    obtain rfl := Except.ok.inj success
    exact ⟨rfl, nofun⟩
  | cons entry rest ih =>
    obtain ⟨first, here, success⟩ := bind_ok_iff.mp success
    obtain ⟨others, later, success⟩ := bind_ok_iff.mp success
    obtain rfl := Except.ok.inj success
    obtain ⟨nonempty, rfl⟩ := validateRuntime_ok (declares entry (by simp)) here
    obtain ⟨rfl, ids⟩ := ih (fun other member => declares other (by simp [member])) later
    exact ⟨rfl, List.forall_mem_cons.mpr ⟨nonempty, ids⟩⟩

theorem checkFallbacks_ok {runtimes : Catalogue} (success : checkFallbacks runtimes = .ok ()) {id fallback : String}
    {runtime : Runtime} (found : runtimes.get? id = some runtime) (named : runtime.fallback = some fallback) :
    (runtimes.get? fallback).isSome := by
  have here := forM_ok success _ (Catalogue.mem_of_get? found)
  simp only [named] at here
  obtain ⟨_, -, known⟩ := bind_ok_iff.mp here
  exact check_ok_iff.mp known

/-- A contract that loads. -/
structure Loaded (raw runtimes : Catalogue) : Prop where
  get? : ∀ id, runtimes.get? id = (raw.get? id).map withProvider
  size : runtimes.entries.length = raw.entries.length
  closed : ∀ {id fallback runtime}, raw.get? id = some runtime → runtime.fallback = some fallback →
    (raw.get? fallback).isSome
  named : raw.get? "" = none

theorem contractRuntimes_eq_ok {raw runtimes : Catalogue} (success : contractRuntimes raw = .ok runtimes) :
    validateEntries raw.entries = .ok runtimes.entries ∧ checkFallbacks runtimes = .ok () := by
  unfold contractRuntimes at success
  split at success
  · exact nomatch success
  · rename_i entries validated
    obtain ⟨_, checked, rfl⟩ := map_ok success
    exact ⟨validated, checked⟩

/-- The runtimes of a contract are the catalogue's with their providers. -/
theorem contractRuntimes_ok {raw : RoutingCatalogue} {runtimes : Catalogue}
    (success : contractRuntimes raw.toCatalogue = .ok runtimes) : Loaded raw.toCatalogue runtimes := by
  obtain ⟨validated, checked⟩ := contractRuntimes_eq_ok success
  obtain ⟨entries, ids⟩ := validateEntries_ok raw.vendors validated
  have lookup (id : String) : runtimes.get? id = (raw.get? id).map withProvider := by
    rw [Catalogue.get?, Catalogue.get?, entries, List.find?_map, Option.map_map, Option.map_map]
    rfl
  refine ⟨lookup, ?_, ?_, ?_⟩
  · rw [entries, List.length_map]
  · intro id fallback runtime found named
    have here : runtimes.get? id = some (withProvider runtime) := by rw [lookup, found, Option.map_some]
    have known := checkFallbacks_ok checked here named
    rw [lookup, Option.isSome_map] at known
    exact known
  · cases empty : raw.get? "" with
    | none => rfl
    | some runtime => exact absurd rfl (ids _ (Catalogue.mem_of_get? empty))

/-! ## The contract validator -/

private theorem isOk_and {first second : Except Refusal Bool} :
    (do let shared ← first; let later ← second; return shared || later : Except Refusal Bool).isOk =
      (first.isOk && second.isOk) := by
  cases first <;> cases second <;> rfl

/-- One pair is let through exactly when it is admissible. -/
theorem reviewPair_isOk (sameVendor : Bool) (pair : String) (worker judge : Runtime) :
    (reviewPair sameVendor pair (withProvider worker) (withProvider judge)).isOk = true ↔
      Admissible sameVendor worker judge := by
  have tiers : sameVendorTierRefusal (withProvider worker) (withProvider judge) = sameVendorTierRefusal worker judge := rfl
  rw [reviewPair, Admissible, tiers]
  split_ifs with shared mode
  · have same : effectiveProvider worker = effectiveProvider judge := shared
    cases refused : sameVendorTierRefusal worker judge with
    | none => simp [Except.isOk, Except.toBool, mode]
    | some refusal => simp [Except.isOk, Except.toBool, same]
  · have same : effectiveProvider worker = effectiveProvider judge := shared
    simp [Except.isOk, Except.toBool, same, mode]
  · have differ : effectiveProvider worker ≠ effectiveProvider judge := shared
    simp [Except.isOk, Except.toBool, differ]

section Chains

variable {raw runtimes : Catalogue} {sameVendor : Bool}

/-- The rest of a chain is let through exactly when all of it is admissible. -/
theorem reviewFallbacks_isOk (loaded : Loaded raw runtimes) (acyclic : Acyclic raw) (node workerId judgeId : String)
    (judge : Runtime) (fuel : Nat) {seen : List String} {next : Option String}
    (known : ∀ id, next = some id → (raw.get? id).isSome)
    (after : ∀ id, next = some id → ∀ earlier ∈ seen, Relation.TransGen (Hop raw) earlier id) :
    (reviewFallbacks runtimes sameVendor node workerId judgeId (withProvider judge) fuel seen next).isOk = true ↔
      ∀ member ∈ chainFrom raw fuel seen next, Admissible sameVendor member.2 judge := by
  induction fuel generalizing seen next with
  | zero => cases next <;> simp [reviewFallbacks, chainFrom, Except.isOk, Except.toBool]
  | succ fuel ih =>
    cases next with
    | none => simp [reviewFallbacks, chainFrom, Except.isOk, Except.toBool]
    | some id =>
      have fresh : seen.contains id = false := by
        rw [Bool.eq_false_iff, ne_eq, List.contains_iff_mem]
        exact fun member => acyclic id (after id rfl id member)
      obtain ⟨runtime, found⟩ := Option.isSome_iff_exists.mp (known id rfl)
      have there : runtimes.get? id = some (withProvider runtime) := by rw [loaded.get?, found, Option.map_some]
      have hop (fallback : String) (named : runtime.fallback = some fallback) : Hop raw id fallback :=
        ⟨runtime, found, named⟩
      have rest := @ih (id :: seen) runtime.fallback
        (fun fallback named => loaded.closed found named)
        (fun fallback named => List.forall_mem_cons.mpr ⟨.single (hop fallback named),
          fun earlier member => (after id rfl earlier member).tail (hop fallback named)⟩)
      simp only [reviewFallbacks, chainFrom, fresh, Bool.false_eq_true, ↓reduceIte, there, found]
      rw [isOk_and, Bool.and_eq_true, reviewPair_isOk, List.forall_mem_cons]
      exact and_congr_right fun _ => rest

theorem workerChain_found {workerId : String} {worker : Runtime} (found : raw.get? workerId = some worker) :
    workerChain raw workerId =
      (workerId, worker) :: chainFrom raw raw.entries.length [workerId] worker.fallback := by
  simp [workerChain, chainFrom, found]

/-- The contract validator decides the rule. -/
theorem reviewRuntimes_isOk (loaded : Loaded raw runtimes) (acyclic : Acyclic raw) (node : String)
    {workerId judgeId : String} {worker judge : Runtime} (worked : raw.get? workerId = some worker)
    (judged : raw.get? judgeId = some judge) :
    (reviewRuntimes runtimes sameVendor node workerId judgeId).isOk = true ↔
      Independent raw sameVendor workerId judge := by
  have rest := @reviewFallbacks_isOk raw runtimes sameVendor loaded acyclic node workerId judgeId judge
    raw.entries.length [workerId] worker.fallback (fun fallback named => loaded.closed worked named)
    (fun fallback named => by simpa using Relation.TransGen.single ⟨worker, worked, named⟩)
  simp only [reviewRuntimes, loaded.get?, worked, judged, Option.map_some]
  rw [isOk_and, Bool.and_eq_true, reviewPair_isOk, Independent, workerChain_found worked, List.forall_mem_cons,
    loaded.size]
  exact and_congr_right fun _ => rest

/-- A node without two runtimes, or without a gate, is not looked at; another one decides the rule. -/
theorem markNode_isOk (loaded : Loaded raw runtimes) (acyclic : Acyclic raw) {defaults : RoleMap} {index : Nat}
    {node : ReviewNode} (known : ∀ workerId judgeId, node.runtime.or defaults.worker = some workerId →
      node.gateRuntime.or defaults.judge = some judgeId → ∃ judge, (raw.get? workerId).isSome ∧
        raw.get? judgeId = some judge ∧ Independent raw sameVendor workerId judge) :
    (markNode runtimes defaults sameVendor index node).isOk = true := by
  rw [markNode]
  split_ifs with gated
  · split
    · rename_i workerId judgeId worked judged
      obtain ⟨worked, -⟩ := Option.filter_eq_some_iff.mp worked
      obtain ⟨judged, -⟩ := Option.filter_eq_some_iff.mp judged
      obtain ⟨judge, some, found, independent⟩ := known workerId judgeId worked judged
      obtain ⟨worker, present⟩ := Option.isSome_iff_exists.mp some
      have passes := (reviewRuntimes_isOk loaded acyclic s!"nodes[{index}]" present found).mpr independent
      cases reviewed : reviewRuntimes runtimes sameVendor s!"nodes[{index}]" workerId judgeId with
      | error refusal =>
        rw [reviewed] at passes
        exact nomatch passes
      | ok shared => rfl
    · rfl
  · rfl

theorem markNodesFrom_isOk {defaults : RoleMap} {nodes : List ReviewNode} (index : Nat)
    (each : ∀ node ∈ nodes, ∀ index, (markNode runtimes defaults sameVendor index node).isOk = true) :
    (markNodesFrom runtimes defaults sameVendor index nodes).isOk = true := by
  induction nodes generalizing index with
  | nil => rfl
  | cons node rest ih =>
    obtain ⟨here, rest'⟩ := List.forall_mem_cons.mp each
    have later := ih (index + 1) rest'
    have first := here index
    rw [markNodesFrom]
    cases marked : markNode runtimes defaults sameVendor index node with
    | error refusal =>
      rw [marked] at first
      exact nomatch first
    | ok node =>
      cases others : markNodesFrom runtimes defaults sameVendor (index + 1) rest with
      | error refusal =>
        rw [others] at later
        exact nomatch later
      | ok rest => rfl

/-! ## The planner's bar -/

theorem effectiveProvider_ne_none {runtime : Runtime} (declares : runtime.vendor ≠ none) :
    effectiveProvider runtime ≠ none := by
  rw [effectiveProvider, ne_eq, Option.or_eq_none_iff]
  exact fun both => declares both.2

/-- The planner's bar decides the rule, and bars a worker of the judge's provider from judging itself. -/
theorem judgeBarFor_eq_none {workerId candidateId : String} {candidate : Runtime} (declares : candidate.vendor ≠ none) :
    judgeBarFor workerId raw sameVendor candidateId candidate = none ↔
      Independent raw sameVendor workerId candidate ∧ (candidateId = workerId →
        ∀ member ∈ workerChain raw workerId, effectiveProvider member.2 ≠ effectiveProvider candidate) := by
  obtain ⟨provider, derived⟩ := Option.ne_none_iff_exists'.mp (effectiveProvider_ne_none declares)
  simp only [judgeBarFor, derived, Independent, Admissible]
  have inside : (((workerChain raw workerId).map (·.2)).filterMap effectiveProvider).contains provider = true ↔
      ∃ member ∈ workerChain raw workerId, effectiveProvider member.2 = some provider := by
    simp
  split_ifs with shared mode self
  · obtain ⟨member, reached, same⟩ := inside.mp shared
    refine iff_of_false (by simp) fun both => ?_
    have allowed := (both.1 member reached same).1
    simp [allowed] at mode
  · obtain ⟨member, reached, same⟩ := inside.mp shared
    exact iff_of_false (by simp) fun both => both.2 self member reached same
  · have allowed : sameVendor = true := by simpa using mode
    simp only [List.findSome?_eq_none_iff, List.mem_filter, List.mem_map, Option.map_eq_none_iff, allowed, self]
    constructor
    · intro each
      refine ⟨fun member reached same => ⟨trivial, ?_⟩, nofun⟩
      exact each member.2 ⟨⟨member, reached, rfl⟩, by simpa using same⟩
    · rintro ⟨each, -⟩ runtime ⟨⟨member, reached, rfl⟩, same⟩
      exact (each member reached (by simpa using same)).2
  · have apart (member : String × Runtime) (reached : member ∈ workerChain raw workerId) :
        effectiveProvider member.2 ≠ some provider := fun same => shared (inside.mpr ⟨member, reached, same⟩)
    exact iff_of_true rfl ⟨fun member reached same => absurd same (apart member reached), fun _ => apart⟩

/-! ## Before a plan spends -/

private theorem refuseChain_ok {worker judge judgeVendor : String} {judgeRuntime : Runtime}
    {chain : List (String × Runtime)}
    (success : refuseChain sameVendor worker judge judgeVendor judgeRuntime chain = .ok ()) :
    ∀ member ∈ chain, effectiveProvider member.2 = some judgeVendor →
      sameVendor = true ∧ sameVendorTierRefusal member.2 judgeRuntime = none := by
  induction chain with
  | nil => exact nofun
  | cons member rest ih =>
    obtain ⟨id, runtime⟩ := member
    rw [refuseChain] at success
    refine List.forall_mem_cons.mpr ?_
    rcases eq_or_ne (effectiveProvider runtime) (some judgeVendor) with shared | differ
    · rw [if_pos shared] at success
      cases mode : sameVendor with
      | false =>
        rw [mode] at success
        exact nomatch success
      | true =>
        rw [mode, if_pos rfl] at success
        split at success
        · exact nomatch success
        · rename_i none
          exact ⟨fun _ => ⟨rfl, none⟩, mode ▸ ih (mode ▸ success)⟩
    · rw [if_neg differ] at success
      exact ⟨fun same => absurd same differ, ih success⟩

theorem chainFrom_mem {fuel : Nat} {seen : List String} {next : Option String} {member : String × Runtime}
    (reached : member ∈ chainFrom raw fuel seen next) : raw.get? member.1 = some member.2 := by
  induction fuel generalizing seen next with
  | zero => cases next <;> exact absurd reached (by simp [chainFrom])
  | succ fuel ih =>
    cases next with
    | none => exact absurd reached (by simp [chainFrom])
    | some id =>
      simp only [chainFrom] at reached
      split_ifs at reached with again
      · exact absurd reached (by simp)
      · split at reached
        · exact absurd reached (by simp)
        · rename_i runtime found
          rcases List.mem_cons.mp reached with rfl | later
          · exact found
          · exact ih later

/-- The refusal before a plan spends decides the rule for the default pair. -/
theorem refuseUnplannableRuntimes_ok (loaded : Loaded raw runtimes) {executionRefusal : Runtime → Option String}
    {defaults : RoleMap} {implementation : Bool}
    (success : refuseUnplannableRuntimes executionRefusal raw defaults implementation sameVendor = .ok ())
    {workerId judgeId : String} {worker judge : Runtime} (worked : raw.get? workerId = some worker)
    (judged : raw.get? judgeId = some judge) (declares : judge.vendor ≠ none)
    (defaultWorker : defaults.worker = some workerId) (defaultJudge : defaults.judge = some judgeId) :
    Independent raw sameVendor workerId judge := by
  have named {id : String} {runtime : Runtime} (found : raw.get? id = some runtime) : id ≠ "" := by
    rintro rfl
    exact nomatch loaded.named.symm.trans found
  obtain ⟨provider, derived⟩ := Option.ne_none_iff_exists'.mp (effectiveProvider_ne_none declares)
  simp only [refuseUnplannableRuntimes, defaultWorker, defaultJudge, nonempty?, Option.filter_some, ne_eq, named worked,
    named judged, not_false_eq_true, decide_true, ↓reduceIte, Option.bind_some, worked, judged, Option.map_some,
    derived] at success
  split at success
  · exact nomatch success
  · have whole : plannableChain raw workerId = workerChain raw workerId := by
      refine List.takeWhile_eq_self_iff.mpr fun member reached => ?_
      simpa using named (chainFrom_mem reached)
    rw [whole] at success
    intro member reached same
    exact refuseChain_ok success member reached (same.trans derived)

end Chains

end Faberun.Routing
