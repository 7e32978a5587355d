import Mathlib.Data.List.Induction
import Mathlib.Data.List.Perm.Subperm
import Mathlib.Logic.Relation
import Faberun.Model.Engine.JudgeList
import Faberun.Soundness.Routing

/-! # A judge that refused is never picked again

A pick names every entry of the list that was tried before, also those after the entry it chooses, so what the next call
reads back never loses one. Each choice is therefore new, and there are no more choices than entries.
-/

namespace Faberun.JudgeList

open Routing (Hop)

variable {executable : Runtime → Except Refusal String} {runtimes : Catalogue}

/-! ## The worker's chain -/

private theorem nonempty?_eq_some {text : Option String} {value : String} : nonempty? text = some value ↔ text = some value ∧ value ≠ "" := by
  rw [nonempty?, Option.filter_eq_some_iff, decide_eq_true_eq]

/-- Every fallback of a declared runtime is declared, and none has the empty id. -/
def Declared (runtimes : Catalogue) : Prop :=
  runtimes.get? "" = none ∧ ∀ id next, Hop runtimes id next → (runtimes.get? next).isSome

private theorem validateEntries_named {entries validated : List (String × Runtime)}
    (success : validateEntries entries = .ok validated) : ∀ entry ∈ validated, entry.1 ≠ "" := by
  induction entries generalizing validated with
  | nil =>
    obtain rfl := Except.ok.inj success
    exact nofun
  | cons entry rest ih =>
    obtain ⟨runtime, here, success⟩ := bind_ok_iff.mp success
    obtain ⟨others, later, success⟩ := bind_ok_iff.mp success
    obtain rfl := Except.ok.inj success
    refine List.forall_mem_cons.mpr ⟨?_, ih later⟩
    obtain ⟨_, identified, -⟩ := bind_ok_iff.mp here
    obtain ⟨_, shows, -⟩ := bind_ok_iff.mp identified
    simpa [check_ok_iff] using shows

/-- The runtimes of a contract that loads. -/
theorem contractRuntimes_declared {raw : Catalogue} (loads : contractRuntimes raw = .ok runtimes) : Declared runtimes := by
  obtain ⟨validated, checked⟩ := Routing.contractRuntimes_eq_ok loads
  constructor
  · refine Option.eq_none_iff_forall_ne_some.mpr fun runtime found => ?_
    exact validateEntries_named validated _ (Catalogue.mem_of_get? found) rfl
  · rintro id next ⟨runtime, found, named⟩
    exact Routing.checkFallbacks_ok checked found named

/-- What the walk asks of a runtime is where its chain goes on. -/
private theorem nextFallback_iff (declared : Declared runtimes) {id next : String} :
    nonempty? ((runtimes.get? id).bind Runtime.fallback) = some next ↔ Hop runtimes id next := by
  rw [nonempty?_eq_some, Option.bind_eq_some_iff]
  constructor
  · exact fun found => found.1
  · intro hop
    refine ⟨hop, ?_⟩
    rintro rfl
    have found := declared.2 id "" hop
    rw [declared.1] at found
    cases found

/-- The walk keeps what it has seen and ends where every fallback was seen. -/
private theorem fallbackIds_closed (declared : Declared runtimes) {fuel : Nat} {seen : List String} {current : String}
    (distinct : seen.Nodup) (known : seen ⊆ runtimes.entries.map (·.1)) (enough : runtimes.entries.length < seen.length + fuel)
    (closed : ∀ id ∈ seen, ∀ next, Hop runtimes id next → id = current ∨ next ∈ seen) :
    seen ⊆ fallbackIds runtimes fuel seen current ∧ ∀ id ∈ fallbackIds runtimes fuel seen current, ∀ next,
      Hop runtimes id next → next ∈ fallbackIds runtimes fuel seen current := by
  induction fuel generalizing seen current with
  | zero =>
    have bounded : seen.length ≤ (runtimes.entries.map (·.1)).length := (List.subperm_of_subset distinct known).length_le
    rw [List.length_map] at bounded
    omega
  | succ fuel ih =>
    have sameHop {next other : String} (first : nonempty? ((runtimes.get? current).bind Runtime.fallback) = some next)
        (second : Hop runtimes current other) : other = next :=
      Option.some.inj (((nextFallback_iff declared).mpr second).symm.trans first)
    rw [fallbackIds]
    cases last : nonempty? ((runtimes.get? current).bind Runtime.fallback) with
    | none =>
      refine ⟨fun id member => member, fun id member next hop => ?_⟩
      rcases closed id member next hop with rfl | there
      · rw [(nextFallback_iff declared).mpr hop] at last
        cases last
      · exact there
    | some next =>
      have found : (runtimes.get? next).isNone = false := by
        rw [Option.isNone_eq_false_iff]
        exact declared.2 current next ((nextFallback_iff declared).mp last)
      dsimp only
      rw [found, Bool.or_false]
      cases again : seen.contains next with
      | true =>
        rw [if_pos rfl]
        refine ⟨fun id member => member, fun id member other hop => ?_⟩
        rcases closed id member other hop with rfl | there
        · rw [sameHop last hop]
          exact List.contains_iff_mem.mp again
        · exact there
      | false =>
        rw [if_neg Bool.false_ne_true]
        have fresh : next ∉ seen := fun member => by
          rw [List.contains_iff_mem.mpr member] at again
          cases again
        have here : next ∈ runtimes.entries.map (·.1) := by
          obtain ⟨runtime, present⟩ := Option.isSome_iff_exists.mp (Option.isNone_eq_false_iff.mp found)
          exact List.mem_map_of_mem (Catalogue.mem_of_get? present)
        obtain ⟨kept, ends⟩ := ih (List.nodup_cons.mpr ⟨fresh, distinct⟩) (List.cons_subset.mpr ⟨here, known⟩)
          (by rw [List.length_cons]; omega) (by
            intro id member other hop
            rcases List.mem_cons.mp member with rfl | member
            · exact .inl rfl
            rcases closed id member other hop with rfl | there
            · exact .inr (sameHop last hop ▸ List.mem_cons_self)
            · exact .inr (List.mem_cons_of_mem _ there))
        exact ⟨fun id member => kept (List.mem_cons_of_mem _ member), ends⟩

/-- The providers of a worker include the one of every runtime its chain reaches. -/
private theorem reachableWorkerProviders_mem (declared : Declared runtimes) {workerId : String} {providers : List (Option String)}
    (success : reachableWorkerProviders runtimes workerId = .ok providers) {id : String}
    (reached : Relation.ReflTransGen (Hop runtimes) workerId id) {runtime : Runtime} (found : runtimes.get? id = some runtime) :
    effectiveProvider runtime ∈ providers := by
  rw [reachableWorkerProviders] at success
  split at success
  · rename_i known
    obtain rfl := Except.ok.inj success
    obtain ⟨worker, present⟩ := Option.isSome_iff_exists.mp known
    have here : [workerId] ⊆ runtimes.entries.map (·.1) :=
      List.cons_subset.mpr ⟨List.mem_map_of_mem (Catalogue.mem_of_get? present), List.nil_subset _⟩
    have enough : runtimes.entries.length < [workerId].length + runtimes.entries.length := by
      rw [List.length_singleton]
      omega
    obtain ⟨kept, ends⟩ := fallbackIds_closed declared (List.nodup_singleton workerId) here enough
      fun id member _ _ => .inl (List.mem_singleton.mp member)
    have seen : id ∈ fallbackIds runtimes runtimes.entries.length [workerId] workerId := by
      clear found
      induction reached with
      | refl => exact kept (List.mem_singleton_self _)
      | tail _ hop ih => exact ends _ ih _ hop
    exact List.mem_map_of_mem (List.mem_filterMap.mpr ⟨id, seen, found⟩)
  · cases success

/-! ## One pick -/

private theorem skipReason_attempted {machine : Surroundings} {attempted : List String} {providers : List (Option String)} {id : String}
    (tried : id ∈ attempted) : skipReason executable runtimes machine attempted providers id = .ok (some attemptedReason) := by
  rw [skipReason, if_pos (List.contains_iff_mem.mpr tried)]

/-- An entry that is not gone past was not tried, and no provider of the worker's is its own. -/
private theorem skipReason_none {machine : Surroundings} {attempted : List String} {providers : List (Option String)} {id : String}
    (eligible : skipReason executable runtimes machine attempted providers id = .ok none) :
    id ∉ attempted ∧ ∃ judge, runtimes.get? id = some judge ∧ effectiveProvider judge ∉ providers := by
  rw [skipReason] at eligible
  split_ifs at eligible with tried
  · cases eligible
  · refine ⟨fun member => tried (List.contains_iff_mem.mpr member), ?_⟩
    split at eligible
    · cases eligible
    · rename_i judge found
      split_ifs at eligible with shared
      · cases eligible
      · exact ⟨judge, found, fun member => shared (List.contains_iff_mem.mpr member)⟩

/-- What a pick says. -/
private structure Picked (runtimes : Catalogue) (list attempted : List String) (providers : List (Option String))
    (pick : JudgeListPick) : Prop where
  chosen : ∀ id, pick.chosen = some id → id ∈ list ∧ id ∉ attempted ∧
    ∃ judge, runtimes.get? id = some judge ∧ effectiveProvider judge ∉ providers
  tried : ∀ id ∈ list, id ∈ attempted → ⟨id, attemptedReason⟩ ∈ pick.skipped

/-- The loop, after it went past some entries. -/
private theorem pickFrom_picked {machine : Surroundings} {attempted : List String} {providers : List (Option String)}
    {past rest : List String} {skipped : List JudgeSkip} {pick : JudgeListPick}
    (refused : ∀ id ∈ past, skipReason executable runtimes machine attempted providers id ≠ .ok none)
    (tried : ∀ id ∈ past, id ∈ attempted → ⟨id, attemptedReason⟩ ∈ skipped)
    (success : pickFrom executable runtimes machine (past ++ rest) attempted providers skipped rest = .ok pick) :
    Picked runtimes (past ++ rest) attempted providers pick := by
  induction rest generalizing past skipped with
  | nil =>
    obtain rfl := Except.ok.inj success
    rw [List.append_nil]
    exact ⟨nofun, tried⟩
  | cons id rest ih =>
    rw [pickFrom] at success
    split at success
    · cases success
    · rename_i reason here
      rw [List.append_cons] at success ⊢
      refine ih ?_ ?_ success
      · intro other member
        rcases List.mem_append.mp member with earlier | last
        · exact refused other earlier
        · obtain rfl := List.mem_singleton.mp last
          rw [here]
          exact nofun
      · intro other member before
        rcases List.mem_append.mp member with earlier | last
        · exact List.mem_append_left _ (tried other earlier before)
        · obtain rfl := List.mem_singleton.mp last
          rw [skipReason_attempted before] at here
          obtain rfl := Option.some.inj (Except.ok.inj here)
          exact List.mem_append_right _ (List.mem_singleton_self _)
    · rename_i eligible
      obtain rfl := Except.ok.inj success
      obtain ⟨fresh, judge, found, apart⟩ := skipReason_none eligible
      refine ⟨?_, ?_⟩
      · rintro other ⟨⟩
        exact ⟨List.mem_append_right _ List.mem_cons_self, fresh, judge, found, apart⟩
      · intro other member before
        have first : (past ++ id :: rest).idxOf id = past.length := by
          rw [List.idxOf_append_of_notMem fun earlier => refused id earlier eligible, List.idxOf_cons_self, Nat.add_zero]
        rcases List.mem_append.mp member with earlier | later
        · exact List.mem_append_left _ (tried other earlier before)
        · rcases List.mem_cons.mp later with rfl | later
          · exact absurd before fresh
          · refine List.mem_append_right _ (List.mem_map.mpr ⟨other, List.mem_filter.mpr ⟨?_, ?_⟩, rfl⟩)
            · rw [first, List.append_cons, ← List.length_singleton (a := id), ← List.length_append, List.drop_left]
              exact later
            · exact List.contains_iff_mem.mpr before

private theorem selectListJudge_picked {machine : Surroundings} {list attempted : List String} {workerId : String}
    {pick : JudgeListPick} (success : selectListJudge executable runtimes machine list workerId attempted = .ok pick) :
    ∃ providers, reachableWorkerProviders runtimes workerId = .ok providers ∧ Picked runtimes list attempted providers pick := by
  obtain ⟨providers, reached, success⟩ := bind_ok_iff.mp success
  refine ⟨providers, reached, ?_⟩
  exact @pickFrom_picked executable runtimes machine attempted providers [] list [] pick nofun nofun success

/-! ## The hops of a run -/

/-- The judges some calls chose, in order. -/
def chosenJudges (hops : List (JudgeCall × JudgeListState)) : List String := hops.filterMap fun hop => hop.2.chosen

/-- A judge of none of the providers a worker can run on. -/
def IndependentJudge (runtimes : Catalogue) (workerId judgeId : String) : Prop :=
  ∃ judge, runtimes.get? judgeId = some judge ∧ ∀ id worker, Relation.ReflTransGen (Hop runtimes) workerId id →
    runtimes.get? id = some worker → effectiveProvider worker ≠ effectiveProvider judge

/-- What holds of the calls on one list. -/
structure NeverReturns (runtimes : Catalogue) (list : List String) (hops : List (JudgeCall × JudgeListState)) : Prop where
  distinct : (chosenJudges hops).Nodup
  listed : ∀ id ∈ chosenJudges hops, id ∈ list
  independent : ∀ hop ∈ hops, ∀ id, hop.2.chosen = some id → IndependentJudge runtimes hop.1.workerId id
  bounded : (chosenJudges hops).length ≤ list.length
  /-- Among one call more than the list is long, one chooses nobody. -/
  ends : list.length < hops.length → ∃ hop ∈ hops.take (list.length + 1), hop.2.chosen = none

/-- Between two calls, every judge chosen so far is the current one or is named as tried. -/
private structure Carried (list chosen : List String) (state : JudgeListState) : Prop where
  same : state.list = list
  distinct : chosen.Nodup
  listed : ∀ id ∈ chosen, id ∈ list
  carried : ∀ id ∈ chosen, id ≠ "" ∧ (state.chosen = some id ∨ ⟨id, attemptedReason⟩ ∈ state.skipped)

private theorem Picked.independent (declared : Declared runtimes) {list attempted : List String} {providers : List (Option String)}
    {workerId id : String} {pick : JudgeListPick} (picked : Picked runtimes list attempted providers pick)
    (reached : reachableWorkerProviders runtimes workerId = .ok providers) (here : pick.chosen = some id) :
    id ≠ "" ∧ IndependentJudge runtimes workerId id := by
  obtain ⟨-, -, judge, found, apart⟩ := picked.chosen id here
  constructor
  · rintro rfl
    rw [declared.1] at found
    cases found
  · refine ⟨judge, found, fun other worker path present same => ?_⟩
    exact apart (same ▸ reachableWorkerProviders_mem declared reached path present)

private theorem mem_previouslyChosen {skipped : List JudgeSkip} {id : String} :
    id ∈ previouslyChosen skipped ↔ ⟨id, attemptedReason⟩ ∈ skipped := by
  simp only [previouslyChosen, List.mem_map, List.mem_filter, decide_eq_true_eq]
  constructor
  · rintro ⟨⟨id, reason⟩, ⟨member, rfl⟩, rfl⟩
    exact member
  · exact fun member => ⟨_, ⟨member, rfl⟩, rfl⟩

/-- A pick that leaves out every judge chosen before keeps what is carried. -/
private theorem Picked.carried (declared : Declared runtimes) {list attempted chosen : List String}
    {providers : List (Option String)} {workerId : String} {pick : JudgeListPick}
    (picked : Picked runtimes list attempted providers pick) (reached : reachableWorkerProviders runtimes workerId = .ok providers)
    (distinct : chosen.Nodup) (listed : ∀ id ∈ chosen, id ∈ list) (named : ∀ id ∈ chosen, id ≠ "")
    (leftOut : ∀ id ∈ chosen, id ∈ attempted) :
    Carried list (chosen ++ pick.chosen.toList) ⟨list, pick.chosen, pick.skipped⟩ := by
  have last (id : String) (member : id ∈ pick.chosen.toList) : pick.chosen = some id := Option.mem_toList.mp member
  refine ⟨rfl, ?_, ?_, ?_⟩
  · have single : pick.chosen.toList.Nodup := by
      cases pick.chosen with
      | none => exact List.nodup_nil
      | some id => exact List.nodup_singleton id
    refine List.Nodup.append distinct single fun id before now => ?_
    exact (picked.chosen id (last id now)).2.1 (leftOut id before)
  · intro id member
    rcases List.mem_append.mp member with before | now
    · exact listed id before
    · exact (picked.chosen id (last id now)).1
  · intro id member
    rcases List.mem_append.mp member with before | now
    · exact ⟨named id before, .inr (picked.tried id (listed id before) (leftOut id before))⟩
    · exact ⟨(picked.independent declared reached (last id now)).1, .inl (last id now)⟩

private theorem initialJudgeListState_carried (declared : Declared runtimes) {list : List String} {call : JudgeCall}
    {state : JudgeListState} (success : initialJudgeListState executable runtimes call.machine list call.workerId = .ok state) :
    Carried list state.chosen.toList state ∧ ∀ id, state.chosen = some id → IndependentJudge runtimes call.workerId id := by
  obtain ⟨pick, selected, rfl⟩ := Routing.map_ok success
  obtain ⟨providers, reached, picked⟩ := selectListJudge_picked selected
  exact ⟨picked.carried declared reached List.nodup_nil nofun nofun nofun,
    fun id here => (picked.independent declared reached here).2⟩

/-- A call keeps what is carried, with its own choice. -/
private theorem nextListJudge_carried (declared : Declared runtimes) {list chosen : List String} {call : JudgeCall}
    {state after : JudgeListState} (sofar : Carried list chosen state)
    (success : nextListJudge executable runtimes call.machine state call.workerId = .ok after) :
    Carried list (chosen ++ after.chosen.toList) after ∧
      ∀ id, after.chosen = some id → IndependentJudge runtimes call.workerId id := by
  obtain ⟨pick, selected, rfl⟩ := Routing.map_ok success
  rw [sofar.same] at selected ⊢
  obtain ⟨providers, reached, picked⟩ := selectListJudge_picked selected
  refine ⟨picked.carried declared reached sofar.distinct sofar.listed (fun id member => (sofar.carried id member).1) ?_,
    fun id here => (picked.independent declared reached here).2⟩
  intro id member
  obtain ⟨named, current | tried⟩ := sofar.carried id member
  · exact List.mem_append_right _ (Option.mem_toList.mpr (nonempty?_eq_some.mpr ⟨current, named⟩))
  · exact List.mem_append_left _ (mem_previouslyChosen.mpr tried)

private theorem chosenJudges_cons (hop : JudgeCall × JudgeListState) (rest : List (JudgeCall × JudgeListState)) :
    chosenJudges (hop :: rest) = hop.2.chosen.toList ++ chosenJudges rest := by
  rw [chosenJudges, List.filterMap_cons]
  cases hop.2.chosen <;> rfl

private theorem hopsFrom_carried (declared : Declared runtimes) {list chosen : List String} {state : JudgeListState}
    (sofar : Carried list chosen state) (calls : List JudgeCall) :
    (chosen ++ chosenJudges (hopsFrom executable runtimes state calls)).Nodup ∧
      (∀ id ∈ chosenJudges (hopsFrom executable runtimes state calls), id ∈ list) ∧
      ∀ hop ∈ hopsFrom executable runtimes state calls, ∀ id, hop.2.chosen = some id →
        IndependentJudge runtimes hop.1.workerId id := by
  induction calls generalizing state chosen with
  | nil => exact ⟨(List.append_nil chosen).symm ▸ sofar.distinct, nofun, nofun⟩
  | cons call rest ih =>
    rw [hopsFrom]
    split
    · exact ih sofar
    · rename_i after success
      obtain ⟨next, apart⟩ := nextListJudge_carried declared sofar success
      obtain ⟨distinct, listed, independent⟩ := ih next
      rw [chosenJudges_cons]
      refine ⟨(List.append_assoc ..).symm ▸ distinct, ?_, List.forall_mem_cons.mpr ⟨apart, independent⟩⟩
      intro id member
      rcases List.mem_append.mp member with here | later
      · exact next.listed id (List.mem_append_right _ here)
      · exact listed id later

/-- Calls that all choose somebody are as many as their choices. -/
private theorem length_chosenJudges {hops : List (JudgeCall × JudgeListState)} (all : ∀ hop ∈ hops, hop.2.chosen ≠ none) :
    (chosenJudges hops).length = hops.length := by
  induction hops with
  | nil => rfl
  | cons hop rest ih =>
    obtain ⟨here, later⟩ := List.forall_mem_cons.mp all
    obtain ⟨id, chosen⟩ := Option.ne_none_iff_exists'.mp here
    rw [chosenJudges_cons, List.length_append, ih later, chosen, Option.toList_some, List.length_singleton, List.length_cons]
    omega

private theorem never_returns_of {list : List String} {hops : List (JudgeCall × JudgeListState)}
    (distinct : (chosenJudges hops).Nodup) (listed : ∀ id ∈ chosenJudges hops, id ∈ list)
    (independent : ∀ hop ∈ hops, ∀ id, hop.2.chosen = some id → IndependentJudge runtimes hop.1.workerId id) :
    NeverReturns runtimes list hops := by
  have bounded (some : List (JudgeCall × JudgeListState)) (within : some.Sublist hops) : (chosenJudges some).length ≤ list.length := by
    have part : (chosenJudges some).Sublist (chosenJudges hops) := within.filterMap _
    exact (List.subperm_of_subset (distinct.sublist part) fun id member => listed id (part.subset member)).length_le
  refine ⟨distinct, listed, independent, bounded hops (List.Sublist.refl _), fun longer => ?_⟩
  by_contra absent
  have all : ∀ hop ∈ hops.take (list.length + 1), hop.2.chosen ≠ none := fun hop member none => absent ⟨hop, member, none⟩
  have short := bounded _ (List.take_sublist (list.length + 1) hops)
  rw [length_chosenJudges all, List.length_take] at short
  omega

/-- On a contract's list, the judges that calls with any workers, clocks and stores choose are distinct entries of it, each
independent of its call's worker, and so no more than the list is long. -/
theorem nextListJudge_never_returns {raw : Catalogue} (loads : contractRuntimes raw = .ok runtimes)
    (executable : Runtime → Except Refusal String) (list : List String) (first : JudgeCall) (later : List JudgeCall) :
    NeverReturns runtimes list (judgeHops executable runtimes list first later) := by
  have declared : Declared runtimes := contractRuntimes_declared loads
  rw [judgeHops]
  split
  · exact never_returns_of List.nodup_nil nofun nofun
  · rename_i state success
    obtain ⟨start, apart⟩ := initialJudgeListState_carried declared success
    obtain ⟨distinct, listed, independent⟩ := hopsFrom_carried declared start later
    refine never_returns_of ?_ ?_ (List.forall_mem_cons.mpr ⟨apart, independent⟩) <;> rw [chosenJudges_cons]
    · exact distinct
    · intro id member
      rcases List.mem_append.mp member with here | after
      · exact start.listed id here
      · exact listed id after

/-- A worker that can fall back on another provider, and two judges. -/
private def listedJudges : Catalogue where
  entries :=
    [("sonnet", ⟨"claude", "claude-sonnet-5", some "anthropic", none, none, none, none, some "glm"⟩),
      ("glm", ⟨"fx", "glm-5.3", some "zhipu", none, none, none, none, none⟩),
      ("gpt", ⟨"codex", "gpt-6", some "openai", none, none, none, none, none⟩),
      ("gemini", ⟨"agy", "gemini-4", some "google", none, none, none, none, none⟩)]
  distinct := by decide

/-- A call for a worker on a machine that recorded nothing. -/
private def quietCall (workerId : String) : JudgeCall where
  workerId := workerId
  machine := ⟨⟨fun _ => none, 0, fun _ => "90"⟩, fun _ => none, fun _ => [], "home"⟩

/-- Two refusals in a row use the list up. -/
theorem nextListJudge_never_returns_two :
    chosenJudges (judgeHops (fun runtime => .ok runtime.harness) listedJudges ["glm", "gpt", "gemini"] (quietCall "sonnet")
      [quietCall "sonnet", quietCall "sonnet"]) = ["gpt", "gemini"] ∧
    NeverReturns listedJudges ["glm", "gpt", "gemini"] (judgeHops (fun runtime => .ok runtime.harness) listedJudges
      ["glm", "gpt", "gemini"] (quietCall "sonnet") [quietCall "sonnet", quietCall "sonnet"]) := by
  have loads : contractRuntimes listedJudges = .ok listedJudges := rfl
  refine ⟨by decide +kernel, ?_⟩
  exact nextListJudge_never_returns loads (fun runtime => .ok runtime.harness) ["glm", "gpt", "gemini"] (quietCall "sonnet")
    [quietCall "sonnet", quietCall "sonnet"]

end Faberun.JudgeList
