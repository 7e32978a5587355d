import Mathlib.Data.Finset.Card
import Mathlib.Data.Finset.Option
import Faberun.Model.Engine.Admission
import Faberun.Soundness.SettlementOverlap

/-! # The global admission bound

A slot never leaves the set `Scheduler.holders` except by being freed: closing a job moves it from
`running` to `settling`, a stall handler keeps it while it runs, and whatever a settlement starts takes
the slot its own node holds. Only the dispatch pass adds to the set, and it counts all of it.
-/

namespace Faberun

namespace Overlap

variable {ν ρ ε : Type} [DecidableEq ν] {s t : Overlap ν ρ ε}

/-- A settlement away from its bookkeeping leaves `settling` alone. -/
theorem settling_of_step {label : Label ν ρ ε} (taken : s.step label = some t)
    (notEnqueue : ∀ node job, label ≠ .enqueue node job) (notCallback : label ≠ .microtask) :
    t.settling = s.settling := by
  cases label with
  | enqueue node job => exact absurd rfl (notEnqueue node job)
  | microtask => exact absurd rfl notCallback
  | resume node =>
    simp only [step] at taken
    split at taken <;> cases taken
    rfl
  | park node =>
    simp only [step] at taken
    split at taken <;> cases taken
    simp [park]
  | settleProof node outcome =>
    simp only [step] at taken
    split at taken <;> cases taken
    rfl
  | leave node outcome =>
    simp only [step] at taken
    split at taken <;> cases taken
    simp [leave]

omit [DecidableEq ν] in
theorem Registered.not_pending (registered : s.Registered) {node : ν} (outside : node ∉ s.settling) :
    node ∉ s.pending := by
  rw [registered.pending, ← registered.settling]
  exact outside

theorem Registered.enqueue (registered : s.Registered) {node : ν} (outside : node ∉ s.settling) (job : ρ) :
    (s.enqueue node job).Registered := by
  have taken : s.step (.enqueue node job) = some (s.enqueue node job) := by
    simp only [Overlap.step, if_neg (registered.not_pending outside)]
  exact registered.step taken

@[simp] theorem settling_enqueue (s : Overlap ν ρ ε) (node : ν) (job : ρ) :
    (s.enqueue node job).settling = s.settling.insert node job := rfl

end Overlap

namespace Scheduler

variable {ν ρ ε : Type} [DecidableEq ν]

/-- The node whose stall handler runs. -/
def stalledNode (s : Scheduler ν ρ ε) : Option ν :=
  match s.tick with
  | .stalls (some (node, _)) => some node
  | _ => none

/-- The nodes holding a slot. -/
def slotHolders (s : Scheduler ν ρ ε) : Finset ν :=
  s.running.keys.toFinset ∪ s.overlap.settling.keys.toFinset

/-- The nodes holding a slot, the one in a stall handler included. -/
def holders (s : Scheduler ν ρ ε) : Finset ν := s.slotHolders ∪ s.stalledNode.toFinset

theorem mem_slotHolders {s : Scheduler ν ρ ε} {node : ν} :
    node ∈ s.slotHolders ↔ node ∈ s.running ∨ node ∈ s.overlap.settling := by
  simp [slotHolders, AList.mem_keys]

theorem mem_holders {s : Scheduler ν ρ ε} {node : ν} :
    node ∈ s.holders ↔ (node ∈ s.running ∨ node ∈ s.overlap.settling) ∨ s.stalledNode = some node := by
  simp [holders, mem_slotHolders]

/-- What the maps, the statuses and the processes of a controller owe each other. -/
structure Consistent (s : Scheduler ν ρ ε) : Prop where
  registered : s.overlap.Registered
  processes : s.live.Nodup
  hosted : ∀ node ∈ s.live, node ∈ s.running
  status : ∀ node ∈ s.running, s.status node = .running
  /-- A node both running and settling: its settlement started its one job. -/
  window : ∀ node ∈ s.running, node ∈ s.overlap.settling → node ∈ s.spawned
  used : ∀ node ∈ s.spawned, node ∈ s.overlap.settling

/-- Admission in a controller: its slots, and who may still take one. -/
structure Admitted (limits : Limits ρ) (s : Scheduler ν ρ ε) : Prop extends Consistent s where
  slots : s.holders.card ≤ limits.maxParallel
  handler : ∀ node, s.tick = .stalls (some (node, false)) →
    node ∉ s.running ∧ (node ∈ s.overlap.settling → node ∈ s.spawned)
  collected : ∀ nodes, s.tick = .ready nodes → ∀ node ∈ nodes, node ∉ s.slotHolders

section Steps

variable {limits : Limits ρ} {s t : Scheduler ν ρ ε} {node : ν}

/-- Whoever may start a job holds a slot and runs none. -/
theorem Admitted.of_acting (admitted : s.Admitted limits) (acting : s.acting node = true) :
    node ∉ s.running ∧ node ∈ s.holders := by
  simp only [Scheduler.acting, Bool.or_eq_true] at acting
  rcases acting with settlement | stalled
  · split at settlement
    · rename_i raised point
      have settling : node ∈ s.overlap.settling := by
        rw [admitted.registered.settling, point]
        simp
      refine ⟨fun running => ?_, mem_holders.mpr (.inl (.inr settling))⟩
      exact of_decide_eq_true settlement (admitted.window node running settling)
    · cases settlement
  · split at stalled
    · rename_i current tick
      obtain rfl := of_decide_eq_true stalled
      exact ⟨(admitted.handler current tick).1, mem_holders.mpr (.inr (by simp [stalledNode, tick]))⟩
    · cases stalled

/-- A job started for a node that runs none. -/
theorem Consistent.spawn (consistent : s.Consistent) (idle : node ∉ s.running)
    (spent : node ∈ s.overlap.settling → node ∈ s.spawned) (runtime : ρ) :
    (s.spawn node runtime).Consistent where
  registered := consistent.registered
  processes := by
    rw [show (s.spawn node runtime).live = s.live.concat node from (List.concat_eq_append ..).symm]
    exact consistent.processes.concat fun alive => idle (consistent.hosted node alive)
  hosted other alive := by
    rcases List.mem_append.mp alive with before | last
    · exact (AList.mem_insert _).mpr (.inr (consistent.hosted other before))
    · exact (AList.mem_insert _).mpr (.inl (List.mem_singleton.mp last))
  status other running := by
    rcases (AList.mem_insert _).mp running with rfl | before
    · simp [Scheduler.spawn]
    · have differs : other ≠ node := fun same => idle (same ▸ before)
      simpa [Scheduler.spawn, differs] using consistent.status other before
  window other running settling := by
    rcases (AList.mem_insert _).mp running with rfl | before
    · exact spent settling
    · exact consistent.window other before settling
  used := consistent.used

/-- A status decided for a node that runs no job. -/
theorem Consistent.transition (consistent : s.Consistent) (idle : node ∉ s.running) (status : NodeStatus) :
    { s with status := Function.update s.status node status }.Consistent :=
  { consistent with
    status := fun other running => by
      have differs : other ≠ node := fun same => idle (same ▸ running)
      simpa [differs] using consistent.status other running }

/-- A node with no slot is handed to the overlap. -/
theorem Consistent.enqueue (consistent : s.Consistent) (idle : node ∉ s.running)
    (outside : node ∉ s.overlap.settling) (runtime : ρ) :
    { s with overlap := s.overlap.enqueue node runtime }.Consistent where
  registered := consistent.registered.enqueue outside runtime
  processes := consistent.processes
  hosted := consistent.hosted
  status := consistent.status
  window other running settling := by
    rcases (AList.mem_insert _).mp settling with rfl | before
    · exact absurd running idle
    · exact consistent.window other running before
  used other spent := (AList.mem_insert _).mpr (.inr (consistent.used other spent))

/-! ## The dispatch pass -/

/-- One node taken: it is consistent, and at most that node joins the slot holders. -/
private theorem Consistent.dispatchOne (consistent : s.Consistent) (dispatch : Dispatch ν ρ)
    (free : dispatch.node ∉ s.slotHolders) : (s.dispatchOne dispatch).Consistent ∧
      ∀ other, other ∈ (s.dispatchOne dispatch).slotHolders → other = dispatch.node ∨ other ∈ s.slotHolders := by
  rw [mem_slotHolders, not_or] at free
  obtain ⟨idle, outside⟩ := free
  cases action : dispatch.action with
  | worker =>
    simp only [Scheduler.dispatchOne, action]
    refine ⟨consistent.spawn idle (fun settling => absurd settling outside) _, fun other => ?_⟩
    simp only [mem_slotHolders, Scheduler.spawn, AList.mem_insert]
    tauto
  | workerFails =>
    simp only [Scheduler.dispatchOne, action]
    exact ⟨consistent.transition idle _, fun _ member => .inr member⟩
  | judge =>
    simp only [Scheduler.dispatchOne, action]
    refine ⟨consistent.enqueue idle outside _, fun other => ?_⟩
    simp only [mem_slotHolders, Overlap.settling_enqueue, AList.mem_insert]
    tauto

/-- The pass adds at most one slot holder for each node it takes, and takes no more than `slots`. -/
private theorem Consistent.dispatchLoop [DecidableEq ρ] {held : List ρ} {plan : List (Dispatch ν ρ)} {pass : AdmissionPass ρ}
    {base dispatched : Nat} (consistent : s.Consistent) (distinct : (plan.map Dispatch.node).Nodup)
    (free : ∀ dispatch ∈ plan, dispatch.node ∉ s.slotHolders)
    (bound : s.slotHolders.card ≤ base + dispatched) (within : dispatched ≤ pass.slots) :
    (s.dispatchLoop limits held pass dispatched plan).Consistent ∧
      (s.dispatchLoop limits held pass dispatched plan).slotHolders.card ≤ base + pass.slots := by
  induction plan generalizing s pass dispatched with
  | nil => exact ⟨consistent, by simpa only [Scheduler.dispatchLoop] using Nat.le_trans bound (by omega)⟩
  | cons dispatch rest ih =>
    obtain ⟨fresh, distinct⟩ := List.nodup_cons.mp distinct
    simp only [Scheduler.dispatchLoop]
    split_ifs with full
    · exact ⟨consistent, by omega⟩
    · split
      · exact ih consistent distinct (fun other later => free other (List.mem_cons_of_mem _ later)) bound within
      · rename_i reserved took
        have slots : reserved.slots = pass.slots := by
          simp only [AdmissionPass.take] at took
          split_ifs at took
          cases took
          rfl
        obtain ⟨next, grows⟩ := consistent.dispatchOne dispatch (free dispatch List.mem_cons_self)
        rw [← slots]
        refine ih next distinct (fun other later member => ?_) ?_ (by omega)
        · rcases grows _ member with same | before
          · exact fresh (same ▸ List.mem_map_of_mem later)
          · exact free other (List.mem_cons_of_mem _ later) before
        · have subset : (s.dispatchOne dispatch).slotHolders ⊆ insert dispatch.node s.slotHolders :=
            fun other member => Finset.mem_insert.mpr (grows other member)
          have counted := (Finset.card_le_card subset).trans (Finset.card_insert_le _ _)
          omega

theorem dispatchLoop_of_full [DecidableEq ρ] {held : List ρ} {plan : List (Dispatch ν ρ)} {pass : AdmissionPass ρ}
    (full : pass.slots = 0) : s.dispatchLoop limits held pass 0 plan = s := by
  cases plan with
  | nil => rfl
  | cons dispatch rest => simp [Scheduler.dispatchLoop, full]

/-- The pass counts every slot holder at least once. -/
theorem card_slotHolders_le (s : Scheduler ν ρ ε) :
    s.slotHolders.card ≤ (admissionHold s.running s.overlap.settling).length := by
  have keys (jobs : JobMap ν ρ) : jobs.keys.toFinset.card = jobs.runtimes.length := by
    rw [List.toFinset_card_of_nodup jobs.keys_nodup]
    simp [AList.keys, List.keys, JobMap.runtimes]
  rw [admissionHold, List.length_append, ← keys, ← keys]
  exact Finset.card_union_le _ _

/-! ## Steps -/

/-- A step that frees slots, or moves them between the maps. -/
theorem Admitted.of_subset (admitted : s.Admitted limits) (consistent : t.Consistent)
    (subset : t.holders ⊆ s.holders)
    (handler : ∀ node, t.tick = .stalls (some (node, false)) →
      node ∉ t.running ∧ (node ∈ t.overlap.settling → node ∈ t.spawned))
    (collected : ∀ nodes, t.tick = .ready nodes → ∀ node ∈ nodes, node ∉ t.slotHolders) : t.Admitted limits :=
  { consistent with
    slots := (Finset.card_le_card subset).trans admitted.slots
    handler
    collected }

/-- The nodes admitted on the way to a spawn hold nothing. -/
theorem Admitted.clear (admitted : s.Admitted limits) (cleared : Finset ν) :
    { s with cleared }.Admitted limits :=
  { admitted with }

theorem Admitted.transition (admitted : s.Admitted limits) (idle : node ∉ s.running) (status : NodeStatus) :
    { s with status := Function.update s.status node status }.Admitted limits :=
  { admitted.toConsistent.transition idle status with
    slots := admitted.slots
    handler := admitted.handler
    collected := admitted.collected }

/-- Whoever acts starts its job in the slot its node holds. -/
theorem Admitted.spawn_of_acting (admitted : s.Admitted limits) (acting : s.acting node = true) (runtime : ρ) :
    ((s.spend node).spawn node runtime).Admitted limits := by
  obtain ⟨idle, holds⟩ := admitted.of_acting acting
  by_cases stalled : s.tick = .stalls (some (node, false))
  · have settled := admitted.handler node stalled
    have spent : s.spend node = { s with tick := .stalls (some (node, true)) } := by
      simp only [Scheduler.spend, if_pos stalled]
    rw [spent]
    have consistent : { s with tick := Tick.stalls (some (node, true)) }.Consistent :=
      { admitted.toConsistent with }
    refine admitted.of_subset (consistent.spawn settled.1 settled.2 runtime) ?_ nofun nofun
    intro other member
    rw [mem_holders] at member
    simp only [Scheduler.spawn, AList.mem_insert, stalledNode] at member
    rcases member with ((rfl | running) | settling) | handled
    · exact holds
    · exact mem_holders.mpr (.inl (.inl running))
    · exact mem_holders.mpr (.inl (.inr settling))
    · exact Option.some.inj handled ▸ holds
  · have spent : s.spend node = { s with spawned := insert node s.spawned } := by
      simp only [Scheduler.spend, if_neg stalled]
    have settling : node ∈ s.overlap.settling := by
      simp only [Scheduler.acting, Bool.or_eq_true] at acting
      rcases acting with settlement | handled
      · split at settlement
        · rename_i raised point
          rw [admitted.registered.settling, point]
          simp
        · cases settlement
      · split at handled
        · rename_i current tick
          exact absurd (of_decide_eq_true handled ▸ tick) stalled
        · cases handled
    have consistent : { s with spawned := insert node s.spawned }.Consistent :=
      { admitted.toConsistent with
        window := fun other running window => Finset.mem_insert_of_mem (admitted.window other running window)
        used := fun other member => by
          rcases Finset.mem_insert.mp member with rfl | before
          · exact settling
          · exact admitted.used other before }
    rw [spent]
    refine admitted.of_subset
      (consistent.spawn idle (fun _ => Finset.mem_insert_self node s.spawned) runtime) ?_ ?_ ?_
    · intro other member
      rw [mem_holders] at member ⊢
      simp only [Scheduler.spawn, AList.mem_insert, stalledNode] at member
      rcases member with ((rfl | running) | settled) | handled
      · exact .inl (.inr settling)
      · exact .inl (.inl running)
      · exact .inl (.inr settled)
      · exact .inr handled
    · intro other tick
      obtain ⟨resting, window⟩ := admitted.handler other tick
      have differs : other ≠ node := fun same => stalled (same ▸ tick)
      refine ⟨fun running => ?_, fun settled => Finset.mem_insert_of_mem (window settled)⟩
      rcases (AList.mem_insert _).mp running with same | before
      · exact differs same
      · exact resting before
    · intro nodes tick other member holds
      refine admitted.collected nodes tick other member (mem_slotHolders.mpr ?_)
      rw [mem_slotHolders] at holds
      simp only [Scheduler.spawn, AList.mem_insert] at holds
      rcases holds with (rfl | running) | settled
      · exact .inr settling
      · exact .inl running
      · exact .inr settled

/-- A closed job keeps its slot through its settle window. -/
private theorem Admitted.close (admitted : s.Admitted limits) {runtime : ρ} (closing : s.tick = .closing)
    (held : s.running.lookup node = some runtime) (outside : node ∉ s.overlap.pending) (dead : node ∉ s.live) :
    { s with running := s.running.erase node, overlap := s.overlap.enqueue node runtime }.Admitted limits := by
  have running : node ∈ s.running := AList.lookup_isSome.mp (by rw [held]; rfl)
  have unsettled : node ∉ s.overlap.settling := by
    rw [admitted.registered.settling, ← admitted.registered.pending]
    exact outside
  refine admitted.of_subset ?_ ?_ ?_ ?_
  · exact {
      registered := admitted.registered.enqueue unsettled runtime
      processes := admitted.processes
      hosted := fun other alive => AList.mem_erase.mpr
        ⟨fun same => dead (same ▸ alive), admitted.hosted other alive⟩
      status := fun other member => admitted.status other (AList.mem_erase.mp member).2
      window := fun other member settling => by
        obtain ⟨differs, before⟩ := AList.mem_erase.mp member
        exact admitted.window other before (((AList.mem_insert _).mp settling).resolve_left differs)
      used := fun other spent => (AList.mem_insert _).mpr (.inr (admitted.used other spent)) }
  · intro other member
    rw [mem_holders] at member ⊢
    simp only [Overlap.settling_enqueue, AList.mem_erase, AList.mem_insert, stalledNode] at member
    rcases member with (⟨_, before⟩ | rfl | settling) | handled
    · exact .inl (.inl before)
    · exact .inl (.inl running)
    · exact .inl (.inr settling)
    · exact .inr handled
  · intro other tick
    exact absurd (closing.symm.trans tick) nofun
  · intro nodes tick
    exact absurd (closing.symm.trans tick) nofun

/-- A killed job leaves its slot to its stall handler. -/
private theorem Admitted.stall (admitted : s.Admitted limits) (running : node ∈ s.running) :
    { s with
      running := s.running.erase node
      live := s.live.erase node
      tick := .stalls (some (node, false)) }.Admitted limits := by
  refine admitted.of_subset ?_ ?_ ?_ nofun
  · exact { admitted.toConsistent with
      processes := admitted.processes.erase node
      hosted := fun other alive => by
        obtain ⟨differs, before⟩ := admitted.processes.mem_erase_iff.mp alive
        exact AList.mem_erase.mpr ⟨differs, admitted.hosted other before⟩
      status := fun other member => admitted.status other (AList.mem_erase.mp member).2
      window := fun other member => admitted.window other (AList.mem_erase.mp member).2 }
  · intro other member
    rw [mem_holders] at member ⊢
    simp only [AList.mem_erase, stalledNode, Option.some.injEq] at member
    rcases member with (⟨_, before⟩ | settling) | rfl
    · exact .inl (.inl before)
    · exact .inl (.inr settling)
    · exact .inl (.inl running)
  · intro other tick
    obtain rfl : node = other := by simpa using tick
    exact ⟨fun member => (AList.mem_erase.mp member).1 rfl, admitted.window node running⟩

/-- The retirement of a settlement frees its slot and forgets the job it started. -/
private theorem Admitted.retire (admitted : s.Admitted limits) {overlap : Overlap ν ρ ε}
    (registered : overlap.Registered) (settling : overlap.settling = s.overlap.settling.erase node) :
    { s with overlap, spawned := s.spawned.erase node }.Admitted limits := by
  have kept {other : ν} : other ∈ overlap.settling ↔ other ≠ node ∧ other ∈ s.overlap.settling := by
    rw [settling, AList.mem_erase]
  refine admitted.of_subset ?_ ?_ ?_ ?_
  · exact { admitted.toConsistent with
      registered
      window := fun other running window => by
        obtain ⟨differs, before⟩ := kept.mp window
        exact Finset.mem_erase.mpr ⟨differs, admitted.window other running before⟩
      used := fun other spent => by
        obtain ⟨differs, before⟩ := Finset.mem_erase.mp spent
        exact kept.mpr ⟨differs, admitted.used other before⟩ }
  · intro other member
    rw [mem_holders] at member ⊢
    exact member.imp_left (Or.imp_right fun window => (kept.mp window).2)
  · intro other tick
    obtain ⟨idle, window⟩ := admitted.handler other tick
    refine ⟨idle, fun member => ?_⟩
    obtain ⟨differs, before⟩ := kept.mp member
    exact Finset.mem_erase.mpr ⟨differs, window before⟩
  · intro nodes tick other member holds
    refine admitted.collected nodes tick other member (mem_slotHolders.mpr ?_)
    exact (mem_slotHolders.mp holds).imp_right fun window => (kept.mp window).2

/-- A settlement that goes on keeps its slot. -/
private theorem Admitted.overlap (admitted : s.Admitted limits) {overlap : Overlap ν ρ ε}
    (registered : overlap.Registered) (settling : overlap.settling = s.overlap.settling) :
    { s with overlap }.Admitted limits := by
  refine admitted.of_subset ?_ ?_ ?_ ?_
  · exact { admitted.toConsistent with
      registered
      window := fun other running => by
        show other ∈ overlap.settling → _
        rw [settling]
        exact admitted.window other running
      used := fun other spent => by
        show other ∈ overlap.settling
        rw [settling]
        exact admitted.used other spent }
  · simp only [holders, slotHolders, settling, stalledNode]
    exact subset_rfl
  · simp only [settling]
    exact admitted.handler
  · simp only [slotHolders, settling]
    exact admitted.collected

/-- The dispatch pass fills at most the slots it counted free. -/
private theorem Admitted.dispatch [DecidableEq ρ] (admitted : s.Admitted limits) {nodes : List ν}
    (ready : s.tick = .ready nodes) (held : List ρ) {plan : List (Dispatch ν ρ)}
    (distinct : (plan.map Dispatch.node).Nodup) (within : ∀ dispatch ∈ plan, dispatch.node ∈ nodes) :
    { s.dispatchLoop limits held (admissionPass limits s.running s.overlap.settling) 0 plan with
      tick := .closing }.Admitted limits := by
  obtain ⟨consistent, bound⟩ :
      (s.dispatchLoop limits held (admissionPass limits s.running s.overlap.settling) 0 plan).Consistent ∧
        (s.dispatchLoop limits held (admissionPass limits s.running s.overlap.settling) 0 plan).slotHolders.card ≤
          (admissionHold s.running s.overlap.settling).length +
            (admissionPass limits s.running s.overlap.settling).slots :=
    admitted.toConsistent.dispatchLoop distinct
      (fun dispatch taken => admitted.collected nodes ready _ (within dispatch taken))
      s.card_slotHolders_le (Nat.zero_le _)
  have held_slots : s.slotHolders.card ≤ limits.maxParallel :=
    (Finset.card_le_card Finset.subset_union_left).trans admitted.slots
  have filled : (s.dispatchLoop limits held (admissionPass limits s.running s.overlap.settling) 0
      plan).slotHolders.card ≤ limits.maxParallel := by
    by_cases full : (admissionPass limits s.running s.overlap.settling).slots = 0
    · rw [dispatchLoop_of_full full]
      exact held_slots
    · have free : (admissionPass limits s.running s.overlap.settling).slots =
          limits.maxParallel - (admissionHold s.running s.overlap.settling).length := rfl
      omega
  exact { consistent with
    slots := by
      simp only [holders, stalledNode, Option.toFinset_none, Finset.union_empty]
      exact filled
    handler := nofun
    collected := nofun }

/-- Every step of the controller and of its settlements keeps within the slots. -/
theorem Admitted.step [DecidableEq ρ] (admitted : s.Admitted limits) {label : Label ν ρ ε}
    (taken : s.step limits label = some t) : t.Admitted limits := by
  cases label with
  | exit node =>
    simp only [Scheduler.step] at taken
    split_ifs at taken
    cases taken
    exact { admitted with
      processes := admitted.processes.erase node
      hosted := fun other alive => admitted.hosted other (List.mem_of_mem_erase alive) }
  | close node =>
    simp only [Scheduler.step] at taken
    split at taken
    · rename_i runtime running
      split_ifs at taken with closable
      cases taken
      exact admitted.close closable.1 running closable.2.1 closable.2.2
    · cases taken
  | beginStalls =>
    simp only [Scheduler.step] at taken
    split_ifs at taken with closing
    cases taken
    refine admitted.of_subset { admitted.toConsistent with } ?_ (by rintro _ ⟨⟩) (by rintro _ ⟨⟩)
    exact Finset.union_subset_union_right (by simp [stalledNode])
  | stall node =>
    simp only [Scheduler.step] at taken
    split_ifs at taken with stallable
    cases taken
    exact admitted.stall stallable.2
  | endStall =>
    simp only [Scheduler.step] at taken
    split at taken <;> cases taken
    refine admitted.of_subset { admitted.toConsistent with } ?_ (by rintro _ ⟨⟩) (by rintro _ ⟨⟩)
    exact Finset.union_subset_union_right (by simp [stalledNode])
  | collect nodes =>
    simp only [Scheduler.step] at taken
    split_ifs at taken with collectable
    cases taken
    obtain ⟨_, _, idle⟩ := collectable
    refine admitted.of_subset { admitted.toConsistent with } ?_ (by rintro _ ⟨⟩) ?_
    · exact Finset.union_subset_union_right (by simp [stalledNode])
    · intro other ready node member holds
      obtain rfl : nodes = other := by simpa using ready
      obtain ⟨pending, outside⟩ := idle node member
      rcases mem_slotHolders.mp holds with running | settling
      · cases pending.symm.trans (admitted.status node running)
      · rw [admitted.registered.pending, ← admitted.registered.settling] at outside
        exact outside settling
  | dispatch held plan =>
    simp only [Scheduler.step] at taken
    split at taken
    · rename_i nodes ready
      split_ifs at taken with valid
      cases taken
      exact admitted.dispatch ready held valid.1 valid.2
    · cases taken
  | settlement move =>
    by_cases callback : move = .microtask
    · subst callback
      simp only [Scheduler.step] at taken
      split at taken
      · rename_i node outcome rest queue
        obtain ⟨overlap, ran, rfl⟩ := Option.map_eq_some_iff.mp taken
        have moved : s.overlap.step .microtask = some overlap := ran
        refine admitted.retire (admitted.registered.step moved) ?_
        simp only [Overlap.microtask, queue, Option.some.injEq] at ran
        exact ran ▸ rfl
      · rename_i notRetire
        obtain ⟨overlap, ran, rfl⟩ := Option.map_eq_some_iff.mp taken
        have moved : s.overlap.step .microtask = some overlap := ran
        refine admitted.overlap (admitted.registered.step moved) ?_
        cases queue : s.overlap.microtasks with
        | nil => simp only [Overlap.microtask, queue, reduceCtorEq] at ran
        | cons task rest =>
          simp only [Overlap.microtask, queue, Option.some.injEq] at ran
          cases task with
          | retire node outcome => exact absurd queue (notRetire node outcome rest)
          | record rejection => exact ran ▸ rfl
    · have notEnqueue (node : ν) (job : ρ) : move ≠ .enqueue node job := by
        rintro rfl
        cases taken
      have went : (s.overlap.step move).map (fun overlap => { s with overlap }) = some t := by
        cases move <;> first | exact taken | cases taken | exact absurd rfl callback
      obtain ⟨overlap, ran, rfl⟩ := Option.map_eq_some_iff.mp went
      exact admitted.overlap (admitted.registered.step ran) (Overlap.settling_of_step ran notEnqueue callback)
  | transition node status =>
    simp only [Scheduler.step] at taken
    split_ifs at taken with running
    cases taken
    exact admitted.transition running status
  | auxAdmission node runtime held =>
    simp only [Scheduler.step] at taken
    split_ifs at taken with acting room
    · cases taken
      exact admitted.clear _
    · cases taken
      exact admitted.transition (admitted.of_acting acting).1 _
  | auxSpawn node kind runtime =>
    simp only [Scheduler.step] at taken
    split_ifs at taken with enabled
    cases taken
    exact (admitted.spawn_of_acting enabled.1 runtime).clear _
  | revision node runtime held =>
    simp only [Scheduler.step] at taken
    split_ifs at taken with acting room
    · cases taken
      exact admitted.spawn_of_acting acting runtime
    · cases taken
      exact admitted.transition (admitted.of_acting acting).1 _
  | cancel =>
    simp only [Scheduler.step] at taken
    split_ifs at taken with quiet
    cases taken
    have gone (node : ν) : node ∉ (∅ : JobMap ν ρ) := AList.notMem_empty node
    refine admitted.of_subset ?_ ?_ ?_ ?_
    · exact { admitted.toConsistent with
        processes := List.nodup_nil
        hosted := fun _ alive => absurd alive List.not_mem_nil
        status := fun node running => absurd running (gone node)
        window := fun node running => absurd running (gone node) }
    · intro other member
      rw [mem_holders] at member ⊢
      exact member.imp_left (Or.imp_left fun running => absurd running (gone other))
    · intro other tick
      cases quiet.1.symm.trans tick
    · intro nodes tick
      cases quiet.1.symm.trans tick

theorem create_admitted (limits : Limits ρ) (status : ν → NodeStatus) :
    (create status : Scheduler ν ρ ε).Admitted limits := by
  have gone (node : ν) : node ∉ (∅ : JobMap ν ρ) := AList.notMem_empty node
  exact {
    registered := ⟨fun node => by simp [create, Overlap.create], fun node => by simp [create, Overlap.create],
      fun node => by simp [create, Overlap.create, Overlap.retirees], List.nodup_nil⟩
    processes := List.nodup_nil
    hosted := nofun
    status := fun node running => absurd running (gone node)
    window := fun node running => absurd running (gone node)
    used := fun node spent => absurd spent (Finset.notMem_empty node)
    slots := Nat.zero_le _
    handler := nofun
    collected := nofun }

/-! ## Runs -/

theorem admitted_of_reach [DecidableEq ρ] {status : ν → NodeStatus}
    (reach : (machine limits).Reach Machine.free (· = create status) s) : s.Admitted limits := by
  refine reach.invariant (Admitted limits) ?_ ?_
  · rintro _ rfl
    exact create_admitted limits status
  · exact fun _ _ _ admitted _ taken => admitted.step taken

end Steps

/-- What admission promises of a controller at every instant. -/
structure WithinSlots (limits : Limits ρ) (s : Scheduler ν ρ ε) : Prop where
  slots : s.slotHolders.card ≤ limits.maxParallel
  running : s.running.keys.length ≤ limits.maxParallel
  /-- Every process alive is the job of a node in `running`. -/
  hosted : ∀ node ∈ s.live, node ∈ s.running
  single : s.live.Nodup
  alive : s.live.length ≤ limits.maxParallel

theorem Admitted.withinSlots {limits : Limits ρ} {s : Scheduler ν ρ ε} (admitted : s.Admitted limits) :
    s.WithinSlots limits := by
  have slots : s.slotHolders.card ≤ limits.maxParallel :=
    (Finset.card_le_card Finset.subset_union_left).trans admitted.slots
  have running : s.running.keys.length ≤ limits.maxParallel := by
    rw [← List.toFinset_card_of_nodup s.running.keys_nodup]
    exact (Finset.card_le_card Finset.subset_union_left).trans slots
  refine ⟨slots, running, admitted.hosted, admitted.processes, ?_⟩
  have subset : s.live ⊆ s.running.keys := fun node alive => AList.mem_keys.mp (admitted.hosted node alive)
  exact (admitted.processes.subperm subset).length_le.trans running

/-- Under every interleaving of ticks and background settlements the slots bound the jobs. -/
theorem scheduler_withinSlots [DecidableEq ρ] {limits : Limits ρ} {status : ν → NodeStatus}
    {s : Scheduler ν ρ ε} (reach : (machine limits).Reach Machine.free (· = create status) s) :
    s.WithinSlots limits :=
  (admitted_of_reach reach).withinSlots

/-- One slot: a worker, the judge its settlement starts while the slot still settles, and the node
that waited for the slot. -/
theorem scheduler_withinSlots_judge :
    ∃ s : Scheduler Bool String String,
      (machine ⟨1, fun _ => none⟩).replay? Machine.free (create fun _ => .pending)
        [.beginStalls, .collect [false, true],
          .dispatch [] [⟨false, "worker", .worker⟩, ⟨true, "worker", .worker⟩],
          .exit false, .close false, .settlement (.resume false), .transition false .pending,
          .auxAdmission false "judge" [], .settlement (.park false), .settlement (.settleProof false none),
          .settlement (.resume false), .auxSpawn false .firstJudge "judge", .settlement (.leave false none),
          .beginStalls, .collect [true], .dispatch [] [⟨true, "worker", .worker⟩],
          .settlement .microtask] = some s ∧
        s.WithinSlots ⟨1, fun _ => none⟩ :=
  Machine.exists_replay (fun s => s.running.keys = [false] ∧ s.live = [false] ∧ s.overlap.settling.keys = [])
    (fun _ ran _ => scheduler_withinSlots (.of_replay rfl _ ran)) (by decide)

end Scheduler

end Faberun
