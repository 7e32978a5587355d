import Faberun.Model.Engine.Cancel

/-! # What a cancel leaves reachable

The names of the refs are apart from each other, so what a cancel writes and deletes can be told by the snapshots
alone: `keeps` is decided by their branches and integrated commits, which no step of a call changes (`SameWork`).
A commit is `Safe` under a ref that is kept, and a `Recorded` one is safe once its preserved ref is written.
-/

namespace Faberun.Cancel

variable {τ : Type} {graph : CommitGraph τ} {runId : String} {s t : Run} {tip : Nat}

/-! ## Names -/

theorem branchRefName_ne_runRefName (branch runId : String) : branchRefName branch ≠ runRefName runId := by
  intro same
  have letters := congrArg String.toList same
  simp [branchRefName, runRefName, toString] at letters

theorem preservedRefName_ne_runRefName (runId nodeId : String) : preservedRefName runId nodeId ≠ runRefName runId := by
  intro same
  have letters := congrArg String.toList same
  simp [preservedRefName, runRefName, toString] at letters

theorem preservedRefName_ne_branchRefName (runId nodeId branch : String) :
    preservedRefName runId nodeId ≠ branchRefName branch := by
  intro same
  have letters := congrArg String.toList same
  simp [branchRefName, preservedRefName, toString] at letters

theorem preservedRefName_inj {first second : String}
    (same : preservedRefName runId first = preservedRefName runId second) : first = second := by
  have letters := congrArg String.toList same
  simp only [preservedRefName, toString, String.toList_append, List.append_cancel_left_eq] at letters
  exact String.toList_inj.mp letters

/-! ## Anchors -/

/-- The run ref is at a descendant of the commit. -/
def Run.RunHolds (graph : CommitGraph τ) (runId : String) (s : Run) (tip : Nat) : Prop :=
  ∃ current, s.refs.get? (runRefName runId) = some current ∧ graph.Ancestor tip current

/-- A ref that is kept is at a descendant of the commit. -/
def Run.Safe (graph : CommitGraph τ) (runId : String) (s : Run) (tip : Nat) : Prop :=
  ∃ name sha, s.refs.get? name = some sha ∧ s.keeps runId (name, sha) = true ∧ graph.Ancestor tip sha

/-- Some snapshot records the integration of a descendant of the commit. -/
def Run.Recorded (graph : CommitGraph τ) (s : Run) (tip : Nat) : Prop :=
  ∃ id state head, s.nodes.get? id = some state ∧ state.integratedHead = some head ∧ graph.Ancestor tip head

theorem keeps_iff {name : String} {sha : Nat} :
    s.keeps runId (name, sha) = true ↔ name ≠ runRefName runId ∧ ∀ id state, s.nodes.get? id = some state →
      (∀ branch, state.worktree.branch = some branch → name ≠ branchRefName branch) ∧
        ∀ head, state.integratedHead = some head → name = preservedRefName runId id → sha = head := by
  simp only [Run.keeps, Bool.and_eq_true, decide_eq_true_eq, List.all_eq_true, Option.all_eq_true, Bool.or_eq_true,
    Prod.forall, KeyedStore.mem_entries, ← imp_iff_not_or, ne_eq]

/-- A commit at or before the run ref's is covered with it. -/
theorem Covered.of_runHolds (covered : Covered graph runId s) (holds : s.RunHolds graph runId tip) :
    s.Safe graph runId tip ∨ s.Recorded graph tip := by
  obtain ⟨current, here, line⟩ := holds
  rcases covered current here with ⟨⟨id, state⟩, member, head, recorded, rest⟩ | ⟨⟨name, sha⟩, member, kept, rest⟩
  · exact .inr ⟨id, state, head, KeyedStore.mem_entries.mp member, recorded, line.trans rest⟩
  · exact .inl ⟨name, sha, KeyedStore.mem_entries.mp member, kept, line.trans rest⟩

/-- The branches and the integrated commits of the snapshots are the same. -/
def SameWork (s t : Run) : Prop :=
  ∀ id, ((t.nodes.get? id).map fun state => (state.worktree, state.integratedHead)) =
    (s.nodes.get? id).map fun state => (state.worktree, state.integratedHead)

theorem SameWork.of_set {id : String} {before after : NodeSnapshot} (here : s.nodes.get? id = some before)
    (worktree : after.worktree = before.worktree) (head : after.integratedHead = before.integratedHead)
    (nodes : t.nodes = s.nodes.set id after) : SameWork s t := by
  intro other
  rw [nodes, KeyedStore.get?_set]
  split_ifs with same
  · rw [same, here, Option.map_some, Option.map_some, worktree, head]
  · rfl

theorem SameWork.back (same : SameWork s t) {id : String} {after : NodeSnapshot} (here : t.nodes.get? id = some after) :
    ∃ before, s.nodes.get? id = some before ∧ after.worktree = before.worktree ∧
      after.integratedHead = before.integratedHead := by
  have equal := same id
  rw [here, Option.map_some] at equal
  obtain ⟨before, found, pair⟩ := Option.map_eq_some_iff.mp equal.symm
  obtain ⟨worktree, head⟩ := Prod.mk.inj pair
  exact ⟨before, found, worktree.symm, head.symm⟩

theorem SameWork.symm (same : SameWork s t) : SameWork t s := fun id => (same id).symm

theorem SameWork.keeps (same : SameWork s t) {name : String} {sha : Nat} (kept : s.keeps runId (name, sha) = true) :
    t.keeps runId (name, sha) = true := by
  rw [keeps_iff] at kept ⊢
  refine ⟨kept.1, ?_⟩
  intro id after here
  obtain ⟨before, found, worktree, head⟩ := same.back here
  rw [worktree, head]
  exact kept.2 id before found

theorem SameWork.safe (same : SameWork s t) (refs : t.refs = s.refs) (safe : s.Safe graph runId tip) :
    t.Safe graph runId tip := by
  obtain ⟨name, sha, here, kept, line⟩ := safe
  exact ⟨name, sha, by rwa [refs], same.keeps kept, line⟩

theorem SameWork.recorded (same : SameWork s t) (recorded : s.Recorded graph tip) : t.Recorded graph tip := by
  obtain ⟨id, state, head, here, integrated, line⟩ := recorded
  obtain ⟨after, found, -, equal⟩ := same.symm.back here
  exact ⟨id, after, head, found, equal ▸ integrated, line⟩

/-- Every integrated commit but those of `todo` is under its preserved ref. -/
def Run.Preserved (runId : String) (s : Run) (todo : List String) : Prop :=
  ∀ id state head, s.nodes.get? id = some state → state.integratedHead = some head → id ∉ todo →
    s.refs.get? (preservedRefName runId id) = some head

/-- A preserved ref is kept. -/
theorem keeps_preserved {id : String} {state : NodeSnapshot} {head : Nat} (here : s.nodes.get? id = some state)
    (integrated : state.integratedHead = some head) : s.keeps runId (preservedRefName runId id, head) = true := by
  rw [keeps_iff]
  refine ⟨preservedRefName_ne_runRefName runId id, ?_⟩
  intro other otherState found
  refine ⟨fun branch _ => preservedRefName_ne_branchRefName runId id branch, ?_⟩
  intro otherHead otherIntegrated same
  obtain rfl := preservedRefName_inj same
  obtain rfl := Option.some.inj (here.symm.trans found)
  exact Option.some.inj (integrated.symm.trans otherIntegrated)

theorem Run.Preserved.safe (preserved : s.Preserved runId []) (recorded : s.Recorded graph tip) :
    s.Safe graph runId tip := by
  obtain ⟨id, state, head, here, integrated, line⟩ := recorded
  exact ⟨_, head, preserved id state head here integrated List.not_mem_nil, keeps_preserved here integrated, line⟩

/-! ## One ref changes -/

/-- Writing a preserved ref moves neither the run ref nor a ref that is kept. -/
theorem safe_set_preserved {id : String} {state : NodeSnapshot} {head : Nat} (here : s.nodes.get? id = some state)
    (integrated : state.integratedHead = some head) (nodes : t.nodes = s.nodes)
    (refs : t.refs = s.refs.set (preservedRefName runId id) head) (safe : s.Safe graph runId tip) :
    t.Safe graph runId tip := by
  have same : SameWork s t := fun other => by rw [nodes]
  obtain ⟨name, sha, found, kept, line⟩ := safe
  refine ⟨name, sha, ?_, same.keeps kept, line⟩
  rw [refs, KeyedStore.get?_set]
  split_ifs with equal
  · rw [((keeps_iff.mp kept).2 id state here).2 head integrated equal]
  · exact found

theorem runHolds_set_of_ne {name : String} {sha : Nat} (ne : name ≠ runRefName runId)
    (refs : t.refs = s.refs.set name sha) (holds : s.RunHolds graph runId tip) : t.RunHolds graph runId tip := by
  obtain ⟨current, here, line⟩ := holds
  refine ⟨current, ?_, line⟩
  rw [refs, KeyedStore.get?_set, if_neg ne.symm]
  exact here

theorem runHolds_erase_of_ne {name : String} (ne : name ≠ runRefName runId) (refs : t.refs = s.refs.erase name)
    (holds : s.RunHolds graph runId tip) : t.RunHolds graph runId tip := by
  obtain ⟨current, here, line⟩ := holds
  refine ⟨current, ?_, line⟩
  rw [refs, KeyedStore.get?_erase, if_neg ne.symm]
  exact here

/-- Deleting a ref that is not kept. -/
theorem safe_erase {name : String} (loose : ∀ sha, s.keeps runId (name, sha) = false) (nodes : t.nodes = s.nodes)
    (refs : t.refs = s.refs.erase name) (safe : s.Safe graph runId tip) : t.Safe graph runId tip := by
  have same : SameWork s t := fun other => by rw [nodes]
  obtain ⟨other, sha, found, kept, line⟩ := safe
  refine ⟨other, sha, ?_, same.keeps kept, line⟩
  rw [refs, KeyedStore.get?_erase, if_neg]
  · exact found
  · rintro rfl
    rw [loose sha] at kept
    exact nomatch kept

theorem keeps_branch {id branch : String} {state : NodeSnapshot} (here : s.nodes.get? id = some state)
    (checkedOut : state.worktree.branch = some branch) (sha : Nat) : s.keeps runId (branchRefName branch, sha) = false := by
  refine Bool.eq_false_iff.mpr fun kept => ?_
  exact ((keeps_iff.mp kept).2 id state here).1 branch checkedOut rfl

theorem keeps_runRef (sha : Nat) : s.keeps runId (runRefName runId, sha) = false :=
  Bool.eq_false_iff.mpr fun kept => (keeps_iff.mp kept).1 rfl

theorem Run.Preserved.set {todo : List String} {id : String} {state : NodeSnapshot} {head : Nat}
    (preserved : s.Preserved runId (id :: todo)) (here : s.nodes.get? id = some state)
    (integrated : state.integratedHead = some head) (nodes : t.nodes = s.nodes)
    (refs : t.refs = s.refs.set (preservedRefName runId id) head) : t.Preserved runId todo := by
  intro other otherState otherHead found otherIntegrated outside
  rw [nodes] at found
  rw [refs, KeyedStore.get?_set]
  split_ifs with same
  · obtain rfl := preservedRefName_inj same
    obtain rfl := Option.some.inj (here.symm.trans found)
    rw [← integrated, otherIntegrated]
  · refine preserved other otherState otherHead found otherIntegrated ?_
    rintro (_ | ⟨_, later⟩)
    · exact same rfl
    · exact outside later

/-- A node that was never integrated has nothing to preserve. -/
theorem Run.Preserved.skip {todo : List String} {id : String} {state : NodeSnapshot}
    (preserved : s.Preserved runId (id :: todo)) (here : s.nodes.get? id = some state)
    (never : state.integratedHead = none) : s.Preserved runId todo := by
  intro other otherState head found integrated outside
  refine preserved other otherState head found integrated ?_
  rintro (_ | ⟨_, later⟩)
  · obtain rfl := Option.some.inj (here.symm.trans found)
    rw [never] at integrated
    exact nomatch integrated
  · exact outside later

theorem Run.Preserved.erase {todo : List String} {name : String} (preserved : s.Preserved runId todo)
    (ne : ∀ id, preservedRefName runId id ≠ name) (nodes : t.nodes = s.nodes) (refs : t.refs = s.refs.erase name) :
    t.Preserved runId todo := by
  intro id state head found integrated outside
  rw [nodes] at found
  rw [refs, KeyedStore.get?_erase, if_neg (ne id)]
  exact preserved id state head found integrated outside

end Faberun.Cancel
