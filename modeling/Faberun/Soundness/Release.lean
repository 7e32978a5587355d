import Faberun.Model.Repo.Release

/-! # What a release of worktrees keeps

A release writes one archive ref for every worktree whose HEAD resolves, and deletes the branches that were checked out. What
any ref reaches afterwards is what a worktree of the run had recorded, or what a ref the release leaves alone reached before.
A file git was never told of is neither.
-/

namespace Faberun.Release

open Seal (Path)

variable {κ : Type} {repo after : Repository κ} {w : Worktree κ} {runId : String} {accepts : RefName → Bool}

/-! ## Commits -/

private theorem treeOf_of_extends (grown : repo.graph.Extends after.graph) {sha : Nat} (there : sha < repo.graph.size) :
    after.treeOf sha = repo.treeOf sha := by
  rw [Repository.treeOf, Repository.treeOf, grown.tree? there]

/-- A commit that was there carries what it carried. -/
private theorem carries_of_extends (grown : repo.graph.Extends after.graph) {sha : Nat} (there : sha < repo.graph.size)
    (content : κ) : Carries after sha content ↔ Carries repo sha content := by
  refine exists_congr fun ancestor => ?_
  rw [grown.ancestor_iff there]
  refine and_congr_right fun line => ?_
  rw [treeOf_of_extends grown (Nat.lt_of_le_of_lt line.le there)]

/-- A commit carries its tree, and what its parents carry. -/
private theorem carries_iff (sha : Nat) (content : κ) : Carries repo sha content ↔
    (∃ path, (repo.treeOf sha).get? path = some content) ∨ ∃ parent ∈ repo.graph.parents sha, Carries repo parent content := by
  constructor
  · rintro ⟨ancestor, line, held⟩
    rcases CommitGraph.ancestor_iff_parents.mp line with rfl | ⟨parent, member, line⟩
    · exact .inl held
    · exact .inr ⟨parent, member, ancestor, line, held⟩
  · rintro (held | ⟨parent, member, ancestor, line, held⟩)
    · exact ⟨sha, .refl _ _, held⟩
    · exact ⟨ancestor, CommitGraph.ancestor_iff_parents.mpr (.inr ⟨parent, member, line⟩), held⟩

/-- HEAD of a worktree names a commit that is there. -/
def HeadKnown (repo : Repository κ) (w : Worktree κ) : Prop := ∀ sha, w.head = .detached sha → sha < repo.graph.size

private theorem lt_of_resolve (known : HeadKnown repo w) {head : Nat} (resolved : repo.resolve w.head = some head) :
    head < repo.graph.size := by
  cases checkedOut : w.head with
  | branch name =>
    rw [checkedOut] at resolved
    exact repo.known _ head resolved
  | detached sha =>
    rw [checkedOut] at resolved
    exact Option.some.inj resolved ▸ known sha checkedOut

/-! ## One worktree -/

/-- What git guarantees of the entries of the worktree directory. -/
private structure Entries (repo : Repository κ) (entries : List (Entry κ)) : Prop where
  distinct : (entries.map (·.name)).Nodup
  apart : entries.Pairwise fun first second => ∀ w ∈ first.worktree, ∀ v ∈ second.worktree, w.branch? = v.branch? → w.branch? = none
  detached : ∀ entry ∈ entries, ∀ w ∈ entry.worktree, HeadKnown repo w

private theorem archiveRef_ne_branchRef (runId entry : String) (branch : RefName) : archiveRef runId entry ≠ branchRef branch := by
  simp [archiveRef, branchRef]

/-- What one turn of the release does. -/
private structure Turn (repo after : Repository κ) (runId : String) (entry : Entry κ) : Prop where
  grown : repo.graph.Extends after.graph
  deleted : ∀ w ∈ entry.worktree, ∀ branch, w.branch? = some branch → after.refs.get? (branchRef branch) = none
  untouched : ∀ ref, Untouched repo runId [entry] ref → after.refs.get? ref = repo.refs.get? ref
  archived : ∀ w ∈ entry.worktree, ∀ head, repo.resolve w.head = some head → ∃ sha,
    after.refs.get? (archiveRef runId entry.name) = some sha ∧ (∀ content, Carries after sha content ↔ Captured repo w content) ∧
      after.graph.Ancestor head sha

section

variable {entry : Entry κ} {rest : List (Entry κ)}

/-- A turn leaves the HEAD of the other worktrees. -/
private theorem Turn.resolve (turn : Turn repo after runId entry) (sound : Entries repo (entry :: rest)) {other : Entry κ}
    (member : other ∈ rest) {v : Worktree κ} (there : v ∈ other.worktree) : after.resolve v.head = repo.resolve v.head := by
  cases checkedOut : v.head with
  | detached sha => rfl
  | branch name =>
    refine turn.untouched (branchRef name) fun first here w mine => ⟨fun _ => (archiveRef_ne_branchRef _ _ _).symm, ?_⟩
    obtain rfl := List.mem_singleton.mp here
    intro branch named same
    obtain rfl : name = branch := List.append_cancel_left same
    have both : w.branch? = v.branch? := by rw [named, Worktree.branch?, checkedOut]
    have none := (List.pairwise_cons.mp sound.apart).1 other member w mine v there both
    rw [named] at none
    cases none

private theorem Turn.captured (turn : Turn repo after runId entry) (sound : Entries repo (entry :: rest)) {other : Entry κ}
    (member : other ∈ rest) {v : Worktree κ} (there : v ∈ other.worktree) (content : κ) :
    Captured after v content ↔ Captured repo v content := by
  rw [Captured, Captured, turn.resolve sound member there]
  refine exists_congr fun head => and_congr_right fun resolved => ?_
  have old := lt_of_resolve (sound.detached other (List.mem_cons_of_mem _ member) v there) resolved
  rw [carries_of_extends turn.grown old, treeOf_of_extends turn.grown old]

private theorem Turn.entries (turn : Turn repo after runId entry) (sound : Entries repo (entry :: rest)) : Entries after rest := by
  refine ⟨(List.nodup_cons.mp sound.distinct).2, (List.pairwise_cons.mp sound.apart).2, fun other member v there sha checkedOut => ?_⟩
  exact Nat.lt_of_lt_of_le (sound.detached other (List.mem_cons_of_mem _ member) v there sha checkedOut) turn.grown.size_le

/-- What the release leaves alone is what the turn and the turns after it do. -/
private theorem Turn.untouched_cons (turn : Turn repo after runId entry) (sound : Entries repo (entry :: rest)) (ref : RefName) :
    Untouched repo runId (entry :: rest) ref ↔ Untouched repo runId [entry] ref ∧ Untouched after runId rest ref := by
  rw [Untouched, List.forall_mem_cons, Untouched, List.forall_mem_singleton, Untouched]
  refine and_congr_right fun _ => ?_
  refine forall₂_congr fun other member => forall₂_congr fun v there => ?_
  rw [turn.resolve sound member there]

/-- The archive ref of an entry is not touched again. -/
private theorem untouched_archiveRef (sound : Entries repo (entry :: rest)) :
    Untouched after runId rest (archiveRef runId entry.name) := by
  refine fun other member v _ => ⟨fun _ same => ?_, fun branch _ => archiveRef_ne_branchRef _ _ _⟩
  have names : entry.name = other.name := by simpa [archiveRef] using same
  exact (List.nodup_cons.mp sound.distinct).1 (List.mem_map.mpr ⟨other, member, names.symm⟩)

/-- A turn keeps what the release has to keep. -/
private theorem Turn.elsewhere (turn : Turn repo after runId entry) (sound : Entries repo (entry :: rest)) (content : κ) :
    Elsewhere after runId rest content ↔ Elsewhere repo runId (entry :: rest) content := by
  constructor
  · rintro (⟨other, member, v, there, captured⟩ | ⟨ref, sha, alone, held, carries⟩)
    · exact .inl ⟨other, List.mem_cons_of_mem _ member, v, there, (turn.captured sound member there content).mp captured⟩
    · by_cases first : Untouched repo runId [entry] ref
      · have before := turn.untouched ref first ▸ held
        refine .inr ⟨ref, sha, (turn.untouched_cons sound ref).mpr ⟨first, alone⟩, before, ?_⟩
        exact (carries_of_extends turn.grown (repo.known ref sha before) content).mp carries
      · simp only [Untouched, List.mem_singleton, forall_eq, not_forall] at first
        obtain ⟨w, mine, touched⟩ := first
        rw [not_and_or] at touched
        rcases touched with archived | branch
        · obtain ⟨resolved, rfl⟩ : (repo.resolve w.head).isSome = true ∧ ref = archiveRef runId entry.name := by
            simpa using archived
          obtain ⟨head, resolved⟩ := Option.isSome_iff_exists.mp resolved
          obtain ⟨kept, there, same, -⟩ := turn.archived w mine head resolved
          obtain rfl := Option.some.inj (there.symm.trans held)
          exact .inl ⟨entry, List.mem_cons_self, w, mine, (same content).mp carries⟩
        · simp only [ne_eq, not_forall, not_not] at branch
          obtain ⟨branch, named, rfl⟩ := branch
          cases (turn.deleted w mine branch named).symm.trans held
  · rintro (⟨other, member, v, there, captured⟩ | ⟨ref, sha, alone, held, carries⟩)
    · rcases List.mem_cons.mp member with rfl | member
      · obtain ⟨head, resolved, -⟩ := id captured
        obtain ⟨kept, ref, same, -⟩ := turn.archived v there head resolved
        exact .inr ⟨_, kept, untouched_archiveRef sound, ref, (same content).mpr captured⟩
      · exact .inl ⟨other, member, v, there, (turn.captured sound member there content).mpr captured⟩
    · obtain ⟨first, later⟩ := (turn.untouched_cons sound ref).mp alone
      refine .inr ⟨ref, sha, later, (turn.untouched ref first).trans held, ?_⟩
      exact (carries_of_extends turn.grown (repo.known ref sha held) content).mpr carries

end

/-! ## Runs -/

/-- What a run over entries leaves. -/
private structure Run (repo after : Repository κ) (runId : String) (entries : List (Entry κ)) : Prop where
  grown : repo.graph.Extends after.graph
  reaches : ∀ content, Reaches after content ↔ Elsewhere repo runId entries content
  holds : ∀ ref sha, (∀ entry ∈ entries, ref ≠ archiveRef runId entry.name) → repo.refs.get? ref = some sha → Holds after sha

private theorem Run.nil (repo : Repository κ) : Run repo repo runId [] := by
  refine ⟨.refl _, fun content => ⟨?_, ?_⟩, fun ref sha _ held => ⟨ref, sha, held, .refl _ _⟩⟩
  · rintro ⟨ref, sha, held, carries⟩
    exact .inr ⟨ref, sha, nofun, held, carries⟩
  · rintro (⟨_, none, -⟩ | ⟨ref, sha, -, held, carries⟩)
    · cases none
    · exact ⟨ref, sha, held, carries⟩

private theorem Run.cons {middle : Repository κ} {entry : Entry κ} {rest : List (Entry κ)} (turn : Turn repo middle runId entry)
    (sound : Entries repo (entry :: rest)) (run : Run middle after runId rest) : Run repo after runId (entry :: rest) := by
  refine ⟨turn.grown.trans run.grown, fun content => (run.reaches content).trans (turn.elsewhere sound content), ?_⟩
  intro ref sha archives held
  obtain ⟨apart, later⟩ := List.forall_mem_cons.mp archives
  by_cases first : Untouched repo runId [entry] ref
  · exact run.holds ref sha later ((turn.untouched ref first).trans held)
  · -- The ref is the branch of the entry, so its commit is HEAD there, and the archive ref holds it.
    simp only [Untouched, List.mem_singleton, forall_eq, not_forall, ne_eq, apart, not_false_eq_true, implies_true, true_and,
      not_not] at first
    obtain ⟨w, mine, branch, named, rfl⟩ := first
    have resolved : repo.resolve w.head = some sha := by
      cases checkedOut : w.head with
      | detached other => simp [Worktree.branch?, checkedOut] at named
      | branch name =>
        obtain rfl : name = branch := by simpa [Worktree.branch?, checkedOut] using named
        exact held
    obtain ⟨kept, there, -, line⟩ := turn.archived w mine sha resolved
    have fresh (other : Entry κ) (member : other ∈ rest) : archiveRef runId entry.name ≠ archiveRef runId other.name := by
      intro same
      have names : entry.name = other.name := by simpa [archiveRef] using same
      exact (List.nodup_cons.mp sound.distinct).1 (List.mem_map.mpr ⟨other, member, names.symm⟩)
    obtain ⟨last, final, found, onward⟩ := run.holds _ kept fresh there
    refine ⟨last, final, found, ?_⟩
    exact ((run.grown.ancestor_iff (middle.known _ kept there)).mpr line).trans onward

private theorem not_attempt_of_keeper {ref : RefName} (keeper : isKeeper ref = true) : isAttempt runId ref = false := by
  refine Bool.eq_false_of_not_eq_true fun attempt => ?_
  simp only [isAttempt, Bool.and_eq_true, List.isPrefixOf_iff_prefix, decide_eq_true_eq] at attempt
  obtain ⟨⟨rest, rfl⟩, -⟩ := attempt
  simp [isKeeper] at keeper

/-- What holds between two attempt branches: only attempts were deleted, and what each of them named is held. -/
private structure Swept (repo state : Repository κ) (runId : String) : Prop where
  graph : state.graph = repo.graph
  others : ∀ ref, isAttempt runId ref = false → state.refs.get? ref = repo.refs.get? ref
  held : ∀ ref sha, repo.refs.get? ref = some sha → state.refs.get? ref = none → ∃ keeper final,
    isAttempt runId keeper = false ∧ repo.refs.get? keeper = some final ∧ repo.graph.Ancestor sha final

private theorem Swept.step {keepers : List RefName} {state : Repository κ × List RefName} (swept : Swept repo state.1 runId)
    (kept : ∀ keeper ∈ keepers, isKeeper keeper = true) {attempt : RefName × Nat}
    (here : repo.refs.get? attempt.1 = some attempt.2 ∧ isAttempt runId attempt.1 = true) :
    Swept repo (releaseBranch keepers state attempt).1 runId := by
  rw [releaseBranch]
  split_ifs with found
  · obtain ⟨keeper, member, holds⟩ := List.any_eq_true.mp found
    obtain ⟨final, named, line⟩ := (Option.any_eq_true _ _).mp holds
    have apart : isAttempt runId keeper = false := not_attempt_of_keeper (kept keeper member)
    have before : repo.refs.get? keeper = some final := (swept.others keeper apart).symm.trans named
    have ancestor : repo.graph.Ancestor attempt.2 final := swept.graph ▸ ((CommitGraph.isAncestor_iff _).mp line).2
    have refs (ref : RefName) : (state.1.deleteRef attempt.1).refs.get? ref = if ref = attempt.1 then none else state.1.refs.get? ref :=
      KeyedStore.get?_erase
    refine ⟨swept.graph, fun ref other => ?_, fun ref sha was gone => ?_⟩
    · rw [refs, if_neg, swept.others ref other]
      rintro rfl
      rw [here.2] at other
      cases other
    · rw [refs] at gone
      split_ifs at gone with same
      · obtain rfl := same
        obtain rfl := Option.some.inj (here.1.symm.trans was)
        exact ⟨keeper, final, apart, before, ancestor⟩
      · exact swept.held ref sha was gone
  · exact swept

private theorem Swept.foldl {keepers : List RefName} {attempts : List (RefName × Nat)} {state : Repository κ × List RefName}
    (swept : Swept repo state.1 runId) (kept : ∀ keeper ∈ keepers, isKeeper keeper = true)
    (here : ∀ attempt ∈ attempts, repo.refs.get? attempt.1 = some attempt.2 ∧ isAttempt runId attempt.1 = true) :
    Swept repo (attempts.foldl (releaseBranch keepers) state).1 runId := by
  induction attempts generalizing state with
  | nil => exact swept
  | cons attempt rest ih =>
    obtain ⟨first, later⟩ := List.forall_mem_cons.mp here
    exact ih (swept.step kept first) later

variable [DecidableEq κ]

/-! ## What is kept -/

/-- The content of a file of the tree. -/
private theorem exists_path_iff (tree : Seal.Tree κ) (content : κ) :
    (tree.entries.any fun entry => decide (entry.2 = content)) = true ↔ ∃ path, tree.get? path = some content := by
  rw [List.any_eq_true]
  constructor
  · rintro ⟨⟨path, other⟩, member, same⟩
    obtain rfl : other = content := by simpa using same
    exact ⟨path, KeyedStore.mem_entries.mp member⟩
  · rintro ⟨path, held⟩
    exact ⟨(path, content), KeyedStore.mem_entries.mpr held, by simp⟩

instance (repo : Repository κ) (sha : Nat) (content : κ) : Decidable (Carries repo sha content) :=
  decidable_of_iff (((List.range (sha + 1)).any fun ancestor => decide (repo.graph.Ancestor ancestor sha) &&
      (repo.treeOf ancestor).entries.any fun entry => decide (entry.2 = content)) = true) <| by
    rw [List.any_eq_true]
    refine exists_congr fun ancestor => ?_
    rw [Bool.and_eq_true, decide_eq_true_eq, exists_path_iff, List.mem_range]
    exact ⟨And.right, fun carries => ⟨Nat.lt_succ_of_le carries.1.le, carries⟩⟩

instance (repo : Repository κ) (content : κ) : Decidable (Reaches repo content) :=
  decidable_of_iff ((repo.refs.entries.any fun entry => decide (Carries repo entry.2 content)) = true) <| by
    rw [List.any_eq_true]
    constructor
    · rintro ⟨⟨ref, sha⟩, member, carries⟩
      exact ⟨ref, sha, KeyedStore.mem_entries.mp member, of_decide_eq_true carries⟩
    · rintro ⟨ref, sha, held, carries⟩
      exact ⟨(ref, sha), KeyedStore.mem_entries.mpr held, decide_eq_true carries⟩

end Faberun.Release
