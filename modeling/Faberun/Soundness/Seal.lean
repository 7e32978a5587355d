import Mathlib.Data.List.Dedup
import Faberun.Model.Repo.Seal

/-! # What a seal contains

The tree of the commit is read path by path (`get?_sealAttempt`): where anything is dirty, a path is as it is on disk,
or gone. So it differs from the base tree where a change remains, and where a tracked path was unstaged for its name.
-/

namespace Faberun.Seal

variable {κ : Type} [DecidableEq κ] {a : Attempt κ} {path : Path}

namespace Attempt

theorem mem_sortPaths {paths : List Path} : path ∈ sortPaths paths ↔ path ∈ paths := by
  rw [sortPaths, List.mem_insertionSort]

/-! ## Paths -/

omit [DecidableEq κ] in
theorem mem_paths : path ∈ a.paths ↔
    (a.base.get? path).isSome ∨ (a.started.get? path).isSome ∨ (a.worked.get? path).isSome ∨
      (a.verified.get? path).isSome ∨ (a.proved.get? path).isSome := by
  simp only [paths, List.mem_dedup, List.mem_append, KeyedStore.mem_keys, Option.isSome_iff_exists, or_assoc]

omit [DecidableEq κ] in
theorem mem_paths_of_changed (changed : a.proved.get? path ≠ a.base.get? path) : path ∈ a.paths := by
  rw [mem_paths]
  cases base : a.base.get? path with
  | some content => exact .inl rfl
  | none =>
    rw [base] at changed
    exact .inr (.inr (.inr (.inr (Option.isSome_iff_ne_none.mpr changed))))

/-! ## The scope findings -/

theorem not_ignoreSource_of_reserved (here : reserved path = true) : isIgnoreSource path = false := by
  cases path with
  | nil => exact nomatch here
  | cons first rest =>
    simp only [reserved, List.head?_cons, Option.any_some, decide_eq_true_eq] at here
    rcases here with rfl | rfl
    · simp [isIgnoreSource, skippedSourceDirs, runsDirName]
    · simp [isIgnoreSource, skippedSourceDirs]

omit [DecidableEq κ] in
theorem not_relevant_of_reserved {sources : Path → Option κ} {tree : Tree κ} (here : reserved path = true) :
    a.relevant sources tree path = false := by
  cases path with
  | nil => exact nomatch here
  | cons first rest =>
    simp only [reserved, List.head?_cons, Option.any_some, decide_eq_true_eq] at here
    rcases here with rfl | rfl
    · simp [relevant]
    · simp [relevant]

/-- The snapshots leave out what the seal unstages. -/
theorem not_shows_of_reserved (here : reserved path = true) : a.shows path = false := by
  simp [shows, prior, current, not_relevant_of_reserved here, sourceChanged, not_ignoreSource_of_reserved here]

theorem mem_paths_of_shows (shown : a.shows path = true) : path ∈ a.paths := by
  by_contra absent
  rw [mem_paths] at absent
  simp only [not_or, Bool.not_eq_true, Option.isSome_eq_false_iff, Option.isNone_iff_eq_none] at absent
  obtain ⟨base, started, worked, -, -⟩ := absent
  simp [shows, prior, current, relevant, tracked, base, started, worked, sourceChanged] at shown

theorem mem_unexpectedPaths :
    path ∈ a.unexpectedPaths ↔ a.shows path = true ∧ isDeclaredScopePath a.boundary path = false := by
  simp only [unexpectedPaths, changedPaths, List.mem_filter, mem_sortPaths, Bool.not_eq_true']
  constructor
  · exact fun ⟨⟨_, shown⟩, outside⟩ => ⟨shown, outside⟩
  · exact fun ⟨shown, outside⟩ => ⟨⟨mem_paths_of_shows shown, shown⟩, outside⟩

theorem mem_take_iff_idxOf {α : Type*} [BEq α] [LawfulBEq α] {members : List α} {member : α} {size : Nat} :
    member ∈ members.take size ↔ member ∈ members ∧ members.idxOf member < size := by
  induction members generalizing size with
  | nil => simp
  | cons first rest ih =>
    cases size with
    | zero => simp
    | succ size =>
      by_cases same : first = member
      · simp [same]
      · rw [List.take_succ_cons, List.mem_cons, List.mem_cons, List.idxOf_cons_ne rest same, ih]
        simp [Ne.symm same]

/-- A path outside the boundary is a finding when the snapshots show it early enough. -/
theorem mem_scopeFindings (outside : isDeclaredScopePath a.boundary path = false) :
    path ∈ a.scopeFindings ↔ a.shows path = true ∧ a.unexpectedPaths.idxOf path < maxScopeFindingPaths := by
  rw [scopeFindings, mem_take_iff_idxOf, mem_unexpectedPaths]
  simp [outside]

/-! ## The commit -/

omit [DecidableEq κ] in
theorem untracked_of_artifact (artifact : path ∈ a.verificationArtifacts) :
    a.tracked path = false ∧ reserved path = false := by
  have member := List.mem_of_mem_take artifact
  simp only [List.mem_filter, untrackedPaths, mem_sortPaths, isUntracked, Bool.and_eq_true, Bool.not_eq_true'] at member
  exact ⟨member.1.1.2.1.1.2, member.1.1.2.2⟩

theorem dirty_of_remains (stages : a.stages path = true) (changed : a.proved.get? path ≠ a.base.get? path) :
    a.dirty = true :=
  List.any_eq_true.mpr ⟨path, mem_paths_of_changed changed, by simp [stages, changed]⟩

theorem get?_sealAttempt : a.sealAttempt.get? path =
    if a.dirty = true then
      if a.stages path = true ∧ path ∉ a.verificationArtifacts then a.proved.get? path else none
    else a.base.get? path := by
  unfold sealAttempt
  split_ifs with _ kept
  · rw [KeyedStore.get?_filter, if_pos]
    simpa using kept
  · rw [KeyedStore.get?_filter, if_neg]
    simpa using kept
  · rfl

/-- The commit differs from the base tree where a change remains, and where a tracked path was unstaged for its name. -/
theorem sealAttempt_ne_iff : a.sealAttempt.get? path ≠ a.base.get? path ↔
    a.Remains path ∨ a.dirty = true ∧ reserved path = true ∧ a.tracked path = true := by
  rw [get?_sealAttempt]
  by_cases dirty : a.dirty = true
  · rw [if_pos dirty]
    split_ifs with kept
    · constructor
      · exact fun changed => .inl ⟨kept.1, kept.2, changed⟩
      · rintro (⟨-, -, changed⟩ | ⟨-, named, -⟩)
        · exact changed
        · simp [stages, named] at kept
    · constructor
      · intro gone
        have tracked : a.tracked path = true := Option.isSome_iff_ne_none.mpr gone.symm
        have free : path ∉ a.verificationArtifacts := fun artifact =>
          nomatch (untracked_of_artifact artifact).1.symm.trans tracked
        refine .inr ⟨dirty, ?_, tracked⟩
        by_contra named
        exact kept ⟨by simp [stages, tracked, named], free⟩
      · rintro (⟨staged, free, -⟩ | ⟨-, -, tracked⟩)
        · exact absurd ⟨staged, free⟩ kept
        · exact (Option.isSome_iff_ne_none.mp tracked).symm
  · rw [if_neg dirty]
    refine iff_of_false (fun differs => differs rfl) ?_
    rintro (⟨staged, -, changed⟩ | ⟨here, -, -⟩)
    · exact dirty (dirty_of_remains staged changed)
    · exact dirty here

/-- What the worker left within the boundary is sealed as it is, unless it is taken for the verification's. -/
theorem get?_sealAttempt_of_kept (staged : a.stages path = true) (same : a.proved.get? path = a.worked.get? path) :
    a.sealAttempt.get? path = a.worked.get? path ↔ (path ∈ a.verificationArtifacts → a.worked.get? path = none) := by
  rw [get?_sealAttempt]
  by_cases dirty : a.dirty = true
  · rw [if_pos dirty]
    by_cases artifact : path ∈ a.verificationArtifacts
    · rw [if_neg fun kept => kept.2 artifact]
      exact ⟨fun gone _ => gone.symm, fun gone => (gone artifact).symm⟩
    · rw [if_pos ⟨staged, artifact⟩]
      exact iff_of_true same fun taken => absurd taken artifact
  · rw [if_neg dirty]
    have clean : a.proved.get? path = a.base.get? path := by
      by_contra changed
      exact dirty (dirty_of_remains staged changed)
    refine iff_of_true (clean.symm.trans same) fun artifact => ?_
    have untracked := (untracked_of_artifact artifact).1
    rw [← same, clean]
    exact Option.not_isSome_iff_eq_none.mp (Bool.eq_false_iff.mp untracked)

theorem settle_some {s : Sealed κ} (settles : a.settle = some s) : s.tree = a.sealAttempt ∧ s.scopeFindings = a.scopeFindings := by
  unfold settle at settles
  split_ifs at settles
  obtain rfl := Option.some.inj settles
  exact ⟨rfl, rfl⟩

/-- An attempt that is sealed is sealed soundly exactly when it is clean. -/
theorem sealAttempt_sound_iff {s : Sealed κ} (settles : a.settle = some s) : a.Sound s ↔ a.Clean := by
  obtain ⟨tree, findings⟩ := settle_some settles
  constructor
  · rintro ⟨worker, checked, kept⟩
    rw [tree] at worker checked kept
    rw [findings] at checked
    refine ⟨fun path _ remains => ?_, fun dirty path _ named tracked => ?_, fun path _ artifact within staged changed same => ?_⟩
    · have differs := sealAttempt_ne_iff.mpr (.inl remains)
      refine ⟨worker path differs, ?_⟩
      cases within : isDeclaredScopePath a.boundary path with
      | true => exact .inl rfl
      | false => exact .inr ((mem_scopeFindings within).mp ((checked path differs).resolve_left (by simp [within])))
    · have differs := sealAttempt_ne_iff.mpr (.inr ⟨dirty, named, tracked⟩)
      refine ⟨worker path differs, ?_⟩
      by_contra outside
      have outside := Bool.eq_false_iff.mpr outside
      have finding := (checked path differs).resolve_left (by simp [outside])
      exact nomatch (not_shows_of_reserved named).symm.trans ((mem_scopeFindings outside).mp finding).1
    · exact (get?_sealAttempt_of_kept staged same).mp (kept path within staged changed same) artifact
  · rintro ⟨remains, named, foreign⟩
    have covers (path) (differs : a.sealAttempt.get? path ≠ a.base.get? path) : a.WorkerChanged path ∧
        (isDeclaredScopePath a.boundary path = true ∨
          a.shows path = true ∧ a.unexpectedPaths.idxOf path < maxScopeFindingPaths) := by
      rcases sealAttempt_ne_iff.mp differs with left | ⟨dirty, here, tracked⟩
      · exact remains path (mem_paths_of_changed left.2.2) left
      · obtain ⟨changed, within⟩ := named dirty path (mem_paths.mpr (.inl tracked)) here tracked
        exact ⟨changed, .inl within⟩
    refine ⟨?_, ?_, ?_⟩
    · rw [tree]
      exact fun path differs => (covers path differs).1
    · rw [tree, findings]
      intro path differs
      cases within : isDeclaredScopePath a.boundary path with
      | true => exact .inl rfl
      | false => exact .inr ((mem_scopeFindings within).mpr ((covers path differs).2.resolve_left (by simp [within])))
    · rw [tree]
      intro path within staged changed same
      refine (get?_sealAttempt_of_kept staged same).mpr fun artifact => ?_
      by_contra written
      have member : path ∈ a.paths :=
        mem_paths.mpr (.inr (.inr (.inl (Option.isSome_iff_ne_none.mpr written))))
      exact written (foreign path member artifact within staged changed same)

/-! ## An attempt and its verification -/

/-- Nothing is ignored. -/
def plain : Rules String := ⟨fun _ _ => false, fun _ _ => false, fun content => content⟩

def checkout : Tree String := KeyedStore.empty.set ["src", "a"] "1"

/-- The worker writes within `src` and beside it; the verification leaves a log. -/
def tidy : Attempt String where
  rules := plain
  base := checkout
  started := checkout
  worked := ((checkout.set ["src", "a"] "2").set ["src", "b"] "1").set ["notes"] "1"
  verified := (((checkout.set ["src", "a"] "2").set ["src", "b"] "1").set ["notes"] "1").set ["test.log"] "1"
  proved := (((checkout.set ["src", "a"] "2").set ["src", "b"] "1").set ["notes"] "1").set ["test.log"] "1"
  boundary := ⟨[], [["src"]], []⟩
  writeFiles := []
  writeRoots := [["src"]]
  previous := []
  cites _ := false

/-- The worker's notes are sealed as a finding, and the log is left out. -/
theorem sealAttempt_sound_tidy : tidy.sealAttempt.keys = [["src", "a"], ["src", "b"], ["notes"]] ∧
    tidy.Sound ⟨tidy.sealAttempt, tidy.scopeFindings⟩ := by
  have settles : tidy.settle = some ⟨tidy.sealAttempt, tidy.scopeFindings⟩ := by
    unfold settle
    rw [if_neg (by decide), if_neg (by decide)]
  exact ⟨by decide, (sealAttempt_sound_iff settles).mpr (by decide)⟩

/-- The verification rewrites a tracked file. -/
def rewritten : Attempt String :=
  { tidy with
    worked := checkout.set ["src", "b"] "1"
    verified := (checkout.set ["src", "b"] "1").set ["src", "a"] "2"
    proved := (checkout.set ["src", "b"] "1").set ["src", "a"] "2" }

/-- The repository tracks a file under `.runs`. -/
def untracking : Attempt String :=
  { tidy with
    base := checkout.set [".runs", "keep"] "1"
    started := checkout.set [".runs", "keep"] "1"
    worked := (checkout.set [".runs", "keep"] "1").set ["src", "b"] "1"
    verified := (checkout.set [".runs", "keep"] "1").set ["src", "b"] "1"
    proved := (checkout.set [".runs", "keep"] "1").set ["src", "b"] "1" }

/-- What the verification rewrites is sealed, and a tracked file under `.runs` is deleted; the worker touched neither. -/
theorem sealAttempt_unsound :
    (∃ s, rewritten.settle = some s ∧ ¬ rewritten.Sound s) ∧ ∃ s, untracking.settle = some s ∧ ¬ untracking.Sound s := by
  constructor
  · refine ⟨⟨rewritten.sealAttempt, rewritten.scopeFindings⟩, ?_, fun sound => ?_⟩
    · unfold settle
      rw [if_neg (by decide), if_neg (by decide)]
    · have changed := sound.worker ["src", "a"] (by decide)
      exact changed (by decide)
  · refine ⟨⟨untracking.sealAttempt, untracking.scopeFindings⟩, ?_, fun sound => ?_⟩
    · unfold settle
      rw [if_neg (by decide), if_neg (by decide)]
    · have changed := sound.worker [".runs", "keep"] (by decide)
      exact changed (by decide)

end Attempt

end Faberun.Seal
