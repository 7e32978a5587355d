import Faberun.Soundness.ScopePaths

/-! # A captured scope and its validators

A boundary is built of the spellings of the declared paths, checked by the validator it is captured with, kept in a
snapshot and checked again in a later checkout. The three agree on a declared scope exactly when its paths are named
once, lead below the workspace, and every spelling is one the snapshot takes.
-/

namespace Faberun.Workspace

open PosixPath

/-! ## Origins -/

/-- An origin whose paths are in the form the validators leave them in. -/
private structure Formed (origin : WorkspaceScopeOrigin) : Prop where
  bare : ∀ path ∈ origin.paths, Bare path
  once : origin.paths.Nodup
  literal : origin.literal ∈ origin.paths

/-- An origin every path of which a scope may hold. -/
private def Held (origin : WorkspaceScopeOrigin) : Prop := ∀ path ∈ origin.paths, IsScopePath path

private theorem readOrigins_ok_iff {kind : String} {declared : List String} {origins : List WorkspaceScopeOrigin}
    (formed : ∀ origin ∈ origins, Formed origin) (listed : ∀ origin ∈ origins, origin.literal ∈ declared) (seen : List String)
    {out : List WorkspaceScopeOrigin} : readOrigins kind declared seen origins = .ok out ↔
      (∀ origin ∈ origins, Held origin ∧ origin.literal ∉ seen) ∧ (origins.map (·.literal)).Nodup ∧ origins = out := by
  induction origins generalizing seen out with
  | nil => simp [readOrigins]
  | cons origin rest ih =>
    obtain ⟨here, later⟩ := List.forall_mem_cons.mp formed
    obtain ⟨listedHere, listedLater⟩ := List.forall_mem_cons.mp listed
    have bareLiteral := here.bare _ here.literal
    have freshIff : (∀ other ∈ rest, Held other ∧ other.literal ∉ seen ++ [origin.literal]) ↔
        (∀ other ∈ rest, Held other ∧ other.literal ∉ seen) ∧ origin.literal ∉ rest.map (·.literal) := by
      simp only [List.mem_append, List.mem_singleton, not_or, List.mem_map, not_exists, not_and]
      constructor
      · intro each
        exact ⟨fun other member => ⟨(each other member).1, (each other member).2.1⟩, fun other member => (each other member).2.2⟩
      · rintro ⟨each, apart⟩ other member
        exact ⟨(each other member).1, (each other member).2, apart other member⟩
    rw [readOrigins, bind_ok_iff, List.forall_mem_cons, List.map_cons, List.nodup_cons]
    constructor
    · rintro ⟨name, named, success⟩
      obtain ⟨paths, pathed, success⟩ := bind_ok_iff.mp success
      obtain ⟨_, rfl⟩ := normalizeScopePath_ok_iff.mp named
      obtain ⟨held, rfl⟩ := normalizeScopePaths_ok_iff.mp pathed
      rw [literal_of_bare bareLiteral, map_literal here.bare] at success
      split at success
      · cases success
      · rename_i fresh
        simp only [not_or] at fresh
        obtain ⟨others, more, success⟩ := bind_ok_iff.mp success
        obtain ⟨each, once, rfl⟩ := (ih later listedLater _).mp more
        obtain ⟨others, apart⟩ := freshIff.mp each
        exact ⟨⟨⟨held, fresh.1⟩, others⟩, ⟨apart, once⟩, Except.ok.inj success⟩
    · rintro ⟨⟨⟨held, fresh⟩, others⟩, ⟨apart, once⟩, rfl⟩
      refine ⟨_, normalizeScopePath_ok_iff.mpr ⟨held _ here.literal, literal_of_bare bareLiteral⟩,
        bind_ok_iff.mpr ⟨_, normalizeScopePaths_ok_iff.mpr ⟨held, map_literal here.bare⟩, ?_⟩⟩
      rw [if_neg (by simp only [fresh, listedHere, here.literal, not_true, or_self, not_false_iff])]
      exact bind_ok_iff.mpr ⟨_, (ih later listedLater _).mpr ⟨freshIff.mpr ⟨others, apart⟩, once, rfl⟩, rfl⟩

/-- Origins are accepted for the scope they were declared by when each literal stands once. -/
private theorem validateOrigins_ok_iff {kind : String} {origins : List WorkspaceScopeOrigin} (formed : ∀ origin ∈ origins, Formed origin)
    {out : List WorkspaceScopeOrigin} :
    validateOrigins kind origins (origins.map (·.literal)) (origins.flatMap (·.paths)).eraseDups = .ok out ↔
      (∀ origin ∈ origins, Held origin) ∧ (origins.map (·.literal)).Nodup ∧ origins = out := by
  have listed : ∀ origin ∈ origins, origin.literal ∈ origins.map (·.literal) := fun _ => List.mem_map_of_mem
  have read := fun out => @readOrigins_ok_iff kind _ _ formed listed [] out
  simp only [List.not_mem_nil, not_false_iff, and_true] at read
  have same : (origins.map fun origin => (⟨origin.literal, origin.paths.eraseDups⟩ : WorkspaceScopeOrigin)) = origins := by
    refine (List.map_congr_left fun origin member => ?_).trans (List.map_id _)
    rw [FirstByKey.eraseDups_of_nodup (formed origin member).once]
    rfl
  have twice := FirstByKey.eraseDups_of_nodup (FirstByKey.nodup_eraseDups (origins.flatMap (·.paths)))
  have literals : ¬ ((origins.map (·.literal)).length ≠ (origins.map (·.literal)).length ∨
      ∃ path ∈ origins.map (·.literal), path ∉ origins.map (·.literal)) := by
    rintro (lengths | ⟨path, member, apart⟩)
    · exact lengths rfl
    · exact apart member
  have bounded : ¬ ((origins.flatMap (·.paths)).eraseDups.length ≠ (origins.flatMap (·.paths)).eraseDups.length ∨
      ∃ path ∈ (origins.flatMap (·.paths)).eraseDups, path ∉ (origins.flatMap (·.paths)).eraseDups) := by
    rintro (lengths | ⟨path, member, apart⟩)
    · exact lengths rfl
    · exact apart member
  rw [validateOrigins, bind_ok_iff]
  constructor
  · rintro ⟨found, reads, success⟩
    obtain ⟨held, once, rfl⟩ := (read found).mp reads
    simp only [twice] at success
    rw [if_neg literals, if_neg bounded] at success
    exact ⟨held, once, same.symm.trans (Except.ok.inj success)⟩
  · rintro ⟨held, once, rfl⟩
    refine ⟨origins, (read origins).mpr ⟨held, once, rfl⟩, ?_⟩
    simp only [twice]
    rw [if_neg literals, if_neg bounded]
    exact congrArg Except.ok same

/-! ## The boundary -/

section Boundary

variable {tree : FileTree} {root : List Name} {fileOrigins rootOrigins : List WorkspaceScopeOrigin}

private theorem forall_paths_iff {origins : List WorkspaceScopeOrigin} {P : String → Prop} :
    (∀ path ∈ (origins.flatMap (·.paths)).eraseDups, P path) ↔ ∀ origin ∈ origins, ∀ path ∈ origin.paths, P path := by
  simp only [List.mem_eraseDups, List.mem_flatMap, forall_exists_index, and_imp]
  exact forall_comm.trans (forall_congr' fun origin => forall_comm)

/-- The size of a boundary. -/
private theorem size_boundaryOf : (boundaryOf tree root fileOrigins rootOrigins).size =
    (fileOrigins.flatMap (·.paths)).eraseDups.length + (rootOrigins.flatMap (·.paths)).eraseDups.length +
      ((rootOrigins.flatMap (·.paths)).eraseDups.filter (isRegularWorkspaceFile tree root)).length + fileOrigins.length +
      rootOrigins.length := rfl

/-- A boundary is accepted for its own scope, in any checkout, as it is. -/
private theorem validate_boundaryOf_iff (files : ∀ origin ∈ fileOrigins, Formed origin) (roots : ∀ origin ∈ rootOrigins, Formed origin)
    {declared : WorkspaceScope} (declaredFiles : declared.files.map literal = fileOrigins.map (·.literal))
    (declaredRoots : declared.roots.map literal = rootOrigins.map (·.literal)) {other : Checkout} {at_ : List Name}
    (available : other.tree.realpathSync other.cwd = .ok at_) {out : WorkspaceScopeBoundary} :
    validateWorkspaceScopeBoundary other (boundaryOf tree root fileOrigins rootOrigins) declared = .ok out ↔
      ((∀ path ∈ declared.files, IsScopePath path) ∧ ∀ path ∈ declared.roots, IsScopePath path) ∧
        ((∀ origin ∈ fileOrigins, Held origin) ∧ ∀ origin ∈ rootOrigins, Held origin) ∧
        ((fileOrigins.map (·.literal)).Nodup ∧ (rootOrigins.map (·.literal)).Nodup) ∧
        (boundaryOf tree root fileOrigins rootOrigins).size ≤ snapshotEntries ∧ boundaryOf tree root fileOrigins rootOrigins = out := by
  have bareFiles := map_literal (forall_paths_iff.mpr fun origin member => (files origin member).bare)
  have bareRootPaths := forall_paths_iff.mpr fun origin member => (roots origin member).bare
  have bareRoots := map_literal bareRootPaths
  have bareFileRoots := map_literal fun path member => bareRootPaths path
    (List.mem_of_mem_filter (p := isRegularWorkspaceFile tree root) member)
  have onceFiles := FirstByKey.eraseDups_of_nodup (FirstByKey.nodup_eraseDups (fileOrigins.flatMap (·.paths)))
  have onceRootPaths := FirstByKey.nodup_eraseDups (rootOrigins.flatMap (·.paths))
  have onceRoots := FirstByKey.eraseDups_of_nodup onceRootPaths
  have onceFileRoots := FirstByKey.eraseDups_of_nodup (onceRootPaths.filter (isRegularWorkspaceFile tree root))
  have within : ¬ ∃ path ∈ (rootOrigins.flatMap (·.paths)).eraseDups.filter (isRegularWorkspaceFile tree root),
      path ∉ (rootOrigins.flatMap (·.paths)).eraseDups := by
    rintro ⟨path, member, apart⟩
    exact apart (List.mem_of_mem_filter member)
  rw [validateWorkspaceScopeBoundary, available]
  constructor
  · intro success
    obtain ⟨_, _, success⟩ := bind_ok_iff.mp success
    obtain ⟨_, normalFiles, success⟩ := bind_ok_iff.mp success
    obtain ⟨_, normalRoots, success⟩ := bind_ok_iff.mp success
    obtain ⟨_, normalFileRoots, success⟩ := bind_ok_iff.mp success
    obtain ⟨heldFiles, rfl⟩ := normalizeScopePaths_ok_iff.mp normalFiles
    obtain ⟨heldRoots, rfl⟩ := normalizeScopePaths_ok_iff.mp normalRoots
    obtain ⟨_, rfl⟩ := normalizeScopePaths_ok_iff.mp normalFileRoots
    simp only [boundaryOf, bareFiles, bareRoots, bareFileRoots] at success
    split at success
    · cases success
    · rename_i few
      obtain ⟨_, declares, success⟩ := bind_ok_iff.mp success
      obtain ⟨scopeFiles, rfl⟩ := normalizeScopePaths_ok_iff.mp declares
      obtain ⟨_, declares, success⟩ := bind_ok_iff.mp success
      obtain ⟨scopeRoots, rfl⟩ := normalizeScopePaths_ok_iff.mp declares
      obtain ⟨_, validates, success⟩ := bind_ok_iff.mp success
      rw [declaredFiles] at validates
      obtain ⟨heldF, nodupFiles, rfl⟩ := (validateOrigins_ok_iff files).mp validates
      obtain ⟨_, validates, success⟩ := bind_ok_iff.mp success
      rw [declaredRoots] at validates
      obtain ⟨heldR, nodupRoots, rfl⟩ := (validateOrigins_ok_iff roots).mp validates
      rw [onceFiles, onceRoots, onceFileRoots] at success
      exact ⟨⟨scopeFiles, scopeRoots⟩, ⟨heldF, heldR⟩, ⟨nodupFiles, nodupRoots⟩, Nat.le_of_not_lt few, Except.ok.inj success⟩
  · rintro ⟨⟨scopeFiles, scopeRoots⟩, ⟨heldF, heldR⟩, ⟨nodupFiles, nodupRoots⟩, few, rfl⟩
    have heldRoots := forall_paths_iff.mpr heldR
    refine bind_ok_iff.mpr ⟨_, rfl, bind_ok_iff.mpr ⟨_, normalizeScopePaths_ok_iff.mpr ⟨forall_paths_iff.mpr heldF, bareFiles⟩,
      bind_ok_iff.mpr ⟨_, normalizeScopePaths_ok_iff.mpr ⟨heldRoots, bareRoots⟩, bind_ok_iff.mpr ⟨_, normalizeScopePaths_ok_iff.mpr
        ⟨fun path member => heldRoots path (List.mem_of_mem_filter member), bareFileRoots⟩, ?_⟩⟩⟩⟩
    rw [size_boundaryOf] at few
    dsimp only [boundaryOf]
    split
    · rename_i beyond
      exact absurd few (Nat.not_le_of_lt beyond)
    refine bind_ok_iff.mpr ⟨_, normalizeScopePaths_ok_iff.mpr ⟨scopeFiles, declaredFiles⟩,
      bind_ok_iff.mpr ⟨_, normalizeScopePaths_ok_iff.mpr ⟨scopeRoots, declaredRoots⟩,
      bind_ok_iff.mpr ⟨_, (validateOrigins_ok_iff files).mpr ⟨heldF, nodupFiles, rfl⟩,
      bind_ok_iff.mpr ⟨_, (validateOrigins_ok_iff roots).mpr ⟨heldR, nodupRoots, rfl⟩, ?_⟩⟩⟩⟩
    rw [onceFiles, onceRoots, onceFileRoots]
    rfl

/-! ## The snapshot -/

/-- Every path of an origin is one the snapshot takes. -/
private def Spelled (origin : WorkspaceScopeOrigin) : Prop := ∀ path ∈ origin.paths, isSnapshotPath path = true

private theorem checkSnapshotOrigin_ok_iff {origin : WorkspaceScopeOrigin} (formed : Formed origin)
    (short : origin.paths.length ≤ snapshotEntries) (label : String) : checkSnapshotOrigin origin label = .ok () ↔ Spelled origin := by
  have some : origin.paths.isEmpty = false := List.isEmpty_eq_false_iff.mpr (List.ne_nil_of_mem formed.literal)
  simp only [checkSnapshotOrigin, checkSnapshotPaths, andThen_ok_iff, check_ok_iff, List.all_cons, List.all_nil, Bool.and_true, some,
    Bool.not_false, Bool.true_and, decide_eq_true_eq, short, List.all_eq_true, formed.literal, and_true, true_and]
  exact ⟨And.right, fun each => ⟨each _ formed.literal, each⟩⟩

private theorem snapshot_boundaryOf_iff (files : ∀ origin ∈ fileOrigins, Formed origin) (roots : ∀ origin ∈ rootOrigins, Formed origin)
    (shortFiles : ∀ origin ∈ fileOrigins, origin.paths.length ≤ snapshotEntries)
    (shortRoots : ∀ origin ∈ rootOrigins, origin.paths.length ≤ snapshotEntries) (label : String) :
    validateScopeBoundarySnapshot (boundaryOf tree root fileOrigins rootOrigins) label = .ok () ↔
      (boundaryOf tree root fileOrigins rootOrigins).size ≤ snapshotEntries ∧
        (∀ origin ∈ fileOrigins, Spelled origin) ∧ ∀ origin ∈ rootOrigins, Spelled origin := by
  have eachFile := eachFrom_ok_iff (fun origin member index =>
    checkSnapshotOrigin_ok_iff (files origin member) (shortFiles origin member) s!"{label}.fileOrigins[{index}]") 0
  have eachRoot := eachFrom_ok_iff (fun origin member index =>
    checkSnapshotOrigin_ok_iff (roots origin member) (shortRoots origin member) s!"{label}.rootOrigins[{index}]") 0
  have filePaths : ((fileOrigins.flatMap (·.paths)).eraseDups.all isSnapshotPath) = true ↔ ∀ origin ∈ fileOrigins, Spelled origin :=
    List.all_eq_true.trans forall_paths_iff
  have rootPaths : ((rootOrigins.flatMap (·.paths)).eraseDups.all isSnapshotPath) = true ↔ ∀ origin ∈ rootOrigins, Spelled origin :=
    List.all_eq_true.trans forall_paths_iff
  simp only [validateScopeBoundarySnapshot, checkSnapshotPaths, andThen_ok_iff, check_ok_iff, decide_eq_true_eq]
  dsimp only [boundaryOf]
  rw [filePaths, rootPaths, eachFile, eachRoot]
  constructor
  · rintro ⟨few, inFiles, inRoots, _, _, _, _⟩
    exact ⟨few, inFiles, inRoots⟩
  · rintro ⟨few, inFiles, inRoots⟩
    refine ⟨few, inFiles, inRoots, ?_, ?_, inFiles, inRoots⟩
    · rw [List.all_eq_true]
      exact fun path member => List.all_eq_true.mp (rootPaths.mpr inRoots) path (List.mem_of_mem_filter member)
    · rw [List.all_eq_true]
      exact fun path member => decide_eq_true (List.mem_of_mem_filter member)

end Boundary

/-! ## Capture -/

/-- The distinct spellings of some declared paths. -/
def spelledPaths (place : String → List Name) (paths : List String) : List String :=
  ((paths.map literal).flatMap fun path => spellings (place path) path).eraseDups

/-- A declared scope that stands at some places of a workspace: its paths are written as a scope may hold them, are named
once each, lead to these places, and all their spellings are few enough and ones the snapshot takes. -/
structure StandsAt (tree : FileTree) (root : List Name) (scope : WorkspaceScope) (place : String → List Name) : Prop where
  declared : ∀ path ∈ scope.files ++ scope.roots, IsScopePath path
  filesOnce : (scope.files.map literal).Nodup
  rootsOnce : (scope.roots.map literal).Nodup
  leads : ∀ path ∈ scope.files ++ scope.roots, LeadsTo tree root (literal path) (place (literal path))
  spelled : ∀ path ∈ scope.files ++ scope.roots, ∀ other ∈ spellings (place (literal path)) (literal path), isSnapshotPath other = true
  few : (spelledPaths place scope.files).length + (spelledPaths place scope.roots).length +
    ((spelledPaths place scope.roots).filter (isRegularWorkspaceFile tree root)).length + scope.files.length + scope.roots.length ≤
      snapshotEntries

/-- A boundary that is captured, validates again as it is in every checkout, and is taken by the snapshot. -/
structure Persists (checkout : Checkout) (scope : WorkspaceScope) (boundary : WorkspaceScopeBoundary) : Prop where
  captured : captureWorkspaceScope checkout scope = .ok boundary
  again : ∀ other : Checkout, ∀ at_, other.tree.realpathSync other.cwd = .ok at_ →
    validateWorkspaceScopeBoundary other boundary scope = .ok boundary
  snapshot : validateScopeBoundarySnapshot boundary "node snapshot.scope.boundary" = .ok ()

section Capture

variable {tree : FileTree} {root : List Name} {place : String → List Name} {paths : List String}

/-- The origins of declared paths that lead somewhere. -/
private def origins (place : String → List Name) (paths : List String) : List WorkspaceScopeOrigin :=
  (paths.map literal).map fun path => originOf (place path) path

private theorem origins_literal : (origins place paths).map (·.literal) = paths.map literal := by
  rw [origins, List.map_map]
  exact List.map_id _

private theorem forall_origins_iff {P : WorkspaceScopeOrigin → Prop} :
    (∀ origin ∈ origins place paths, P origin) ↔ ∀ path ∈ paths, P (originOf (place (literal path)) (literal path)) := by
  simp only [origins, List.forall_mem_map]

private theorem formed_origins (rooted : ∀ name ∈ root, Proper name) (declared : ∀ path ∈ paths, IsScopePath path)
    (leads : ∀ path ∈ paths, LeadsTo tree root (literal path) (place (literal path))) : ∀ origin ∈ origins place paths, Formed origin :=
  forall_origins_iff.mpr fun path member =>
    ⟨bare_spellings rooted (bare_literal path) (proper_components (declared path member)) (leads path member), nodup_spellings _ _,
      mem_spellings _ _⟩

private theorem short_origins : ∀ origin ∈ origins place paths, origin.paths.length ≤ snapshotEntries :=
  forall_origins_iff.mpr fun _ _ => (length_spellings _ _).trans (by decide)

private theorem LeadsTo.unique {path : String} {one other : List Name} (leads : LeadsTo tree root path one)
    (leadsOther : LeadsTo tree root path other) : one = other :=
  List.append_cancel_left (Leads.unique leads leadsOther)

/-- There is a table of where paths lead. -/
private theorem exists_place (tree : FileTree) (root : List Name) :
    ∃ place : String → List Name, ∀ path other, LeadsTo tree root path other → place path = other := by
  classical
  refine ⟨fun path => if leads : ∃ other, LeadsTo tree root path other then leads.choose else [], fun path other leads => ?_⟩
  have some : ∃ other, LeadsTo tree root path other := ⟨other, leads⟩
  dsimp only
  rw [dif_pos some]
  exact LeadsTo.unique some.choose_spec leads

private theorem size_origins (scope : WorkspaceScope) :
    (boundaryOf tree root (origins place scope.files) (origins place scope.roots)).size =
      (spelledPaths place scope.files).length + (spelledPaths place scope.roots).length +
        ((spelledPaths place scope.roots).filter (isRegularWorkspaceFile tree root)).length + scope.files.length + scope.roots.length := by
  have paths : ∀ paths : List String, (origins place paths).flatMap (·.paths) =
      (paths.map literal).flatMap fun path => spellings (place path) path := fun paths => List.flatMap_map ..
  rw [size_boundaryOf, paths, paths, origins, origins, List.length_map, List.length_map, List.length_map, List.length_map]
  rfl

/-- The declared scope of a packet is captured and persists exactly when it stands at some places of the workspace. -/
theorem captureWorkspaceScope_persists_iff {checkout : Checkout} (here : checkout.tree.realpathSync checkout.cwd = .ok root)
    (packet : TaskPacket) : (∃ boundary, Persists checkout (workerScope packet) boundary) ↔
      ∃ place, StandsAt checkout.tree root (workerScope packet) place := by
  generalize workerScope packet = scope
  have rooted : ∀ name ∈ root, Proper name := by
    rw [FileTree.realpathSync] at here
    cases found : checkout.tree.realpath checkout.cwd with
    | error code =>
      rw [found] at here
      cases here
    | ok target =>
      rw [found] at here
      cases here
      exact checkout.tree.proper found
  have names : ∀ paths : List String, (∀ path ∈ paths, IsScopePath path) → ∀ path ∈ paths.map literal,
      ∀ name ∈ workspacePathComponents path.toList, Proper name := by
    intro paths declared
    rw [List.forall_mem_map]
    exact fun path member => proper_components (declared path member)
  have twice : ∀ paths : List String, (paths.map literal).map literal = paths.map literal := by
    intro paths
    refine map_literal (List.forall_mem_map.mpr fun path _ => bare_literal path)
  constructor
  · rintro ⟨boundary, captured, _, snapshot⟩
    obtain ⟨place, only⟩ := exists_place checkout.tree root
    rw [captureWorkspaceScope, here] at captured
    obtain ⟨_, same, captured⟩ := bind_ok_iff.mp captured
    obtain rfl := Except.ok.inj same
    obtain ⟨_, normalFiles, captured⟩ := bind_ok_iff.mp captured
    obtain ⟨_, normalRoots, captured⟩ := bind_ok_iff.mp captured
    obtain ⟨files, rfl⟩ := normalizeScopePaths_ok_iff.mp normalFiles
    obtain ⟨roots, rfl⟩ := normalizeScopePaths_ok_iff.mp normalRoots
    obtain ⟨_, expandsFiles, captured⟩ := bind_ok_iff.mp captured
    obtain ⟨_, expandsRoots, captured⟩ := bind_ok_iff.mp captured
    obtain ⟨leadsFiles, rfl⟩ := (expandScopePaths_ok_iff rooted (names _ files) fun path _ => only path).mp expandsFiles
    obtain ⟨leadsRoots, rfl⟩ := (expandScopePaths_ok_iff rooted (names _ roots) fun path _ => only path).mp expandsRoots
    rw [List.forall_mem_map] at leadsFiles leadsRoots
    have formedFiles := formed_origins rooted files leadsFiles
    have formedRoots := formed_origins rooted roots leadsRoots
    obtain ⟨_, _, ⟨filesOnce, rootsOnce⟩, few, rfl⟩ := (validate_boundaryOf_iff formedFiles formedRoots
      ((twice _).trans origins_literal.symm) ((twice _).trans origins_literal.symm) here).mp captured
    obtain ⟨_, spelledFiles, spelledRoots⟩ :=
      (snapshot_boundaryOf_iff formedFiles formedRoots short_origins short_origins _).mp snapshot
    rw [origins_literal] at filesOnce rootsOnce
    exact ⟨place, List.forall_mem_append.mpr ⟨files, roots⟩, filesOnce, rootsOnce, List.forall_mem_append.mpr ⟨leadsFiles, leadsRoots⟩,
      List.forall_mem_append.mpr ⟨forall_origins_iff.mp spelledFiles, forall_origins_iff.mp spelledRoots⟩,
      (size_origins scope).symm.trans_le few⟩
  · rintro ⟨place, declared, filesOnce, rootsOnce, leads, spelled, few⟩
    obtain ⟨files, roots⟩ := List.forall_mem_append.mp declared
    obtain ⟨leadsFiles, leadsRoots⟩ := List.forall_mem_append.mp leads
    obtain ⟨spelledFiles, spelledRoots⟩ := List.forall_mem_append.mp spelled
    have formedFiles := formed_origins rooted files leadsFiles
    have formedRoots := formed_origins rooted roots leadsRoots
    have small : (boundaryOf checkout.tree root (origins place scope.files) (origins place scope.roots)).size ≤ snapshotEntries :=
      (size_origins scope).trans_le few
    have held : ∀ {paths : List String}, (∀ path ∈ paths, ∀ other ∈ spellings (place (literal path)) (literal path), isSnapshotPath other = true) →
        ∀ origin ∈ origins place paths, Held origin := fun each =>
      forall_origins_iff.mpr fun path member other spelling => (isScopePath_of_snapshot (each path member other spelling)).1
    have nodup : ((origins place scope.files).map (·.literal)).Nodup ∧ ((origins place scope.roots).map (·.literal)).Nodup := by
      rw [origins_literal, origins_literal]
      exact ⟨filesOnce, rootsOnce⟩
    have literals : ∀ {paths : List String}, (∀ path ∈ paths, ∀ other ∈ spellings (place (literal path)) (literal path), isSnapshotPath other = true) →
        ∀ path ∈ paths.map literal, IsScopePath path := fun each =>
      List.forall_mem_map.mpr fun path member => (isScopePath_of_snapshot (each path member _ (mem_spellings _ _))).1
    refine ⟨boundaryOf checkout.tree root (origins place scope.files) (origins place scope.roots), ?_, ?_, ?_⟩
    · rw [captureWorkspaceScope, here]
      refine bind_ok_iff.mpr ⟨_, rfl, bind_ok_iff.mpr ⟨_, normalizeScopePaths_ok_iff.mpr ⟨files, rfl⟩,
        bind_ok_iff.mpr ⟨_, normalizeScopePaths_ok_iff.mpr ⟨roots, rfl⟩, ?_⟩⟩⟩
      have only : ∀ {paths : List String}, (∀ path ∈ paths, LeadsTo checkout.tree root (literal path) (place (literal path))) →
          ∀ path ∈ paths.map literal, ∀ other, LeadsTo checkout.tree root path other → place path = other := fun each =>
        List.forall_mem_map.mpr fun path member other => LeadsTo.unique (each path member)
      refine bind_ok_iff.mpr ⟨_, (expandScopePaths_ok_iff rooted (names _ files) (only leadsFiles)).mpr
          ⟨List.forall_mem_map.mpr leadsFiles, rfl⟩,
        bind_ok_iff.mpr ⟨_, (expandScopePaths_ok_iff rooted (names _ roots) (only leadsRoots)).mpr
          ⟨List.forall_mem_map.mpr leadsRoots, rfl⟩, ?_⟩⟩
      exact (validate_boundaryOf_iff formedFiles formedRoots ((twice _).trans origins_literal.symm)
        ((twice _).trans origins_literal.symm) here).mpr
        ⟨⟨literals spelledFiles, literals spelledRoots⟩, ⟨held spelledFiles, held spelledRoots⟩, nodup, small, rfl⟩
    · intro other at_ available
      exact (validate_boundaryOf_iff formedFiles formedRoots origins_literal.symm origins_literal.symm available).mpr
        ⟨⟨files, roots⟩, ⟨held spelledFiles, held spelledRoots⟩, nodup, small, rfl⟩
    · exact (snapshot_boundaryOf_iff formedFiles formedRoots short_origins short_origins _).mpr
        ⟨small, forall_origins_iff.mpr spelledFiles, forall_origins_iff.mpr spelledRoots⟩

end Capture

/-! ## A source file declared twice -/

/-- The places of a workspace with one source file. -/
def sourcePlaces : List (List Name) :=
  [[], ["work".toList], ["work".toList, "src".toList], ["work".toList, "src".toList, "a.mjs".toList]]

def sourceTree : FileTree where
  realpath path := if path ∈ sourcePlaces then .ok path else .error "ENOENT"
  lstat path := if path ∈ sourcePlaces then .ok () else .error "ENOENT"
  stat path :=
    if path = ["work".toList, "src".toList, "a.mjs".toList] then .ok .file
    else if path ∈ sourcePlaces then .ok .directory else .error "ENOENT"
  proper := by
    have each : ∀ path ∈ sourcePlaces, ∀ name ∈ path, Proper name := by decide
    intro path target found
    split at found
    · rename_i listed
      cases found
      exact each path listed
    · cases found

def sourceCheckout : Checkout := ⟨sourceTree, ["work".toList]⟩

/-- A packet that writes some files. -/
def sourcePacket (writeFiles : List String) : TaskPacket where
  mode := .execution
  objective := "Change the source"
  instructions := ["Change it"]
  readFiles := some ["src/a.mjs"]
  symbols := []
  scopeAcknowledged := none
  decisions := []
  nonGoals := []
  writeFiles := some writeFiles
  writeRoots := none
  verification := []

private theorem leads_source : LeadsTo sourceTree ["work".toList] "src/a.mjs" ["src".toList, "a.mjs".toList] := by
  refine @Leads.link _ _ _ _ _ ["src".toList] _ rfl ?_ (@Leads.link _ _ _ _ _ ["src".toList, "a.mjs".toList] _ rfl ?_ (.here _))
  · rintro first ⟨⟩
    decide
  · rintro first ⟨⟩
    decide

theorem captureWorkspaceScope_persists_source :
    (TaskPacket.validateTaskPacket ⟨sourceTree, ["work".toList], false, false⟩ (sourcePacket ["src/a.mjs"]) 0 = .ok []) ∧
      ∃ boundary, Persists sourceCheckout (workerScope (sourcePacket ["src/a.mjs"])) boundary := by
  refine ⟨rfl, (@captureWorkspaceScope_persists_iff ["work".toList] sourceCheckout rfl _).mpr ⟨fun _ => ["src".toList, "a.mjs".toList], ?_⟩⟩
  have same : literal "src/a.mjs" = "src/a.mjs" := by decide
  refine ⟨List.forall_mem_singleton.mpr ⟨by decide, by decide, by decide, by decide, by decide, by decide⟩, by decide, by decide,
    List.forall_mem_singleton.mpr (same.symm ▸ leads_source), by decide, by decide⟩

/-- A packet that names a file twice is accepted, and its scope is not captured. -/
theorem captureWorkspaceScope_twice :
    TaskPacket.validateTaskPacket ⟨sourceTree, ["work".toList], false, false⟩ (sourcePacket ["src/a.mjs", "src/a.mjs"]) 0 = .ok [] ∧
      (∀ path ∈ (workerScope (sourcePacket ["src/a.mjs", "src/a.mjs"])).files,
        LeadsTo sourceTree ["work".toList] path ["src".toList, "a.mjs".toList]) ∧
      captureWorkspaceScope sourceCheckout (workerScope (sourcePacket ["src/a.mjs", "src/a.mjs"])) =
        .error ⟨some "scope_boundary_inconsistent", "persisted file scope origins do not match the declared scope"⟩ := by
  refine ⟨rfl, ?_, rfl⟩
  intro path member
  obtain rfl : path = "src/a.mjs" := by simpa [workerScope, sourcePacket] using member
  exact leads_source

end Faberun.Workspace
