import Faberun.Machine.FirstByKey
import Faberun.Model.Repo.Workspace

/-! # Spellings of a declared path

Normalizing a declared path cuts its trailing slashes and leaves the rest as it is written. A path the snapshot takes
normalizes to itself. Where a path leads is decided link by link; what does not exist is taken as it is spelled.
-/

namespace Faberun.Workspace

open PosixPath

/-! ## Normal spellings -/

/-- A declared path without its trailing slashes. -/
def literal (path : String) : String := String.ofList (withoutTrailing path.toList)

/-- A path that a declared scope may hold, as it is written. -/
structure IsScopePath (path : String) : Prop where
  relative : isAbsolute path.toList = false
  drive : hasDrive path.toList = false
  parent : hasParent path.toList = false
  some : literal path ≠ ""
  below : literal path ≠ "."
  bytes : byteLength (literal path) ≤ snapshotPathBytes

/-- A path without a trailing slash. -/
def Bare (path : String) : Prop := path.toList.getLast? ≠ some '/'

private theorem ofList_eq_iff {text : List Char} {other : String} : String.ofList text = other ↔ text = other.toList := by
  constructor
  · rintro rfl
    exact String.toList_ofList.symm
  · rintro rfl
    exact String.ofList_toList

theorem bare_literal (path : String) : Bare (literal path) := by
  rw [Bare, literal, String.toList_ofList]
  intro last
  have some : withoutTrailing path.toList ≠ [] := by
    intro empty
    rw [empty] at last
    cases last
  refine List.rdropWhile_last_not (· == '/') path.toList some ?_
  rw [List.getLast?_eq_some_getLast some, Option.some_inj] at last
  exact beq_iff_eq.mpr last

theorem literal_of_bare {path : String} (bare : Bare path) : literal path = path := by
  have whole : withoutTrailing path.toList = path.toList := by
    refine List.rdropWhile_eq_self_iff.mpr fun some slash => bare ?_
    rw [List.getLast?_eq_some_getLast some, beq_iff_eq.mp slash]
  rw [literal, whole, String.ofList_toList]

theorem normalizeScopePath_ok_iff {label path out : String} :
    normalizeScopePath label path = .ok out ↔ IsScopePath path ∧ literal path = out := by
  unfold normalizeScopePath
  split
  · rename_i refused
    refine iff_of_false (fun success => nomatch success) ?_
    rintro ⟨⟨relative, drive, parent, nonempty, _, _⟩, _⟩
    rcases refused with empty | absolute | driven | above
    · refine nonempty ?_
      rw [literal, empty]
      rfl
    · exact Bool.false_ne_true (relative.symm.trans absolute)
    · exact Bool.false_ne_true (drive.symm.trans driven)
    · exact Bool.false_ne_true (parent.symm.trans above)
  · rename_i allowed
    simp only [not_or, Bool.not_eq_true] at allowed
    obtain ⟨_, relative, drive, parent⟩ := allowed
    dsimp only
    split
    · rename_i refused
      refine iff_of_false (fun success => nomatch success) ?_
      rintro ⟨⟨_, _, _, nonempty, below, _⟩, _⟩
      rcases refused with empty | here
      · exact nonempty (ofList_eq_iff.mpr empty)
      · exact below (ofList_eq_iff.mpr here)
    · rename_i named
      obtain ⟨nonempty, below⟩ := not_or.mp named
      split
      · rename_i long
        refine iff_of_false (fun success => nomatch success) ?_
        rintro ⟨⟨_, _, _, _, _, bytes⟩, _⟩
        exact Nat.not_lt_of_le bytes long
      · rename_i short
        rw [Except.ok.injEq]
        refine ⟨fun same => ⟨⟨relative, drive, parent, fun empty => nonempty (ofList_eq_iff.mp empty),
          fun here => below (ofList_eq_iff.mp here), Nat.le_of_not_lt short⟩, same⟩, And.right⟩

theorem normalizeScopePaths_ok_iff {label : String} {paths out : List String} :
    normalizeScopePaths label paths = .ok out ↔ (∀ path ∈ paths, IsScopePath path) ∧ paths.map literal = out := by
  induction paths generalizing out with
  | nil => simp [normalizeScopePaths, eq_comm]
  | cons path rest ih =>
    rw [normalizeScopePaths, bind_ok_iff, List.forall_mem_cons, List.map_cons]
    constructor
    · rintro ⟨first, here, success⟩
      obtain ⟨others, later, success⟩ := bind_ok_iff.mp success
      obtain ⟨path, rfl⟩ := normalizeScopePath_ok_iff.mp here
      obtain ⟨each, rfl⟩ := ih.mp later
      exact ⟨⟨path, each⟩, Except.ok.inj success⟩
    · rintro ⟨⟨path, each⟩, rfl⟩
      exact ⟨_, normalizeScopePath_ok_iff.mpr ⟨path, rfl⟩, bind_ok_iff.mpr ⟨_, ih.mpr ⟨each, rfl⟩, rfl⟩⟩

/-- Bare paths are normalized to themselves. -/
theorem map_literal {paths : List String} (bare : ∀ path ∈ paths, Bare path) : paths.map literal = paths :=
  (List.map_congr_left fun path member => literal_of_bare (bare path member)).trans (List.map_id _)

/-! ## Paths of a snapshot -/

private theorem splitOnP_refine {α : Type} {p q : α → Bool} (finer : ∀ a, p a = true → q a = true) (text : List α) :
    text.splitOnP q = (text.splitOnP p).flatMap (List.splitOnP q) := by
  induction text with
  | nil => rfl
  | cons a rest ih =>
    obtain ⟨head, tail, parts⟩ := List.exists_cons_of_ne_nil (List.splitOnP_ne_nil p rest)
    obtain ⟨first, more, inner⟩ := List.exists_cons_of_ne_nil (List.splitOnP_ne_nil q head)
    rw [List.splitOnP_cons_eq_if_modifyHead, List.splitOnP_cons_eq_if_modifyHead, ih]
    split
    · rename_i breaks
      split
      · rw [List.flatMap_cons, List.splitOnP_nil, List.singleton_append]
      · rw [parts, List.modifyHead_cons, List.flatMap_cons, List.flatMap_cons, List.splitOnP_cons_eq_if_modifyHead, if_pos breaks,
          List.cons_append]
    · rename_i whole
      rw [if_neg fun breaks => whole (finer a breaks), parts, List.modifyHead_cons, List.flatMap_cons, List.flatMap_cons,
        List.splitOnP_cons_eq_if_modifyHead, if_neg whole, inner, List.cons_append, List.modifyHead_cons, List.modifyHead_cons,
        List.cons_append]

private theorem hasParent_of_hasAnyParent {path : List Char} (none : hasAnyParent path = false) : hasParent path = false := by
  by_contra some
  have above : dotDot ∈ path.splitOnP (· == '/') := by simpa [hasParent] using some
  have kept : dotDot ∈ path.splitOnP fun c => c == '/' || c == '\\' := by
    rw [splitOnP_refine (p := (· == '/')) (fun c slash => by rw [slash]; rfl)]
    exact List.mem_flatMap.mpr ⟨dotDot, above, by decide⟩
  rw [hasAnyParent, List.contains_eq_mem, decide_eq_false_iff_not] at none
  exact none kept

private theorem isSnapshotPath_iff {path : String} : isSnapshotPath path = true ↔
    (path.toList ≠ [] ∧ path.toList ≠ dot ∧ path.toList.getLast? ≠ some '/' ∧ path.toList.getLast? ≠ some '\\') ∧
      isAbsolute path.toList = false ∧ hasDrive path.toList = false ∧ hasAnyParent path.toList = false ∧
        byteLength path ≤ snapshotPathBytes := by
  simp only [isSnapshotPath, Bool.and_eq_true, decide_eq_true_eq, Bool.not_eq_true', and_assoc]

/-- A path the snapshot takes is normalized to itself. -/
theorem isScopePath_of_snapshot {path : String} (snapshot : isSnapshotPath path = true) : IsScopePath path ∧ literal path = path := by
  obtain ⟨⟨nonempty, below, slash, _⟩, relative, drive, parent, bytes⟩ := isSnapshotPath_iff.mp snapshot
  have same := literal_of_bare slash
  refine ⟨⟨relative, drive, hasParent_of_hasAnyParent parent, ?_, ?_, same.symm ▸ bytes⟩, same⟩
  · rintro empty
    rw [same] at empty
    exact nonempty (by rw [empty]; rfl)
  · rintro here
    rw [same] at here
    exact below (by rw [here]; rfl)

/-! ## Where a path leads -/

/-- The way from a place along some names. An existing one leads below the root, to a place whose first name does not begin
with two dots; what does not exist stands as it is spelled. -/
inductive Leads (tree : FileTree) (root : List Name) : List Name → List Name → List Name → Prop
  | here (current : List Name) : Leads tree root current [] current
  | link {current rest final place : List Name} {name : Name} : tree.realpath (current ++ [name]) = .ok (root ++ place) →
      (∀ first ∈ place.head?, ¬ dotDot <+: first) → Leads tree root (root ++ place) rest final →
      Leads tree root current (name :: rest) final
  | absent {current rest : List Name} {name : Name} : tree.realpath (current ++ [name]) = .error "ENOENT" →
      Leads tree root current (name :: rest) (current ++ name :: rest)

section Leads

variable {tree : FileTree} {root current names final : List Name}

theorem Leads.unique (leads : Leads tree root current names final) {other : List Name} (leadsOther : Leads tree root current names other) :
    final = other := by
  induction leads with
  | here =>
    cases leadsOther
    rfl
  | link exists' _ _ ih =>
    cases leadsOther with
    | link existsOther _ further =>
      have same := List.append_cancel_left (Except.ok.inj (exists'.symm.trans existsOther))
      exact ih (same ▸ further)
    | absent missing => exact nomatch exists'.symm.trans missing
  | absent missing =>
    cases leadsOther with
    | link existsOther _ _ => exact nomatch missing.symm.trans existsOther
    | absent => rfl

/-- From below the root a path leads below the root. -/
private theorem Leads.stays (leads : Leads tree root current names final) {from_ : List Name} (start : current = root ++ from_) :
    ∃ place, final = root ++ place := by
  induction leads generalizing from_ with
  | here => exact ⟨from_, start⟩
  | link _ _ _ ih => exact ih rfl
  | absent _ => exact ⟨_, by rw [start, List.append_assoc]⟩

private theorem Leads.proper (leads : Leads tree root current names final) (start : ∀ name ∈ current, Proper name)
    (each : ∀ name ∈ names, Proper name) : ∀ name ∈ final, Proper name := by
  induction leads with
  | here => exact start
  | link target _ _ ih => exact ih (tree.proper target) (List.forall_mem_cons.mp each).2
  | absent _ => exact fun name member => (List.mem_append.mp member).elim (start name) (each name)

private theorem foldl_resolve (each : ∀ name ∈ names, Proper name) (current : List Name) :
    names.foldl (fun current name => resolve current name) current = current ++ names := by
  induction names generalizing current with
  | nil => exact (List.append_nil _).symm
  | cons name rest ih =>
    obtain ⟨first, others⟩ := List.forall_mem_cons.mp each
    rw [List.foldl_cons, resolve_name first, ih others, List.append_assoc, List.singleton_append]

private theorem walkScope_ok_iff (each : ∀ name ∈ names, Proper name) (path : String) :
    walkScope tree root path current names = .ok final ↔ Leads tree root current names final := by
  induction names generalizing current with
  | nil =>
    rw [walkScope, Except.ok.injEq]
    constructor
    · rintro rfl
      exact .here _
    · rintro ⟨⟩
      rfl
  | cons name rest ih =>
    obtain ⟨first, others⟩ := List.forall_mem_cons.mp each
    rw [walkScope, resolve_name first]
    constructor
    · intro success
      split at success
      · rename_i target found
        split at success
        · rename_i inside
          obtain ⟨place, rfl, inner⟩ := (isContained_iff (tree.proper found)).mp inside
          exact .link found inner ((ih others).mp success)
        · cases success
      · cases success
      · rename_i missing
        cases success
        rw [List.foldl_cons, resolve_name first, foldl_resolve others, List.append_assoc, List.singleton_append]
        exact .absent missing
      · cases success
    · intro leads
      cases leads with
      | link found inner further =>
        rw [found]
        dsimp only
        rw [(isContained_iff (tree.proper found)).mpr ⟨_, rfl, inner⟩, if_pos rfl]
        exact (ih others).mpr further
      | absent missing =>
        rw [missing, List.foldl_cons, resolve_name first, foldl_resolve others, List.append_assoc, List.singleton_append]
        rfl

end Leads

/-- The names of a declared path are in normal form. -/
theorem proper_components {path : String} (declared : IsScopePath path) :
    ∀ name ∈ workspacePathComponents (literal path).toList, Proper name := by
  intro name member
  obtain ⟨listed, here⟩ := List.mem_filter.mp member
  obtain ⟨some, whole⟩ := segment_of_mem listed
  refine ⟨some, whole, of_decide_eq_true here, ?_⟩
  rintro rfl
  have inside : dotDot ∈ (withoutTrailing path.toList).splitOnP (· == '/') := by
    rw [literal, String.toList_ofList] at listed
    exact (List.mem_filter.mp listed).1
  have parent := declared.parent
  rw [hasParent, List.contains_eq_mem, decide_eq_false_iff_not] at parent
  refine parent ?_
  have whole : withoutTrailing path.toList ++ path.toList.rtakeWhile (· == '/') = path.toList := List.rdropWhile_append_rtakeWhile ..
  rw [← whole]
  cases trailing : path.toList.rtakeWhile (· == '/') with
  | nil =>
    rw [List.append_nil]
    exact inside
  | cons c slashes =>
    have slash : (c == '/') = true := List.mem_rtakeWhile_imp (p := (· == '/')) (trailing ▸ List.mem_cons_self)
    rw [List.splitOnP_append_cons (p := (· == '/')) _ _ slash]
    exact List.mem_append_left _ inside

/-! ## The spellings of a path -/

/-- How a place in the workspace is spelled; the workspace itself keeps the declared path. -/
def spelling (place : List Name) (path : String) : String := if place = [] then path else String.ofList (join place)

/-- The spellings a declared path stands for: itself, and the place it leads to. -/
def spellings (place : List Name) (path : String) : List String :=
  if spelling place path = path then [path] else [path, spelling place path]

theorem mem_spellings (place : List Name) (path : String) : path ∈ spellings place path := by
  unfold spellings
  split <;> exact List.mem_cons_self

theorem nodup_spellings (place : List Name) (path : String) : (spellings place path).Nodup := by
  unfold spellings
  split
  · exact List.nodup_singleton _
  · rename_i other
    exact List.nodup_cons.mpr ⟨fun member => other (List.mem_singleton.mp member).symm, List.nodup_singleton _⟩

theorem length_spellings (place : List Name) (path : String) : (spellings place path).length ≤ 2 := by
  unfold spellings
  split <;> simp

section Expand

variable {tree : FileTree} {root : List Name}

/-- Where a declared path leads. -/
def LeadsTo (tree : FileTree) (root : List Name) (path : String) (place : List Name) : Prop :=
  Leads tree root root (workspacePathComponents path.toList) (root ++ place)

private theorem proper_place {path : String} {place : List Name} (rooted : ∀ name ∈ root, Proper name)
    (each : ∀ name ∈ workspacePathComponents path.toList, Proper name) (leads : LeadsTo tree root path place) :
    ∀ name ∈ place, Proper name :=
  fun name member => leads.proper rooted each name (List.mem_append_right _ member)

private theorem resolveScopePath_ok_iff {path out : String} (rooted : ∀ name ∈ root, Proper name)
    (each : ∀ name ∈ workspacePathComponents path.toList, Proper name) :
    resolveScopePath tree root path = .ok out ↔ ∃ place, LeadsTo tree root path place ∧ spelling place path = out := by
  rw [resolveScopePath, bind_ok_iff]
  have spelled : ∀ place, LeadsTo tree root path place →
      (if relative root (root ++ place) = [] then path else String.ofList (relative root (root ++ place))) = spelling place path := by
    intro place leads
    simp only [relative, way_append, join_eq_nil_iff (proper_place rooted each leads), spelling]
  constructor
  · rintro ⟨current, walked, success⟩
    have leads := (walkScope_ok_iff each path).mp walked
    obtain ⟨place, rfl⟩ := leads.stays (List.append_nil root).symm
    exact ⟨place, leads, (spelled place leads).symm.trans (Except.ok.inj success)⟩
  · rintro ⟨place, leads, rfl⟩
    exact ⟨_, (walkScope_ok_iff each path).mpr leads, congrArg Except.ok (spelled place leads)⟩

/-- The origin of a path that leads to a place. -/
def originOf (place : List Name) (path : String) : WorkspaceScopeOrigin := ⟨path, spellings place path⟩

private theorem expandScopePath_ok_iff {path : String} {origin : WorkspaceScopeOrigin} (rooted : ∀ name ∈ root, Proper name)
    (each : ∀ name ∈ workspacePathComponents path.toList, Proper name) :
    expandScopePath tree root path = .ok origin ↔ ∃ place, LeadsTo tree root path place ∧ originOf place path = origin := by
  have expanded : ∀ place, (if spelling place path = path then [path] else [path, spelling place path].eraseDups) = spellings place path := by
    intro place
    unfold spellings
    split
    · rfl
    · rename_i other
      refine FirstByKey.eraseDups_of_nodup (List.nodup_cons.mpr ⟨fun member => other (List.mem_singleton.mp member).symm, List.nodup_singleton _⟩)
  rw [expandScopePath, bind_ok_iff]
  constructor
  · rintro ⟨out, resolved, success⟩
    obtain ⟨place, leads, rfl⟩ := (resolveScopePath_ok_iff rooted each).mp resolved
    rw [expanded] at success
    exact ⟨place, leads, Except.ok.inj success⟩
  · rintro ⟨place, leads, rfl⟩
    refine ⟨_, (resolveScopePath_ok_iff rooted each).mpr ⟨place, leads, rfl⟩, ?_⟩
    rw [expanded]
    rfl

/-- Paths are expanded when each of them leads somewhere. -/
theorem expandScopePaths_ok_iff {place : String → List Name} (rooted : ∀ name ∈ root, Proper name) {paths : List String}
    (each : ∀ path ∈ paths, ∀ name ∈ workspacePathComponents path.toList, Proper name)
    (only : ∀ path ∈ paths, ∀ other, LeadsTo tree root path other → place path = other) {origins : List WorkspaceScopeOrigin} :
    expandScopePaths tree root paths = .ok origins ↔
      (∀ path ∈ paths, LeadsTo tree root path (place path)) ∧ paths.map (fun path => originOf (place path) path) = origins := by
  induction paths generalizing origins with
  | nil => simp [expandScopePaths]
  | cons path rest ih =>
    obtain ⟨here, later⟩ := List.forall_mem_cons.mp each
    obtain ⟨onlyHere, onlyLater⟩ := List.forall_mem_cons.mp only
    rw [expandScopePaths, bind_ok_iff, List.forall_mem_cons, List.map_cons]
    constructor
    · rintro ⟨first, expands, success⟩
      obtain ⟨others, more, success⟩ := bind_ok_iff.mp success
      obtain ⟨found, leads, rfl⟩ := (expandScopePath_ok_iff rooted here).mp expands
      obtain ⟨leadsRest, rfl⟩ := (ih later onlyLater).mp more
      obtain rfl := onlyHere found leads
      exact ⟨⟨leads, leadsRest⟩, Except.ok.inj success⟩
    · rintro ⟨⟨leads, leadsRest⟩, rfl⟩
      exact ⟨_, (expandScopePath_ok_iff rooted here).mpr ⟨_, leads, rfl⟩,
        bind_ok_iff.mpr ⟨_, (ih later onlyLater).mpr ⟨leadsRest, rfl⟩, rfl⟩⟩

/-- The spellings of a declared path have no trailing slash. -/
theorem bare_spellings {path : String} {place : List Name} (rooted : ∀ name ∈ root, Proper name) (bare : Bare path)
    (each : ∀ name ∈ workspacePathComponents path.toList, Proper name) (leads : LeadsTo tree root path place) :
    ∀ spelled ∈ spellings place path, Bare spelled := by
  have place' := proper_place rooted each leads
  have spelled : Bare (spelling place path) := by
    unfold spelling
    split
    · exact bare
    · rw [Bare, String.toList_ofList]
      exact getLast?_join fun name member => ⟨(place' name member).some, (place' name member).whole⟩
  unfold spellings
  split
  · exact List.forall_mem_singleton.mpr bare
  · exact List.forall_mem_cons.mpr ⟨bare, List.forall_mem_singleton.mpr spelled⟩

end Expand

end Faberun.Workspace
