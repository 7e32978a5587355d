import Mathlib.Data.List.Infix

/-! # POSIX paths

An absolute path in normal form is the list of its names; a path as text is read segment by segment. `resolve` and
`relative` are those of Node's `path` on a POSIX host, and below a root one undoes the other.
-/

namespace Faberun.PosixPath

abbrev Name := List Char

/-- The segments of a path that are not empty. -/
def segments (path : List Char) : List Name := (path.splitOnP (· == '/')).filter (· ≠ [])

def dot : Name := ['.']

def dotDot : Name := ['.', '.']

/-- Where a segment leads. -/
def enter (place : List Name) (segment : Name) : List Name :=
  if segment = dot then place else if segment = dotDot then place.dropLast else place ++ [segment]

def isAbsolute (path : List Char) : Bool := path.head? == some '/'

/-- `path.resolve(base, path)`, of an absolute base. -/
def resolve (base : List Name) (path : List Char) : List Name :=
  (segments path).foldl enter (if isAbsolute path then [] else base)

def join (names : List Name) : List Char := ['/'].intercalate names

/-- The way between two absolute paths. -/
def way : List Name → List Name → List Name
  | [], target => target
  | root, [] => root.map fun _ => dotDot
  | first :: root, name :: target =>
    if first = name then way root target else (first :: root).map (fun _ => dotDot) ++ name :: target

/-- `path.relative(root, target)`. -/
def relative (root target : List Name) : List Char := join (way root target)

example : resolve ["work".toList] "./src//../test/a.mjs".toList = ["work".toList, "test".toList, "a.mjs".toList] := by decide

/-! ## Names -/

/-- A name of a path in normal form. -/
structure Proper (name : Name) : Prop where
  some : name ≠ []
  whole : '/' ∉ name
  here : name ≠ dot
  above : name ≠ dotDot

instance (name : Name) : Decidable (Proper name) :=
  decidable_of_iff (name ≠ [] ∧ '/' ∉ name ∧ name ≠ dot ∧ name ≠ dotDot)
    ⟨fun proper => ⟨proper.1, proper.2.1, proper.2.2.1, proper.2.2.2⟩,
      fun proper => ⟨proper.some, proper.whole, proper.here, proper.above⟩⟩

theorem segment_of_mem {path : List Char} {segment : Name} (member : segment ∈ segments path) :
    segment ≠ [] ∧ '/' ∉ segment := by
  obtain ⟨split, some⟩ := List.mem_filter.mp member
  refine ⟨of_decide_eq_true some, fun slash => ?_⟩
  clear some member
  induction path generalizing segment with
  | nil =>
    rw [List.splitOnP_nil, List.mem_singleton] at split
    rw [split] at slash
    cases slash
  | cons c rest ih =>
    rw [List.splitOnP_cons_eq_if_modifyHead] at split
    split at split
    · rcases List.mem_cons.mp split with rfl | split
      · cases slash
      · exact ih split slash
    · rename_i other
      obtain ⟨head, tail, parts⟩ := List.exists_cons_of_ne_nil (List.splitOnP_ne_nil (· == '/') rest)
      rw [parts, List.modifyHead_cons] at split
      rcases List.mem_cons.mp split with rfl | split
      · rcases List.mem_cons.mp slash with same | slash
        · rw [← same] at other
          exact other rfl
        · exact ih (parts ▸ List.mem_cons_self) slash
      · exact ih (parts ▸ List.mem_cons_of_mem _ split) slash

/-- What a path resolves to is in normal form when its base is. -/
theorem proper_resolve {base : List Name} (proper : ∀ name ∈ base, Proper name) (path : List Char) :
    ∀ name ∈ resolve base path, Proper name := by
  have walked : ∀ (names : List Name), (∀ segment ∈ names, segment ≠ [] ∧ '/' ∉ segment) → ∀ place : List Name,
      (∀ name ∈ place, Proper name) → ∀ name ∈ names.foldl enter place, Proper name := by
    intro names each
    induction names with
    | nil => exact fun _ proper => proper
    | cons segment rest ih =>
      intro place proper
      obtain ⟨⟨some, whole⟩, others⟩ := List.forall_mem_cons.mp each
      refine ih others _ ?_
      unfold enter
      split
      · exact proper
      · rename_i here
        split
        · exact fun name member => proper name (List.mem_of_mem_dropLast member)
        · rename_i above
          intro name member
          rcases List.mem_append.mp member with member | member
          · exact proper name member
          · exact List.mem_singleton.mp member ▸ ⟨some, whole, here, above⟩
  refine walked _ (fun _ => segment_of_mem) _ ?_
  split
  · nofun
  · exact proper

/-! ## The way below a root -/

/-- Below a root the way is the rest of the path. -/
theorem way_append (root names : List Name) : way root (root ++ names) = names := by
  induction root with
  | nil => rw [way, List.nil_append]
  | cons first root ih => rw [List.cons_append, way, if_pos rfl, ih]

/-- Elsewhere the way starts above the root. -/
theorem way_cases (root target : List Name) : (∃ names, target = root ++ names) ∨ ∃ rest, way root target = dotDot :: rest := by
  induction root generalizing target with
  | nil => exact .inl ⟨target, rfl⟩
  | cons first root ih =>
    cases target with
    | nil => exact .inr ⟨_, rfl⟩
    | cons name target =>
      rw [way]
      split
      · rename_i same
        subst same
        rcases ih target with ⟨names, rfl⟩ | further
        · exact .inl ⟨names, rfl⟩
        · exact .inr further
      · exact .inr ⟨_, rfl⟩

theorem join_cons_cons (name next : Name) (names : List Name) :
    join (name :: next :: names) = name ++ '/' :: join (next :: names) := by
  simp [join, List.intercalate, List.intersperse]

theorem join_cons (name : Name) (names : List Name) :
    join (name :: names) = name ++ (names.map fun name => '/' :: name).flatten := by
  induction names generalizing name with
  | nil => simp [join]
  | cons next names ih => rw [join_cons_cons, ih, List.map_cons, List.flatten_cons, List.cons_append]

/-- A joined path has no trailing slash. -/
theorem getLast?_join {names : List Name} (each : ∀ name ∈ names, name ≠ [] ∧ '/' ∉ name) : (join names).getLast? ≠ some '/' := by
  induction names with
  | nil => exact nofun
  | cons name names ih =>
    obtain ⟨⟨some, whole⟩, others⟩ := List.forall_mem_cons.mp each
    cases names with
    | nil =>
      rw [join_cons, List.map_nil, List.flatten_nil, List.append_nil]
      exact fun last => whole (List.mem_of_getLast? last)
    | cons next names =>
      have more : join (next :: names) ≠ [] := by
        rw [join_cons]
        exact List.append_ne_nil_of_left_ne_nil (List.forall_mem_cons.mp others).1.1 _
      rw [join_cons_cons, List.getLast?_append_of_ne_nil _ (List.cons_ne_nil _ _), List.getLast?_cons_of_ne_nil more]
      exact ih others

/-- A name leads one place down. -/
theorem resolve_name {name : Name} (proper : Proper name) (base : List Name) : resolve base name = base ++ [name] := by
  obtain ⟨some, whole, here, above⟩ := proper
  have apart : ∀ c ∈ name, (c == '/') = false := fun c member => beq_eq_false_iff_ne.mpr fun slash => whole (slash ▸ member)
  have alone : segments name = [name] := by
    rw [segments, List.splitOnP_eq_singleton apart]
    simp [some]
  have relative : isAbsolute name = false := by
    obtain ⟨c, rest, rfl⟩ := List.exists_cons_of_ne_nil some
    rw [isAbsolute, List.head?_cons, beq_eq_false_iff_ne]
    rintro ⟨⟩
    exact whole List.mem_cons_self
  rw [resolve, alone, relative, if_neg Bool.false_ne_true, List.foldl_cons, List.foldl_nil, enter, if_neg here, if_neg above]

theorem join_eq_nil_iff {names : List Name} (proper : ∀ name ∈ names, Proper name) : join names = [] ↔ names = [] := by
  cases names with
  | nil => exact iff_of_true rfl rfl
  | cons name names =>
    rw [join_cons, List.append_eq_nil_iff]
    exact iff_of_false (fun empty => (proper name List.mem_cons_self).some empty.1) (List.cons_ne_nil _ _)

/-- Where a joined path begins is decided by its first name. -/
theorem prefix_join_iff {marker name : Name} (whole : '/' ∉ marker) (names : List Name) :
    marker <+: join (name :: names) ↔ marker <+: name := by
  rw [join_cons]
  constructor
  · intro first
    rcases List.prefix_or_prefix_of_prefix first (List.prefix_append name _) with inside | ⟨more, same⟩
    · exact inside
    · cases more with
      | nil => exact ⟨[], by rw [← same, List.append_nil, List.append_nil]⟩
      | cons c more =>
        rw [← same, List.prefix_append_right_inj] at first
        cases names with
        | nil => exact absurd (List.prefix_nil.mp first) (List.cons_ne_nil _ _)
        | cons next names =>
          rw [List.map_cons, List.flatten_cons, List.cons_append, List.cons_prefix_cons] at first
          refine absurd ?_ whole
          rw [← same, first.1]
          exact List.mem_append_right _ List.mem_cons_self
  · exact fun first => first.trans (List.prefix_append _ _)

theorem isAbsolute_join {names : List Name} (proper : ∀ name ∈ names, Proper name) : isAbsolute (join names) = false := by
  cases names with
  | nil => rfl
  | cons name names =>
    obtain ⟨some, whole, _, _⟩ := proper name List.mem_cons_self
    obtain ⟨c, rest, rfl⟩ := List.exists_cons_of_ne_nil some
    rw [join_cons, isAbsolute, List.cons_append, List.head?_cons, beq_eq_false_iff_ne]
    rintro ⟨⟩
    exact whole List.mem_cons_self

end Faberun.PosixPath
