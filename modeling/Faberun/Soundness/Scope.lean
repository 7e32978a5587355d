import Faberun.Model.Engine.Scope

/-! # Edits of the prover

A word of a proof that is shaped like a path names a place below the workspace. A changed path outside the declared scope
that is this place, or lies beneath it, is a cited write when it is among the paths a comparison keeps, and then no
deferral lets the attempt pass.
-/

namespace Faberun

open PosixPath

variable {workspace : List Name} {node : ScopedNode}

/-! ## What a word names -/

/-- A word of a citation that is no option and is shaped like a path names a place in the workspace, other than the
workspace itself. -/
structure NamesPlace (workspace : List Name) (citation : ProofCitation) (word : String) (place : List Name) : Prop where
  listed : word ∈ citation.tokens
  nonempty : word.toList ≠ []
  noOption : word.toList.head? ≠ some '-'
  shaped : namesDirectory citation word = true ∨ hasExtension word.toList = true
  resolved : resolve (resolve workspace citation.cwd.toList) word.toList = workspace ++ place
  below : place ≠ []
  inner : ∀ first ∈ place.head?, ¬ dotDot <+: first

/-- A path is the place a word of the node's proofs names, or lies beneath it where the word names a directory. -/
def Cited (workspace : List Name) (node : ScopedNode) (path : String) : Prop :=
  ∃ citation ∈ proofCitations node, ∃ word place, NamesPlace workspace citation word place ∧
    (path.toList = slashed (join place) ∨
      namesDirectory citation word = true ∧ slashed (join place) ++ ['/'] <+: path.toList)

/-- The path a word names is the place below the workspace. -/
private theorem namedPath_eq_some_iff (proper : ∀ name ∈ workspace, Proper name) {citation : ProofCitation} {word : String}
    (member : word ∈ citation.tokens) {named : List Char} :
    namedPath workspace citation word = some named ↔
      ∃ place, NamesPlace workspace citation word place ∧ slashed (join place) = named := by
  have target := proper_resolve (proper_resolve proper citation.cwd.toList) word.toList
  have contained := @isContained_iff workspace _ target
  unfold namedPath
  constructor
  · intro names
    split at names
    · cases names
    rename_i word'
    obtain ⟨nonempty, noOption⟩ := not_or.mp word'
    split at names
    · cases names
    rename_i shaped
    dsimp only at names
    split at names
    · cases names
    rename_i inside
    split at names
    · cases names
    rename_i named'
    obtain ⟨place, resolved, inner⟩ := contained.mp (by simpa using inside)
    rw [resolved, relative, way_append] at names named'
    refine ⟨place, ⟨member, nonempty, noOption, ?_, resolved, ?_, inner⟩, Option.some.inj names⟩
    · cases directory : namesDirectory citation word with
      | true => exact .inl rfl
      | false =>
        rw [directory] at shaped
        exact .inr (by simpa using shaped)
    · rintro rfl
      exact named' rfl
  · rintro ⟨place, ⟨_, nonempty, noOption, shaped, resolved, below, inner⟩, rfl⟩
    have inside : isContained workspace (resolve (resolve workspace citation.cwd.toList) word.toList) = true :=
      contained.mpr ⟨place, resolved, inner⟩
    have properPlace : ∀ name ∈ place, Proper name := fun name inPlace => target name (resolved ▸ List.mem_append_right _ inPlace)
    have named : slashed (join place) ≠ [] := fun empty =>
      below ((join_eq_nil_iff properPlace).mp (List.map_eq_nil_iff.mp empty))
    have isPath : (!namesDirectory citation word && !hasExtension word.toList) = false := by
      rcases shaped with shaped | shaped <;> simp [shaped]
    rw [if_neg (not_or.mpr ⟨nonempty, noOption⟩), isPath, if_neg Bool.false_ne_true]
    dsimp only
    rw [inside, Bool.not_true, if_neg Bool.false_ne_true, resolved, relative, way_append, if_neg named]

/-! ## The cited writes -/

private theorem claims_iff {named : List Char} {directory : Bool} {path : String} :
    claims named directory path = true ↔ path.toList = named ∨ directory = true ∧ named ++ ['/'] <+: path.toList := by
  simp only [claims, isBeneath, Bool.or_eq_true, decide_eq_true_eq, Bool.and_eq_true, List.isPrefixOf_iff_prefix]

/-- A named path cites what it claims, and keeps what was cited before. -/
private theorem mem_citePaths {named : List Char} {directory : Bool} {citation : String} {paths : List String} {cited : List CitedWrite}
    {path : String} : path ∈ (citePaths named directory citation paths cited).map (·.1) ↔
      path ∈ cited.map (·.1) ∨ path ∈ paths ∧ claims named directory path = true := by
  unfold citePaths
  induction paths generalizing cited with
  | nil => simp
  | cons first rest ih =>
    rw [List.foldl_cons, ih, List.mem_cons]
    split
    · rename_i known
      constructor
      · rintro (before | ⟨member, claimed⟩)
        · exact .inl before
        · exact .inr ⟨.inr member, claimed⟩
      · rintro (before | ⟨rfl | member, claimed⟩)
        · exact .inl before
        · exact .inl known
        · exact .inr ⟨member, claimed⟩
    · split
      · rename_i claimed
        rw [List.map_append, List.mem_append, List.map_singleton, List.mem_singleton]
        constructor
        · rintro ((before | rfl) | ⟨member, here⟩)
          · exact .inl before
          · exact .inr ⟨.inl rfl, claimed⟩
          · exact .inr ⟨.inr member, here⟩
        · rintro (before | ⟨rfl | member, here⟩)
          · exact .inl (.inl before)
          · exact .inl (.inr rfl)
          · exact .inr ⟨member, here⟩
      · rename_i unclaimed
        constructor
        · rintro (before | ⟨member, here⟩)
          · exact .inl before
          · exact .inr ⟨.inr member, here⟩
        · rintro (before | ⟨rfl | member, here⟩)
          · exact .inl before
          · exact absurd here unclaimed
          · exact .inr ⟨member, here⟩

/-- A fold of additions adds what each of them adds. -/
private theorem mem_foldl_iff {α β : Type} {add : List β → α → List β} {Adds : α → String → Prop} {key : β → String} {items : List α}
    (each : ∀ item ∈ items, ∀ done path, path ∈ (add done item).map key ↔ path ∈ done.map key ∨ Adds item path) (done : List β)
    (path : String) : path ∈ (items.foldl add done).map key ↔ path ∈ done.map key ∨ ∃ item ∈ items, Adds item path := by
  induction items generalizing done with
  | nil => simp
  | cons item rest ih =>
    obtain ⟨first, others⟩ := List.forall_mem_cons.mp each
    simp only [List.foldl_cons, ih others, first, or_assoc, List.mem_cons, exists_eq_or_imp]

/-- What one word adds. -/
private theorem mem_citeToken (proper : ∀ name ∈ workspace, Proper name) {citation : ProofCitation} {word : String}
    (listed : word ∈ citation.tokens) {paths : List String} {cited : List CitedWrite} {path : String} :
    path ∈ (citeToken workspace paths citation cited word).map (·.1) ↔ path ∈ cited.map (·.1) ∨ path ∈ paths ∧
      ∃ place, NamesPlace workspace citation word place ∧ (path.toList = slashed (join place) ∨
        namesDirectory citation word = true ∧ slashed (join place) ++ ['/'] <+: path.toList) := by
  unfold citeToken
  cases named : namedPath workspace citation word with
  | none =>
    refine ⟨.inl, fun added => added.resolve_right ?_⟩
    rintro ⟨_, place, names, _⟩
    have some := (namedPath_eq_some_iff proper listed).mpr ⟨place, names, rfl⟩
    rw [named] at some
    cases some
  | some place =>
    obtain ⟨names, namesPlace, rfl⟩ := (namedPath_eq_some_iff proper listed).mp named
    rw [mem_citePaths, claims_iff]
    refine or_congr_right (and_congr_right fun _ => ⟨fun claimed => ⟨names, namesPlace, claimed⟩, ?_⟩)
    rintro ⟨other, otherPlace, claimed⟩
    have same := List.append_cancel_left (namesPlace.resolved.symm.trans otherPlace.resolved)
    exact same ▸ claimed

/-- The cited writes are the unexpected paths the node's proofs cite. -/
theorem mem_proofCitedWrites (proper : ∀ name ∈ workspace, Proper name) {paths : List String} {path : String} :
    path ∈ (proofCitedWrites node paths workspace).map (·.1) ↔ path ∈ paths ∧ Cited workspace node path := by
  have words := fun citation (_ : citation ∈ proofCitations node) done path =>
    @mem_foldl_iff _ _ (citeToken workspace paths citation) _ Prod.fst _
      (fun _ listed _ _ => mem_citeToken proper listed) done path
  rw [proofCitedWrites, mem_foldl_iff words, List.map_nil]
  constructor
  · rintro (⟨⟨⟩⟩ | ⟨citation, member, word, _, unexpected, place, names, claimed⟩)
    exact ⟨unexpected, citation, member, word, place, names, claimed⟩
  · rintro ⟨unexpected, citation, member, word, place, names, claimed⟩
    exact .inr ⟨citation, member, word, names.listed, unexpected, place, names, claimed⟩

/-! ## The check -/

/-- A deferred check fails the node when a path it keeps is one its proofs cite. -/
theorem checkWorkerScope_cited (proper : ∀ name ∈ workspace, Proper name) (allowed : ScopePaths) (changed : List String) (job : ScopeJob)
    (unchecked : job.scopeChecked = false) (unsettled : job.status.settled = false) {path : String}
    (kept : path ∈ (compareChanged allowed changed).unexpectedPaths.take maxScopePaths) (cited : Cited workspace node path) :
    (checkWorkerScope node workspace true (.ok (compareChanged allowed changed)) job).2 = false ∧
      (checkWorkerScope node workspace true (.ok (compareChanged allowed changed)) job).1.status = .failed ∧
      ∃ message, (checkWorkerScope node workspace true (.ok (compareChanged allowed changed)) job).1.error =
        some ⟨"unexpected_write", message⟩ := by
  have some : (compareChanged allowed changed).unexpectedPaths.isEmpty = false := by
    rw [List.isEmpty_eq_false_iff]
    exact List.ne_nil_of_mem (List.mem_of_mem_take kept)
  have writes : (proofCitedWrites node (boundedScope (compareChanged allowed changed)).unexpectedPaths workspace).isEmpty = false := by
    rw [List.isEmpty_eq_false_iff]
    rintro none
    have member := (mem_proofCitedWrites proper).mpr ⟨kept, cited⟩
    rw [boundedScope] at none
    rw [none] at member
    cases member
  unfold checkWorkerScope
  rw [unchecked, if_neg Bool.false_ne_true]
  dsimp only
  rw [some, if_neg Bool.false_ne_true, writes, Bool.and_false, if_neg Bool.false_ne_true]
  dsimp only [ScopeJob.fail]
  rw [unsettled, if_neg Bool.false_ne_true]
  exact ⟨rfl, rfl, _, rfl⟩

/-- A node whose verification runs a test file of the workspace. -/
def provedNode : ScopedNode where
  definitionOfDone := []
  verification :=
    [{ argv := ["node", "--test", "test/a.test.mjs"], timeoutSec := 120, repeatCount := 1, env := [], cwd := none, mutation := none,
       requirementId := none }]

/-- A running attempt before its check. -/
def runningAttempt : ScopeJob := ⟨false, false, .running, none, none, []⟩

private theorem cited_test : Cited ["work".toList] provedNode "test/a.test.mjs" := by
  refine ⟨_, List.mem_singleton_self _, "test/a.test.mjs", ["test".toList, "a.test.mjs".toList],
    ⟨by decide, by decide, by decide, .inl (by decide), by decide, by decide, ?_⟩, .inl (by decide)⟩
  rintro first ⟨⟩
  decide

theorem checkWorkerScope_cited_test :
    (checkWorkerScope provedNode ["work".toList] true (.ok (compareChanged ⟨[], ["src"], []⟩ ["test/a.test.mjs"])) runningAttempt).2 = false := by
  refine (checkWorkerScope_cited ?_ ⟨[], ["src"], []⟩ ["test/a.test.mjs"] runningAttempt rfl rfl ?_ cited_test).1
  · exact List.forall_mem_singleton.mpr ⟨by decide, by decide, by decide, by decide⟩
  · decide

/-- Sixty-four notes beside the test file. -/
def notesAndTest : List String :=
  (List.range 64).map (fun index => String.ofList (List.replicate (index + 1) 'n')) ++ ["test/a.test.mjs"]

private theorem toList_note (size : Nat) : (String.ofList (List.replicate size 'n')).toList = List.replicate size 'n' :=
  String.toList_ofList

private theorem textUnits_note (size : Nat) : textUnits (String.ofList (List.replicate size 'n')) = List.replicate size 110 := by
  rw [textUnits, toList_note, codeUnits]
  induction size with
  | zero => rfl
  | succ size ih => rw [List.replicate_succ, List.flatMap_cons, ih]; rfl

/-- A longer note comes after a shorter one. -/
private theorem textLess_note {short long : Nat} (le : short ≤ long) :
    textLess (String.ofList (List.replicate long 'n')) (String.ofList (List.replicate short 'n')) = false := by
  rw [← Bool.not_eq_true, textLess_iff, textUnits_note, textUnits_note]
  have prefixed : List.replicate short 110 <+: List.replicate long 110 := ⟨List.replicate (long - short) 110, by simp [le]⟩
  exact prefixed.le

/-- The test file comes after every note. -/
private theorem textLess_test (size : Nat) :
    textLess "test/a.test.mjs" (String.ofList (List.replicate (size + 1) 'n')) = false := by
  rw [← Bool.not_eq_true, textLess_iff, textUnits_note, List.replicate_succ]
  exact not_lt.mpr (le_of_lt (List.Lex.rel (by decide)))

private theorem pairwise_notesAndTest : notesAndTest.Pairwise fun left right => (!textLess right left) = true := by
  rw [notesAndTest, List.pairwise_append, List.pairwise_map]
  refine ⟨List.pairwise_le_range.imp fun le => ?_, List.pairwise_singleton _ _, ?_⟩
  · rw [textLess_note (Nat.succ_le_succ le), Bool.not_false]
  · intro note member test isTest
    obtain ⟨size, _, rfl⟩ := List.mem_map.mp member
    rw [List.mem_singleton.mp isTest, textLess_test, Bool.not_false]

private theorem isExpectedPath_note (size : Nat) :
    isExpectedPath ⟨[], ["src"], []⟩ (String.ofList (List.replicate (size + 1) 'n')) = false := by
  have other : String.ofList (List.replicate (size + 1) 'n') ≠ "src" := by
    intro same
    have chars := congrArg String.toList same
    rw [toList_note, List.replicate_succ] at chars
    exact absurd (List.cons.inj chars).1 (by decide)
  have apart : isBeneath "src".toList (List.replicate (size + 1) 'n') = false := rfl
  have root : isExpectedPath ⟨[], ["src"], []⟩ (String.ofList (List.replicate (size + 1) 'n')) =
      (decide (String.ofList (List.replicate (size + 1) 'n') = "src") ||
        isBeneath "src".toList (String.ofList (List.replicate (size + 1) 'n')).toList || false) := rfl
  rw [root, toList_note, apart, decide_eq_false other]
  rfl

/-- Every path is unexpected, and the test file is the last. -/
private theorem compareChanged_notesAndTest : (compareChanged ⟨[], ["src"], []⟩ notesAndTest).unexpectedPaths = notesAndTest := by
  rw [compareChanged, pairwise_notesAndTest.insertionSort_eq, List.filter_eq_self]
  intro path member
  rcases List.mem_append.mp member with note | test
  · obtain ⟨size, _, rfl⟩ := List.mem_map.mp note
    rw [isExpectedPath_note, Bool.not_false]
  · rw [List.mem_singleton.mp test]
    decide

/-- The proofs of the node cite no note. -/
private theorem proofCitedWrites_notes :
    proofCitedWrites provedNode (notesAndTest.take maxScopePaths) ["work".toList] = [] := by
  have notes : notesAndTest.take maxScopePaths = (List.range 64).map fun index => String.ofList (List.replicate (index + 1) 'n') :=
    List.take_left' (by rw [List.length_map, List.length_range, maxScopePaths])
  have cites : ∀ paths, proofCitedWrites provedNode paths ["work".toList] =
      citePaths "test/a.test.mjs".toList true "verification[0]" paths [] := fun _ => rfl
  rw [notes, cites, ← List.map_eq_nil_iff, List.eq_nil_iff_forall_not_mem]
  intro path cited
  obtain ⟨⟨⟩⟩ | ⟨member, claimed⟩ := mem_citePaths.mp cited
  obtain ⟨size, _, rfl⟩ := List.mem_map.mp member
  rw [claims_iff, toList_note, List.replicate_succ] at claimed
  rcases claimed with same | ⟨_, beneath⟩
  · exact absurd (List.cons.inj same).1 (by decide)
  · exact absurd (List.cons_prefix_cons.mp beneath).1 (by decide)

/-- A deferred check lets the attempt pass when its proofs cite no path that is kept. -/
private theorem checkWorkerScope_uncited (allowed : ScopePaths) (changed : List String) (job : ScopeJob) (unchecked : job.scopeChecked = false)
    (none : proofCitedWrites node ((compareChanged allowed changed).unexpectedPaths.take maxScopePaths) workspace = []) :
    (checkWorkerScope node workspace true (.ok (compareChanged allowed changed)) job).2 = true ∧
      (checkWorkerScope node workspace true (.ok (compareChanged allowed changed)) job).1.status = job.status := by
  unfold checkWorkerScope
  rw [unchecked, if_neg Bool.false_ne_true]
  dsimp only
  split
  · exact ⟨rfl, rfl⟩
  · rw [boundedScope, none]
    exact ⟨rfl, rfl⟩

/-- An edit of the test file behind sixty-four other unexpected paths is deferred. -/
theorem checkWorkerScope_defers :
    "test/a.test.mjs" ∈ (compareChanged ⟨[], ["src"], []⟩ notesAndTest).unexpectedPaths ∧ Cited ["work".toList] provedNode "test/a.test.mjs" ∧
      (checkWorkerScope provedNode ["work".toList] true (.ok (compareChanged ⟨[], ["src"], []⟩ notesAndTest)) runningAttempt).2 = true ∧
      (checkWorkerScope provedNode ["work".toList] true (.ok (compareChanged ⟨[], ["src"], []⟩ notesAndTest)) runningAttempt).1.status =
        .running := by
  have deferred := checkWorkerScope_uncited ⟨[], ["src"], []⟩ notesAndTest runningAttempt rfl
    (by rw [compareChanged_notesAndTest]; exact proofCitedWrites_notes)
  refine ⟨?_, cited_test, deferred⟩
  rw [compareChanged_notesAndTest, notesAndTest]
  exact List.mem_append_right _ (List.mem_singleton_self _)

end Faberun
