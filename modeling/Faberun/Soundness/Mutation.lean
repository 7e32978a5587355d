import Mathlib.Algebra.Order.Field.Basic
import Mathlib.Algebra.Order.Ring.Rat
import Faberun.Machine.FirstByKey
import Faberun.Model.Engine.Mutation

/-! # What mutation verification leaves and samples

The sample takes places of the candidate list that are at least one apart, and the loop writes one swapped text at a
time. What it writes back is the text it decoded, so a file is as it was exactly when its bytes are UTF-8.
-/

namespace Faberun.Mutation

open Utf8

/-! ## Operators in a text -/

private theorem operatorAt_spec {text : List Char} {swap : Swap} (found : operatorAt text = some swap) :
    swap ∈ substitutions ∧ ∃ rest, text = swap.1 ++ rest := by
  refine ⟨List.mem_of_find?_eq_some found, ?_⟩
  have holds := List.find?_some found
  obtain ⟨rest, same⟩ := List.isPrefixOf_iff_prefix.mp holds
  exact ⟨rest, same.symm⟩

/-- A match is an operator that stands at its offset. -/
private theorem matchesFrom_spec {text : List Char} {offset skip : Nat} {found : Nat × Swap}
    (member : found ∈ matchesFrom offset skip text) :
    offset ≤ found.1 ∧ found.2 ∈ substitutions ∧ ∃ before after, text = before ++ found.2.1 ++ after ∧
      offset + before.length = found.1 := by
  induction text generalizing offset skip with
  | nil => cases member
  | cons c rest ih =>
    have later {skip : Nat} (inside : found ∈ matchesFrom (offset + 1) skip rest) : offset ≤ found.1 ∧ found.2 ∈ substitutions ∧
        ∃ before after, c :: rest = before ++ found.2.1 ++ after ∧ offset + before.length = found.1 := by
      obtain ⟨bound, known, before, after, same, sizes⟩ := ih inside
      refine ⟨by omega, known, c :: before, after, ?_, ?_⟩
      · rw [same]
        rfl
      · rw [List.length_cons]
        omega
    cases skip with
    | succ skip => exact later member
    | zero =>
      unfold matchesFrom at member
      split at member
      · rename_i swap here
        rcases List.mem_cons.mp member with rfl | inside
        · obtain ⟨known, after, same⟩ := operatorAt_spec here
          exact ⟨Nat.le_refl _, known, [], after, same, rfl⟩
        · exact later inside
      · exact later member

private theorem matchesFrom_sorted (text : List Char) (offset skip : Nat) :
    ((matchesFrom offset skip text).map (·.1)).Pairwise (· < ·) := by
  induction text generalizing offset skip with
  | nil => exact List.Pairwise.nil
  | cons c rest ih =>
    cases skip with
    | succ skip => exact ih _ _
    | zero =>
      unfold matchesFrom
      split
      · rw [List.map_cons, List.pairwise_cons]
        refine ⟨fun other member => ?_, ih _ _⟩
        obtain ⟨found, inside, rfl⟩ := List.mem_map.mp member
        exact (matchesFrom_spec inside).1
      · exact ih _ _

/-! ## The candidates of a tree -/

/-- The operator of a candidate stands in its file at its offset. -/
def Occurs (tree : Tree) (candidate : Candidate) : Prop :=
  candidate.swap ∈ substitutions ∧ ∃ bytes before after, tree candidate.absolute = some bytes ∧
    decode bytes = before ++ candidate.swap.1 ++ after ∧ before.length = candidate.offset

/-- Where a candidate is. -/
def Candidate.place (candidate : Candidate) : String × Nat := (candidate.absolute, candidate.offset)

/-- Where it is, by the name that is declared. -/
def Candidate.spelling (candidate : Candidate) : String × Nat := (candidate.path, candidate.offset)

section Candidates

variable {absolute : String → String} {tree : Tree} {writeFiles : List String}

private theorem mem_candidatesIn {path : String} {candidate : Candidate} (member : candidate ∈ candidatesIn absolute tree path) :
    candidate.path = path ∧ Occurs tree candidate := by
  unfold candidatesIn at member
  split at member
  · cases member
  · rename_i bytes here
    obtain ⟨found, inside, rfl⟩ := List.mem_map.mp member
    obtain ⟨-, known, before, after, same, sizes⟩ := matchesFrom_spec inside
    exact ⟨rfl, known, bytes, before, after, here, same, by simpa using sizes⟩

theorem occurs_of_mem {candidate : Candidate} (member : candidate ∈ mutationCandidates absolute tree writeFiles) :
    Occurs tree candidate := by
  rw [mutationCandidates, List.mem_insertionSort] at member
  obtain ⟨path, -, inside⟩ := List.mem_flatMap.mp member
  exact (mem_candidatesIn inside).2

private theorem nodup_candidatesIn (path : String) : ((candidatesIn absolute tree path).map Candidate.spelling).Nodup := by
  unfold candidatesIn
  split
  · exact List.nodup_nil
  · rename_i bytes here
    have offsets := (matchesFrom_sorted (decode bytes) 0 0).imp Nat.ne_of_lt
    have spellings : (List.map (fun found => (⟨path, absolute path, found.1, found.2⟩ : Candidate)) (matchesFrom 0 0 (decode bytes))).map
        Candidate.spelling = ((matchesFrom 0 0 (decode bytes)).map (·.1)).map (Prod.mk path) := by
      rw [List.map_map, List.map_map]
      rfl
    rw [spellings]
    exact offsets.map _ fun a b differ same => differ (Prod.mk.inj same).2

/-- No operator of a file is found twice under one name. -/
theorem nodup_mutationCandidates : ((mutationCandidates absolute tree writeFiles).map Candidate.spelling).Nodup := by
  have sorted : (mutationCandidates absolute tree writeFiles).Perm
      ((writeFiles.eraseDups.insertionSort textLe).flatMap (candidatesIn absolute tree)) := List.perm_insertionSort _ _
  have paths : (writeFiles.eraseDups.insertionSort textLe).Nodup :=
    (List.perm_insertionSort _ _).nodup_iff.mpr (FirstByKey.nodup_eraseDups _)
  rw [(sorted.map Candidate.spelling).nodup_iff, List.map_flatMap, List.nodup_flatMap]
  refine ⟨fun path _ => nodup_candidatesIn path, paths.imp fun {path other} differ => ?_⟩
  refine List.disjoint_left.mpr ?_
  intro spelling here there
  obtain ⟨candidate, inside, rfl⟩ := List.mem_map.mp here
  obtain ⟨second, secondInside, same⟩ := List.mem_map.mp there
  refine differ ?_
  rw [← (mem_candidatesIn inside).1, ← (mem_candidatesIn secondInside).1]
  exact ((Prod.mk.inj same).1).symm

/-- Candidates are at different places exactly when no two names of a file stand for one of them. -/
theorem nodup_places_iff {candidates : List Candidate} (spelled : (candidates.map Candidate.spelling).Nodup) :
    (candidates.map Candidate.place).Nodup ↔
      ∀ first ∈ candidates, ∀ second ∈ candidates, first.place = second.place → first.path = second.path := by
  constructor
  · intro distinct first member second other same
    rw [List.inj_on_of_nodup_map distinct member other same]
  · intro named
    refine List.pairwise_map.mpr ((List.pairwise_map.mp spelled).imp_of_mem ?_)
    intro first second member other differ same
    exact differ (Prod.ext (named first member second other same) (Prod.mk.inj same).2)

end Candidates

/-! ## The sample -/

section Sample

variable {α : Type} {candidates : List α} {budget : Nat}

private theorem roundedQuotient_zero {b : Nat} (some : 0 < b) : roundedQuotient 0 b = 0 :=
  Nat.div_eq_of_lt (by omega)

private theorem roundedQuotient_last {last b : Nat} (some : 0 < b) : roundedQuotient (b * last) b = last := by
  have parts : 2 * (b * last) + b = b + 2 * b * last := by
    rw [Nat.mul_assoc]
    omega
  rw [roundedQuotient, parts, Nat.add_mul_div_left _ _ (by omega), Nat.div_eq_of_lt (by omega)]
  omega

/-- Places that are at least one apart are rounded to different ones. -/
private theorem roundedQuotient_lt {last b i j : Nat} (some : 0 < b) (wide : b ≤ last) (order : i < j) :
    roundedQuotient (i * last) b < roundedQuotient (j * last) b := by
  have apart : i * last + b ≤ j * last := by
    have next : (i + 1) * last ≤ j * last := Nat.mul_le_mul_right _ order
    rw [Nat.add_one_mul] at next
    omega
  have one : (2 * (i * last) + b) / (2 * b) + 1 = (2 * (i * last) + b + 2 * b) / (2 * b) :=
    (Nat.add_div_right _ (by omega)).symm
  have bound : (2 * (i * last) + b + 2 * b) / (2 * b) ≤ (2 * (j * last) + b) / (2 * b) := Nat.div_le_div_right (by omega)
  unfold roundedQuotient
  omega

theorem evenlySpaced_map {β : Type} (f : α → β) : (evenlySpaced candidates budget).map f = evenlySpaced (candidates.map f) budget := by
  unfold evenlySpaced
  rw [List.length_map]
  split
  · rfl
  · rw [List.map_filterMap]
    simp only [List.getElem?_map]

theorem mem_of_mem_evenlySpaced {candidate : α} (member : candidate ∈ evenlySpaced candidates budget) : candidate ∈ candidates := by
  unfold evenlySpaced at member
  split at member
  · exact member
  · obtain ⟨index, -, here⟩ := List.mem_filterMap.mp member
    exact List.mem_of_getElem? here

theorem length_evenlySpaced : (evenlySpaced candidates budget).length ≤ budget := by
  unfold evenlySpaced
  split
  · assumption
  · exact (List.length_filterMap_le _ _).trans_eq List.length_range

theorem nodup_evenlySpaced (several : 2 ≤ budget) (distinct : candidates.Nodup) : (evenlySpaced candidates budget).Nodup := by
  unfold evenlySpaced
  split
  · exact distinct
  · rename_i long
    refine List.Nodup.filterMap (fun i j candidate here there => ?_) List.nodup_range
    obtain ⟨firstBound, first⟩ := List.getElem?_eq_some_iff.mp here
    obtain ⟨secondBound, second⟩ := List.getElem?_eq_some_iff.mp there
    have same := (distinct.getElem_inj_iff).mp (first.trans second.symm)
    rcases Nat.lt_trichotomy i j with order | equal | order
    · have less := @roundedQuotient_lt (candidates.length - 1) (budget - 1) _ _ (by omega) (by omega) order
      omega
    · exact equal
    · have less := @roundedQuotient_lt (candidates.length - 1) (budget - 1) _ _ (by omega) (by omega) order
      omega

/-- A sample that leaves something out has both ends. -/
theorem ends_mem_evenlySpaced (several : 2 ≤ budget) {candidate : α}
    (atEnd : candidates.head? = some candidate ∨ candidates.getLast? = some candidate) :
    candidate ∈ evenlySpaced candidates budget := by
  unfold evenlySpaced
  split
  · rcases atEnd with first | last
    · exact List.mem_of_head? first
    · exact List.mem_of_getLast? last
  · rw [List.mem_filterMap]
    rcases atEnd with first | last
    · refine ⟨0, List.mem_range.mpr (by omega), ?_⟩
      rw [Nat.zero_mul, roundedQuotient_zero (by omega), ← List.head?_eq_getElem?]
      exact first
    · refine ⟨budget - 1, List.mem_range.mpr (by omega), ?_⟩
      rw [roundedQuotient_last (by omega), ← List.getLast?_eq_getElem?]
      exact last

end Sample

/-! ## The loop -/

section Loop

/-- What writing a decoded text back leaves of some bytes. -/
def rewritten (bytes : List UInt8) : List UInt8 := encode (decode bytes)

/-- Runs that change a file in no attempt but those on its own mutants. -/
def Spares (runs : Runs) (path : String) : Prop :=
  ∀ attempt subject tree, subject ≠ some path → (runs attempt subject tree).2 path = tree path

/-- The runs of a list that failed. -/
def failures (attempts : List Attempt) : Nat := (attempts.filter fun attempt => !attempt.passed).length

/-- What the loop has changed of the files the runs spare: those of its mutants, by writing their text back. -/
structure LoopInv (runs : Runs) (tree : Tree) (loop : Loop) : Prop where
  files : ∀ path, Spares runs path → loop.tree path =
    if path ∈ loop.mutants.map (·.candidate.absolute) then (tree path).map rewritten else tree path
  originals : ∀ entry ∈ loop.originals, Spares runs entry.1 → (tree entry.1).map decode = some entry.2
  written : ∀ mutant ∈ loop.mutants, Spares runs mutant.candidate.absolute → ∃ bytes,
    tree mutant.candidate.absolute = some bytes ∧ mutant.written = encode (mutant.candidate.mutate (decode bytes))

variable {tree : Tree} {runs : Runs} {loop next : Loop} {candidate : Candidate} {attemptMs : Rat}

private theorem decode_rewritten (bytes : List UInt8) : decode (rewritten bytes) = decode bytes := decode_encode _

private theorem LoopInv.original (inv : LoopInv runs tree loop) {path : String} (spared : Spares runs path)
    {bytes : List UInt8} (here : tree path = some bytes) : loop.original path = some (decode bytes) := by
  unfold Loop.original
  cases found : loop.originals.find? fun entry => entry.1 = path with
  | some entry =>
    have named : entry.1 = path := by simpa using List.find?_some found
    have kept := inv.originals entry (List.mem_of_find?_eq_some found) (named ▸ spared)
    rw [named, here, Option.map_some] at kept
    rw [Option.map_some, Option.some_or, Option.some.inj kept]
  | none =>
    rw [Option.map_none, Option.none_or, inv.files path spared, here]
    split
    · rw [Option.map_some, Option.map_some, decode_rewritten]
    · rfl

/-- A mutant is written over its file, a run does what it does, and the text is written back. -/
private theorem LoopInv.tried (inv : LoopInv runs tree loop) (occurs : Occurs tree candidate) {original : List Char}
    (read : loop.original candidate.absolute = some original) (killed attempt : Nat) (spentMs : Rat) (attempts : List Attempt) :
    LoopInv runs tree
      ⟨(runs (loop.attempt + 1) (some candidate.absolute)
          (loop.tree.write candidate.absolute (encode (candidate.mutate original)))).2.write candidate.absolute (encode original),
        loop.originals ++ [(candidate.absolute, original)], killed, spentMs, attempt, attempts,
        loop.mutants ++ [⟨candidate, encode (candidate.mutate original)⟩]⟩ := by
  obtain ⟨-, bytes, -, -, here, -, -⟩ := occurs
  have text (spared : Spares runs candidate.absolute) : original = decode bytes :=
    Option.some.inj (read.symm.trans (inv.original spared here))
  constructor
  · intro path spared
    simp only [Tree.write, List.map_append, List.map_singleton, List.mem_append, List.mem_singleton]
    by_cases same : path = candidate.absolute
    · rw [if_pos same, if_pos (.inr same), same, here, text (same ▸ spared)]
      rfl
    · have other : some candidate.absolute ≠ some path := fun equal => same (Option.some.inj equal).symm
      simp only [same, if_false, or_false]
      rw [spared _ _ _ other, Tree.write, if_neg same]
      exact inv.files path spared
  · intro entry member spared
    rcases List.mem_append.mp member with member | member
    · exact inv.originals entry member spared
    · obtain rfl := List.mem_singleton.mp member
      rw [here, Option.map_some, text spared]
  · intro mutant member spared
    rcases List.mem_append.mp member with member | member
    · exact inv.written mutant member spared
    · obtain rfl := List.mem_singleton.mp member
      exact ⟨bytes, here, by rw [text spared]⟩

/-- One mutant is tried, or its file cannot be read. -/
private theorem tryMutant_spec (inv : LoopInv runs tree loop) (occurs : Occurs tree candidate) {goesOn : Bool}
    (done : tryMutant runs candidate loop = (next, goesOn)) :
    LoopInv runs tree next ∧
      (∃ taken, taken <+: [candidate] ∧ next.mutants.map (·.candidate) = loop.mutants.map (·.candidate) ++ taken) ∧
      (goesOn = true → next.mutants.map (·.candidate) = loop.mutants.map (·.candidate) ++ [candidate] ∧
        ∃ attempt, next.attempts = loop.attempts ++ [attempt] ∧ next.killed = loop.killed + failures [attempt]) := by
  unfold tryMutant at done
  split at done
  · obtain ⟨rfl, rfl⟩ := Prod.mk.inj done
    exact ⟨inv, ⟨[], List.nil_prefix, (List.append_nil _).symm⟩, nofun⟩
  · rename_i original read
    dsimp only at done
    split at done
    · obtain ⟨rfl, rfl⟩ := Prod.mk.inj done
      exact ⟨inv.tried occurs read _ _ _ _, ⟨[candidate], List.prefix_rfl, List.map_append⟩, nofun⟩
    · rename_i attempt _
      obtain ⟨rfl, rfl⟩ := Prod.mk.inj done
      refine ⟨inv.tried occurs read _ _ _ _, ⟨[candidate], List.prefix_rfl, List.map_append⟩,
        fun _ => ⟨List.map_append, attempt, rfl, ?_⟩⟩
      unfold failures
      cases passed : attempt.passed <;> simp [passed]

/-- A loop runs a first part of its candidates, and counts the runs that failed. -/
private theorem mutantLoop_spec {candidates : List Candidate} (occurs : ∀ candidate ∈ candidates, Occurs tree candidate)
    (inv : LoopInv runs tree loop) {ended : Bool} (done : mutantLoop runs attemptMs candidates loop = (next, ended)) :
    LoopInv runs tree next ∧
      (∃ taken, taken <+: candidates ∧ next.mutants.map (·.candidate) = loop.mutants.map (·.candidate) ++ taken) ∧
      (ended = true → ∃ added, next.attempts = loop.attempts ++ added ∧ next.killed = loop.killed + failures added ∧
        next.mutants.length = loop.mutants.length + added.length) := by
  induction candidates generalizing loop with
  | nil =>
    obtain ⟨rfl, rfl⟩ := Prod.mk.inj done
    exact ⟨inv, ⟨[], List.nil_prefix, (List.append_nil _).symm⟩, fun _ => ⟨[], (List.append_nil _).symm, rfl, rfl⟩⟩
  | cons candidate rest ih =>
    unfold mutantLoop at done
    split at done
    · obtain ⟨rfl, rfl⟩ := Prod.mk.inj done
      exact ⟨inv, ⟨[], List.nil_prefix, (List.append_nil _).symm⟩, fun _ => ⟨[], (List.append_nil _).symm, rfl, rfl⟩⟩
    · obtain ⟨first, others⟩ := List.forall_mem_cons.mp occurs
      cases tried : tryMutant runs candidate loop with
      | mk between goesOn =>
        rw [tried] at done
        obtain ⟨kept, ⟨taken, firstPart, named⟩, counted⟩ := tryMutant_spec inv first tried
        cases goesOn with
        | false =>
          obtain ⟨rfl, rfl⟩ := Prod.mk.inj done
          exact ⟨kept, ⟨taken, firstPart.trans (List.prefix_append [candidate] rest), named⟩, nofun⟩
        | true =>
          obtain ⟨names, attempt, attempts, killed⟩ := counted rfl
          obtain ⟨keptLater, ⟨later, firstPartLater, namesLater⟩, countedLater⟩ := ih others kept done
          refine ⟨keptLater, ⟨candidate :: later, ?_, ?_⟩, fun whole => ?_⟩
          · exact (List.prefix_cons_inj candidate).mpr firstPartLater
          · rw [namesLater, names, List.append_assoc, List.singleton_append]
          · obtain ⟨added, attemptsLater, killedLater, sizes⟩ := countedLater whole
            have one := congrArg List.length names
            simp only [List.length_map, List.length_append, List.length_singleton] at one
            refine ⟨attempt :: added, ?_, ?_, ?_⟩
            · rw [attemptsLater, attempts, List.append_assoc, List.singleton_append]
            · have joined : failures (attempt :: added) = failures [attempt] + failures added := by
                unfold failures
                rw [← List.singleton_append, List.filter_append, List.length_append]
              omega
            · rw [List.length_cons]
              omega

end Loop

/-! ## A call -/

/-- What a call promises: every file its runs spare is as it was, the mutants are a first part of a fair sample and swap one
operator each, and a pass needs a baseline that passed and enough failed runs among all of the sample. -/
structure Fair (absolute : String → String) (tier : MutationTier) (tree : Tree) (writeFiles : List String) (runs : Runs)
    (report : Report) : Prop where
  restored : ∀ path, Spares runs path → report.tree path = tree path
  few : report.mutants.length ≤ budget
  distinct : (report.mutants.map fun mutant => mutant.candidate.place).Nodup
  single : ∀ mutant ∈ report.mutants, Spares runs mutant.candidate.absolute → mutant.candidate.swap ∈ substitutions ∧
    ∃ before after, tree mutant.candidate.absolute = some (encode (before ++ mutant.candidate.swap.1 ++ after)) ∧
      mutant.written = encode (before ++ mutant.candidate.swap.2 ++ after)
  sampled : report.mutants.map (·.candidate) <+: sample absolute tree writeFiles
  spread : ∀ candidate, (mutationCandidates absolute tree writeFiles).head? = some candidate ∨
    (mutationCandidates absolute tree writeFiles).getLast? = some candidate → candidate ∈ sample absolute tree writeFiles
  verdict : ∀ result, report.result = some result → result.passed = true → ∃ baseline rest,
    result.attempts = baseline :: rest ∧ baseline.passed = true ∧ rest.length = report.mutants.length ∧
      threshold tier * (sample absolute tree writeFiles).length ≤ failures rest

/-- A suite that passes on the tree as it is and fails on every mutant, in no time. -/
def strictSuite : Runs := fun attempt _ tree => (some ⟨decide (attempt = 1), some 0⟩, tree)

section Call

variable {absolute : String → String} {tier : MutationTier} {tree : Tree} {writeFiles : List String} {runs : Runs}

/-- What a call does that its files do not decide. -/
private structure Ran (absolute : String → String) (tier : MutationTier) (tree : Tree) (writeFiles : List String) (runs : Runs)
    (report : Report) : Prop where
  files : ∀ path, Spares runs path → report.tree path =
    if path ∈ report.mutants.map (·.candidate.absolute) then (tree path).map rewritten else tree path
  written : ∀ mutant ∈ report.mutants, Spares runs mutant.candidate.absolute → ∃ bytes,
    tree mutant.candidate.absolute = some bytes ∧ mutant.written = encode (mutant.candidate.mutate (decode bytes))
  sampled : report.mutants.map (·.candidate) <+: sample absolute tree writeFiles
  verdict : ∀ result, report.result = some result → result.passed = true → ∃ baseline rest,
    result.attempts = baseline :: rest ∧ baseline.passed = true ∧ rest.length = report.mutants.length ∧
      threshold tier * (sample absolute tree writeFiles).length ≤ failures rest

private theorem occurs_of_sample {candidate : Candidate} (member : candidate ∈ sample absolute tree writeFiles) :
    Occurs tree candidate := occurs_of_mem (mem_of_mem_evenlySpaced member)

private theorem nodup_sample : ((sample absolute tree writeFiles).map Candidate.spelling).Nodup := by
  rw [sample, evenlySpaced_map]
  exact nodup_evenlySpaced (by decide) nodup_mutationCandidates

private theorem ran_runMutation : Ran absolute tier tree writeFiles runs (runMutation absolute tier runs tree writeFiles) := by
  have start (path : String) (spared : Spares runs path) : (runs 1 none tree).2 path = tree path := spared 1 none tree nofun
  unfold runMutation
  dsimp only
  cases ran : runs 1 none tree with
  | mk report left =>
    rw [ran] at start
    have untouched (path : String) (spared : Spares runs path) : left path =
        if path ∈ ([] : List Mutant).map (·.candidate.absolute) then (tree path).map rewritten else tree path := start path spared
    cases report with
    | none => exact ⟨untouched, nofun, List.nil_prefix, nofun⟩
    | some baseline =>
      dsimp only
      split
      · refine ⟨untouched, nofun, List.nil_prefix, fun result same passed => ?_⟩
        obtain rfl := Option.some.inj same
        cases passed
      · rename_i passes
        cases looped : mutantLoop runs (baseline.durationMs.getD 0) (sample absolute tree writeFiles)
            ⟨left, [], 0, baseline.durationMs.getD 0, 1, [baseline], []⟩ with
        | mk loop ended =>
          have inv : LoopInv runs tree ⟨left, [], 0, baseline.durationMs.getD 0, 1, [baseline], []⟩ := ⟨untouched, nofun, nofun⟩
          obtain ⟨kept, ⟨taken, firstPart, names⟩, counted⟩ :=
            mutantLoop_spec (fun candidate member => occurs_of_sample member) inv looped
          refine ⟨kept.files, kept.written, ?_, fun result same passed => ?_⟩
          · dsimp only
            rw [names]
            exact firstPart
          · cases ended with
            | false => cases same
            | true =>
              obtain rfl := Option.some.inj same
              obtain ⟨added, attempts, killed, sizes⟩ := counted rfl
              refine ⟨baseline, added, attempts, eq_true_of_ne_false passes, by simpa using sizes.symm, ?_⟩
              have enough := of_decide_eq_true passed
              rw [killed, Nat.zero_add] at enough
              rcases enough with none | enough
              · rw [none, Nat.cast_zero, mul_zero]
                exact Nat.cast_nonneg _
              · rcases Nat.eq_zero_or_pos (sample absolute tree writeFiles).length with none | some
                · rw [none, Nat.cast_zero, mul_zero]
                  exact Nat.cast_nonneg _
                · exact (le_div_iff₀ (Nat.cast_pos.mpr some)).mp enough

/-! ## The suite that tries the whole sample -/

private theorem strictSuite_spares (path : String) : Spares strictSuite path := fun _ _ _ _ => rfl

private theorem strictSuite_tryMutant {loop : Loop} {candidate : Candidate} (inv : LoopInv strictSuite tree loop)
    (occurs : Occurs tree candidate) : (tryMutant strictSuite candidate loop).2 = true := by
  obtain ⟨-, bytes, -, -, here, -, -⟩ := occurs
  unfold tryMutant
  rw [inv.original (strictSuite_spares candidate.absolute) here]
  rfl

private theorem strictSuite_mutantLoop {candidates : List Candidate} (occurs : ∀ candidate ∈ candidates, Occurs tree candidate)
    {loop : Loop} (inv : LoopInv strictSuite tree loop) :
    (mutantLoop strictSuite 0 candidates loop).1.mutants.map (·.candidate) = loop.mutants.map (·.candidate) ++ candidates := by
  induction candidates generalizing loop with
  | nil => exact (List.append_nil _).symm
  | cons candidate rest ih =>
    obtain ⟨first, others⟩ := List.forall_mem_cons.mp occurs
    unfold mutantLoop
    rw [if_neg fun denied => absurd denied.1 (lt_irrefl 0)]
    have goesOn := strictSuite_tryMutant inv first
    cases tried : tryMutant strictSuite candidate loop with
    | mk between ends =>
      rw [tried] at goesOn
      obtain rfl : ends = true := goesOn
      obtain ⟨kept, -, counted⟩ := tryMutant_spec inv first tried
      dsimp only
      rw [ih others kept, (counted rfl).1, List.append_assoc, List.singleton_append]

private theorem strictSuite_mutants :
    (runMutation absolute tier strictSuite tree writeFiles).mutants.map (·.candidate) = sample absolute tree writeFiles := by
  have inv : LoopInv strictSuite tree ⟨tree, [], 0, 0, 1, [⟨true, some 0⟩], []⟩ := ⟨fun _ _ => rfl, nofun, nofun⟩
  exact strictSuite_mutantLoop (fun candidate member => occurs_of_sample member) inv

/-- A call on valid files, none of them under two names, is fair. -/
private theorem Ran.fair {report : Report} (ran : Ran absolute tier tree writeFiles runs report)
    (valid : ∀ candidate ∈ sample absolute tree writeFiles, ∀ bytes, tree candidate.absolute = some bytes →
      encode (decode bytes) = bytes)
    (named : ∀ first ∈ sample absolute tree writeFiles, ∀ second ∈ sample absolute tree writeFiles,
      first.place = second.place → first.path = second.path) : Fair absolute tier tree writeFiles runs report := by
  have candidateOf {mutant : Mutant} (member : mutant ∈ report.mutants) : mutant.candidate ∈ sample absolute tree writeFiles :=
    ran.sampled.subset (List.mem_map_of_mem member)
  constructor
  · intro path spared
    rw [ran.files path spared]
    split
    · rename_i changed
      obtain ⟨mutant, member, rfl⟩ := List.mem_map.mp changed
      obtain ⟨bytes, here, -⟩ := ran.written mutant member spared
      rw [here, Option.map_some, rewritten, valid _ (candidateOf member) bytes here]
    · rfl
  · have sizes := ran.sampled.length_le
    rw [List.length_map] at sizes
    exact sizes.trans length_evenlySpaced
  · have places : (report.mutants.map fun mutant => mutant.candidate.place) =
        (report.mutants.map (·.candidate)).map Candidate.place := by
      rw [List.map_map]
      rfl
    rw [places]
    exact (ran.sampled.sublist.map Candidate.place).nodup ((nodup_places_iff nodup_sample).mpr named)
  · intro mutant member spared
    obtain ⟨known, bytes, before, after, here, text, sizes⟩ := occurs_of_sample (candidateOf member)
    obtain ⟨other, there, written⟩ := ran.written mutant member spared
    obtain rfl := Option.some.inj (here.symm.trans there)
    refine ⟨known, before, after, ?_, ?_⟩
    · rw [here, ← text, valid _ (candidateOf member) bytes here]
    · have skipped : (before ++ mutant.candidate.swap.1).length = mutant.candidate.offset + mutant.candidate.swap.1.length := by
        rw [List.length_append, sizes]
      rw [written, Candidate.mutate, text, ← skipped, List.drop_left, List.append_assoc before, ← sizes, List.take_left]
  · exact ran.sampled
  · intro candidate atEnd
    exact ends_mem_evenlySpaced (by decide) atEnd
  · exact ran.verdict

/-- The suite that tells every mutant brings each sampled candidate to the front. -/
private theorem valid_of_fair
    (fair : Fair absolute tier tree writeFiles strictSuite (runMutation absolute tier strictSuite tree writeFiles)) :
    (∀ candidate ∈ sample absolute tree writeFiles, ∀ bytes, tree candidate.absolute = some bytes →
        encode (decode bytes) = bytes) ∧
      ∀ first ∈ sample absolute tree writeFiles, ∀ second ∈ sample absolute tree writeFiles,
        first.place = second.place → first.path = second.path := by
  have all : (runMutation absolute tier strictSuite tree writeFiles).mutants.map (·.candidate) =
      sample absolute tree writeFiles := strictSuite_mutants
  refine ⟨fun candidate member bytes here => ?_, (nodup_places_iff nodup_sample).mp ?_⟩
  · have left := (ran_runMutation : Ran absolute tier tree writeFiles strictSuite _).files candidate.absolute
      (strictSuite_spares candidate.absolute)
    rw [fair.restored _ (strictSuite_spares candidate.absolute), if_pos, here] at left
    · exact (Option.some.inj left).symm
    · rw [← all] at member
      obtain ⟨mutant, inside, same⟩ := List.mem_map.mp member
      exact List.mem_map.mpr ⟨mutant, inside, by rw [same]⟩
  · have distinct := fair.distinct
    rw [← all, List.map_map]
    exact distinct

/-- Calls on a tree are fair, whatever the runs report and whatever they do to the file under mutation, exactly when every
sampled file is UTF-8 and none is sampled twice under two of its names. -/
theorem runMutation_fair_iff :
    (∀ runs, Fair absolute tier tree writeFiles runs (runMutation absolute tier runs tree writeFiles)) ↔
      (∀ candidate ∈ sample absolute tree writeFiles, ∀ bytes, tree candidate.absolute = some bytes →
        encode (decode bytes) = bytes) ∧
      ∀ first ∈ sample absolute tree writeFiles, ∀ second ∈ sample absolute tree writeFiles,
        first.place = second.place → first.path = second.path :=
  ⟨fun fair => valid_of_fair (fair strictSuite), fun ⟨valid, named⟩ _ => ran_runMutation.fair valid named⟩

/-! ## A file that is not UTF-8 -/

/-- A tree of one file. -/
def oneFile (bytes : List UInt8) : Tree := fun path => if path = "guard.js" then some bytes else none

/-- The byte of a comment in Latin-1, then `a===b`. -/
def latinBytes : List UInt8 := [0xE9, 0x0A, 0x61, 0x3D, 0x3D, 0x3D, 0x62]

/-- A byte that is not UTF-8 is written back as a replacement character. -/
theorem runMutation_replaces_bytes : ∃ (absolute : String → String) (tier : MutationTier) (tree : Tree) (writeFiles : List String)
    (runs : Runs), (∀ path, Spares runs path) ∧
      ¬ Fair absolute tier tree writeFiles runs (runMutation absolute tier runs tree writeFiles) := by
  refine ⟨id, .high, oneFile latinBytes, ["guard.js"], strictSuite, strictSuite_spares, fun fair => ?_⟩
  have kept := fair.restored "guard.js" (strictSuite_spares "guard.js")
  revert kept
  decide

end Call

end Faberun.Mutation
