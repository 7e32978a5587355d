import Faberun.Model.Repo.SignalBlock

/-! # The signal block and source identity

The writer ends its text with a line break of its own and keeps the one it finds behind the block, so guidance behind the
block grows with every rewrite; and it takes a document without an end marker to end at the start marker. A block that
stands last is rewritten without a trace.
-/

namespace Faberun.SignalBlock

open BreakOn

/-- The output of the renderer: nothing, or a block that ends at its first end marker. -/
def Rendered (block : List Char) : Prop :=
  block = [] ∨ ∃ content, block = signalStart ++ content ++ signalEnd ∧
    breakOn signalEnd (content ++ signalEnd) = some (content, [])

/-- What stands behind the block, or behind the start marker when there is no end marker. -/
def behind (rest : List Char) : List Char := (breakOn signalEnd rest).elim rest (·.2)

/-- A text with both markers. -/
def Complete (text : List Char) : Prop := ∃ start rest parts, breakOn signalStart text = some (start, rest) ∧
  breakOn signalEnd rest = some parts

/-- Only blanks stand behind the block. -/
def Last (text : List Char) : Prop :=
  ∀ start rest, breakOn signalStart text = some (start, rest) → ∀ c ∈ behind rest, isJsWhitespace c = true

/-- The characters that are not blank. -/
abbrev shown (text : List Char) : List Char := visible isJsWhitespace text

/-- What identity needs of a text: rewrites of a complete block leave its normal form, writing a block again and
normalizing again change nothing, and what is not blank outside the markers stays. -/
structure Invisible (text : List Char) : Prop where
  identity : Complete text → ∀ blocks : List (List Char), (∀ block ∈ blocks, Rendered block) →
    normalizeManagedSignalBlock (blocks.foldl applyManagedSignalBlock text) = normalizeManagedSignalBlock text
  idempotent : Complete text → ∀ block, Rendered block →
    applyManagedSignalBlock (applyManagedSignalBlock text block) block = applyManagedSignalBlock text block
  normalized : Complete text → normalizeManagedSignalBlock (normalizeManagedSignalBlock text) = normalizeManagedSignalBlock text
  written : ∀ start rest, breakOn signalStart text = some (start, rest) → ∀ block, Rendered block →
    shown (applyManagedSignalBlock text block) = shown start ++ shown block ++ shown (behind rest)
  kept : ∀ start rest inner tail, breakOn signalStart text = some (start, rest) → breakOn signalEnd rest = some (inner, tail) →
    shown (normalizeManagedSignalBlock text) = shown start ++ shown tail

/-! ## Shapes -/

private theorem start_ne_nil : signalStart ≠ [] := by decide

private theorem newline_notMem_start : '\n' ∉ signalStart := by decide

/-- What the writer puts before a block. -/
private def lead (before : List Char) : List Char := if before = [] then [] else before ++ blankLine

/-- What the writer puts behind a block. -/
private def trail (after : List Char) : List Char := (if after = [] then [] else blankLine ++ after) ++ ['\n']

/-- What the normalizer makes of two parts. -/
private def finish (before after : List Char) : List Char :=
  if after = [] then before ++ ['\n'] else before ++ blankLine ++ after

private theorem joinParts_block {before block after : List Char} (some : block ≠ []) :
    joinParts [before, block, after] ++ ['\n'] = lead before ++ block ++ trail after := by
  unfold joinParts lead trail
  by_cases first : before = [] <;> by_cases last : after = [] <;>
    simp [first, last, some, List.intercalate, List.intersperse, blankLine]

private theorem joinParts_none {before after : List Char} :
    joinParts [before, [], after] ++ ['\n'] =
      (if before = [] then after else if after = [] then before else before ++ blankLine ++ after) ++ ['\n'] := by
  unfold joinParts
  by_cases first : before = [] <;> by_cases last : after = [] <;>
    simp [first, last, List.intercalate, List.intersperse, blankLine]

private theorem trimEnd_lead (start : List Char) : trimEnd (lead (trimEnd start)) = trimEnd start := by
  have blanks : ∀ c ∈ blankLine, isJsWhitespace c = true := List.all_eq_true.mp (by decide)
  unfold lead
  split
  · rename_i empty
    rw [empty]
    rfl
  · exact rdropWhile_append_blank blanks

private theorem trimStart_trail (tail : List Char) :
    trimStart (trail (trimStart tail)) = if trimStart tail = [] then [] else trimStart tail ++ ['\n'] := by
  have blanks : ∀ c ∈ blankLine, isJsWhitespace c = true := List.all_eq_true.mp (by decide)
  unfold trail
  split
  · decide
  · rename_i some
    have same : (trimStart tail).dropWhile isJsWhitespace = trimStart tail := List.dropWhile_idempotent ..
    rw [trimStart, List.append_assoc, dropWhile_blank_append blanks, dropWhile_append (by rw [same]; exact some), same]

/-! ## One rewrite -/

section Rewrite

variable {text start rest inner tail block : List Char}

private theorem break_lead {before : List Char} (none : ¬ signalStart <:+: before) (more : List Char) :
    breakOn signalStart (lead before ++ (signalStart ++ more)) = some (lead before, more) := by
  unfold lead
  split
  · exact breakOn_marker start_ne_nil more
  · have empty : ¬ signalStart <:+: [] := fun inside => start_ne_nil (List.infix_nil.mp inside)
    have shape : before ++ blankLine ++ (signalStart ++ more) = before ++ '\n' :: ([] ++ '\n' :: (signalStart ++ more)) := by
      simp [blankLine]
    rw [shape, breakOn_separated newline_notMem_start start_ne_nil none, breakOn_separated newline_notMem_start start_ne_nil empty,
      breakOn_marker start_ne_nil]
    simp [blankLine]

private theorem notInfix_trimEnd (broken : breakOn signalStart text = some (start, rest)) : ¬ signalStart <:+: trimEnd start :=
  fun inside => notInfix_before start_ne_nil broken (inside.trans (List.rdropWhile_prefix _ _).isInfix)

/-- A trimmed text with a line break behind it has no start marker. -/
private theorem break_plain (broken : breakOn signalStart text = some (start, rest)) :
    breakOn signalStart (trimEnd start ++ ['\n']) = none := by
  rw [breakOn_separated newline_notMem_start start_ne_nil (notInfix_trimEnd broken)]
  rfl

/-- The parts of a text that was written with a block. -/
private theorem break_apply (broken : breakOn signalStart text = some (start, rest)) {content : List Char}
    (first : breakOn signalEnd (content ++ signalEnd) = some (content, [])) :
    ∃ more, breakOn signalStart (applyManagedSignalBlock text (signalStart ++ content ++ signalEnd)) = some (lead (trimEnd start), more) ∧
      breakOn signalEnd more = some (content, trail (trimStart (((breakOn signalEnd rest).map (·.2)).getD []))) := by
  generalize after? : trimStart (((breakOn signalEnd rest).map (·.2)).getD []) = after
  refine ⟨content ++ signalEnd ++ trail after, ?_, ?_⟩
  · have some : signalStart ++ content ++ signalEnd ≠ [] := by
      rw [List.append_assoc]
      exact List.append_ne_nil_of_left_ne_nil start_ne_nil _
    have shape : applyManagedSignalBlock text (signalStart ++ content ++ signalEnd) =
        lead (trimEnd start) ++ (signalStart ++ (content ++ signalEnd ++ trail after)) := by
      unfold applyManagedSignalBlock
      rw [broken]
      dsimp only
      rw [after?, joinParts_block some]
      simp only [List.append_assoc]
    rw [shape]
    exact break_lead (notInfix_trimEnd broken) _
  · have found : breakOn signalEnd (content ++ signalEnd ++ trail after) = some (content, [] ++ trail after) := breakOn_append first
    exact found

private theorem normalize_broken (broken : breakOn signalStart text = some (start, rest))
    (ended : breakOn signalEnd rest = some (inner, tail)) :
    normalizeManagedSignalBlock text = finish (trimEnd start) (trimStart tail) := by
  unfold normalizeManagedSignalBlock finish
  rw [broken]
  dsimp only
  rw [ended]
  simp only [List.isEmpty_iff]

/-- The normal form of a text that was written with a block. -/
private theorem normalize_apply (broken : breakOn signalStart text = some (start, rest))
    (ended : breakOn signalEnd rest = some (inner, tail)) {content : List Char}
    (first : breakOn signalEnd (content ++ signalEnd) = some (content, [])) :
    normalizeManagedSignalBlock (applyManagedSignalBlock text (signalStart ++ content ++ signalEnd)) =
      finish (trimEnd start) (if trimStart tail = [] then [] else trimStart tail ++ ['\n']) := by
  obtain ⟨more, brokenAfter, endedAfter⟩ := break_apply broken first
  rw [ended] at endedAfter
  rw [normalize_broken brokenAfter endedAfter, trimEnd_lead]
  exact congrArg _ (trimStart_trail tail)

end Rewrite

/-! ## A block that stands last -/

section LastBlock

variable {text start rest inner tail : List Char}

private theorem trimStart_nil_of_last (last : Last text) (broken : breakOn signalStart text = some (start, rest))
    (ended : breakOn signalEnd rest = some (inner, tail)) : trimStart tail = [] := by
  have blanks := last start rest broken
  rw [behind, ended] at blanks
  exact List.dropWhile_eq_nil_iff.mpr blanks

/-- Taking a block away that stands last leaves the text before it. -/
private theorem apply_none (last : Last text) (broken : breakOn signalStart text = some (start, rest))
    (ended : breakOn signalEnd rest = some (inner, tail)) : applyManagedSignalBlock text [] = trimEnd start ++ ['\n'] := by
  unfold applyManagedSignalBlock
  rw [broken]
  dsimp only
  rw [ended, Option.map_some, Option.getD_some, trimStart_nil_of_last last broken ended, joinParts_none]
  split
  · rename_i empty
    rw [empty]
  · rfl

/-- A block that stands last is simply replaced by the next one. -/
private theorem apply_apply (last : Last text) (broken : breakOn signalStart text = some (start, rest))
    (ended : breakOn signalEnd rest = some (inner, tail)) {first second : List Char} (rendered : Rendered first) :
    applyManagedSignalBlock (applyManagedSignalBlock text first) second = applyManagedSignalBlock text (if first = [] then [] else second) := by
  rcases rendered with rfl | ⟨content, rfl, ends⟩
  · rw [if_pos rfl, apply_none last broken ended]
    unfold applyManagedSignalBlock
    rw [break_plain broken]
  · have some : signalStart ++ content ++ signalEnd ≠ [] := by
      rw [List.append_assoc]
      exact List.append_ne_nil_of_left_ne_nil start_ne_nil _
    obtain ⟨more, brokenAfter, endedAfter⟩ := break_apply broken ends
    rw [if_neg some]
    generalize applyManagedSignalBlock text (signalStart ++ content ++ signalEnd) = written at brokenAfter
    unfold applyManagedSignalBlock
    rw [broken, brokenAfter]
    dsimp only
    have none := trimStart_nil_of_last last broken ended
    rw [endedAfter, ended]
    have plain : trimStart (trail []) = [] := by decide
    simp only [Option.map_some, Option.getD_some, trimEnd_lead, none, plain]

private theorem normalize_last (last : Last text) (broken : breakOn signalStart text = some (start, rest))
    (ended : breakOn signalEnd rest = some (inner, tail)) : normalizeManagedSignalBlock text = trimEnd start ++ ['\n'] := by
  rw [normalize_broken broken ended, trimStart_nil_of_last last broken ended]
  exact if_pos rfl

private theorem normalize_plain (broken : breakOn signalStart text = some (start, rest)) :
    normalizeManagedSignalBlock (trimEnd start ++ ['\n']) = trimEnd start ++ ['\n'] := by
  unfold normalizeManagedSignalBlock
  rw [break_plain broken]

private theorem normalize_rewritten (last : Last text) (broken : breakOn signalStart text = some (start, rest))
    (ended : breakOn signalEnd rest = some (inner, tail)) {block : List Char} (rendered : Rendered block) :
    normalizeManagedSignalBlock (applyManagedSignalBlock text block) = trimEnd start ++ ['\n'] := by
  rcases rendered with rfl | ⟨content, rfl, ends⟩
  · rw [apply_none last broken ended]
    exact normalize_plain broken
  · rw [normalize_apply broken ended ends, trimStart_nil_of_last last broken ended]
    exact if_pos rfl

/-- After any rewrites the text is what one rewrite makes of it. -/
private theorem foldl_apply (last : Last text) (broken : breakOn signalStart text = some (start, rest))
    (ended : breakOn signalEnd rest = some (inner, tail)) {block : List Char} (rendered : Rendered block)
    (blocks : List (List Char)) (each : ∀ block ∈ blocks, Rendered block) :
    ∃ final, Rendered final ∧ blocks.foldl applyManagedSignalBlock (applyManagedSignalBlock text block) = applyManagedSignalBlock text final := by
  induction blocks generalizing block with
  | nil => exact ⟨block, rendered, rfl⟩
  | cons next later ih =>
    obtain ⟨nextRendered, laterRendered⟩ := List.forall_mem_cons.mp each
    rw [List.foldl_cons, apply_apply last broken ended rendered]
    refine ih ?_ laterRendered
    split
    · exact .inl rfl
    · exact nextRendered

end LastBlock

/-! ## What is shown -/

section Shown

variable {text start rest inner tail : List Char}

private theorem shown_joinParts (before block after : List Char) :
    shown (joinParts [before, block, after] ++ ['\n']) = shown before ++ shown block ++ shown after := by
  have blanks : shown ['\n'] = [] ∧ shown blankLine = [] ∧ shown [] = [] := by decide
  obtain ⟨last, between, empty⟩ := blanks
  by_cases some : block = []
  · subst some
    rw [joinParts_none]
    split
    · rename_i first
      simp only [visible_append, first, last, empty, List.append_nil, List.nil_append]
    · split
      · rename_i none
        simp only [visible_append, none, last, empty, List.append_nil]
      · simp only [visible_append, last, between, empty, List.append_nil]
  · rw [joinParts_block some]
    have leads : shown (lead before) = shown before := by
      unfold lead
      split
      · rename_i first
        rw [first]
      · simp only [visible_append, between, List.append_nil]
    have trails : shown (trail after) = shown after := by
      unfold trail
      split
      · rename_i none
        rw [none]
        exact last
      · simp only [visible_append, between, last, List.append_nil, List.nil_append]
    simp only [visible_append, leads, trails]

private theorem shown_apply (broken : breakOn signalStart text = some (start, rest)) (block : List Char) :
    shown (applyManagedSignalBlock text block) =
      shown start ++ shown block ++ shown (((breakOn signalEnd rest).map (·.2)).getD []) := by
  unfold applyManagedSignalBlock
  rw [broken]
  dsimp only
  have before : shown (trimEnd start) = shown start := visible_rdropWhile
  have after : ∀ rest, shown (trimStart rest) = shown rest := fun _ => visible_dropWhile
  rw [shown_joinParts, before, after]

private theorem shown_normalize (broken : breakOn signalStart text = some (start, rest))
    (ended : breakOn signalEnd rest = some (inner, tail)) :
    shown (normalizeManagedSignalBlock text) = shown start ++ shown tail := by
  have blanks : shown ['\n'] = [] ∧ shown blankLine = [] := by decide
  have before : shown (trimEnd start) = shown start := visible_rdropWhile
  have after : shown (trimStart tail) = shown tail := visible_dropWhile
  rw [normalize_broken broken ended, finish]
  split
  · rename_i none
    rw [← after, none]
    simp only [visible_append, before, blanks.1]
    rfl
  · simp only [visible_append, before, after, blanks.2, List.append_nil]

end Shown

/-! ## The whole -/

section Whole

variable {text : List Char}

private theorem last_of_invisible (invisible : Invisible text) : Last text := by
  intro start rest broken
  cases ended : breakOn signalEnd rest with
  | none =>
    -- without an end marker the writer drops what stands behind the start marker
    have kept := invisible.written start rest broken [] (.inl rfl)
    rw [shown_apply broken, ended, Option.map_none, Option.getD_none, behind, ended] at kept
    rw [behind, ended]
    exact visible_eq_nil_iff.mp (List.append_cancel_left kept).symm
  | some parts =>
    obtain ⟨inner, tail⟩ := parts
    have rendered : Rendered (signalStart ++ [] ++ signalEnd) := .inr ⟨[], rfl, by decide⟩
    have same := invisible.identity ⟨start, rest, _, broken, ended⟩ [_] (List.forall_mem_singleton.mpr rendered)
    have ends : breakOn signalEnd ([] ++ signalEnd) = some ([], []) := by decide
    rw [List.foldl_cons, List.foldl_nil, normalize_apply broken ended ends, normalize_broken broken ended] at same
    have none : trimStart tail = [] := by
      by_contra some
      -- the line break the writer adds stays behind the guidance
      have sizes := congrArg List.length same
      simp only [finish, some, if_false, List.append_ne_nil_of_left_ne_nil some, List.length_append, List.length_singleton] at sizes
      omega
    rw [behind, ended]
    exact List.dropWhile_eq_nil_iff.mp none

private theorem invisible_of_last (last : Last text) : Invisible text := by
  constructor
  · rintro ⟨start, rest, ⟨inner, tail⟩, broken, ended⟩ blocks each
    rw [normalize_last last broken ended]
    cases blocks with
    | nil => exact normalize_last last broken ended
    | cons block later =>
      obtain ⟨rendered, laterRendered⟩ := List.forall_mem_cons.mp each
      obtain ⟨final, finalRendered, same⟩ := foldl_apply last broken ended rendered later laterRendered
      rw [List.foldl_cons, same]
      exact normalize_rewritten last broken ended finalRendered
  · rintro ⟨start, rest, ⟨inner, tail⟩, broken, ended⟩ block rendered
    rw [apply_apply last broken ended rendered]
    split
    · rename_i none
      rw [none]
    · rfl
  · rintro ⟨start, rest, ⟨inner, tail⟩, broken, ended⟩
    rw [normalize_last last broken ended]
    exact normalize_plain broken
  · intro start rest broken block _
    rw [shown_apply broken]
    refine congrArg _ ?_
    have blanks := last start rest broken
    cases ended : breakOn signalEnd rest with
    | none =>
      rw [behind, ended] at blanks ⊢
      exact (visible_eq_nil_iff.mpr blanks).symm
    | some parts =>
      rw [behind, ended]
      rfl
  · intro start rest inner tail broken ended
    exact shown_normalize broken ended

/-- Rewriting the block leaves no trace exactly when the block stands last. -/
theorem invisible_iff_last : Invisible text ↔ Last text := ⟨last_of_invisible, invisible_of_last⟩

/-- A document whose block stands last is dirty after a rewrite exactly when it was before. -/
theorem agentGuidanceDirty_rewrite (last : Last text) (complete : Complete text) {block : List Char} (rendered : Rendered block)
    (gitHead : Option String) (committed : Option (List Char)) :
    agentGuidanceDirty gitHead (some (applyManagedSignalBlock text block)) committed = agentGuidanceDirty gitHead (some text) committed := by
  have same := (invisible_of_last last).identity complete [block] (List.forall_mem_singleton.mpr rendered)
  rw [agentGuidanceDirty, agentGuidanceDirty, Option.map_some, Option.map_some]
  exact congrArg (fun normal => gitHead.isSome && decide (some normal ≠ _)) same

/-- Guidance that stands behind a block. -/
def guidanceBehind : List Char := signalStart ++ ['\n'] ++ signalEnd ++ "\n\nHuman guidance.\n".toList

/-- Guidance behind the block grows by a line break when the block is written again. -/
theorem normalizeManagedSignalBlock_grows : Complete guidanceBehind ∧ Rendered (signalStart ++ ['\n'] ++ signalEnd) ∧
    normalizeManagedSignalBlock (applyManagedSignalBlock guidanceBehind (signalStart ++ ['\n'] ++ signalEnd)) ≠
      normalizeManagedSignalBlock guidanceBehind := by
  refine ⟨⟨[], _, (_, _), rfl, rfl⟩, .inr ⟨['\n'], rfl, by decide⟩, by decide⟩

end Whole

end Faberun.SignalBlock
