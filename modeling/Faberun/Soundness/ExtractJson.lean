import Faberun.Text.JsonRoundTrip
import Faberun.Model.Harnesses.Protocol

/-! # The JSON at the end of a message

A message that ends in the text of an object or an array gives that text back: of the suffixes that open a bracket, those
inside it are not
JSON. Only a text with more opening brackets than the scan tries is missed, unless the message quotes it in a fenced block as
well.
-/

namespace Faberun.Protocol

open JsonText

/-! ## Offsets -/

private theorem offsets_append (before after : List Char) :
    offsets (before ++ after) = (offsets before).map (· ++ after) ++ offsets after := by
  induction before with
  | nil => rfl
  | cons c before ih =>
    rw [List.cons_append, offsets, offsets, ih]
    split <;> simp

private theorem length_offsets (text : List Char) : (offsets text).length = text.countP isOpening := by
  induction text with
  | nil => rfl
  | cons c text ih =>
    rw [offsets, List.countP_cons, ← ih]
    split <;> simp

private theorem mem_offsets {suffix text : List Char} (member : suffix ∈ offsets text) :
    ∃ before c rest, text = before ++ suffix ∧ suffix = c :: rest ∧ isOpening c = true := by
  induction text with
  | nil => contradiction
  | cons c text ih =>
    rw [offsets] at member
    split at member
    · rename_i opens
      rcases List.mem_cons.mp member with rfl | later
      · exact ⟨[], c, text, rfl, rfl, opens⟩
      · obtain ⟨before, d, rest, split, same⟩ := ih later
        exact ⟨c :: before, d, rest, by rw [split, List.cons_append], same⟩
    · obtain ⟨before, d, rest, split, same⟩ := ih member
      exact ⟨c :: before, d, rest, by rw [split, List.cons_append], same⟩

/-! ## The text at the end -/

section

variable {ν : Type} [Numerals ν]

/-- The text of an object or an array, and nothing around it. -/
structure IsGroup (ν : Type) [Numerals ν] (text : List Char) : Prop where
  accepted : accepts ν text = true
  opens : ∃ c ∈ text.head?, isOpening c = true
  closes : ∃ c ∈ text.getLast?, isClosing c = true

private theorem visible_of_bracket {c : Char} (bracket : isOpening c = true ∨ isClosing c = true) : isJsWhitespace c = false := by
  simp only [isOpening, isClosing, Bool.or_eq_true, beq_iff_eq] at bracket
  rcases bracket with (rfl | rfl) | (rfl | rfl) <;> decide

private theorem space_of_isSpace {c : Char} (visible : isJsWhitespace c = false) : isSpace c = false := by
  by_contra space
  simp only [isSpace, Bool.not_eq_false, Bool.or_eq_true, beq_iff_eq] at space
  rcases space with ((rfl | rfl) | rfl) | rfl <;> exact absurd visible (by decide)

/-- A text that ends as a group does and begins with a visible character is accepted only as a group. -/
private theorem bracketed_of_accepts {before value : List Char} (group : IsGroup ν value)
    (shown : ∀ c ∈ (before ++ value).head?, isJsWhitespace c = false) (accepted : accepts ν (before ++ value) = true) :
    Bracketed (before ++ value) := by
  obtain ⟨last, final, closes⟩ := group.closes
  obtain ⟨middle, rfl⟩ := List.getLast?_eq_some_iff.mp final
  cases split : before ++ (middle ++ [last]) with
  | nil => simp at split
  | cons c rest =>
    rw [split] at accepted shown
    have ends : c :: rest = (before ++ middle) ++ [last] := by rw [← split, List.append_assoc]
    exact bracketed_of_parse ends closes (space_of_isSpace (shown c rfl)) accepted

private theorem IsGroup.bracketed {value : List Char} (group : IsGroup ν value) : Bracketed value := by
  refine @bracketed_of_accepts ν _ [] value group ?_ group.accepted
  obtain ⟨c, first, opens⟩ := group.opens
  intro d same
  obtain rfl : d = c := Option.some.inj (same.symm.trans first)
  exact visible_of_bracket (.inl opens)

/-- Nothing visible stands before a group in a text that is JSON. -/
private theorem not_accepts_behind {before value : List Char} (group : IsGroup ν value) (some : before ≠ [])
    (shown : ∀ c ∈ before.head?, isJsWhitespace c = false) : accepts ν (before ++ value) = false := by
  by_contra accepted
  have accepted : accepts ν (before ++ value) = true := by simpa using accepted
  have first : ∀ c ∈ (before ++ value).head?, isJsWhitespace c = false := by
    intro c member
    rw [List.head?_append_of_ne_nil _ some] at member
    exact shown c member
  exact (bracketed_of_accepts group first accepted).not_suffix some group.bracketed

/-- The suffixes inside a group are not JSON. -/
private theorem offsets_group {value : List Char} (group : IsGroup ν value) :
    ∃ inner, offsets value = value :: inner ∧ ∀ suffix ∈ inner, accepts ν suffix = false := by
  obtain ⟨c, first, opens⟩ := group.opens
  obtain ⟨rest, rfl⟩ := List.head?_eq_some_iff.mp first
  refine ⟨offsets rest, by rw [offsets, if_pos opens], ?_⟩
  intro suffix member
  obtain ⟨before, d, tail, rfl, shape, here⟩ := mem_offsets member
  by_contra accepted
  obtain ⟨last, final, closes⟩ := group.closes
  have ends : suffix.getLast? = some last := by
    rw [← List.getLast?_append_of_ne_nil (c :: before) (by rw [shape]; exact List.cons_ne_nil _ _)]
    exact final
  have inside : IsGroup ν suffix := ⟨by simpa using accepted, ⟨d, by rw [shape]; rfl, here⟩, ⟨last, ends, closes⟩⟩
  exact @Bracketed.not_suffix (c :: before) suffix group.bracketed (List.cons_ne_nil _ _) inside.bracketed

/-! ## The scan of the suffixes -/

private theorem find?_rejected {texts : List (List Char)} (rejected : ∀ text ∈ texts, accepts ν text = false) :
    texts.find? (accepts ν) = none :=
  List.find?_eq_none.mpr fun text member => by simp [rejected text member]

/-- The last accepted text is found just when the limit reaches it. -/
private theorem find?_limited {earlier inner : List (List Char)} {value : List Char} (limit : Nat) (accepted :
    accepts ν value = true)
    (rejected : ∀ text ∈ inner, accepts ν text = false) :
    ((earlier ++ value :: inner).drop ((earlier ++ value :: inner).length - limit)).reverse.find? (accepts ν) =
      if inner.length < limit then some value else none := by
  by_cases reached : inner.length < limit
  · have kept : (earlier ++ value :: inner).length - limit ≤ earlier.length := by
      rw [List.length_append, List.length_cons]
      omega
    have behind : inner.reverse.find? (accepts ν) = none :=
      find?_rejected fun text member => rejected text (List.mem_reverse.mp member)
    rw [if_pos reached, List.drop_append_of_le_length kept, List.reverse_append, List.reverse_cons, List.append_assoc,
      List.find?_append,
      behind, Option.none_or, List.singleton_append, List.find?_cons_of_pos accepted]
  · have passed : (earlier ++ value :: inner).length - limit = (earlier ++ [value]).length + (inner.length - limit) := by
      rw [List.length_append, List.length_cons, List.length_append, List.length_singleton]
      omega
    have shape : earlier ++ value :: inner = (earlier ++ [value]) ++ inner := by simp
    rw [if_neg reached, passed, shape, List.drop_length_add_append]
    exact find?_rejected fun text member => rejected text (List.mem_of_mem_drop (List.mem_reverse.mp member))

private theorem suffixJsonCandidate_group {value : List Char} (group : IsGroup ν value) (before : List Char) :
    suffixJsonCandidate ν (before ++ value) = if value.countP isOpening ≤ suffixCandidateLimit then some value else none := by
  obtain ⟨inner, split, rejected⟩ := offsets_group group
  have count : value.countP isOpening = inner.length + 1 := by rw [← length_offsets, split, List.length_cons]
  rw [suffixJsonCandidate, offsets_append, split, find?_limited suffixCandidateLimit group.accepted rejected, count]
  rfl

/-! ## The message -/

/-- The last fenced block of the message that is JSON has the text. -/
def QuotedLast (ν : Type) [Numerals ν] (message value : List Char) : Prop :=
  ∃ earlier later, (fencedBlocks 0 message).map trimText = earlier ++ value :: later ∧ ∀ other ∈ later, accepts ν other = false

private theorem find?_fenced {message value : List Char} (accepted : accepts ν value = true) :
    ((fencedBlocks 0 message).map trimText).reverse.find? (accepts ν) = some value ↔ QuotedLast ν message value := by
  rw [List.find?_eq_some_iff_append]
  constructor
  · rintro ⟨-, later, earlier, split, rejected⟩
    refine ⟨earlier.reverse, later.reverse, ?_, fun other member => ?_⟩
    · rw [← List.reverse_reverse ((fencedBlocks 0 message).map trimText), split]
      simp
    · simpa using rejected other (List.mem_reverse.mp member)
  · rintro ⟨earlier, later, split, rejected⟩
    refine ⟨accepted, later.reverse, earlier.reverse, by rw [split]; simp, fun other member => ?_⟩
    simpa using rejected other (List.mem_reverse.mp member)

/-- What is trimmed of a message that ends in a group, and blanks. -/
private theorem trimText_group {before value after : List Char} (group : IsGroup ν value) (blank :
    ∀ c ∈ after, isJsWhitespace c = true) :
    trimText (before ++ value ++ after) = before.dropWhile isJsWhitespace ++ value := by
  obtain ⟨c, first, opens⟩ := group.opens
  obtain ⟨rest, shape⟩ := List.head?_eq_some_iff.mp first
  obtain ⟨last, final, closes⟩ := group.closes
  obtain ⟨middle, ends⟩ := List.getLast?_eq_some_iff.mp final
  have front : (before ++ (value ++ after)).dropWhile isJsWhitespace = before.dropWhile isJsWhitespace ++ (value ++ after) := by
    rw [List.dropWhile_append]
    split
    · rename_i empty
      rw [List.isEmpty_iff.mp empty, List.nil_append, shape, List.cons_append, List.dropWhile_cons_of_neg]
      rw [visible_of_bracket (.inl opens)]
      exact Bool.false_ne_true
    · rfl
  have kept : ¬ isJsWhitespace last = true := by
    rw [visible_of_bracket (.inr closes)]
    exact Bool.false_ne_true
  have self : (before.dropWhile isJsWhitespace ++ value).rdropWhile isJsWhitespace = before.dropWhile isJsWhitespace ++ value :=
    by
    rw [ends, ← List.append_assoc, List.rdropWhile_concat_neg _ _ _ kept]
  have trimmed : ((before.dropWhile isJsWhitespace ++ value).rdropWhile isJsWhitespace ++ after).rdropWhile isJsWhitespace =
      (before.dropWhile isJsWhitespace ++ value).rdropWhile isJsWhitespace := BreakOn.rdropWhile_append_blank blank
  rw [trimText, List.append_assoc, front, ← List.append_assoc]
  rwa [self] at trimmed

/-- A group at the end of a message is what `extractJson` gives just when nothing visible stands before it, the scan of the
suffixes reaches
its first bracket, or a fenced block has its text. -/
theorem extractJson_trailing_iff {before value after : List Char} (group : IsGroup ν value)
    (blank : ∀ c ∈ after, isJsWhitespace c = true) :
    extractJson ν (before ++ value ++ after) = some value ↔
      (∀ c ∈ before, isJsWhitespace c = true) ∨ value.countP isOpening ≤ suffixCandidateLimit ∨
        QuotedLast ν (before ++ value ++ after) value := by
  rw [extractJson, trimText_group group blank]
  by_cases nothing : before.dropWhile isJsWhitespace = []
  · rw [nothing, List.nil_append, if_pos group.accepted]
    exact iff_of_true rfl (.inl (List.dropWhile_eq_nil_iff.mp nothing))
  · have shown : ∀ c ∈ (before.dropWhile isJsWhitespace).head?, isJsWhitespace c = false := by
      intro c member
      have first := List.head?_dropWhile_not isJsWhitespace before
      rw [Option.mem_def.mp member] at first
      exact first
    have visible : ¬ ∀ c ∈ before, isJsWhitespace c = true := fun all => nothing (List.dropWhile_eq_nil_iff.mpr all)
    rw [if_neg (by rw [not_accepts_behind group nothing shown]; exact Bool.false_ne_true), suffixJsonCandidate_group group]
    by_cases few : value.countP isOpening ≤ suffixCandidateLimit
    · rw [if_pos few]
      exact iff_of_true rfl (.inr (.inl few))
    · rw [if_neg few]
      simp only [visible, few, false_or]
      exact find?_fenced group.accepted

end

/-- A verdict behind prose, with a bracket and a quote inside its string. -/
theorem extractJson_verdict :
    extractJson Nat (['o', 'k', ':'] ++ ['{', '"', 'v', '"', ':', '[', '"', '}', '[', '\\', '"', '"', ']', '}'] ++ ['\n']) =
      some ['{', '"', 'v', '"', ':', '[', '"', '}', '[', '\\', '"', '"', ']', '}'] :=
  (extractJson_trailing_iff ⟨by decide, ⟨'{', rfl, rfl⟩, ⟨'}', rfl, rfl⟩⟩ (List.forall_mem_singleton.mpr (by decide))).mpr
    (.inr (.inl (by decide)))

/-! ## A text with too many brackets -/

private theorem fencedBlocks_nil {text : List Char} (plain : '`' ∉ text) (taken : Nat) : fencedBlocks taken text = [] := by
  induction text generalizing taken with
  | nil => cases taken <;> rfl
  | cons c text ih =>
    have further := ih (fun member => plain (List.mem_cons_of_mem c member))
    cases taken with
    | succ taken => exact further taken
    | zero =>
      have other : fencedBlock (c :: text) = none := by
        rw [fencedBlock, fenceBody]
        · rfl
        · rintro j s o n rest ⟨⟩
          exact plain List.mem_cons_self
      rw [fencedBlocks, other]
      exact further 0

/-- An array of one string of brackets. -/
def crowded (count : Nat) : List Char := '[' :: '"' :: List.replicate count '[' ++ ['"', ']']

private theorem crowded_group (count : Nat) : IsGroup Nat (crowded count) := by
  have text : crowded count = render (.array [.string (String.ofList (List.replicate count '['))] : JsValue Nat) := by
    have plain : quoteChar '[' = ['['] := rfl
    simp [crowded, render, itemTexts, joinTexts, quote, List.flatMap_replicate, plain]
  refine ⟨?_, ⟨'[', rfl, rfl⟩, ⟨']', ?_, rfl⟩⟩
  · rw [accepts, text, parse_render]
    rfl
  · have ends : crowded count = ('[' :: '"' :: List.replicate count '[' ++ ['"']) ++ [']'] := by simp [crowded]
    rw [ends, List.getLast?_concat]
    rfl

private theorem countP_crowded (count : Nat) : (crowded count).countP isOpening = count + 1 := by
  simp [crowded, isOpening, List.countP_replicate]

/-- Behind a word, and quoted nowhere, such an array is not found when it has too many brackets. -/
private theorem extractJson_crowded {count : Nat} (many : suffixCandidateLimit ≤ count) :
    accepts Nat (['o', 'k'] ++ crowded count) = false ∧ extractJson Nat (['o', 'k'] ++ crowded count ++ []) = none := by
  have shown : ∀ c ∈ ['o', 'k'].head?, isJsWhitespace c = false := by
    rintro c ⟨⟩
    decide
  have missed : suffixJsonCandidate Nat (['o', 'k'] ++ crowded count) = none := by
    rw [suffixJsonCandidate_group (crowded_group count), countP_crowded, if_neg (Nat.not_le.mpr (Nat.lt_succ_of_le many))]
  have refused := not_accepts_behind (crowded_group count) (List.cons_ne_nil _ _) shown
  have front : ['o', 'k'].dropWhile isJsWhitespace = ['o', 'k'] := by decide
  have unfenced : fencedBlocks 0 (['o', 'k'] ++ crowded count ++ []) = [] := by
    refine fencedBlocks_nil ?_ 0
    simp [crowded, List.mem_replicate]
  refine ⟨refused, ?_⟩
  rw [extractJson, trimText_group (crowded_group count) (fun _ member => absurd member List.not_mem_nil), front,
    if_neg (by rw [refused]; exact Bool.false_ne_true), missed, unfenced]
  rfl

/-- Two hundred brackets in a string are too many. -/
theorem extractJson_crowded_misses :
    IsGroup Nat (crowded 200) ∧ accepts Nat (['o', 'k'] ++ crowded 200) = false ∧
      extractJson Nat (['o', 'k'] ++ crowded 200 ++ []) = none :=
  ⟨crowded_group 200, extractJson_crowded (le_refl 200)⟩

end Faberun.Protocol
