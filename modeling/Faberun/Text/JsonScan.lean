import Mathlib.Data.List.TakeWhile
import Faberun.Text.JsonText

/-! # Scanning JSON text

A scan that knows quotes, backslashes, brackets and the few characters that stand between them. What the parser reads as a value brings the scan back to where it was, so a text
in brackets ends where it opened, and no end of it that opens a bracket of its own is a text in brackets: inside a string the scan of that
end alone is always on the other side of a quote.
-/

namespace Faberun.JsonText

/-! ## The scan -/

/-- Where a scan stands: between quotes' ends, inside a string, or behind a backslash there. -/
inductive Place where
  | outside
  | quoted
  | escaped
  deriving DecidableEq

def isOpening (c : Char) : Bool := c == '{' || c == '['

def isClosing (c : Char) : Bool := c == '}' || c == ']'

/-- The characters that stand outside strings and are no brackets. -/
def isPlain (c : Char) : Bool := isSpace c || isNumeral c || [',', ':', 't', 'r', 'u', 'f', 'a', 'l', 's', 'n'].contains c

/-- One character; nothing where no value goes on. -/
def scanChar : Place × Nat → Char → Option (Place × Nat)
  | (.outside, depth), c =>
    if c = '"' then some (.quoted, depth)
    else if isOpening c then some (.outside, depth + 1)
    else if isClosing c then if depth = 0 then none else some (.outside, depth - 1)
    else if isPlain c then some (.outside, depth)
    else none
  | (.quoted, depth), c =>
    if c = '"' then some (.outside, depth) else if c = '\\' then some (.escaped, depth) else some (.quoted, depth)
  | (.escaped, depth), c => if isOpening c then none else some (.quoted, depth)

def scan (text : List Char) (state : Place × Nat) : Option (Place × Nat) := text.foldlM scanChar state

@[simp] theorem scan_nil (state : Place × Nat) : scan [] state = some state := rfl

@[simp] theorem scan_cons (c : Char) (text : List Char) (state : Place × Nat) :
    scan (c :: text) state = (scanChar state c).bind (scan text) := rfl

theorem scan_append (first second : List Char) (state : Place × Nat) :
    scan (first ++ second) state = (scan first state).bind (scan second) := List.foldlM_append

private theorem scanChar_shift {place place' : Place} {depth depth' : Nat} {c : Char} (more : Nat)
    (read : scanChar (place, depth) c = some (place', depth')) :
    scanChar (place, depth + more) c = some (place', depth' + more) := by
  cases place with
  | outside =>
    unfold scanChar at read ⊢
    simp only at read ⊢
    split_ifs at read ⊢ <;> simp_all
    all_goals omega
  | quoted =>
    unfold scanChar at read ⊢
    simp only at read ⊢
    split_ifs at read ⊢ <;> simp_all
  | escaped =>
    unfold scanChar at read ⊢
    simp only at read ⊢
    split_ifs at read ⊢
    simp_all

/-- A scan under more open brackets. -/
theorem scan_shift {text : List Char} {place place' : Place} {depth depth' : Nat} (more : Nat)
    (read : scan text (place, depth) = some (place', depth')) : scan text (place, depth + more) = some (place', depth' + more) := by
  induction text generalizing place depth with
  | nil =>
    obtain ⟨rfl, rfl⟩ := Prod.mk.inj (Option.some.inj read)
    rfl
  | cons c text ih =>
    obtain ⟨⟨next, below⟩, first, rest⟩ := Option.bind_eq_some_iff.mp read
    rw [scan_cons, scanChar_shift more first]
    exact ih rest

/-! ## Balanced text -/

/-- The scan of the text comes back to where it was. -/
def Balanced (text : List Char) : Prop := scan text (.outside, 0) = some (.outside, 0)

theorem Balanced.at_depth {text : List Char} (balanced : Balanced text) (depth : Nat) :
    scan text (.outside, depth) = some (.outside, depth) := by
  have shifted := scan_shift depth balanced
  rwa [Nat.zero_add] at shifted

theorem Balanced.append {first second : List Char} (one : Balanced first) (two : Balanced second) : Balanced (first ++ second) := by
  rw [Balanced, scan_append, one, Option.bind_some]
  exact two

/-- A plain character is neither a quote nor a bracket. -/
private theorem marks_not_plain {c : Char} (plain : isPlain c = true) : c ≠ '"' ∧ isOpening c = false ∧ isClosing c = false := by
  refine ⟨?_, ?_, ?_⟩
  · rintro rfl
    contradiction
  · by_contra opens
    rw [Bool.not_eq_false, isOpening, Bool.or_eq_true, beq_iff_eq, beq_iff_eq] at opens
    rcases opens with rfl | rfl <;> contradiction
  · by_contra closes
    rw [Bool.not_eq_false, isClosing, Bool.or_eq_true, beq_iff_eq, beq_iff_eq] at closes
    rcases closes with rfl | rfl <;> contradiction

theorem balanced_of_plain {text : List Char} (plain : ∀ c ∈ text, isPlain c = true) : Balanced text := by
  induction text with
  | nil => rfl
  | cons c text ih =>
    have here : scanChar (.outside, 0) c = some (.outside, 0) := by
      have plain := plain c List.mem_cons_self
      simp [scanChar, plain, marks_not_plain plain]
    rw [Balanced, scan_cons, here]
    exact ih fun other member => plain other (List.mem_cons_of_mem c member)

theorem Balanced.group {inner : List Char} (balanced : Balanced inner) {opening close : Char} (opens : isOpening opening = true)
    (closes : isClosing close = true) : Balanced (opening :: inner ++ [close]) := by
  have first : scanChar (.outside, 0) opening = some (.outside, 1) := by
    rcases (by simpa [isOpening] using opens : opening = '{' ∨ opening = '[') with rfl | rfl <;> rfl
  have last : scanChar (.outside, 1) close = some (.outside, 0) := by
    rcases (by simpa [isClosing] using closes : close = '}' ∨ close = ']') with rfl | rfl <;> rfl
  rw [Balanced, List.cons_append, scan_cons, first, Option.bind_some, scan_append, balanced.at_depth 1, Option.bind_some, scan_cons, last]
  rfl

theorem isPlain_of_isSpace {c : Char} (space : isSpace c = true) : isPlain c = true := by rw [isPlain, space, Bool.true_or, Bool.true_or]

theorem isPlain_of_isNumeral {c : Char} (numeral : isNumeral c = true) : isPlain c = true := by
  rw [isPlain, numeral, Bool.or_true, Bool.true_or]

theorem skipSpace_split (text : List Char) :
    ∃ spaces, text = spaces ++ skipSpace text ∧ Balanced spaces ∧ ∀ c ∈ spaces, isSpace c = true := by
  have each : ∀ c ∈ text.takeWhile isSpace, isSpace c = true := fun c member => List.mem_takeWhile_imp member
  refine ⟨text.takeWhile isSpace, List.takeWhile_append_dropWhile.symm, ?_, each⟩
  exact balanced_of_plain fun c member => isPlain_of_isSpace (each c member)

/-! ## Strings -/

private theorem hexValue_plain {c : Char} {value : Nat} (digit : hexValue c = some value) : c ≠ '"' ∧ c ≠ '\\' := by
  have quote : hexValue '"' = none := by decide
  have slash : hexValue '\\' = none := by decide
  constructor
  · rintro rfl
    rw [quote] at digit
    contradiction
  · rintro rfl
    rw [slash] at digit
    contradiction

private theorem escapeUnit_opening {c : Char} {unit : Nat} (escapes : escapeUnit c = some unit) : isOpening c = false := by
  have brace : escapeUnit '{' = none := by decide
  have bracket : escapeUnit '[' = none := by decide
  by_contra opens
  rw [Bool.not_eq_false, isOpening, Bool.or_eq_true, beq_iff_eq, beq_iff_eq] at opens
  rcases opens with rfl | rfl
  · rw [brace] at escapes
    contradiction
  · rw [bracket] at escapes
    contradiction

private theorem scanChar_quoted {c : Char} (plain : c ≠ '"' ∧ c ≠ '\\') : scanChar (.quoted, 0) c = some (.quoted, 0) := by
  simp [scanChar, plain.1, plain.2]

private theorem scan_escape (escape : Char) (text : List Char) (other : isOpening escape = false) :
    scan ('\\' :: escape :: text) (.quoted, 0) = scan text (.quoted, 0) := by
  simp [scanChar, other]

/-- What the parser reads of a string stays in the string. -/
private theorem parseUnits_scan {text rest : List Char} {units : List Nat} (read : parseUnits text = some (units, rest)) :
    ∃ used, text = used ++ '"' :: rest ∧ scan used (.quoted, 0) = some (.quoted, 0) := by
  fun_induction parseUnits text generalizing units with
  | case1 => contradiction
  | case2 after =>
    obtain ⟨-, rfl⟩ := Prod.mk.inj (Option.some.inj read)
    exact ⟨[], rfl, rfl⟩
  | case3 => contradiction
  | case4 a b c d after _ ih =>
    obtain ⟨unit, hex, read⟩ := Option.bind_eq_some_iff.mp read
    obtain ⟨others, tail, same⟩ := Option.map_eq_some_iff.mp read
    obtain ⟨-, rfl⟩ := Prod.mk.inj same
    obtain ⟨used, rfl, stays⟩ := ih tail
    simp only [hexUnit, Option.bind_eq_bind, Option.bind_eq_some_iff] at hex
    obtain ⟨first, one, second, two, third, three, fourth, four, -⟩ := hex
    refine ⟨'\\' :: 'u' :: a :: b :: c :: d :: used, rfl, ?_⟩
    rw [scan_escape 'u' _ rfl]
    simp only [scan_cons, Option.bind_some, scanChar_quoted (hexValue_plain one), scanChar_quoted (hexValue_plain two),
      scanChar_quoted (hexValue_plain three), scanChar_quoted (hexValue_plain four), stays]
  | case5 => contradiction
  | case6 escape after _ _ ih =>
    obtain ⟨unit, known, read⟩ := Option.bind_eq_some_iff.mp read
    obtain ⟨others, tail, same⟩ := Option.map_eq_some_iff.mp read
    obtain ⟨-, rfl⟩ := Prod.mk.inj same
    obtain ⟨used, rfl, stays⟩ := ih tail
    exact ⟨'\\' :: escape :: used, rfl, by rw [scan_escape escape _ (escapeUnit_opening known), stays]⟩
  | case7 => contradiction
  | case8 c after quotes slash _ ih =>
    obtain ⟨others, tail, same⟩ := Option.map_eq_some_iff.mp read
    obtain ⟨-, rfl⟩ := Prod.mk.inj same
    obtain ⟨used, rfl, stays⟩ := ih tail
    exact ⟨c :: used, rfl, by rw [scan_cons, scanChar_quoted ⟨quotes, slash⟩, Option.bind_some, stays]⟩

private theorem parseQuoted_scan {text rest : List Char} {value : String} (read : parseQuoted text = some (value, rest)) :
    ∃ used, text = used ++ '"' :: rest ∧ Balanced ('"' :: used ++ ['"']) := by
  obtain ⟨units, inner, same⟩ := Option.map_eq_some_iff.mp read
  obtain ⟨-, rfl⟩ := Prod.mk.inj same
  obtain ⟨used, split, stays⟩ := parseUnits_scan inner
  have opens : scanChar (.outside, 0) '"' = some (.quoted, 0) := rfl
  refine ⟨used, split, ?_⟩
  rw [Balanced, List.cons_append, scan_cons, opens, Option.bind_some, scan_append, stays]
  rfl

/-! ## Groups -/

section Group

variable {α : Type} {member : List Char → Option (α × List Char)} {close : Char}

/-- What a parser reads is balanced text before what it leaves. -/
def Consumes (parser : List Char → Option (α × List Char)) : Prop :=
  ∀ {text value rest}, parser text = some (value, rest) → ∃ used, text = used ++ rest ∧ Balanced used

private theorem parseMembers_scan (consumes : Consumes member) {count : Nat} {text rest : List Char} {values : List α}
    (read : parseMembers member close count text = some (values, rest)) : ∃ used, text = used ++ close :: rest ∧ Balanced used := by
  induction count generalizing text values with
  | zero => contradiction
  | succ count ih =>
    rw [parseMembers] at read
    obtain ⟨⟨first, after⟩, here, onward⟩ := Option.bind_eq_some_iff.mp read
    obtain ⟨used, rfl, balanced⟩ := consumes here
    obtain ⟨spaces, split, blank, -⟩ := skipSpace_split after
    split at onward
    · contradiction
    · rename_i c tail skipped
      split_ifs at onward with comma closed
      · obtain ⟨others, inner, same⟩ := Option.map_eq_some_iff.mp onward
        obtain ⟨-, rfl⟩ := Prod.mk.inj same
        obtain ⟨more, rfl, rests⟩ := ih inner
        have separator : Balanced [','] := rfl
        refine ⟨used ++ (spaces ++ ([','] ++ more)), ?_, balanced.append (blank.append (separator.append rests))⟩
        rw [split, skipped, comma]
        simp
      · obtain ⟨-, rfl⟩ := Prod.mk.inj (Option.some.inj onward)
        refine ⟨used ++ spaces, ?_, balanced.append blank⟩
        rw [split, skipped, closed, List.append_assoc]

private theorem parseGroup_scan (consumes : Consumes member) {count : Nat} {text rest : List Char} {values : List α}
    (read : parseGroup member close count text = some (values, rest)) : ∃ used, text = used ++ close :: rest ∧ Balanced used := by
  rw [parseGroup] at read
  obtain ⟨spaces, split, blank, -⟩ := skipSpace_split text
  split at read
  · contradiction
  · rename_i c tail skipped
    split_ifs at read with closed
    · obtain ⟨-, rfl⟩ := Prod.mk.inj (Option.some.inj read)
      exact ⟨spaces, by rw [split, skipped, closed], blank⟩
    · exact parseMembers_scan consumes read

end Group

/-! ## Values -/

section Values

variable {ν : Type}

private theorem parseField_consumes {value : List Char → Option (JsValue ν × List Char)} (consumes : Consumes value) :
    Consumes (parseField value) := by
  intro text field rest read
  obtain ⟨spaces, split, blank, -⟩ := skipSpace_split text
  rw [parseField] at read
  split at read
  · rename_i tail skipped
    obtain ⟨⟨key, after⟩, named, onward⟩ := Option.bind_eq_some_iff.mp read
    obtain ⟨quoted, rfl, string⟩ := parseQuoted_scan named
    obtain ⟨more, further, gap, -⟩ := skipSpace_split after
    split at onward
    · rename_i behind colon
      obtain ⟨⟨parsed, left⟩, inner, same⟩ := Option.map_eq_some_iff.mp onward
      obtain ⟨-, rfl⟩ := Prod.mk.inj same
      obtain ⟨used, rfl, balanced⟩ := consumes inner
      have separator : Balanced [':'] := rfl
      refine ⟨spaces ++ (('"' :: quoted ++ ['"']) ++ (more ++ ([':'] ++ used))), ?_,
        blank.append (string.append (gap.append (separator.append balanced)))⟩
      rw [split, skipped, further, colon]
      simp
    · contradiction
  · contradiction

private theorem parseLiteral_scan {text rest : List Char} {value : JsValue ν} (read : parseLiteral text = some (value, rest)) :
    ∃ used, text = used ++ rest ∧ Balanced used ∧ used ≠ [] ∧ ∀ last ∈ used.getLast?, isClosing last = false := by
  unfold parseLiteral at read
  split at read
  · obtain ⟨-, rfl⟩ := Prod.mk.inj (Option.some.inj read)
    exact ⟨['n', 'u', 'l', 'l'], rfl, rfl, nofun, by rintro last ⟨⟩; rfl⟩
  · obtain ⟨-, rfl⟩ := Prod.mk.inj (Option.some.inj read)
    exact ⟨['t', 'r', 'u', 'e'], rfl, rfl, nofun, by rintro last ⟨⟩; rfl⟩
  · obtain ⟨-, rfl⟩ := Prod.mk.inj (Option.some.inj read)
    exact ⟨['f', 'a', 'l', 's', 'e'], rfl, rfl, nofun, by rintro last ⟨⟩; rfl⟩
  · contradiction

variable [Numerals ν]

private theorem parseNumber_scan {c : Char} {text rest : List Char} {value : JsValue ν} (numeral : isNumeral c = true)
    (read : parseNumber (c :: text) = some (value, rest)) :
    ∃ used, c :: text = used ++ rest ∧ Balanced used ∧ used ≠ [] ∧ ∀ last ∈ used.getLast?, isClosing last = false := by
  obtain ⟨number, -, same⟩ := Option.map_eq_some_iff.mp read
  obtain ⟨-, rfl⟩ := Prod.mk.inj same
  have plain : ∀ d ∈ (c :: text).takeWhile isNumeral, isPlain d = true :=
    fun d member => isPlain_of_isNumeral (List.mem_takeWhile_imp member)
  refine ⟨(c :: text).takeWhile isNumeral, List.takeWhile_append_dropWhile.symm, balanced_of_plain plain, ?_, ?_⟩
  · rw [List.takeWhile_cons, if_pos numeral]
    exact List.cons_ne_nil _ _
  · intro last member
    exact (marks_not_plain (plain last (List.mem_of_getLast? member))).2.2

/-- A value in brackets: its opening bracket, balanced text and the bracket that closes it. -/
private theorem parseValue_opening {fuel : Nat} (consumes : Consumes (parseValue (ν := ν) fuel)) {c : Char} {text tail rest : List Char}
    {value : JsValue ν} (skipped : skipSpace text = c :: tail) (opens : isOpening c = true)
    (read : parseValue (fuel + 1) text = some (value, rest)) :
    ∃ inner close, tail = inner ++ close :: rest ∧ Balanced inner ∧ isClosing close = true := by
  rw [parseValue, skipped] at read
  rw [isOpening, Bool.or_eq_true, beq_iff_eq, beq_iff_eq] at opens
  rcases opens with rfl | rfl
  · obtain ⟨fields, inner, same⟩ := Option.map_eq_some_iff.mp read
    obtain ⟨-, rfl⟩ := Prod.mk.inj same
    obtain ⟨used, split, balanced⟩ := parseGroup_scan (parseField_consumes consumes) inner
    exact ⟨used, '}', split, balanced, rfl⟩
  · obtain ⟨items, inner, same⟩ := Option.map_eq_some_iff.mp read
    obtain ⟨-, rfl⟩ := Prod.mk.inj same
    obtain ⟨used, split, balanced⟩ := parseGroup_scan consumes inner
    exact ⟨used, ']', split, balanced, rfl⟩

/-- Any other value does not end in a closing bracket. -/
private theorem parseValue_other {fuel : Nat} {c : Char} {text tail rest : List Char} {value : JsValue ν}
    (skipped : skipSpace text = c :: tail) (other : isOpening c = false) (read : parseValue (fuel + 1) text = some (value, rest)) :
    ∃ used, c :: tail = used ++ rest ∧ Balanced used ∧ used ≠ [] ∧ ∀ last ∈ used.getLast?, isClosing last = false := by
  rw [parseValue, skipped] at read
  rw [isOpening, Bool.or_eq_false_iff, beq_eq_false_iff_ne, beq_eq_false_iff_ne] at other
  by_cases quote : c = '"'
  · simp only [quote, ↓reduceIte] at read
    obtain ⟨⟨string, after⟩, inner, same⟩ := Option.map_eq_some_iff.mp read
    obtain ⟨-, rfl⟩ := Prod.mk.inj same
    obtain ⟨used, rfl, balanced⟩ := parseQuoted_scan inner
    refine ⟨'"' :: used ++ ['"'], by simp [quote], balanced, List.cons_ne_nil _ _, ?_⟩
    rw [List.getLast?_concat]
    rintro last ⟨⟩
    rfl
  · simp only [quote, other.1, other.2, ↓reduceIte] at read
    split_ifs at read with numeral
    · exact parseNumber_scan numeral read
    · exact parseLiteral_scan read

private theorem parseValue_consumes (fuel : Nat) : Consumes (parseValue (ν := ν) fuel) := by
  induction fuel with
  | zero => nofun
  | succ fuel ih =>
    intro text value rest read
    obtain ⟨spaces, split, blank, -⟩ := skipSpace_split text
    cases skipped : skipSpace text with
    | nil =>
      rw [parseValue, skipped] at read
      contradiction
    | cons c tail =>
      rw [skipped] at split
      cases opens : isOpening c with
      | true =>
        obtain ⟨inner, close, rfl, balanced, closes⟩ := parseValue_opening ih skipped opens read
        exact ⟨spaces ++ (c :: inner ++ [close]), by simp [split], blank.append (balanced.group opens closes)⟩
      | false =>
        obtain ⟨used, rest', balanced, -⟩ := parseValue_other skipped opens read
        exact ⟨spaces ++ used, by rw [split, rest', List.append_assoc], blank.append balanced⟩

end Values

/-! ## Texts in brackets -/

/-- A balanced text between an opening and a closing bracket. -/
def Bracketed (text : List Char) : Prop :=
  ∃ opening inner close, text = opening :: inner ++ [close] ∧ isOpening opening = true ∧ isClosing close = true ∧ Balanced inner

/-- The two sides of a quote. -/
def Opposite (place place' : Place) : Prop := (place = .quoted ∧ place' = .outside) ∨ (place = .outside ∧ place' = .quoted)

private theorem Opposite.symm {place place' : Place} (opposite : Opposite place place') : Opposite place' place :=
  (Or.symm opposite).imp And.symm And.symm

/-- No backslash is read on the two sides of a quote: it is outside a string on one of them. -/
private theorem scanChar_opposite {depth depth' : Nat} {c : Char} {next next' : Place × Nat}
    (here : scanChar (.quoted, depth) c = some next) (there : scanChar (.outside, depth') c = some next') : Opposite next.1 next'.1 := by
  by_cases slash : c = '\\'
  · obtain rfl := slash
    contradiction
  · unfold scanChar at here there
    simp only [slash, if_false] at here there
    split_ifs at here there <;> simp_all [Opposite] <;> (subst_vars; simp)

/-- Two scans of one text that begin on the two sides of a quote end on the two sides of one. -/
private theorem scan_opposite {text : List Char} {place place' : Place} {depth depth' : Nat} {first second : Place × Nat}
    (opposite : Opposite place place') (one : scan text (place, depth) = some first) (two : scan text (place', depth') = some second) :
    Opposite first.1 second.1 := by
  induction text generalizing place place' depth depth' with
  | nil =>
    cases one
    cases two
    exact opposite
  | cons c text ih =>
    obtain ⟨⟨next, below⟩, here, left⟩ := Option.bind_eq_some_iff.mp one
    obtain ⟨⟨next', below'⟩, there, right⟩ := Option.bind_eq_some_iff.mp two
    rcases opposite with ⟨rfl, rfl⟩ | ⟨rfl, rfl⟩
    · exact ih (scanChar_opposite here there) left right
    · exact ih (scanChar_opposite there here).symm left right

/-- A text in brackets does not end in another one. -/
theorem Bracketed.not_suffix {before after : List Char} (whole : Bracketed (before ++ after)) (some : before ≠ []) :
    ¬ Bracketed after := by
  rintro ⟨opening, inner, close, rfl, opens, -, balanced⟩
  obtain ⟨outer, content, last, split, -, -, around⟩ := whole
  obtain ⟨head, before, rfl⟩ := List.exists_cons_of_ne_nil some
  have content_eq : content = before ++ opening :: inner := by
    have same : before ++ (opening :: inner) ++ [close] = content ++ [last] := by simpa using (List.cons.inj split).2
    exact (List.append_inj' same rfl).1.symm
  have shown : opening ≠ '"' ∧ opening ≠ '\\' := by
    constructor
    · rintro rfl
      contradiction
    · rintro rfl
      contradiction
  rw [content_eq, Balanced, scan_append] at around
  obtain ⟨⟨place, depth⟩, -, around⟩ := Option.bind_eq_some_iff.mp around
  rw [scan_cons] at around
  cases place with
  | outside =>
    have deeper : scanChar (.outside, depth) opening = .some (.outside, depth + 1) := by simp [scanChar, shown, opens]
    rw [deeper, Option.bind_some, balanced.at_depth (depth + 1)] at around
    exact absurd (congrArg Prod.snd (Option.some.inj around)) (Nat.succ_ne_zero depth)
  | quoted =>
    have stays : scanChar (.quoted, depth) opening = .some (.quoted, depth) := by simp [scanChar, shown]
    rw [stays, Option.bind_some] at around
    rcases scan_opposite (.inl ⟨rfl, rfl⟩) around balanced with ⟨inString, -⟩ | ⟨-, inString⟩
    · contradiction
    · contradiction
  | escaped =>
    have refused : scanChar (.escaped, depth) opening = none := by simp [scanChar, opens]
    rw [refused] at around
    contradiction

/-! ## What the parser accepts -/

section Accepted

variable {ν : Type} [Numerals ν]

private theorem isSpace_of_isClosing {c : Char} (closes : isClosing c = true) : isSpace c = false := by
  rw [isClosing, Bool.or_eq_true, beq_iff_eq, beq_iff_eq] at closes
  rcases closes with rfl | rfl <;> rfl

/-- Nothing but the value stands before a closing bracket at the very end. -/
private theorem rest_nil {used rest : List Char} {last : Char} (blank : skipSpace rest = []) (closes : isClosing last = true)
    {text : List Char} (split : text ++ [last] = used ++ rest) : rest = [] := by
  by_contra more
  have final : (used ++ rest).getLast? = some last := by rw [← split, List.getLast?_concat]
  rw [List.getLast?_append_of_ne_nil _ more] at final
  have space : isSpace last = true := List.dropWhile_eq_nil_iff.mp blank last (List.mem_of_getLast? final)
  rw [isSpace_of_isClosing closes] at space
  contradiction

/-- What the parser accepts is balanced. -/
theorem balanced_of_parse {text : List Char} (accepted : (parse (ν := ν) text).isSome = true) : Balanced text := by
  obtain ⟨value, read⟩ := Option.isSome_iff_exists.mp accepted
  obtain ⟨⟨parsed, rest⟩, read, blank⟩ := Option.bind_eq_some_iff.mp read
  have blank : skipSpace rest = [] := by
    by_contra more
    rw [if_neg more] at blank
    contradiction
  obtain ⟨used, rfl, balanced⟩ := parseValue_consumes _ read
  obtain ⟨spaces, split, spaced, -⟩ := skipSpace_split rest
  rw [blank, List.append_nil] at split
  rw [split]
  exact balanced.append spaced

/-- A text that is JSON and ends in a closing bracket is in brackets, from its first character that is not blank. -/
theorem bracketed_of_parse {c last : Char} {text middle : List Char} (ends : c :: text = middle ++ [last]) (closes : isClosing last = true)
    (visible : isSpace c = false) (accepted : (parse (ν := ν) (c :: text)).isSome = true) : Bracketed (c :: text) := by
  obtain ⟨value, read⟩ := Option.isSome_iff_exists.mp accepted
  obtain ⟨⟨parsed, rest⟩, read, blank⟩ := Option.bind_eq_some_iff.mp read
  have blank : skipSpace rest = [] := by
    by_contra more
    rw [if_neg more] at blank
    contradiction
  have skipped : skipSpace (c :: text) = c :: text := by rw [skipSpace, List.dropWhile_cons, visible]; rfl
  rw [List.length_cons] at read
  cases opens : isOpening c with
  | true =>
    obtain ⟨inner, close, rfl, balanced, closing⟩ := parseValue_opening (parseValue_consumes _) skipped opens read
    have split : middle ++ [last] = (c :: inner ++ [close]) ++ rest := by rw [← ends]; simp
    rw [rest_nil blank closes split]
    exact ⟨c, inner, close, by simp, opens, closing, balanced⟩
  | false =>
    obtain ⟨used, split, -, -, other⟩ := parseValue_other skipped opens read
    have none : rest = [] := rest_nil blank closes (ends.symm.trans split)
    rw [none, List.append_nil] at split
    have final : used.getLast? = .some last := by rw [← split, ends, List.getLast?_concat]
    rw [other last final] at closes
    contradiction

end Accepted

end Faberun.JsonText
