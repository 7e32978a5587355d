import Mathlib.Data.List.DropRight
import Faberun.Text.BreakOn
import Faberun.Model.Json

/-! # Text helpers

`collapseLines` folds control characters, line breaks and runs of white space into single spaces. What it keeps are
the visible characters, so it leaves nothing of a text that has none. `tailText` and `boundedUtf8` cut a text to a
number of bytes at its beginning and at its end.
-/

namespace Faberun

/-- The control characters the first replacement matches; tab and line breaks are left to the others. -/
def isControl (c : Char) : Bool :=
  c.toNat ≤ 0x08 || c.toNat = 0x0B || c.toNat = 0x0C || (0x0E ≤ c.toNat && c.toNat ≤ 0x1F) || c.toNat = 0x7F

/-- Replace every run of characters of a class by one space; `inside` tells whether one is open. -/
def foldRuns (folds : Char → Bool) : Bool → List Char → List Char
  | _, [] => []
  | inside, c :: rest =>
      if folds c then (if inside then foldRuns folds true rest else ' ' :: foldRuns folds true rest)
      else c :: foldRuns folds false rest

/-- `replace(/\r?\n/gu, " ")`. -/
def foldBreaks : List Char → List Char
  | [] => []
  | '\r' :: '\n' :: rest => ' ' :: foldBreaks rest
  | '\n' :: rest => ' ' :: foldBreaks rest
  | c :: rest => c :: foldBreaks rest

/-- `trim()`. -/
def trimText (text : List Char) : List Char := (text.dropWhile isJsWhitespace).rdropWhile isJsWhitespace

/-- Trimming takes nothing visible. -/
theorem visible_trimText (text : List Char) : BreakOn.visible isJsWhitespace (trimText text) = BreakOn.visible isJsWhitespace text := by
  rw [trimText, BreakOn.visible_rdropWhile, BreakOn.visible_dropWhile]

def collapseChars (text : List Char) : List Char :=
  trimText (foldRuns isJsWhitespace false (foldBreaks (foldRuns isControl false text)))

def collapseLines (value : String) : String := String.ofList (collapseChars value.toList)

/-- A character that is neither white space nor a control character. -/
def isVisible (c : Char) : Bool := !isJsWhitespace c && !isControl c

def hasVisible (value : String) : Bool := value.toList.any isVisible

/-! ## Bounded text -/

/-- The bytes of some characters in UTF-8. -/
def charBytes (text : List Char) : Nat := (text.map Char.utf8Size).sum

/-- The longest end of a text that takes at most so many bytes. -/
def tailChars (maxBytes : Nat) : List Char → List Char
  | [] => []
  | c :: rest => if charBytes (c :: rest) ≤ maxBytes then c :: rest else tailChars maxBytes rest

def tailText (value : String) (maxBytes : Nat) : String := String.ofList (tailChars maxBytes value.toList)

/-- The longest beginning of a text that takes at most so many bytes. -/
def headChars (maxBytes : Nat) : List Char → List Char
  | [] => []
  | c :: rest => if c.utf8Size ≤ maxBytes then c :: headChars (maxBytes - c.utf8Size) rest else []

def boundedUtf8 (value : String) (maxBytes : Nat) : String :=
  if charBytes value.toList ≤ maxBytes then value
  else String.ofList (headChars (maxBytes - '…'.utf8Size) value.toList ++ ['…'])

/-! ## What is cut -/

@[simp] theorem charBytes_nil : charBytes [] = 0 := rfl

@[simp] theorem charBytes_cons (c : Char) (rest : List Char) : charBytes (c :: rest) = c.utf8Size + charBytes rest := rfl

@[simp] theorem charBytes_append (first rest : List Char) : charBytes (first ++ rest) = charBytes first + charBytes rest := by
  simp [charBytes]

/-- A text of digits takes a byte for each. -/
theorem charBytes_digits {text : List Char} (digits : ∀ c ∈ text, c.isDigit = true) : charBytes text = text.length := by
  induction text with
  | nil => rfl
  | cons c rest ih =>
    have below : c.val ≤ '9'.val := of_decide_eq_true (Bool.and_eq_true_iff.mp (digits c List.mem_cons_self)).2
    have one : c.utf8Size = 1 := Char.utf8Size_eq_one_iff.mpr (UInt32.le_trans below (by decide))
    rw [charBytes_cons, one, ih fun d member => digits d (List.mem_cons_of_mem c member), List.length_cons, Nat.add_comm]

theorem charBytes_replicate (count : Nat) (c : Char) : charBytes (List.replicate count c) = count * c.utf8Size := by
  simp [charBytes]

private theorem charBytes_headChars_le (maxBytes : Nat) (text : List Char) :
    charBytes (headChars maxBytes text) ≤ maxBytes := by
  induction text generalizing maxBytes with
  | nil => exact Nat.zero_le _
  | cons c rest ih =>
    rw [headChars]
    split_ifs with fits
    · have later := ih (maxBytes - c.utf8Size)
      rw [charBytes_cons]
      omega
    · exact Nat.zero_le _

/-- A bounded text fits its bound, the mark at its end included. -/
theorem charBytes_boundedUtf8_le (value : String) {maxBytes : Nat} (mark : 3 ≤ maxBytes) :
    charBytes (boundedUtf8 value maxBytes).toList ≤ maxBytes := by
  have ellipsis : '…'.utf8Size = 3 := by decide
  rw [boundedUtf8]
  split_ifs with fits
  · exact fits
  · have head := charBytes_headChars_le (maxBytes - '…'.utf8Size) value.toList
    rw [String.toList_ofList, charBytes_append, charBytes_cons, charBytes_nil]
    omega

/-! ## What is kept -/

private theorem mem_foldRuns {folds : Char → Bool} {c : Char} (space : c ≠ ' ') {inside : Bool} {text : List Char} :
    c ∈ foldRuns folds inside text ↔ c ∈ text ∧ folds c = false := by
  induction text generalizing inside with
  | nil => simp [foldRuns]
  | cons first rest ih =>
    rw [foldRuns]
    by_cases folded : folds first = true
    · have differs : folds c = false → c ≠ first := by
        rintro kept rfl
        exact absurd folded (by simp [kept])
      rw [if_pos folded]
      cases inside <;> simp only [Bool.false_eq_true, ↓reduceIte, List.mem_cons, space, false_or, ih] <;>
        exact ⟨fun ⟨member, kept⟩ => ⟨.inr member, kept⟩,
          fun ⟨member, kept⟩ => ⟨member.resolve_left (differs kept), kept⟩⟩
    · rw [if_neg folded]
      simp only [List.mem_cons, ih]
      constructor
      · rintro (rfl | ⟨member, kept⟩)
        · exact ⟨.inl rfl, Bool.eq_false_iff.mpr folded⟩
        · exact ⟨.inr member, kept⟩
      · rintro ⟨rfl | member, kept⟩
        · exact .inl rfl
        · exact .inr ⟨member, kept⟩

private theorem mem_foldBreaks {c : Char} (space : c ≠ ' ') (carriage : c ≠ '\r') (line : c ≠ '\n') {text : List Char} :
    c ∈ foldBreaks text ↔ c ∈ text := by
  fun_induction foldBreaks text with
  | case1 => rfl
  | case2 rest ih => simp [space, carriage, line, ih]
  | case3 rest ih => simp [space, line, ih]
  | case4 first rest _ _ ih => simp [ih]

private theorem mem_trimText {c : Char} (kept : isJsWhitespace c = false) {text : List Char} :
    c ∈ trimText text ↔ c ∈ text := by
  have front (text : List Char) : c ∈ text.dropWhile isJsWhitespace ↔ c ∈ text := by
    induction text with
    | nil => rfl
    | cons first rest ih =>
      rw [List.dropWhile_cons]
      by_cases blank : isJsWhitespace first = true
      · have differs : c ≠ first := by
          rintro rfl
          exact absurd blank (by simp [kept])
        rw [if_pos blank, ih, List.mem_cons, or_iff_right differs]
      · rw [if_neg blank]
  rw [trimText, List.rdropWhile, List.mem_reverse, front, List.mem_reverse, front]

/-- The visible characters are those that survive. -/
theorem mem_collapseChars {c : Char} (kept : isJsWhitespace c = false) {text : List Char} :
    c ∈ collapseChars text ↔ c ∈ text ∧ isControl c = false := by
  have other : ∀ blank, isJsWhitespace blank = true → c ≠ blank := by
    rintro blank white rfl
    exact absurd white (by simp [kept])
  have space := other ' ' (by decide)
  rw [collapseChars, mem_trimText kept, mem_foldRuns space,
    mem_foldBreaks space (other '\r' (by decide)) (other '\n' (by decide)), mem_foldRuns space]
  exact and_iff_left kept

/-- A collapsed text is blank exactly when the text had nothing visible. -/
theorem isBlank_collapseLines {value : String} : isBlank (collapseLines value) = false ↔ hasVisible value = true := by
  rw [isBlank, collapseLines, String.toList_ofList, List.all_eq_false, hasVisible, List.any_eq_true]
  constructor
  · rintro ⟨c, member, kept⟩
    have kept := Bool.eq_false_iff.mpr kept
    obtain ⟨member, control⟩ := (mem_collapseChars kept).mp member
    exact ⟨c, member, by simp [isVisible, kept, control]⟩
  · rintro ⟨c, member, visible⟩
    simp only [isVisible, Bool.and_eq_true, Bool.not_eq_true'] at visible
    exact ⟨c, (mem_collapseChars visible.1).mpr ⟨member, visible.2⟩, by simp [visible.1]⟩

/-- A path stays absolute. -/
theorem collapseChars_slash (rest : List Char) : ∃ tail, collapseChars ('/' :: rest) = '/' :: tail := by
  have control : isControl '/' = false := by decide
  have white : isJsWhitespace '/' = false := by decide
  have breaks : ∀ text, foldBreaks ('/' :: text) = '/' :: foldBreaks text := fun text => by rw [foldBreaks] <;> nofun
  rw [collapseChars, foldRuns, if_neg (by simp [control]), breaks, foldRuns, if_neg (by simp [white]), trimText,
    List.dropWhile_cons, if_neg (by simp [white])]
  generalize foldRuns isJsWhitespace false (foldBreaks (foldRuns isControl false rest)) = inner
  obtain ⟨dropped, split⟩ : ('/' :: inner).rdropWhile isJsWhitespace <+: '/' :: inner := List.rdropWhile_prefix _ _
  cases kept : ('/' :: inner).rdropWhile isJsWhitespace with
  | nil =>
    have all := List.rdropWhile_eq_nil_iff.mp kept '/' (by simp)
    exact absurd all (by simp [white])
  | cons c tail =>
    rw [kept, List.cons_append] at split
    exact ⟨tail, by rw [(List.cons.inj split).1]⟩

end Faberun
