import Mathlib.Data.List.Lex
import Mathlib.Data.Prod.Lex
import Mathlib.Data.String.Basic

/-! # UTF-16 code units

Text compared the way JavaScript compares it, by its UTF-16 code units, and decoded from them. Decoding inverts
encoding, so the comparison is a linear order on texts.
-/

namespace Faberun

/-- The code units of one character; beyond the basic plane they are a surrogate pair. -/
def charUnits (c : Char) : List Nat :=
  if c.toNat < 0x10000 then [c.toNat]
  else [0xD800 + (c.toNat - 0x10000) / 0x400, 0xDC00 + (c.toNat - 0x10000) % 0x400]

def codeUnits (text : List Char) : List Nat := text.flatMap charUnits

def isHighSurrogate (unit : Nat) : Bool := 0xD800 ≤ unit && unit < 0xDC00

def isLowSurrogate (unit : Nat) : Bool := 0xDC00 ≤ unit && unit < 0xE000

/-- A code unit that belongs to no pair; a surrogate alone is no character. -/
def singleUnit (unit : Nat) : Char :=
  if isHighSurrogate unit || isLowSurrogate unit then '\uFFFD' else Char.ofNat unit

def decodeUnits : List Nat → List Char
  | [] => []
  | [unit] => [singleUnit unit]
  | high :: low :: rest =>
      if isHighSurrogate high && isLowSurrogate low then
        Char.ofNat (0x10000 + (high - 0xD800) * 0x400 + (low - 0xDC00)) :: decodeUnits rest
      else singleUnit high :: decodeUnits (low :: rest)

/-! ## Decoding -/

private theorem char_range (c : Char) : c.toNat < 0xD800 ∨ (0xDFFF < c.toNat ∧ c.toNat < 0x110000) := c.valid

private theorem singleUnit_toNat (c : Char) : singleUnit c.toNat = c := by
  have range := char_range c
  have apart : (isHighSurrogate c.toNat || isLowSurrogate c.toNat) = false := by
    simp only [isHighSurrogate, isLowSurrogate, Bool.or_eq_false_iff, Bool.and_eq_false_iff, decide_eq_false_iff_not]
    omega
  rw [singleUnit, apart]
  exact Char.ofNat_toNat c

private theorem decodeUnits_single {unit : Nat} (apart : isHighSurrogate unit = false) (rest : List Nat) :
    decodeUnits (unit :: rest) = singleUnit unit :: decodeUnits rest := by
  cases rest with
  | nil => rfl
  | cons next rest => simp [decodeUnits, apart]

private theorem decodeUnits_charUnits (c : Char) (rest : List Nat) :
    decodeUnits (charUnits c ++ rest) = c :: decodeUnits rest := by
  have range := char_range c
  by_cases basic : c.toNat < 0x10000
  · have apart : isHighSurrogate c.toNat = false := by
      simp only [isHighSurrogate, Bool.and_eq_false_iff, decide_eq_false_iff_not]
      omega
    simp only [charUnits, basic, ↓reduceIte, List.singleton_append]
    rw [decodeUnits_single apart, singleUnit_toNat]
  · have pair : (isHighSurrogate (0xD800 + (c.toNat - 0x10000) / 0x400) &&
        isLowSurrogate (0xDC00 + (c.toNat - 0x10000) % 0x400)) = true := by
      simp only [isHighSurrogate, isLowSurrogate, Bool.and_eq_true, decide_eq_true_eq]
      omega
    have whole : 0x10000 + (0xD800 + (c.toNat - 0x10000) / 0x400 - 0xD800) * 0x400 +
        (0xDC00 + (c.toNat - 0x10000) % 0x400 - 0xDC00) = c.toNat := by omega
    simp only [charUnits, basic, ↓reduceIte, List.cons_append, List.nil_append, decodeUnits, pair, whole]
    rw [Char.ofNat_toNat]

/-- Decoding inverts encoding. -/
@[simp] theorem decodeUnits_codeUnits (text : List Char) : decodeUnits (codeUnits text) = text := by
  induction text with
  | nil => rfl
  | cons c rest ih =>
    change decodeUnits (charUnits c ++ codeUnits rest) = c :: rest
    rw [decodeUnits_charUnits, ih]

theorem codeUnits_injective : Function.Injective codeUnits :=
  Function.LeftInverse.injective decodeUnits_codeUnits

/-! ## The order of texts -/

/-- The code units of a string. -/
def textUnits (text : String) : List Nat := codeUnits text.toList

theorem textUnits_injective : Function.Injective textUnits :=
  fun _ _ same => String.toList_injective (codeUnits_injective same)

/-- `left < right` on strings. -/
def textLess (left right : String) : Bool := decide (textUnits left < textUnits right)

theorem textLess_iff {left right : String} : textLess left right = true ↔ textUnits left < textUnits right :=
  decide_eq_true_iff

end Faberun
