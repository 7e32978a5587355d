import Faberun.Model.Engine.RunCommand

/-! # Tails of output

`boundedTail` and `tailText` skip the continuation bytes their cut falls into, so both make the same cut of the bytes; on the bytes of a
text that cut is the longest end of it that fits. A character has at most three continuation bytes, so from four bytes on the cuts
between the chunks leave nothing behind that the last one would not.
-/

namespace Faberun

open Utf8

private theorem isContinuation_iff {byte : UInt8} : isContinuation byte = true ↔ Continues byte := by
  have every : ∀ value : Fin 256, isContinuation (UInt8.ofNat value.val) = true ↔ 0x80 ≤ value.val ∧ value.val < 0xC0 := by
    decide +kernel
  have here := every ⟨byte.toNat, byte.toNat_lt⟩
  rwa [UInt8.ofNat_toNat] at here

/-- The first byte of a character begins it, and at most three bytes go on with it. -/
private theorem char_bytes (c : Char) :
    ∃ head rest, String.utf8EncodeChar c = head :: rest ∧ isContinuation head = false ∧ rest.length ≤ 3 ∧
      ∀ byte ∈ rest, isContinuation byte = true := by
  have spells := spelled c
  generalize String.utf8EncodeChar c = bytes at spells
  obtain ⟨head, rest, rfl⟩ : ∃ head rest, bytes = head :: rest := by cases spells <;> exact ⟨_, _, rfl⟩
  refine ⟨head, rest, rfl, ?_, ?_, fun byte member => isContinuation_iff.mpr (spells.tail byte member)⟩
  · rw [Bool.eq_false_iff, ne_eq, isContinuation_iff, Continues]
    cases spells <;> omega
  · cases spells <;> simp

private theorem encode_takeWhile (text : List Char) : (encode text).takeWhile isContinuation = [] := by
  cases text with
  | nil => rfl
  | cons c rest =>
    obtain ⟨head, more, bytes, begins, -⟩ := char_bytes c
    rw [encode_cons, bytes, List.cons_append, List.takeWhile_cons_of_neg (by rw [begins]; exact Bool.false_ne_true)]

private theorem encode_dropWhile (text : List Char) : (encode text).dropWhile isContinuation = encode text := by
  have splits := List.takeWhile_append_dropWhile (p := isContinuation) (l := encode text)
  rwa [encode_takeWhile, List.nil_append] at splits

/-- No character has more than three bytes that go on with it. -/
theorem shortRuns_encode {maxBytes : Nat} (room : 4 ≤ maxBytes) (text : List Char) : ShortRuns isContinuation maxBytes (encode text) := by
  intro start
  refine Nat.lt_of_lt_of_le ?_ room
  induction text generalizing start with
  | nil => simp
  | cons c rest ih =>
    obtain ⟨head, more, bytes, begins, few, goesOn⟩ := char_bytes c
    rw [encode_cons, List.drop_append]
    rcases Nat.lt_or_ge start (String.utf8EncodeChar c).length with inside | past
    · rw [Nat.sub_eq_zero_of_le (Nat.le_of_lt inside), List.drop_zero, bytes]
      cases start with
      | zero => simp [begins]
      | succ start =>
        rw [List.drop_succ_cons, List.takeWhile_append_of_pos fun byte member => goesOn byte (List.mem_of_mem_drop member),
          encode_takeWhile, List.append_nil, List.length_drop]
        omega
    · rw [List.drop_eq_nil_of_le past, List.nil_append]
      exact ih _

private theorem length_encode_charBytes (text : List Char) : (encode text).length = charBytes text := length_encode text

/-- On the bytes of a text the cut is the longest end of it that fits. -/
theorem cutTail_encode (maxBytes : Nat) (text : List Char) :
    cutTail isContinuation maxBytes (encode text) = encode (tailChars maxBytes text) := by
  induction text with
  | nil => rfl
  | cons c rest ih =>
    rw [tailChars, cutTail, length_encode_charBytes]
    split_ifs with fits
    · rfl
    obtain ⟨head, more, bytes, begins, few, goesOn⟩ := char_bytes c
    have size : charBytes (c :: rest) = (head :: more).length + charBytes rest := by
      rw [charBytes_cons, ← bytes, String.length_utf8EncodeChar]
    rw [← ih, encode_cons, bytes, List.drop_append, cutTail, length_encode_charBytes]
    split_ifs with short
    · -- The cut falls into the first character, or just behind it.
      obtain ⟨past, behind⟩ : ∃ past, charBytes (c :: rest) - maxBytes = past + 1 := ⟨charBytes (c :: rest) - maxBytes - 1, by omega⟩
      have early : charBytes (c :: rest) - maxBytes - (head :: more).length = 0 := by omega
      rw [early, List.drop_zero, behind, List.drop_succ_cons,
        List.dropWhile_append_of_pos fun byte member => goesOn byte (List.mem_of_mem_drop member), encode_dropWhile]
    · have beyond : (head :: more).length ≤ charBytes (c :: rest) - maxBytes := by omega
      have same : charBytes (c :: rest) - maxBytes - (head :: more).length = charBytes rest - maxBytes := by omega
      rw [List.drop_eq_nil_of_le beyond, List.nil_append, same]

private theorem tailChars_suffix (maxBytes : Nat) (text : List Char) : tailChars maxBytes text <:+ text := by
  induction text with
  | nil => exact List.suffix_refl []
  | cons c rest ih =>
    rw [tailChars]
    split_ifs
    · exact List.suffix_refl _
    · exact ih.trans (List.suffix_cons c rest)

/-- `tailText` is the longest end of the text that fits. -/
theorem tailTextBytes_eq (value : String) (maxBytes : Nat) : tailTextBytes value maxBytes = tailText value maxBytes := by
  rw [tailTextBytes, cutTail_encode, decode_encode, tailText]

/-- The tail accumulated chunk by chunk is the tail of the whole stream, and begins with a character. -/
theorem boundedTail_chunks {maxBytes : Nat} (room : 4 ≤ maxBytes) (text : List Char) (chunks : List (List UInt8))
    (stream : chunks.flatten = encode text) :
    String.ofList (decode (boundedTail maxBytes chunks)) = tailText (String.ofList text) maxBytes ∧
      (boundedTail maxBytes chunks).length ≤ maxBytes ∧
        ∃ before after, text = before ++ after ∧ boundedTail maxBytes chunks = encode after := by
  have whole : boundedTail maxBytes chunks = cutTail isContinuation maxBytes (encode text) := by
    rw [boundedTail, accumulate_eq_cutTail (stream ▸ shortRuns_encode room text), stream]
  refine ⟨?_, ?_, ?_⟩
  · rw [whole, ← tailTextBytes_eq, tailTextBytes, String.toList_ofList]
  · rw [whole]
    exact length_cutTail_le _
  · obtain ⟨before, ends⟩ := tailChars_suffix maxBytes text
    exact ⟨before, tailChars maxBytes text, ends.symm, whole.trans (cutTail_encode maxBytes text)⟩

/-- An accent and a coin, each cut in two by the chunks. -/
theorem boundedTail_accent : String.ofList (decode (boundedTail 4 [[0x61, 0xC3], [0xA9, 0xE2, 0x82], [0xAC]])) = tailText "aé€" 4 ∧
    (boundedTail 4 [[0x61, 0xC3], [0xA9, 0xE2, 0x82], [0xAC]]).length ≤ 4 ∧
      ∃ before after, ['a', 'é', '€'] = before ++ after ∧
        boundedTail 4 [[0x61, 0xC3], [0xA9, 0xE2, 0x82], [0xAC]] = encode after :=
  boundedTail_chunks (by decide) ['a', 'é', '€'] [[0x61, 0xC3], [0xA9, 0xE2, 0x82], [0xAC]] (by decide)

end Faberun
