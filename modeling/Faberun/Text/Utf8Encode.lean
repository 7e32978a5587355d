import Mathlib.Algebra.GroupWithZero.Nat
import Faberun.Text.CodeUnits
import Faberun.Text.Utf8

/-! # Encoding UTF-8

The bytes of a text. Decoding inverts encoding; the end of an encoded text decodes to a replacement character for each
byte of the character it was cut in, and then to the characters after it. So the bytes of such an end and the code units
it decodes to are equally many exactly when no character beyond ASCII begins in it.
-/

namespace Faberun.Utf8

/-- `Buffer.from(text, "utf8")`. -/
def encode (text : List Char) : List UInt8 := text.flatMap String.utf8EncodeChar

@[simp] theorem encode_nil : encode [] = [] := rfl

@[simp] theorem encode_cons (c : Char) (rest : List Char) : encode (c :: rest) = String.utf8EncodeChar c ++ encode rest := rfl

@[simp] theorem encode_append (first second : List Char) : encode (first ++ second) = encode first ++ encode second :=
  List.flatMap_append

theorem length_encode (text : List Char) : (encode text).length = (text.map Char.utf8Size).sum := by
  induction text with
  | nil => rfl
  | cons c rest ih => rw [encode_cons, List.length_append, ih, List.map_cons, List.sum_cons, String.length_utf8EncodeChar]

/-- A byte that goes on with a character. -/
def Continues (byte : UInt8) : Prop := 0x80 ≤ byte.toNat ∧ byte.toNat < 0xC0

/-- The bytes of one character: one of ASCII, or a first byte and bytes that go on. -/
inductive Spelled (c : Char) : List UInt8 → Prop where
  | one (byte : UInt8) : byte.toNat = c.toNat → c.toNat < 0x80 → Spelled c [byte]
  | two (a b : UInt8) : 0x80 ≤ c.toNat → c.toNat < 0x800 → a.toNat = 0xC0 + c.toNat / 64 → b.toNat = 0x80 + c.toNat % 64 →
      Spelled c [a, b]
  | three (a b d : UInt8) : 0x800 ≤ c.toNat → c.toNat < 0x10000 → a.toNat = 0xE0 + c.toNat / 4096 →
      b.toNat = 0x80 + c.toNat / 64 % 64 → d.toNat = 0x80 + c.toNat % 64 → Spelled c [a, b, d]
  | four (a b d e : UInt8) : 0x10000 ≤ c.toNat → c.toNat < 0x110000 → a.toNat = 0xF0 + c.toNat / 262144 →
      b.toNat = 0x80 + c.toNat / 4096 % 64 → d.toNat = 0x80 + c.toNat / 64 % 64 → e.toNat = 0x80 + c.toNat % 64 →
      Spelled c [a, b, d, e]

private theorem char_toNat_lt (c : Char) : c.toNat < 0x110000 := by
  rcases c.valid with low | ⟨-, high⟩
  · exact Nat.lt_trans low (by decide)
  · exact high

theorem spelled (c : Char) : Spelled c (String.utf8EncodeChar c) := by
  have bound := char_toNat_lt c
  have same : c.val.toNat = c.toNat := rfl
  unfold String.utf8EncodeChar
  simp only [same]
  split_ifs with first second third
  · refine .one _ ?_ (by omega)
    rw [UInt8.toNat_ofNat']
    omega
  · refine .two _ _ (by omega) (by omega) ?_ ?_ <;> (rw [UInt8.toNat_ofNat']; omega)
  · refine .three _ _ _ (by omega) (by omega) ?_ ?_ ?_ <;> (rw [UInt8.toNat_ofNat']; omega)
  · refine .four _ _ _ _ (by omega) (by omega) ?_ ?_ ?_ ?_ <;> (rw [UInt8.toNat_ofNat']; omega)

theorem decodeFrom_char (c : Char) (rest : List UInt8) :
    decodeFrom .between (String.utf8EncodeChar c ++ rest) = c :: decodeFrom .between rest := by
  have valid : c.toNat < 0xD800 ∨ (0xDFFF < c.toNat ∧ c.toNat < 0x110000) := c.valid
  have spells := spelled c
  generalize String.utf8EncodeChar c = bytes at spells
  cases spells with
  | one byte same small =>
    have step : first byte.toNat = ([c], .between) := by
      rw [first, if_pos (by omega), same, Char.ofNat_toNat]
    simp only [List.cons_append, List.nil_append, decodeFrom, feed, step]
  | two a b low high head next =>
    have step : first a.toNat = ([], .inside 1 0x80 0xBF (a.toNat - 0xC0)) := by
      rw [first, if_neg (by omega), if_neg (by omega), if_pos (by omega)]
    have whole : (a.toNat - 0xC0) * 64 + (b.toNat - 0x80) = c.toNat := by omega
    have fits : 0x80 ≤ b.toNat ∧ b.toNat ≤ 0xBF := by omega
    simp only [List.cons_append, List.nil_append, decodeFrom, feed, step, if_pos fits, if_true, whole, Char.ofNat_toNat]
  | three a b d low high head next last =>
    have step : first a.toNat = ([], .inside 2 (if a.toNat = 0xE0 then 0xA0 else 0x80) (if a.toNat = 0xED then 0x9F else 0xBF)
        (a.toNat - 0xE0)) := by
      rw [first, if_neg (by omega), if_neg (by omega), if_neg (by omega), if_pos (by omega)]
    have second : (if a.toNat = 0xE0 then 0xA0 else 0x80) ≤ b.toNat ∧ b.toNat ≤ (if a.toNat = 0xED then 0x9F else 0xBF) := by
      constructor <;> split <;> omega
    have third : 0x80 ≤ d.toNat ∧ d.toNat ≤ 0xBF := by omega
    have whole : ((a.toNat - 0xE0) * 64 + (b.toNat - 0x80)) * 64 + (d.toNat - 0x80) = c.toNat := by omega
    simp only [List.cons_append, List.nil_append, decodeFrom, feed, step, if_pos second, if_pos third, whole,
      Char.ofNat_toNat, Nat.reduceEqDiff, if_false, Nat.add_one_sub_one, if_true]
  | four a b d e low high head next after last =>
    have step : first a.toNat = ([], .inside 3 (if a.toNat = 0xF0 then 0x90 else 0x80) (if a.toNat = 0xF4 then 0x8F else 0xBF)
        (a.toNat - 0xF0)) := by
      rw [first, if_neg (by omega), if_neg (by omega), if_neg (by omega), if_neg (by omega), if_pos (by omega)]
    have second : (if a.toNat = 0xF0 then 0x90 else 0x80) ≤ b.toNat ∧ b.toNat ≤ (if a.toNat = 0xF4 then 0x8F else 0xBF) := by
      constructor <;> split <;> omega
    have third : 0x80 ≤ d.toNat ∧ d.toNat ≤ 0xBF := by omega
    have fourth : 0x80 ≤ e.toNat ∧ e.toNat ≤ 0xBF := by omega
    have whole : (((a.toNat - 0xF0) * 64 + (b.toNat - 0x80)) * 64 + (d.toNat - 0x80)) * 64 + (e.toNat - 0x80) = c.toNat := by
      omega
    simp only [List.cons_append, List.nil_append, decodeFrom, feed, step, if_pos second, if_pos third, if_pos fourth, whole,
      Char.ofNat_toNat, Nat.reduceEqDiff, if_false, Nat.add_one_sub_one, if_true]

/-- Decoding inverts encoding. -/
@[simp] theorem decode_encode (text : List Char) : decode (encode text) = text := by
  induction text with
  | nil => rfl
  | cons c rest ih =>
    rw [encode_cons, decode, decodeFrom_char]
    exact congrArg (c :: ·) ih

/-! ## The end of an encoded text -/

theorem Spelled.tail {c : Char} {head : UInt8} {bytes : List UInt8} (spells : Spelled c (head :: bytes)) :
    ∀ byte ∈ bytes, Continues byte := by
  unfold Continues
  cases spells with
  | one _ _ _ => simp
  | two _ b _ _ _ _ =>
    simp only [List.mem_cons, List.not_mem_nil, or_false, forall_eq]
    omega
  | three _ b d _ _ _ _ _ =>
    simp only [List.mem_cons, List.not_mem_nil, or_false, forall_eq_or_imp, forall_eq]
    omega
  | four _ b d e _ _ _ _ _ _ =>
    simp only [List.mem_cons, List.not_mem_nil, or_false, forall_eq_or_imp, forall_eq]
    omega

/-- What is left of an encoded text is the rest of a character and then whole ones. -/
theorem drop_encode (text : List Char) (start : Nat) :
    ∃ rest whole, (encode text).drop start = rest ++ encode whole ∧ ∀ byte ∈ rest, Continues byte := by
  induction text generalizing start with
  | nil => exact ⟨[], [], by simp, by simp⟩
  | cons c text ih =>
    have spells := spelled c
    rw [encode_cons, List.drop_append]
    rcases Nat.eq_zero_or_pos start with rfl | past
    · exact ⟨[], c :: text, by simp, by simp⟩
    · rcases Nat.lt_or_ge start (String.utf8EncodeChar c).length with inside | beyond
      · refine ⟨(String.utf8EncodeChar c).drop start, text, ?_, ?_⟩
        · rw [Nat.sub_eq_zero_of_le (Nat.le_of_lt inside), List.drop_zero]
        · intro byte member
          cases bytes : String.utf8EncodeChar c with
          | nil => simp [bytes] at member
          | cons head tail =>
            rw [bytes] at spells member
            obtain ⟨fewer, rfl⟩ := Nat.exists_eq_add_one_of_ne_zero (Nat.ne_of_gt past)
            exact spells.tail byte (List.mem_of_mem_drop member)
      · rw [List.drop_eq_nil_of_le beyond, List.nil_append]
        exact ih _

private theorem decode_continues {rest : List UInt8} (continues : ∀ byte ∈ rest, Continues byte) (more : List UInt8) :
    decode (rest ++ more) = List.replicate rest.length '\uFFFD' ++ decode more := by
  induction rest with
  | nil => rfl
  | cons byte rest ih =>
    obtain ⟨⟨low, high⟩, others⟩ := List.forall_mem_cons.mp continues
    have step : first byte.toNat = (['\uFFFD'], .between) := by
      rw [first, if_neg (by omega), if_pos (by omega)]
    have later := ih others
    rw [decode] at later ⊢
    simp only [List.cons_append, decodeFrom, feed, step, later, List.length_cons, List.replicate_succ, List.nil_append]

/-- A character has no more code units than bytes, and fewer when it is beyond ASCII. -/
private theorem units_of_spelled (c : Char) : (charUnits c).length ≤ (String.utf8EncodeChar c).length ∧
    ((charUnits c).length = (String.utf8EncodeChar c).length ↔ ∀ byte ∈ String.utf8EncodeChar c, byte.toNat < 0xC0) := by
  have spells := spelled c
  generalize String.utf8EncodeChar c = bytes at spells
  have size : (charUnits c).length = if c.toNat < 0x10000 then 1 else 2 := by
    unfold charUnits
    split <;> rfl
  rw [size]
  cases spells with
  | one byte same small =>
    have basic : c.toNat < 0x10000 := by omega
    simp only [if_pos basic, List.length_singleton, List.mem_singleton, forall_eq, Nat.le_refl, true_and, true_iff]
    omega
  | two a b low high head next =>
    rw [if_pos (by omega)]
    simp only [List.length_cons, List.length_nil, List.forall_mem_cons]
    omega
  | three a b d low high head next last =>
    rw [if_pos (by omega)]
    simp only [List.length_cons, List.length_nil, List.forall_mem_cons]
    omega
  | four a b d e low high head next after last =>
    rw [if_neg (by omega)]
    simp only [List.length_cons, List.length_nil, List.forall_mem_cons]
    omega

private theorem units_of_encode (text : List Char) : (codeUnits text).length ≤ (encode text).length ∧
    ((codeUnits text).length = (encode text).length ↔ ∀ byte ∈ encode text, byte.toNat < 0xC0) := by
  induction text with
  | nil => simp [codeUnits]
  | cons c rest ih =>
    obtain ⟨fewer, equal⟩ := units_of_spelled c
    have split : codeUnits (c :: rest) = charUnits c ++ codeUnits rest := rfl
    rw [split, encode_cons, List.length_append, List.length_append, List.forall_mem_append, ← equal, ← ih.2]
    omega

/-- The end of an encoded text decodes to as many code units as it has bytes exactly when no character beyond ASCII
begins in it. -/
theorem length_units_iff (text : List Char) (start : Nat) :
    (codeUnits (decode ((encode text).drop start))).length = ((encode text).drop start).length ↔
      ∀ byte ∈ (encode text).drop start, byte.toNat < 0xC0 := by
  obtain ⟨rest, whole, same, continues⟩ := drop_encode text start
  obtain ⟨-, equal⟩ := units_of_encode whole
  have single (count : Nat) : (codeUnits (List.replicate count '\uFFFD')).length = count := by
    induction count with
    | zero => rfl
    | succ count ih =>
      rw [List.replicate_succ]
      change (charUnits '\uFFFD' ++ codeUnits _).length = _
      rw [List.length_append, ih]
      exact Nat.add_comm _ _
  have split : codeUnits (List.replicate rest.length '\uFFFD' ++ whole) =
      codeUnits (List.replicate rest.length '\uFFFD') ++ codeUnits whole := List.flatMap_append
  rw [same, decode_continues continues, decode_encode, split, List.length_append, List.length_append, single,
    List.forall_mem_append, Nat.add_left_cancel_iff, equal]
  exact (and_iff_right fun byte member => (continues byte member).2).symm

/-- No byte of a text without a line break is one. -/
theorem newline_notMem_encode {text : List Char} (plain : '\n' ∉ text) : 10 ∉ encode text := by
  intro member
  obtain ⟨c, inside, spellsIt⟩ := List.mem_flatMap.mp member
  have spells := spelled c
  generalize String.utf8EncodeChar c = bytes at spells spellsIt
  have value : (10 : UInt8).toNat = 10 := rfl
  cases spells with
  | one byte same small =>
    rw [← List.mem_singleton.mp spellsIt, value] at same
    have here : c = '\n' := by
      rw [← Char.ofNat_toNat c, ← same]
    exact plain (here ▸ inside)
  | two a b low high head next =>
    simp only [List.mem_cons, List.not_mem_nil, or_false] at spellsIt
    rcases spellsIt with rfl | rfl <;> omega
  | three a b d low high head next last =>
    simp only [List.mem_cons, List.not_mem_nil, or_false] at spellsIt
    rcases spellsIt with rfl | rfl | rfl <;> omega
  | four a b d e low high head next after last =>
    simp only [List.mem_cons, List.not_mem_nil, or_false] at spellsIt
    rcases spellsIt with rfl | rfl | rfl | rfl <;> omega

/-- Bytes decode to something. -/
theorem decode_ne_nil {bytes : List UInt8} (some : bytes ≠ []) : decode bytes ≠ [] := by
  have inside (owed low high point : Nat) (bytes : List UInt8) : decodeFrom (.inside owed low high point) bytes ≠ [] := by
    induction bytes generalizing owed low high point with
    | nil => simp [decodeFrom, flush]
    | cons byte rest ih =>
      rw [decodeFrom, feed]
      split_ifs
      · simp
      · rw [List.nil_append]
        exact ih _ _ _ _
      · simp
  have opens (byte : Nat) : (first byte).1 ≠ [] ∨ ∃ owed low high point, (first byte).2 = .inside owed low high point := by
    unfold first
    split_ifs <;> simp
  obtain ⟨byte, rest, rfl⟩ := List.exists_cons_of_ne_nil some
  rw [decode, decodeFrom, feed]
  rcases opens byte.toNat with given | ⟨owed, low, high, point, same⟩
  · exact List.append_ne_nil_of_left_ne_nil given _
  · rw [same]
    exact List.append_ne_nil_of_right_ne_nil _ (inside owed low high point rest)

/-! ## The beginning of an encoded text -/

/-- A character cut short is one replacement character. -/
private theorem decode_take_char (c : Char) {size : Nat} (some : size ≠ 0) (cut : size < (String.utf8EncodeChar c).length) :
    decode ((String.utf8EncodeChar c).take size) = ['\uFFFD'] := by
  have spells := spelled c
  have valid : c.toNat < 0xD800 ∨ (0xDFFF < c.toNat ∧ c.toNat < 0x110000) := c.valid
  generalize String.utf8EncodeChar c = bytes at spells cut
  obtain ⟨size, rfl⟩ := Nat.exists_eq_add_one_of_ne_zero some
  cases spells with
  | one byte _ _ =>
    rw [List.length_singleton] at cut
    omega
  | two a b low high head next =>
    have step : first a.toNat = ([], .inside 1 0x80 0xBF (a.toNat - 0xC0)) := by
      rw [first, if_neg (by omega), if_neg (by omega), if_pos (by omega)]
    obtain rfl : size = 0 := by
      rw [List.length_cons, List.length_singleton] at cut
      omega
    simp [decode, decodeFrom, feed, flush, step]
  | three a b d low high head next last =>
    have step : first a.toNat = ([], .inside 2 (if a.toNat = 0xE0 then 0xA0 else 0x80) (if a.toNat = 0xED then 0x9F else 0xBF)
        (a.toNat - 0xE0)) := by
      rw [first, if_neg (by omega), if_neg (by omega), if_neg (by omega), if_pos (by omega)]
    have second : (if a.toNat = 0xE0 then 0xA0 else 0x80) ≤ b.toNat ∧ b.toNat ≤ (if a.toNat = 0xED then 0x9F else 0xBF) := by
      constructor <;> split <;> omega
    have few : size = 0 ∨ size = 1 := by
      simp only [List.length_cons, List.length_nil] at cut
      omega
    rcases few with rfl | rfl
    · simp [decode, decodeFrom, feed, flush, step]
    · simp only [List.take_succ_cons, List.take_zero, decode, decodeFrom, feed, flush, step, if_pos second, List.nil_append,
        Nat.reduceEqDiff, if_false]
  | four a b d e low high head next after last =>
    have step : first a.toNat = ([], .inside 3 (if a.toNat = 0xF0 then 0x90 else 0x80) (if a.toNat = 0xF4 then 0x8F else 0xBF)
        (a.toNat - 0xF0)) := by
      rw [first, if_neg (by omega), if_neg (by omega), if_neg (by omega), if_neg (by omega), if_pos (by omega)]
    have second : (if a.toNat = 0xF0 then 0x90 else 0x80) ≤ b.toNat ∧ b.toNat ≤ (if a.toNat = 0xF4 then 0x8F else 0xBF) := by
      constructor <;> split <;> omega
    have third : 0x80 ≤ d.toNat ∧ d.toNat ≤ 0xBF := by omega
    have few : size = 0 ∨ size = 1 ∨ size = 2 := by
      simp only [List.length_cons, List.length_nil] at cut
      omega
    rcases few with rfl | rfl | rfl
    · simp [decode, decodeFrom, feed, flush, step]
    · simp only [List.take_succ_cons, List.take_zero, decode, decodeFrom, feed, flush, step, if_pos second, List.nil_append,
        Nat.reduceEqDiff, if_false]
    · simp only [List.take_succ_cons, List.take_zero, decode, decodeFrom, feed, flush, step, if_pos second, if_pos third, List.nil_append,
        Nat.reduceSub, Nat.reduceEqDiff, if_false]

/-- The first bytes of a text: the characters that fit, and a replacement character where one was cut. -/
theorem decode_take_encode (text : List Char) (size : Nat) :
    ∃ before after mark, text = before ++ after ∧ decode ((encode text).take size) = before ++ mark ∧
      (mark = [] ∨ mark = ['\uFFFD']) ∧ (encode before).length + mark.length ≤ size ∧
        ∀ c ∈ after.head?, size < (encode before).length + (String.utf8EncodeChar c).length := by
  induction text generalizing size with
  | nil => exact ⟨[], [], [], rfl, by simp [decode, decodeFrom, flush], .inl rfl, Nat.zero_le _, nofun⟩
  | cons c text ih =>
    rw [encode_cons, List.take_append]
    rcases Nat.lt_or_ge size (String.utf8EncodeChar c).length with cut | fits
    · have none : size - (String.utf8EncodeChar c).length = 0 := Nat.sub_eq_zero_of_le (Nat.le_of_lt cut)
      have next : ∀ d ∈ (c :: text).head?, size < (encode []).length + (String.utf8EncodeChar d).length := by
        rintro d ⟨⟩
        rwa [encode_nil, List.length_nil, Nat.zero_add]
      rw [none, List.take_zero, List.append_nil]
      rcases Nat.eq_zero_or_pos size with rfl | some
      · exact ⟨[], c :: text, [], rfl, rfl, .inl rfl, Nat.zero_le _, next⟩
      · exact ⟨[], c :: text, ['\uFFFD'], rfl, decode_take_char c (Nat.ne_of_gt some) cut, .inr rfl, some, next⟩
    · obtain ⟨before, after, mark, rfl, same, marked, bound, next⟩ := ih (size - (String.utf8EncodeChar c).length)
      refine ⟨c :: before, after, mark, rfl, ?_, marked, ?_, ?_⟩
      · rw [List.take_of_length_le fits, decode, decodeFrom_char]
        exact congrArg (c :: ·) same
      · rw [encode_cons, List.length_append]
        omega
      · intro d member
        have further := next d member
        rw [encode_cons, List.length_append]
        omega

end Faberun.Utf8
