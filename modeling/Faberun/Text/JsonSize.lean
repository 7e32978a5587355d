import Faberun.Model.Util
import Faberun.Text.JsonText

/-! # The size of JSON text

How many bytes `JSON.stringify` takes, counted over the value and without its text: a quoted character takes its
escape, a field its key and its value, an undefined field nothing.
-/

namespace Faberun

namespace JsonText

variable {ν : Type}

/-! ## Counting -/

/-- The bytes of a character inside a quoted string. -/
def escapeBytes (c : Char) : Nat :=
  if c = '"' ∨ c = '\\' ∨ c = '\n' ∨ c = '\r' ∨ c = '\t' ∨ c.toNat = 8 ∨ c.toNat = 12 then 2
  else if c.toNat < 0x20 then 6
  else c.utf8Size

def quotedBytes (text : String) : Nat := (text.toList.map escapeBytes).sum + 2

/-- The bytes of a bracketed list whose members take so many with a comma each. -/
def bracketBytes (members : Nat) : Nat := members - 1 + 2

section

variable [Numerals ν]

mutual
/-- The bytes of the text of a value. -/
def jsonBytes : JsValue ν → Nat
  | .undefined => 4
  | .null => 4
  | .bool true => 4
  | .bool false => 5
  | .number value => charBytes ((Numerals.print value).getD nullText)
  | .string value => quotedBytes value
  | .array items => bracketBytes (itemsBytes items)
  | .object fields => bracketBytes (fieldsBytes fields)

def itemsBytes : List (JsValue ν) → Nat
  | [] => 0
  | item :: rest => jsonBytes item + 1 + itemsBytes rest

def fieldsBytes : List (String × JsValue ν) → Nat
  | [] => 0
  | (_, .undefined) :: rest => fieldsBytes rest
  | (key, value) :: rest => quotedBytes key + 1 + jsonBytes value + 1 + fieldsBytes rest
end

end

/-! ## What the text takes -/

private theorem charBytes_quoteChar (c : Char) : charBytes (quoteChar c) = escapeBytes c := by
  have hex : ∀ digit, digit < 16 → (hexDigit digit).utf8Size = 1 := by decide
  by_cases named : c = '"' ∨ c = '\\' ∨ c = '\n' ∨ c = '\r' ∨ c = '\t' ∨ c.toNat = 8 ∨ c.toNat = 12
  · rw [escapeBytes, if_pos named, quoteChar]
    split_ifs with quotes slash line carriage tab back feed control <;> try rfl
    · simp_all
    · simp_all
  · rw [escapeBytes, if_neg named]
    simp only [not_or] at named
    obtain ⟨quotes, slash, line, carriage, tab, back, feed⟩ := named
    rw [quoteChar, if_neg quotes, if_neg slash, if_neg line, if_neg carriage, if_neg tab, if_neg back, if_neg feed]
    split_ifs with control
    · have high := hex (c.toNat / 16) (by omega)
      have low := hex (c.toNat % 16) (Nat.mod_lt _ (by decide))
      simp only [charBytes_cons, charBytes_nil, high, low]
      rfl
    · simp

theorem charBytes_quote (text : String) : charBytes (quote text) = quotedBytes text := by
  have inner : ∀ chars : List Char, charBytes (chars.flatMap quoteChar) = (chars.map escapeBytes).sum := by
    intro chars
    induction chars with
    | nil => rfl
    | cons c rest ih =>
      rw [List.flatMap_cons, charBytes_append, charBytes_quoteChar, ih, List.map_cons, List.sum_cons]
  have mark : '"'.utf8Size = 1 := by decide
  rw [quote, charBytes_append, charBytes_cons, inner, quotedBytes, charBytes_cons, charBytes_nil, mark]
  omega

private theorem charBytes_joinTexts (texts : List (List Char)) :
    charBytes (joinTexts texts) = (texts.map fun text => charBytes text + 1).sum - 1 := by
  have comma : ','.utf8Size = 1 := by decide
  fun_induction joinTexts texts with
  | case1 => rfl
  | case2 text => simp
  | case3 text next rest ih =>
    rw [charBytes_append, charBytes_cons, ih, comma]
    simp only [List.map_cons, List.sum_cons]
    omega

private theorem charBytes_bracket (opened closed : Char) (texts : List (List Char)) (left : opened.utf8Size = 1)
    (right : closed.utf8Size = 1) :
    charBytes (opened :: joinTexts texts ++ [closed]) =
      bracketBytes (texts.map fun text => charBytes text + 1).sum := by
  rw [charBytes_append, charBytes_cons, charBytes_joinTexts, charBytes_cons, charBytes_nil, left, right, bracketBytes]
  omega

variable [Numerals ν]

theorem fieldsBytes_defined {key : String} {value : JsValue ν} {rest : List (String × JsValue ν)}
    (defined : value ≠ .undefined) :
    fieldsBytes ((key, value) :: rest) = quotedBytes key + 1 + jsonBytes value + 1 + fieldsBytes rest := by
  rw [fieldsBytes]
  exact defined

mutual
/-- The count is the number of bytes of the text. -/
theorem charBytes_render : ∀ value : JsValue ν, charBytes (render value) = jsonBytes value
  | .undefined => by rw [render, jsonBytes]; decide
  | .null => by rw [render, jsonBytes]; decide
  | .bool value => by cases value <;> rw [render, jsonBytes] <;> decide
  | .number _ => by rw [render, jsonBytes]
  | .string value => by rw [render, jsonBytes, charBytes_quote]
  | .array items => by
    rw [render, jsonBytes, charBytes_bracket _ _ _ (by decide) (by decide), itemTexts_bytes items]
  | .object fields => by
    rw [render, jsonBytes, charBytes_bracket _ _ _ (by decide) (by decide), fieldTexts_bytes fields]

private theorem itemTexts_bytes :
    ∀ items : List (JsValue ν), ((itemTexts items).map fun text => charBytes text + 1).sum = itemsBytes items
  | [] => rfl
  | item :: rest => by
    rw [itemTexts, List.map_cons, List.sum_cons, charBytes_render item, itemTexts_bytes rest, itemsBytes]

private theorem fieldTexts_bytes :
    ∀ fields : List (String × JsValue ν),
      ((fieldTexts fields).map fun text => charBytes text + 1).sum = fieldsBytes fields
  | [] => rfl
  | (key, value) :: rest => by
    have colon : ':'.utf8Size = 1 := by decide
    by_cases defined : value = .undefined
    · subst defined
      rw [fieldTexts, fieldsBytes, fieldTexts_bytes rest]
    · rw [fieldTexts, List.map_cons, List.sum_cons, charBytes_append, charBytes_cons, charBytes_quote,
        charBytes_render value, fieldTexts_bytes rest, fieldsBytes_defined defined, colon]
      · omega
      · exact defined
end

/-! ## Lists of values -/

@[simp] theorem itemsBytes_append (first rest : List (JsValue ν)) :
    itemsBytes (first ++ rest) = itemsBytes first + itemsBytes rest := by
  induction first with
  | nil => simp [itemsBytes]
  | cons item others ih =>
    rw [List.cons_append, itemsBytes, itemsBytes, ih]
    omega

@[simp] theorem fieldsBytes_append (first rest : List (String × JsValue ν)) :
    fieldsBytes (first ++ rest) = fieldsBytes first + fieldsBytes rest := by
  induction first with
  | nil => simp [fieldsBytes]
  | cons field others ih =>
    obtain ⟨key, value⟩ := field
    by_cases defined : value = .undefined
    · subst defined
      rw [List.cons_append, fieldsBytes, fieldsBytes, ih]
    · rw [List.cons_append, fieldsBytes_defined defined, fieldsBytes_defined defined, ih]
      omega

end JsonText

end Faberun
