import Faberun.Text.CodeUnits

/-! # JSON text

The values a JavaScript program holds, the text `JSON.stringify` gives them, and the parser of that text. Numbers
are of any type with a numeral for each finite one. Parsing inverts writing on the values that are JSON, and
otherwise gives the value as it was recorded: without its undefined fields, with null for what has no text.
-/

namespace Faberun

/-- A value of the language, as far as data goes. -/
inductive JsValue (ν : Type) where
  | undefined
  | null
  | bool (value : Bool)
  | number (value : ν)
  | string (value : String)
  | array (items : List (JsValue ν))
  | object (fields : List (String × JsValue ν))

namespace JsValue

variable {ν : Type}

def isUndefined : JsValue ν → Bool
  | undefined => true
  | _ => false

def isNull : JsValue ν → Bool
  | null => true
  | _ => false

def isString : JsValue ν → Bool
  | string _ => true
  | _ => false

def isNumber : JsValue ν → Bool
  | number _ => true
  | _ => false

end JsValue

/-- The characters of a numeral. -/
def isNumeral (c : Char) : Bool := c.isDigit || c == '-' || c == '+' || c == '.' || c == 'e' || c == 'E'

/-- Numbers with their numerals; a number that is not finite has none. -/
class Numerals (ν : Type) where
  print : ν → Option (List Char)
  scan : List Char → Option ν
  scan_print {number : ν} {text : List Char} : print number = some text → scan text = some number
  numeral {number : ν} {text : List Char} : print number = some text → ∀ c ∈ text, isNumeral c = true
  starts {number : ν} {text : List Char} : print number = some text → text ≠ []

/-- The natural numbers in decimal. -/
instance : Numerals Nat where
  print number := some (Nat.toDigits 10 number)
  scan text := if text ≠ [] ∧ text.all Char.isDigit then some (Nat.ofDigitChars 10 text 0) else none
  scan_print := by
    rintro number _ ⟨⟩
    have digits : (Nat.toDigits 10 number).all Char.isDigit = true :=
      List.all_eq_true.mpr fun c member => Nat.isDigit_of_mem_toDigits (by decide) (by decide) member
    rw [if_pos ⟨Nat.toDigits_ne_nil, digits⟩, Nat.ofDigitChars_ten_toDigits]
  numeral := by
    rintro number _ ⟨⟩ c member
    have digit : c.isDigit = true := Nat.isDigit_of_mem_toDigits (by decide) (by decide) member
    simp [isNumeral, digit]
  starts := by
    rintro number _ ⟨⟩
    exact Nat.toDigits_ne_nil

namespace JsonText

variable {ν : Type}

/-! ## Writing -/

def hexDigit (digit : Nat) : Char :=
  if digit < 10 then Char.ofNat (0x30 + digit) else Char.ofNat (0x61 + (digit - 10))

/-- One character inside a quoted string. -/
def quoteChar (c : Char) : List Char :=
  if c = '"' then ['\\', '"']
  else if c = '\\' then ['\\', '\\']
  else if c = '\n' then ['\\', 'n']
  else if c = '\r' then ['\\', 'r']
  else if c = '\t' then ['\\', 't']
  else if c.toNat = 8 then ['\\', 'b']
  else if c.toNat = 12 then ['\\', 'f']
  else if c.toNat < 0x20 then ['\\', 'u', '0', '0', hexDigit (c.toNat / 16), hexDigit (c.toNat % 16)]
  else [c]

def quote (text : String) : List Char := '"' :: text.toList.flatMap quoteChar ++ ['"']

def nullText : List Char := ['n', 'u', 'l', 'l']

/-- Texts with a comma between them. -/
def joinTexts : List (List Char) → List Char
  | [] => []
  | [text] => text
  | text :: next :: rest => text ++ ',' :: joinTexts (next :: rest)

section Write

variable [Numerals ν]

mutual
/-- The text of a value inside another one, where what has no text is null. -/
def render : JsValue ν → List Char
  | .undefined => nullText
  | .null => nullText
  | .bool true => ['t', 'r', 'u', 'e']
  | .bool false => ['f', 'a', 'l', 's', 'e']
  | .number value => (Numerals.print value).getD nullText
  | .string value => quote value
  | .array items => '[' :: joinTexts (itemTexts items) ++ [']']
  | .object fields => '{' :: joinTexts (fieldTexts fields) ++ ['}']

def itemTexts : List (JsValue ν) → List (List Char)
  | [] => []
  | item :: rest => render item :: itemTexts rest

/-- An undefined field is left out. -/
def fieldTexts : List (String × JsValue ν) → List (List Char)
  | [] => []
  | (_, .undefined) :: rest => fieldTexts rest
  | (key, value) :: rest => (quote key ++ ':' :: render value) :: fieldTexts rest
end

/-- `JSON.stringify(value)`. -/
def stringify : JsValue ν → Option (List Char)
  | .undefined => none
  | value => some (render value)

end Write

/-! ## Parsing -/

def isSpace (c : Char) : Bool := c == ' ' || c == '\t' || c == '\n' || c == '\r'

def skipSpace (text : List Char) : List Char := text.dropWhile isSpace

def hexValue (c : Char) : Option Nat :=
  if '0' ≤ c ∧ c ≤ '9' then some (c.toNat - 0x30)
  else if 'a' ≤ c ∧ c ≤ 'f' then some (c.toNat - 0x61 + 10)
  else if 'A' ≤ c ∧ c ≤ 'F' then some (c.toNat - 0x41 + 10)
  else none

def hexUnit (a b c d : Char) : Option Nat := do
  let first ← hexValue a
  let second ← hexValue b
  let third ← hexValue c
  let fourth ← hexValue d
  return first * 0x1000 + second * 0x100 + third * 0x10 + fourth

/-- The unit an escape other than `\u` stands for. -/
def escapeUnit (c : Char) : Option Nat :=
  if c = 'n' then some 10
  else if c = 'r' then some 13
  else if c = 't' then some 9
  else if c = 'b' then some 8
  else if c = 'f' then some 12
  else if c = '"' ∨ c = '\\' ∨ c = '/' then some c.toNat
  else none

/-- The code units of a string after its opening quote. -/
def parseUnits : List Char → Option (List Nat × List Char)
  | [] => none
  | c :: rest =>
    if c = '"' then some ([], rest)
    else if c = '\\' then
      match rest with
      | [] => none
      | escape :: rest =>
        if escape = 'u' then
          match rest with
          | a :: b :: c :: d :: rest =>
              (hexUnit a b c d).bind fun unit => (parseUnits rest).map fun units => (unit :: units.1, units.2)
          | _ => none
        else (escapeUnit escape).bind fun unit => (parseUnits rest).map fun units => (unit :: units.1, units.2)
    else if c.toNat < 0x20 then none
    else (parseUnits rest).map fun units => (charUnits c ++ units.1, units.2)

def parseQuoted (text : List Char) : Option (String × List Char) :=
  (parseUnits text).map fun units => (String.ofList (decodeUnits units.1), units.2)

section Group

variable {α : Type} (member : List Char → Option (α × List Char)) (close : Char)

def parseMembers : Nat → List Char → Option (List α × List Char)
  | 0, _ => none
  | count + 1, text =>
    (member text).bind fun first =>
      match skipSpace first.2 with
      | [] => none
      | c :: rest =>
        if c = ',' then (parseMembers count rest).map fun others => (first.1 :: others.1, others.2)
        else if c = close then some ([first.1], rest)
        else none

/-- The members of an array or an object after its opening bracket. -/
def parseGroup (count : Nat) (text : List Char) : Option (List α × List Char) :=
  match skipSpace text with
  | [] => none
  | c :: rest => if c = close then some ([], rest) else parseMembers member close count text

end Group

def parseField (value : List Char → Option (JsValue ν × List Char)) (text : List Char) :
    Option ((String × JsValue ν) × List Char) :=
  match skipSpace text with
  | '"' :: rest =>
    (parseQuoted rest).bind fun key =>
      match skipSpace key.2 with
      | ':' :: rest => (value rest).map fun parsed => ((key.1, parsed.1), parsed.2)
      | _ => none
  | _ => none

/-- Assign a property: a repeated key keeps its place and takes the later value. -/
def setField : List (String × JsValue ν) → String × JsValue ν → List (String × JsValue ν)
  | [], field => [field]
  | first :: rest, field => if first.1 = field.1 then field :: rest else first :: setField rest field

def assignFields (fields : List (String × JsValue ν)) : List (String × JsValue ν) := fields.foldl setField []

def parseLiteral : List Char → Option (JsValue ν × List Char)
  | 'n' :: 'u' :: 'l' :: 'l' :: rest => some (.null, rest)
  | 't' :: 'r' :: 'u' :: 'e' :: rest => some (.bool true, rest)
  | 'f' :: 'a' :: 'l' :: 's' :: 'e' :: rest => some (.bool false, rest)
  | _ => none

section Parse

variable [Numerals ν]

def parseNumber (text : List Char) : Option (JsValue ν × List Char) :=
  (Numerals.scan (text.takeWhile isNumeral)).map fun number => (.number number, text.dropWhile isNumeral)

def parseValue : Nat → List Char → Option (JsValue ν × List Char)
  | 0, _ => none
  | fuel + 1, text =>
    match skipSpace text with
    | [] => none
    | c :: rest =>
      if c = '"' then (parseQuoted rest).map fun parsed => (.string parsed.1, parsed.2)
      else if c = '[' then (parseGroup (parseValue fuel) ']' fuel rest).map fun parsed => (.array parsed.1, parsed.2)
      else if c = '{' then
        (parseGroup (parseField (parseValue fuel)) '}' fuel rest).map fun parsed =>
          (.object (assignFields parsed.1), parsed.2)
      else if isNumeral c then parseNumber (c :: rest)
      else parseLiteral (c :: rest)

/-- `JSON.parse(text)`. -/
def parse (text : List Char) : Option (JsValue ν) :=
  (parseValue (text.length + 1) text).bind fun parsed => if skipSpace parsed.2 = [] then some parsed.1 else none

end Parse

/-! ## What parsing gives back -/

section Recorded

variable [Numerals ν]

mutual
/-- The value read back from the text of a value. -/
def recorded : JsValue ν → JsValue ν
  | .undefined => .null
  | .null => .null
  | .bool value => .bool value
  | .number value => if (Numerals.print value).isSome then .number value else .null
  | .string value => .string value
  | .array items => .array (recordedItems items)
  | .object fields => .object (assignFields (recordedFields fields))

def recordedItems : List (JsValue ν) → List (JsValue ν)
  | [] => []
  | item :: rest => recorded item :: recordedItems rest

def recordedFields : List (String × JsValue ν) → List (String × JsValue ν)
  | [] => []
  | (_, .undefined) :: rest => recordedFields rest
  | (key, value) :: rest => (key, recorded value) :: recordedFields rest
end

mutual
/-- Values that are JSON: finite numbers, nothing undefined inside, and one field a key. -/
def isJson : JsValue ν → Bool
  | .undefined => false
  | .null => true
  | .bool _ => true
  | .number value => (Numerals.print value).isSome
  | .string _ => true
  | .array items => allJson items
  | .object fields => fieldsJson fields && decide (fields.map (·.1)).Nodup

def allJson : List (JsValue ν) → Bool
  | [] => true
  | item :: rest => isJson item && allJson rest

def fieldsJson : List (String × JsValue ν) → Bool
  | [] => true
  | (_, value) :: rest => isJson value && fieldsJson rest
end

end Recorded

end JsonText

end Faberun
