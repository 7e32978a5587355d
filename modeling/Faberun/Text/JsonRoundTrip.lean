import Faberun.Text.JsonText

/-! # Reading JSON text back

Parsing the text of a value gives the value as recorded, which is the value itself when it is JSON. The text holds
no line break, so one value a line can be told apart by its lines.
-/

namespace Faberun.JsonText

variable {ν : Type}

/-! ## Strings -/

private theorem hexValue_hexDigit : ∀ digit, digit < 16 → hexValue (hexDigit digit) = some digit := by decide

private theorem charUnits_of_lt {c : Char} (small : c.toNat < 0x10000) : charUnits c = [c.toNat] := if_pos small

private theorem parseUnits_escape {escape : Char} {unit : Nat} (other : escape ≠ 'u')
    (stands : escapeUnit escape = some unit) (rest : List Char) :
    parseUnits ('\\' :: escape :: rest) = (parseUnits rest).map fun units => (unit :: units.1, units.2) := by
  rw [parseUnits.eq_def]
  simp [other, stands]

private theorem parseUnits_plain {c : Char} (quotes : c ≠ '"') (slash : c ≠ '\\') (printable : ¬ c.toNat < 0x20)
    (rest : List Char) :
    parseUnits (c :: rest) = (parseUnits rest).map fun units => (charUnits c ++ units.1, units.2) := by
  rw [parseUnits.eq_def]
  simp [quotes, slash, printable]

/-- A quoted character is read back as its code units. -/
private theorem parseUnits_quoteChar (c : Char) (rest : List Char) :
    parseUnits (quoteChar c ++ rest) = (parseUnits rest).map fun units => (charUnits c ++ units.1, units.2) := by
  by_cases quotes : c = '"'
  · subst quotes
    exact parseUnits_escape (by decide) rfl rest
  by_cases slash : c = '\\'
  · subst slash
    exact parseUnits_escape (by decide) rfl rest
  by_cases line : c = '\n'
  · subst line
    exact parseUnits_escape (by decide) rfl rest
  by_cases carriage : c = '\r'
  · subst carriage
    exact parseUnits_escape (by decide) rfl rest
  by_cases tab : c = '\t'
  · subst tab
    exact parseUnits_escape (by decide) rfl rest
  simp only [quoteChar, quotes, slash, line, carriage, tab, ↓reduceIte]
  by_cases back : c.toNat = 8
  · rw [if_pos back, charUnits_of_lt (by omega), back]
    exact parseUnits_escape (by decide) rfl rest
  by_cases feed : c.toNat = 12
  · rw [if_neg back, if_pos feed, charUnits_of_lt (by omega), feed]
    exact parseUnits_escape (by decide) rfl rest
  by_cases control : c.toNat < 0x20
  · have high := hexValue_hexDigit (c.toNat / 16) (by omega)
    have low := hexValue_hexDigit (c.toNat % 16) (by omega)
    have whole : c.toNat / 16 * 0x10 + c.toNat % 16 = c.toNat := by omega
    have unit : hexUnit '0' '0' (hexDigit (c.toNat / 16)) (hexDigit (c.toNat % 16)) = some c.toNat := by
      have zero : hexValue '0' = some 0 := by decide
      simp [hexUnit, high, low, zero, whole]
    rw [if_neg back, if_neg feed, if_pos control, charUnits_of_lt (by omega), parseUnits.eq_def]
    simp [unit]
  · rw [if_neg back, if_neg feed, if_neg control]
    exact parseUnits_plain quotes slash control rest

private theorem parseUnits_quoted (text : List Char) (rest : List Char) :
    parseUnits (text.flatMap quoteChar ++ '"' :: rest) = some (codeUnits text, rest) := by
  induction text with
  | nil =>
    rw [parseUnits.eq_def]
    rfl
  | cons c text ih =>
    rw [List.flatMap_cons, List.append_assoc, parseUnits_quoteChar, ih]
    rfl

/-- A quoted string is read back. -/
theorem parseQuoted_quote (text : String) (rest : List Char) :
    parseQuoted (text.toList.flatMap quoteChar ++ '"' :: rest) = some (text, rest) := by
  rw [parseQuoted, parseUnits_quoted, Option.map_some, decodeUnits_codeUnits, String.ofList_toList]

/-! ## Members -/

private theorem skipSpace_cons {c : Char} (visible : isSpace c = false) (rest : List Char) :
    skipSpace (c :: rest) = c :: rest := by
  simp [skipSpace, visible]

/-- Where a value ends: no numeral goes on. -/
def Ends (rest : List Char) : Prop := ∀ c ∈ rest.head?, isNumeral c = false

section Group

variable {α : Type} {member : List Char → Option (α × List Char)} {close : Char}

private theorem parseMembers_join {texts : List (List Char)} {values : List α}
    (reads : List.Forall₂ (fun text value => ∀ rest, Ends rest → member (text ++ rest) = some (value, rest)) texts values)
    (some : texts ≠ []) (visible : isSpace close = false) (other : close ≠ ',') (ends : isNumeral close = false)
    {count : Nat} (enough : texts.length ≤ count) (rest : List Char) :
    parseMembers member close count (joinTexts texts ++ close :: rest) = .some (values, rest) := by
  induction reads generalizing count with
  | nil => exact absurd rfl some
  | @cons text value texts values first others ih =>
    obtain ⟨count, rfl⟩ : ∃ fewer, count = fewer + 1 := ⟨count - 1, by simp at enough; omega⟩
    cases others with
    | nil =>
      have here := first (close :: rest) (by simpa [Ends] using ends)
      simp [joinTexts, parseMembers, here, skipSpace_cons visible, other]
    | @cons next second texts values here others =>
      have tail := ih (by simp) (by simpa using enough)
      have here := first (',' :: (joinTexts (next :: texts) ++ close :: rest)) (by simp [Ends]; decide)
      have comma : isSpace ',' = false := by decide
      rw [joinTexts, List.append_assoc, List.cons_append, parseMembers, here]
      simp [skipSpace_cons comma, tail]

private theorem parseGroup_join {texts : List (List Char)} {values : List α}
    (reads : List.Forall₂ (fun text value => ∀ rest, Ends rest → member (text ++ rest) = some (value, rest)) texts values)
    (opens : ∀ text ∈ texts, ∃ c tail, text = c :: tail ∧ isSpace c = false ∧ c ≠ close)
    (visible : isSpace close = false) (other : close ≠ ',') (ends : isNumeral close = false)
    {count : Nat} (enough : texts.length ≤ count) (rest : List Char) :
    parseGroup member close count (joinTexts texts ++ close :: rest) = .some (values, rest) := by
  cases texts with
  | nil =>
    cases reads
    simp [parseGroup, joinTexts, skipSpace_cons visible]
  | cons text texts =>
    obtain ⟨c, tail, rfl, shown, differs⟩ := opens text (by simp)
    obtain ⟨more, starts⟩ : ∃ more, joinTexts ((c :: tail) :: texts) ++ close :: rest = c :: more := by
      cases texts <;> exact ⟨_, rfl⟩
    have members := parseMembers_join reads (by simp) visible other ends enough rest
    rw [starts] at members ⊢
    simp only [parseGroup, skipSpace_cons shown, differs, ↓reduceIte]
    exact members

end Group

/-! ## Values -/

section Values

variable [Numerals ν]

private theorem isSpace_of_isNumeral {c : Char} (numeral : isNumeral c = true) : isSpace c = false := by
  by_contra space
  simp only [isSpace, Bool.or_eq_true, beq_iff_eq, Bool.not_eq_false] at space
  obtain ((rfl | rfl) | rfl) | rfl := space <;> revert numeral <;> decide

/-- What a text of a value starts with. -/
private theorem render_opens (value : JsValue ν) :
    ∃ c tail, render value = c :: tail ∧ isSpace c = false ∧ c ≠ ']' := by
  have literal : ∃ c tail, nullText = c :: tail ∧ isSpace c = false ∧ c ≠ ']' := ⟨_, _, rfl, by decide, by decide⟩
  cases value with
  | undefined => simpa only [render] using literal
  | null => simpa only [render] using literal
  | bool value => cases value <;> exact ⟨_, _, by rw [render], by decide, by decide⟩
  | number value =>
    rw [render]
    cases printed : Numerals.print value with
    | none => exact literal
    | some text =>
      cases text with
      | nil => exact absurd rfl (Numerals.starts printed)
      | cons c tail =>
        have numeral := Numerals.numeral printed c (by simp)
        refine ⟨c, tail, rfl, isSpace_of_isNumeral numeral, ?_⟩
        rintro rfl
        revert numeral
        decide
  | string value => exact ⟨_, _, by rw [render, quote, List.cons_append], by decide, by decide⟩
  | array items => exact ⟨_, _, by rw [render, List.cons_append], by decide, by decide⟩
  | object fields => exact ⟨_, _, by rw [render, List.cons_append], by decide, by decide⟩

private theorem takeWhile_numeral {text rest : List Char} (numeral : ∀ c ∈ text, isNumeral c = true)
    (ends : Ends rest) :
    (text ++ rest).takeWhile isNumeral = text ∧ (text ++ rest).dropWhile isNumeral = rest := by
  induction text with
  | nil =>
    cases rest with
    | nil => exact ⟨rfl, rfl⟩
    | cons c rest =>
      have stop : isNumeral c = false := ends c (by simp)
      simp [stop]
  | cons c text ih =>
    have here := numeral c (by simp)
    have tail := ih fun c member => numeral c (by simp [member])
    simp [here, tail]

private theorem parseNumber_print {value : ν} {text : List Char} (printed : Numerals.print value = some text)
    {rest : List Char} (ends : Ends rest) : parseNumber (text ++ rest) = some (.number value, rest) := by
  obtain ⟨taken, dropped⟩ := takeWhile_numeral (Numerals.numeral printed) ends
  rw [parseNumber, taken, dropped, Numerals.scan_print printed]
  rfl

theorem length_le_joinTexts {texts : List (List Char)} {text : List Char} (member : text ∈ texts) :
    text.length ≤ (joinTexts texts).length := by
  induction texts with
  | nil => cases member
  | cons first texts ih =>
    cases texts with
    | nil => simp_all [joinTexts]
    | cons next texts =>
      rcases List.mem_cons.mp member with rfl | later
      · simp [joinTexts]
      · have bound := ih later
        simp only [joinTexts, List.length_append, List.length_cons]
        omega

theorem count_le_joinTexts {texts : List (List Char)} (some : ∀ text ∈ texts, text ≠ []) :
    texts.length ≤ (joinTexts texts).length := by
  induction texts with
  | nil => simp
  | cons first texts ih =>
    have head : 0 < first.length := List.length_pos_of_ne_nil (some first (by simp))
    cases texts with
    | nil =>
      rw [joinTexts]
      exact head
    | cons next texts =>
      have tail := ih fun text member => some text (by simp [member])
      simp only [joinTexts, List.length_append, List.length_cons] at tail ⊢
      omega

/-- The parser reads the text of every value of a size the fuel covers. -/
private def Reads (fuel : Nat) : Prop :=
  ∀ (value : JsValue ν) (rest : List Char), (render value).length ≤ fuel → Ends rest →
    parseValue fuel (render value ++ rest) = some (recorded value, rest)

private theorem Reads.items {fuel : Nat} (reads : Reads (ν := ν) fuel) (items : List (JsValue ν))
    (fits : ∀ text ∈ itemTexts items, text.length ≤ fuel) :
    List.Forall₂ (fun text value => ∀ rest, Ends rest → parseValue fuel (text ++ rest) = some (value, rest))
      (itemTexts items) (recordedItems items) := by
  induction items with
  | nil => exact .nil
  | cons item items ih =>
    rw [itemTexts] at fits
    rw [itemTexts, recordedItems]
    refine .cons (fun rest => reads item rest (fits _ (by simp))) (ih fun text member => fits text (by simp [member]))

theorem fieldTexts_defined {value : JsValue ν} (defined : value ≠ .undefined) (key : String)
    (rest : List (String × JsValue ν)) :
    fieldTexts ((key, value) :: rest) = (quote key ++ ':' :: render value) :: fieldTexts rest := by
  cases value <;> first | exact absurd rfl defined | rw [fieldTexts]; nofun

theorem recordedFields_defined {value : JsValue ν} (defined : value ≠ .undefined) (key : String)
    (rest : List (String × JsValue ν)) :
    recordedFields ((key, value) :: rest) = (key, recorded value) :: recordedFields rest := by
  cases value <;> first | exact absurd rfl defined | rw [recordedFields]; nofun

private theorem Reads.field {fuel : Nat} (reads : Reads (ν := ν) fuel) (key : String) {value : JsValue ν}
    (fits : (render value).length ≤ fuel) {rest : List Char} (ends : Ends rest) :
    parseField (parseValue fuel) (quote key ++ ':' :: render value ++ rest) = some ((key, recorded value), rest) := by
  have opening : isSpace '"' = false := by decide
  have colon : isSpace ':' = false := by decide
  have shape : quote key ++ ':' :: render value ++ rest =
      '"' :: (key.toList.flatMap quoteChar ++ '"' :: (':' :: (render value ++ rest))) := by
    simp [quote]
  rw [shape, parseField, skipSpace_cons opening]
  simp only [parseQuoted_quote, Option.bind_some, skipSpace_cons colon, reads value rest fits ends, Option.map_some]

private theorem Reads.fields {fuel : Nat} (reads : Reads (ν := ν) fuel) (fields : List (String × JsValue ν))
    (fits : ∀ text ∈ fieldTexts fields, text.length ≤ fuel) :
    List.Forall₂ (fun text field => ∀ rest, Ends rest → parseField (parseValue fuel) (text ++ rest) = some (field, rest))
      (fieldTexts fields) (recordedFields fields) := by
  induction fields with
  | nil => exact .nil
  | cons field fields ih =>
    obtain ⟨key, value⟩ := field
    by_cases defined : value = .undefined
    · subst defined
      exact ih fits
    · rw [fieldTexts_defined defined] at fits ⊢
      rw [recordedFields_defined defined]
      have short : (render value).length ≤ fuel := by
        have whole := fits _ (List.mem_cons_self ..)
        simp only [List.length_append, List.length_cons] at whole
        omega
      exact .cons (fun rest ends => reads.field key short ends) (ih fun text member => fits text (by simp [member]))

theorem itemTexts_opens (items : List (JsValue ν)) :
    ∀ text ∈ itemTexts items, ∃ c tail, text = c :: tail ∧ isSpace c = false ∧ c ≠ ']' := by
  induction items with
  | nil => nofun
  | cons item items ih =>
    intro text member
    rw [itemTexts] at member
    rcases List.mem_cons.mp member with rfl | later
    · exact render_opens item
    · exact ih text later

theorem fieldTexts_opens (fields : List (String × JsValue ν)) :
    ∀ text ∈ fieldTexts fields, ∃ c tail, text = c :: tail ∧ isSpace c = false ∧ c ≠ '}' := by
  induction fields with
  | nil => nofun
  | cons field fields ih =>
    obtain ⟨key, value⟩ := field
    intro text member
    by_cases defined : value = .undefined
    · subst defined
      exact ih text member
    · rw [fieldTexts_defined defined] at member
      rcases List.mem_cons.mp member with rfl | later
      · exact ⟨'"', _, rfl, by decide, by decide⟩
      · exact ih text later

private theorem nonempty_of_opens {close : Char} {text : List Char}
    (opens : ∃ c tail, text = c :: tail ∧ isSpace c = false ∧ c ≠ close) : text ≠ [] := by
  obtain ⟨c, tail, rfl, -⟩ := opens
  exact List.cons_ne_nil c tail

private theorem parseValue_null (fuel : Nat) (rest : List Char) :
    parseValue (fuel + 1) (nullText ++ rest) = some (.null (ν := ν), rest) := by
  simp [nullText, parseValue, skipSpace, isSpace, isNumeral, parseLiteral]

private theorem parseValue_print (fuel : Nat) {value : ν} {text : List Char}
    (printed : Numerals.print value = some text) {rest : List Char} (ends : Ends rest) :
    parseValue (fuel + 1) (text ++ rest) = some (.number value, rest) := by
  have number := parseNumber_print printed ends
  cases text with
  | nil => exact absurd rfl (Numerals.starts printed)
  | cons c tail =>
    have numeral := Numerals.numeral printed c (by simp)
    have other : ∀ opening, isNumeral opening = false → c ≠ opening := by
      rintro opening no rfl
      exact absurd numeral (by simp [no])
    have shape : skipSpace ((c :: tail) ++ rest) = c :: (tail ++ rest) :=
      skipSpace_cons (isSpace_of_isNumeral numeral) _
    rw [parseValue, shape]
    simp only [other '"' (by decide), other '[' (by decide), other '{' (by decide), numeral, ↓reduceIte]
    exact number

private theorem reads_succ {fuel : Nat} (reads : Reads (ν := ν) fuel) : Reads (ν := ν) (fuel + 1) := by
  intro value rest fits ends
  cases value with
  | undefined => simpa only [render, recorded] using parseValue_null fuel rest
  | null => simpa only [render, recorded] using parseValue_null fuel rest
  | bool value => cases value <;> simp [render, parseValue, skipSpace, isSpace, isNumeral, parseLiteral, recorded]
  | number value =>
    rw [render, recorded]
    cases printed : Numerals.print value with
    | none => simpa using parseValue_null fuel rest
    | some text => simpa using parseValue_print fuel printed ends
  | string value =>
    have opening : isSpace '"' = false := by decide
    have shape : render (.string value : JsValue ν) ++ rest =
        '"' :: (value.toList.flatMap quoteChar ++ '"' :: rest) := by simp [render, quote]
    rw [shape, parseValue, skipSpace_cons opening]
    simp [parseQuoted_quote, recorded]
  | array items =>
    have opening : isSpace '[' = false := by decide
    have bound : (joinTexts (itemTexts items)).length ≤ fuel := by
      simp only [render, List.length_append, List.length_cons] at fits
      omega
    have shape : render (.array items) ++ rest = '[' :: (joinTexts (itemTexts items) ++ ']' :: rest) := by simp [render]
    have opens := itemTexts_opens items
    have group := parseGroup_join (reads.items items fun text member => (length_le_joinTexts member).trans bound)
      opens (by decide) (by decide) (by decide)
      ((count_le_joinTexts fun text member => nonempty_of_opens (opens text member)).trans bound) rest
    rw [shape, parseValue, skipSpace_cons opening]
    simp [group, recorded]
  | object fields =>
    have opening : isSpace '{' = false := by decide
    have bound : (joinTexts (fieldTexts fields)).length ≤ fuel := by
      simp only [render, List.length_append, List.length_cons] at fits
      omega
    have shape : render (.object fields) ++ rest = '{' :: (joinTexts (fieldTexts fields) ++ '}' :: rest) := by
      simp [render]
    have opens := fieldTexts_opens fields
    have group := parseGroup_join (reads.fields fields fun text member => (length_le_joinTexts member).trans bound)
      opens (by decide) (by decide) (by decide)
      ((count_le_joinTexts fun text member => nonempty_of_opens (opens text member)).trans bound) rest
    rw [shape, parseValue, skipSpace_cons opening]
    simp [group, recorded]

private theorem reads_all (fuel : Nat) : Reads (ν := ν) fuel := by
  induction fuel with
  | zero =>
    intro value rest fits
    obtain ⟨c, tail, starts, -⟩ := render_opens value
    simp [starts] at fits
  | succ fuel ih => exact reads_succ ih

/-- Parsing the text of a value gives the value as recorded. -/
theorem parse_render (value : JsValue ν) : parse (render value) = some (recorded value) := by
  have read := reads_all ((render value).length + 1) value [] (Nat.le_succ _) nofun
  rw [List.append_nil] at read
  rw [parse, read, Option.bind_some]
  exact if_pos rfl

/-! ## JSON values -/

omit [Numerals ν] in
private theorem setField_fresh {fields : List (String × JsValue ν)} {field : String × JsValue ν}
    (fresh : field.1 ∉ fields.map (·.1)) : setField fields field = fields ++ [field] := by
  induction fields with
  | nil => rfl
  | cons first rest ih =>
    simp only [List.map_cons, List.mem_cons, not_or] at fresh
    rw [setField, if_neg (Ne.symm fresh.1), ih fresh.2]
    rfl

omit [Numerals ν] in
/-- Assigning properties with distinct keys keeps them as they are. -/
theorem assignFields_nodup {fields : List (String × JsValue ν)} (distinct : (fields.map (·.1)).Nodup) :
    assignFields fields = fields := by
  have assigned : ∀ before : List (String × JsValue ν), ((before ++ fields).map (·.1)).Nodup →
      fields.foldl setField before = before ++ fields := by
    clear distinct
    induction fields with
    | nil => simp
    | cons field rest ih =>
      intro before distinct
      have fresh : field.1 ∉ before.map (·.1) := by
        simp only [List.map_append, List.map_cons, List.nodup_append] at distinct
        exact fun member => distinct.2.2 _ member _ (by simp) rfl
      rw [List.foldl_cons, setField_fresh fresh, ih (before ++ [field]) (by simpa using distinct)]
      simp
  exact assigned [] distinct

mutual
/-- A JSON value is read back as it is. -/
theorem recorded_of_isJson : ∀ value : JsValue ν, isJson value = true → recorded value = value
  | .undefined, json => by simp [isJson] at json
  | .null, _ => by rw [recorded]
  | .bool _, _ => by rw [recorded]
  | .number _, json => by
    rw [isJson] at json
    rw [recorded, if_pos json]
  | .string _, _ => by rw [recorded]
  | .array items, json => by
    rw [isJson] at json
    rw [recorded, recordedItems_of_allJson items json]
  | .object fields, json => by
    rw [isJson, Bool.and_eq_true, decide_eq_true_eq] at json
    rw [recorded, recordedFields_of_fieldsJson fields json.1, assignFields_nodup json.2]

theorem recordedItems_of_allJson : ∀ items : List (JsValue ν), allJson items = true → recordedItems items = items
  | [], _ => by rw [recordedItems]
  | item :: rest, json => by
    rw [allJson, Bool.and_eq_true] at json
    rw [recordedItems, recorded_of_isJson item json.1, recordedItems_of_allJson rest json.2]

theorem recordedFields_of_fieldsJson :
    ∀ fields : List (String × JsValue ν), fieldsJson fields = true → recordedFields fields = fields
  | [], _ => by rw [recordedFields]
  | (key, value) :: rest, json => by
    rw [fieldsJson, Bool.and_eq_true] at json
    have defined : value ≠ .undefined := by
      rintro rfl
      simp [isJson] at json
    rw [recordedFields_defined defined, recorded_of_isJson value json.1, recordedFields_of_fieldsJson rest json.2]
end

/-! ## Lines -/

private theorem newline_notMem_quoteChar (c : Char) : '\n' ∉ quoteChar c := by
  have hex : ∀ digit, digit < 16 → hexDigit digit ≠ '\n' := by decide
  rw [quoteChar]
  split_ifs with quotes slash line carriage tab back feed control <;>
    simp only [List.mem_cons, List.not_mem_nil, or_false, not_or]
  all_goals first | decide | skip
  · exact ⟨by decide, by decide, by decide, by decide, (hex _ (by omega)).symm, (hex _ (by omega)).symm⟩
  · exact Ne.symm line

private theorem newline_notMem_quote (text : String) : '\n' ∉ quote text := by
  simp only [quote, List.mem_append, List.mem_cons, List.mem_flatMap, List.not_mem_nil, or_false, not_or]
  refine ⟨⟨by decide, ?_⟩, by decide⟩
  rintro ⟨c, -, member⟩
  exact newline_notMem_quoteChar c member

private theorem newline_notMem_joinTexts {texts : List (List Char)} (each : ∀ text ∈ texts, '\n' ∉ text) :
    '\n' ∉ joinTexts texts := by
  induction texts with
  | nil => simp [joinTexts]
  | cons text texts ih =>
    have head := each text (by simp)
    cases texts with
    | nil => simpa [joinTexts] using head
    | cons next texts =>
      have tail := ih fun text member => each text (by simp [member])
      simp only [joinTexts, List.mem_append, List.mem_cons, not_or]
      exact ⟨head, by decide, tail⟩

mutual
/-- The text of a value holds no line break. -/
theorem newline_notMem_render : ∀ value : JsValue ν, '\n' ∉ render value
  | .undefined => by rw [render]; decide
  | .null => by rw [render]; decide
  | .bool value => by cases value <;> rw [render] <;> decide
  | .number value => by
    rw [render]
    cases printed : Numerals.print value with
    | none => decide
    | some text =>
      intro member
      have numeral := Numerals.numeral printed _ member
      revert numeral
      decide
  | .string value => by
    rw [render]
    exact newline_notMem_quote value
  | .array items => by
    have each := newline_notMem_joinTexts (newline_notMem_itemTexts items)
    simp [render, each]
  | .object fields => by
    have each := newline_notMem_joinTexts (newline_notMem_fieldTexts fields)
    simp [render, each]

theorem newline_notMem_itemTexts : ∀ items : List (JsValue ν), ∀ text ∈ itemTexts items, '\n' ∉ text
  | [] => nofun
  | item :: rest => by
    rw [itemTexts]
    intro text member
    rcases List.mem_cons.mp member with rfl | later
    · exact newline_notMem_render item
    · exact newline_notMem_itemTexts rest text later

theorem newline_notMem_fieldTexts : ∀ fields : List (String × JsValue ν), ∀ text ∈ fieldTexts fields, '\n' ∉ text
  | [] => nofun
  | (key, value) :: rest => by
    intro text member
    by_cases defined : value = .undefined
    · subst defined
      exact newline_notMem_fieldTexts rest text member
    · rw [fieldTexts_defined defined] at member
      rcases List.mem_cons.mp member with rfl | later
      · have quoted := newline_notMem_quote key
        have inner := newline_notMem_render value
        simp [quoted, inner]
      · exact newline_notMem_fieldTexts rest text later
end

end Values

end Faberun.JsonText
