import Mathlib.Algebra.GroupWithZero.Nat
import Mathlib.Data.Rat.Defs
import Mathlib.Data.List.Basic

/-! # JSON values

The values `JSON.parse` answers and `JSON.stringify` takes, and the checks on them the validators share. An
object keeps its fields in order; a number is finite or the infinity an overflowing literal parses to.
-/

namespace Faberun

inductive JsonNumber where
  | finite (value : Rat)
  | infinite
  deriving DecidableEq

inductive JsonValue where
  | null
  | bool (value : Bool)
  | number (value : JsonNumber)
  | string (value : String)
  | array (items : List JsonValue)
  | object (fields : List (String × JsonValue))

/-- What a validator throws; a `TypeError` has no code. -/
structure Refusal where
  code : Option String
  message : String
  deriving DecidableEq, Repr

/-- A check of a validator that throws a `TypeError`. -/
def check (holds : Bool) (message : String) : Except Refusal Unit :=
  if holds then .ok () else .error ⟨none, message⟩

namespace JsonValue

/-- The value of a field; `undefined` is a field that is not there. -/
def field? (fields : List (String × JsonValue)) (key : String) : Option JsonValue :=
  (fields.find? fun field => field.1 == key).map (·.2)

def string? : JsonValue → Option String
  | string value => some value
  | _ => none

/-- An array of strings. -/
def strings? : JsonValue → Option (List String)
  | array items => items.mapM string?
  | _ => none

/-- The array of some strings. -/
def ofStrings (values : List String) : JsonValue := array (values.map string)

@[simp] theorem strings?_ofStrings (values : List String) : strings? (ofStrings values) = some values := by
  simp only [strings?, ofStrings]
  induction values with
  | nil => rfl
  | cons value rest ih => simp [string?, ih]

/-- The field of an optional property. -/
def optional (key : String) (value : Option JsonValue) : List (String × JsonValue) :=
  (value.map (key, ·)).toList

end JsonValue

/-- A check that passed held. -/
theorem check_ok_iff {holds : Bool} {message : String} {done : Unit} :
    check holds message = .ok done ↔ holds = true := by
  cases holds <;> simp [check]

/-- A computation after another one. -/
theorem bind_ok_iff {α β : Type} {first : Except Refusal α} {next : α → Except Refusal β} {result : β} :
    first >>= next = .ok result ↔ ∃ value, first = .ok value ∧ next value = .ok result := by
  cases first <;> simp [bind, Except.bind]

/-- A check after another one. -/
theorem andThen_ok_iff {first second : Except Refusal Unit} :
    (first >>= fun _ => second) = .ok () ↔ first = .ok () ∧ second = .ok () := by
  cases first with
  | error refusal => simp [bind, Except.bind]
  | ok done => simp [bind, Except.bind]

/-- A check of every item. -/
theorem forM_ok_iff {α : Type} {items : List α} {each : α → Except Refusal Unit} :
    items.forM each = .ok () ↔ ∀ item ∈ items, each item = .ok () := by
  induction items with
  | nil => simp [pure, Except.pure]
  | cons first rest ih =>
    have step : (first :: rest).forM each = (each first >>= fun _ => rest.forM each) := rfl
    rw [step, andThen_ok_iff, ih, List.forall_mem_cons]

/-- Every item of a list under its own label, from an index on. -/
def eachFrom {α : Type} (validate : Nat → α → Except Refusal Unit) : Nat → List α → Except Refusal Unit
  | _, [] => .ok ()
  | index, item :: rest => do
    validate index item
    eachFrom validate (index + 1) rest

theorem eachFrom_ok_iff {α : Type} {validate : Nat → α → Except Refusal Unit} {P : α → Prop} {items : List α}
    (each : ∀ item ∈ items, ∀ index, validate index item = .ok () ↔ P item) (index : Nat) :
    eachFrom validate index items = .ok () ↔ ∀ item ∈ items, P item := by
  induction items generalizing index with
  | nil => simp [eachFrom]
  | cons item rest ih =>
    obtain ⟨here, later⟩ := List.forall_mem_cons.mp each
    rw [eachFrom, andThen_ok_iff, here, ih later, List.forall_mem_cons]

/-! ## Text -/

/-- The characters `String.prototype.trim` removes. -/
def isJsWhitespace (c : Char) : Bool :=
  c.toNat ∈ [0x09, 0x0A, 0x0B, 0x0C, 0x0D, 0x20, 0xA0, 0x1680, 0x2028, 0x2029, 0x202F, 0x205F, 0x3000, 0xFEFF] ||
    (0x2000 ≤ c.toNat && c.toNat ≤ 0x200A)

/-- `!text.trim()`. -/
def isBlank (text : String) : Bool := text.toList.all isJsWhitespace

/-- `requireStringArray`. -/
def requireStringArray (values : List String) (label : String) (nonEmpty : Bool) : Except Refusal Unit := do
  check (!nonEmpty || !values.isEmpty) s!"{label} must not be empty"
  eachFrom (fun index value => check (!isBlank value) s!"{label}[{index}] must be a non-empty string") 0 values

theorem requireStringArray_ok_iff {values : List String} {label : String} :
    requireStringArray values label false = .ok () ↔ ∀ value ∈ values, isBlank value = false := by
  have each : ∀ value ∈ values, ∀ index : Nat,
      check (!isBlank value) s!"{label}[{index}] must be a non-empty string" = .ok () ↔ isBlank value = false :=
    fun _ _ _ => by rw [check_ok_iff, Bool.not_eq_true']
  simp only [requireStringArray, andThen_ok_iff, check_ok_iff, eachFrom_ok_iff each, Bool.not_false, Bool.true_or, true_and]

/-- `Buffer.byteLength(text, "utf8")`. -/
def byteLength (text : String) : Nat := text.utf8ByteSize

/-- `values.join(", ")`. -/
def commaList (values : List String) : String := ", ".intercalate values

/-- The bytes of several texts. -/
def totalBytes (texts : List String) : Nat := (texts.map byteLength).sum

/-! ## Numbers in a text -/

/-- The digits behind the point. -/
def fractionDigits : Nat → Rat → List Char
  | 0, _ => []
  | fuel + 1, fraction =>
      if fraction = 0 then []
      else Nat.digitChar (fraction * 10).floor.toNat :: fractionDigits fuel (fraction * 10 - (fraction * 10).floor)

/-- A number as a text, for the numbers that are written without an exponent. -/
def shownNumber (value : Rat) : String :=
  let size := if value < 0 then -value else value
  let fraction := String.ofList (fractionDigits 17 (size - size.floor))
  (if value < 0 then "-" else "") ++ toString size.floor ++ (if fraction = "" then "" else "." ++ fraction)

example : [5 / 2, -1 / 8, 120].map shownNumber = ["2.5", "-0.125", "120"] := by decide +kernel

end Faberun
