import Faberun.Text.JsonText
import Faberun.Text.Utf8Encode

/-! # Appending to a file of JSON lines

`appendJsonl` of `run/store.mjs`. Before it writes a line it cuts off what a crash left of the last one: it reads the end
of the file, decodes it and looks for the last line break.
-/

namespace Faberun.Jsonl

/-- `JSONL_RECOVERY_TAIL_BYTES`. -/
def recoveryTailBytes : Nat := 64 * 1024

/-- `text.lastIndexOf(unit)`, of one code unit. -/
def lastIndexOf (unit : Nat) : List Nat → Option Nat
  | [] => none
  | first :: rest =>
    match lastIndexOf unit rest with
    | some index => some (index + 1)
    | none => if first = unit then some 0 else none

/-- The code unit of a line break. -/
def lineBreak : Nat := 10

/-- `recoverPartialJsonl`: what it leaves of a file; one that is not there has no bytes. -/
def recoverPartialJsonl (file : List UInt8) : List UInt8 :=
  let size := file.length
  let window := min size recoveryTailBytes
  let tail := codeUnits (Utf8.decode (file.drop (size - window)))
  if size = 0 ∨ tail.getLast? = some lineBreak then file
  else
    -- the index counts code units and is used as a number of bytes
    file.take (match lastIndexOf lineBreak tail with
      | some newline => size - window + newline + 1
      | none => if size ≤ recoveryTailBytes then 0 else size - window)

variable {ν : Type} [Numerals ν]

/-- The text of a record. -/
def recordText (value : JsValue ν) : List Char := (JsonText.stringify value).getD "undefined".toList

/-- The line of a record. -/
def lineOf (value : JsValue ν) : List UInt8 := Utf8.encode (recordText value ++ ['\n'])

/-- An append, and how many bytes of its line reach the file. -/
structure Append (ν : Type) where
  value : JsValue ν
  kept : Nat

/-- Whether the line is complete. -/
def Append.whole (append : Append ν) : Bool := decide ((lineOf append.value).length ≤ append.kept)

/-- `appendJsonl`. -/
def appendJsonl (file : List UInt8) (append : Append ν) : List UInt8 :=
  recoverPartialJsonl file ++ (lineOf append.value).take append.kept

/-- A file after some appends. -/
def fileAfter (appends : List (Append ν)) : List UInt8 := appends.foldl appendJsonl []

end Faberun.Jsonl
