import Mathlib.Data.List.Basic

/-! # Complete lines of a growing file

A file of lines that is only appended to. A line counts once its line break is written: the complete lines of a file
and the number of bytes they take. A file cut at the end of a complete line can be read in two parts.
-/

namespace Faberun

/-- The byte of a line break. -/
def newline : UInt8 := 10

/-- The lines that end in a line break, without it. -/
def completeLines : List UInt8 → List (List UInt8)
  | [] => []
  | byte :: rest =>
    if byte = newline then [] :: completeLines rest
    else match completeLines rest with
      | [] => []
      | line :: lines => (byte :: line) :: lines

/-- The number of bytes up to the last line break. -/
def completeBytes : List UInt8 → Nat
  | [] => 0
  | byte :: rest =>
    if completeBytes rest ≠ 0 then completeBytes rest + 1 else if byte = newline then 1 else 0

/-- Nothing, or a text that ends with a line break. -/
def Ended (bytes : List UInt8) : Prop := completeBytes bytes = bytes.length

/-! ## Line by line -/

/-- A file has no line break, or a first line and a file after it. -/
theorem line_induction {motive : List UInt8 → Prop} (plain : ∀ tail, newline ∉ tail → motive tail)
    (line : ∀ line rest, newline ∉ line → motive rest → motive (line ++ newline :: rest)) (bytes : List UInt8) :
    motive bytes := by
  induction size : bytes.length using Nat.strongRecOn generalizing bytes with
  | ind size ih =>
    by_cases broken : newline ∈ bytes
    · obtain ⟨first, rest, rfl, fresh⟩ := List.eq_append_cons_of_mem broken
      refine line first rest fresh (ih rest.length ?_ rest rfl)
      simp only [List.length_append, List.length_cons] at size
      omega
    · exact plain bytes broken

@[simp] theorem completeLines_line {line : List UInt8} (plain : newline ∉ line) (rest : List UInt8) :
    completeLines (line ++ newline :: rest) = line :: completeLines rest := by
  induction line with
  | nil => simp [completeLines]
  | cons byte line ih =>
    simp only [List.mem_cons, not_or] at plain
    rw [List.cons_append, completeLines, if_neg (Ne.symm plain.1), ih plain.2]

@[simp] theorem completeLines_plain {tail : List UInt8} (plain : newline ∉ tail) : completeLines tail = [] := by
  induction tail with
  | nil => rfl
  | cons byte tail ih =>
    simp only [List.mem_cons, not_or] at plain
    rw [completeLines, if_neg (Ne.symm plain.1), ih plain.2]

@[simp] theorem completeBytes_plain {tail : List UInt8} (plain : newline ∉ tail) : completeBytes tail = 0 := by
  induction tail with
  | nil => rfl
  | cons byte tail ih =>
    simp only [List.mem_cons, not_or] at plain
    simp [completeBytes, ih plain.2, Ne.symm plain.1]

@[simp] theorem completeBytes_line (line rest : List UInt8) :
    completeBytes (line ++ newline :: rest) = line.length + 1 + completeBytes rest := by
  induction line with
  | nil =>
    rw [List.nil_append, completeBytes]
    split_ifs with later
    · simp only [List.length_nil]
      omega
    · simp only [List.length_nil]
      omega
    · contradiction
  | cons byte line ih =>
    rw [List.cons_append, completeBytes, if_pos (by omega), ih, List.length_cons]
    omega

theorem completeBytes_le (bytes : List UInt8) : completeBytes bytes ≤ bytes.length := by
  induction bytes using line_induction with
  | plain tail plain => simp [plain]
  | line line rest _ ih =>
    simp only [completeBytes_line, List.length_append, List.length_cons]
    omega

/-! ## Two parts -/

theorem Ended.nil : Ended [] := rfl

theorem Ended.rest {line rest : List UInt8} (ended : Ended (line ++ newline :: rest)) : Ended rest := by
  simp only [Ended, completeBytes_line, List.length_append, List.length_cons] at ended ⊢
  omega

theorem Ended.eq_nil {tail : List UInt8} (ended : Ended tail) (plain : newline ∉ tail) : tail = [] := by
  rw [Ended, completeBytes_plain plain] at ended
  exact List.length_eq_zero_iff.mp ended.symm

/-- The lines of a file cut behind a line break are those of its two parts. -/
theorem completeLines_append {before : List UInt8} (ended : Ended before) (rest : List UInt8) :
    completeLines (before ++ rest) = completeLines before ++ completeLines rest := by
  induction before using line_induction with
  | plain tail plain =>
    obtain rfl := ended.eq_nil plain
    rfl
  | line line more plain ih =>
    rw [List.append_assoc, List.cons_append, completeLines_line plain, completeLines_line plain, ih ended.rest,
      List.cons_append]

theorem completeBytes_append {before : List UInt8} (ended : Ended before) (rest : List UInt8) :
    completeBytes (before ++ rest) = before.length + completeBytes rest := by
  induction before using line_induction with
  | plain tail plain =>
    obtain rfl := ended.eq_nil plain
    simp
  | line line more plain ih =>
    rw [List.append_assoc, List.cons_append, completeBytes_line, ih ended.rest, List.length_append, List.length_cons]
    omega

theorem Ended.append {before rest : List UInt8} (first : Ended before) (second : Ended rest) :
    Ended (before ++ rest) := by
  rw [Ended, completeBytes_append first, second, List.length_append]

/-- What the complete lines take ends with a line break. -/
theorem ended_take_completeBytes (bytes : List UInt8) : Ended (bytes.take (completeBytes bytes)) := by
  induction bytes using line_induction with
  | plain tail plain => simp [plain, Ended.nil]
  | line line rest plain ih =>
    have whole : line.length + 1 + completeBytes rest = (line ++ [newline]).length + completeBytes rest := by simp
    rw [completeBytes_line, whole, List.append_cons line newline rest, List.take_length_add_append]
    refine Ended.append ?_ ih
    simp [Ended]

/-- The open end has no line break. -/
theorem newline_notMem_drop (bytes : List UInt8) : newline ∉ bytes.drop (completeBytes bytes) := by
  induction bytes using line_induction with
  | plain tail plain =>
    rw [completeBytes_plain plain]
    exact plain
  | line line rest plain ih =>
    have whole : line.length + 1 + completeBytes rest = (line ++ [newline]).length + completeBytes rest := by simp
    rw [completeBytes_line, whole, List.append_cons line newline rest, List.drop_length_add_append]
    exact ih

/-- The complete lines stand in the bytes they take. -/
theorem completeLines_take (bytes : List UInt8) :
    completeLines (bytes.take (completeBytes bytes)) = completeLines bytes := by
  conv_rhs => rw [← List.take_append_drop (completeBytes bytes) bytes]
  rw [completeLines_append (ended_take_completeBytes bytes), completeLines_plain (newline_notMem_drop bytes),
    List.append_nil]

/-! ## The last line break -/

/-- `buffer.lastIndexOf(0x0a)`. -/
def lastNewline? : List UInt8 → Option Nat
  | [] => none
  | byte :: rest =>
    match lastNewline? rest with
    | some index => some (index + 1)
    | none => if byte = newline then some 0 else none

/-- The last line break ends the complete lines. -/
theorem lastNewline?_eq (bytes : List UInt8) :
    lastNewline? bytes = if completeBytes bytes = 0 then none else some (completeBytes bytes - 1) := by
  induction bytes with
  | nil => rfl
  | cons byte rest ih =>
    rw [lastNewline?, ih, completeBytes]
    by_cases none : completeBytes rest = 0
    · by_cases here : byte = newline <;> simp [none, here]
    · simp [none]
      omega

/-- The last line break of a file is the last one behind any byte that has one behind it. -/
theorem completeBytes_of_drop {bytes : List UInt8} {start : Nat} (some : completeBytes (bytes.drop start) ≠ 0) :
    completeBytes bytes = start + completeBytes (bytes.drop start) := by
  induction start generalizing bytes with
  | zero => simp
  | succ start ih =>
    cases bytes with
    | nil => exact absurd rfl some
    | cons byte rest =>
      have later := ih some
      rw [List.drop_succ_cons] at some ⊢
      rw [completeBytes, if_pos (by omega), later]
      omega

theorem completeBytes_of_getLast {bytes : List UInt8} (last : bytes.getLast? = some newline) : Ended bytes := by
  obtain ⟨before, rfl⟩ := List.getLast?_eq_some_iff.mp last
  simp [Ended]

end Faberun
