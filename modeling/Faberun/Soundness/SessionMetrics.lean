import Faberun.Text.JsonRoundTrip
import Faberun.Text.JsonSize
import Faberun.Model.Harnesses.SessionMetrics

/-! # Session metering does not depend on the chunks

A record under assembly is a function of its bytes alone: whole up to the bound, and beyond it two ends and the count of the
needles that
left the tail. So a parser that was pushed some chunks stands where the bytes of all of them put it, and what it ends with is
the fold of
the records of the transcript, each read as a whole.
-/

namespace Faberun.SessionMetrics

open JsonText

variable {ν : Type}

/-! ## The needle -/

/-- `"type":"tool_use"`. -/
theorem toolUseNeedle_eq :
    toolUseNeedle = [34, 116, 121, 112, 101, 34, 58, 34, 116, 111, 111, 108, 95, 117, 115, 101, 34] := by decide

theorem length_toolUseNeedle : toolUseNeedle.length = 17 := by rw [toolUseNeedle_eq]; rfl

theorem newline_notMem_toolUseNeedle : newline ∉ toolUseNeedle := by rw [toolUseNeedle_eq]; decide

private theorem toolUseNeedle_ascii : ∀ byte ∈ toolUseNeedle ++ toolUseNeedle.tail, byte.toNat < 0x80 := by
  have all : (toolUseNeedle ++ toolUseNeedle.tail).all (fun byte => decide (byte.toNat < 0x80)) = true :=
    by rw [toolUseNeedle_eq]; rfl
  exact fun byte member => of_decide_eq_true (List.all_eq_true.mp all byte member)

/-- Only its last quote can be the first of another one. -/
private theorem toolUseNeedle_border :
    ∀ shift < 17, 0 < shift → toolUseNeedle.drop shift <+: toolUseNeedle → shift = 16 := by decide

/-- Two needles that share a quote. -/
private def shared : List Char := (toolUseNeedle ++ toolUseNeedle.tail).map fun byte => Char.ofNat byte.toNat

/-- No JSON text goes on behind them: what stands between two strings there is no separator. -/
private theorem scan_shared (place : Place) (depth : Nat) : scan shared (place, depth) = none := by
  rw [shared, toolUseNeedle_eq]
  cases place with
  | outside => rfl
  | quoted => rfl
  | escaped => rfl

section

variable [Numerals ν]

/-- In valid JSON no two needles overlap. -/
theorem apart_of_parse {record : List UInt8} (accepted : (parse (ν := ν) (Utf8.decode record)).isSome = true) :
    Apart toolUseNeedle record := by
  intro back ends begins shift some small again
  obtain ⟨more, rfl⟩ := begins
  rw [List.drop_append_of_le_length (Nat.le_of_lt small)] at again
  have inner : toolUseNeedle.drop shift <+: toolUseNeedle := by
    refine List.prefix_of_prefix_length_le (List.prefix_append _ more) again ?_
    rw [List.length_drop]
    omega
  obtain rfl := toolUseNeedle_border shift (length_toolUseNeedle ▸ small) some inner
  obtain ⟨front, rfl⟩ := ends
  have quote : toolUseNeedle.drop 16 ++ toolUseNeedle.tail = toolUseNeedle := by rw [toolUseNeedle_eq]; rfl
  have again : toolUseNeedle.drop 16 ++ toolUseNeedle.tail <+: toolUseNeedle.drop 16 ++ more := by
    rw [quote]
    exact again
  obtain ⟨rest, rfl⟩ := (List.prefix_append_right_inj _).mp again
  have balanced := balanced_of_parse accepted
  have split : front ++ (toolUseNeedle ++ (toolUseNeedle.tail ++ rest)) =
    front ++ (toolUseNeedle ++ toolUseNeedle.tail) ++ rest := by simp
  have nonempty : toolUseNeedle ++ toolUseNeedle.tail ≠ [] := by rw [toolUseNeedle_eq]; nofun
  rw [split, Utf8.decode_ascii_run nonempty toolUseNeedle_ascii, JsonText.Balanced, List.append_assoc, scan_append] at balanced
  obtain ⟨⟨place, depth⟩, -, balanced⟩ := Option.bind_eq_some_iff.mp balanced
  have stuck : scan (shared ++ Utf8.decode rest) (place, depth) = none := by rw [scan_append, scan_shared, Option.bind_none]
  rw [shared] at stuck
  rw [stuck] at balanced
  contradiction

/-- Where no line holds overlapping needles, the transcript holds none. -/
private theorem apart_of_lines {transcript : List UInt8} (lines : ∀ line ∈ completeLines transcript, Apart toolUseNeedle line)
    (rest : Apart toolUseNeedle (transcript.drop (completeBytes transcript))) : Apart toolUseNeedle transcript := by
  induction transcript using line_induction with
  | plain tail plain =>
    rw [completeBytes_plain plain, List.drop_zero] at rest
    exact rest
  | line line more plain ih =>
    rw [completeLines_line plain] at lines
    have whole : line.length + 1 + completeBytes more = (line ++ [newline]).length + completeBytes more := by simp
    rw [completeBytes_line, whole, List.append_cons line newline more, List.drop_length_add_append] at rest
    have parts := List.forall_mem_cons.mp lines
    exact parts.1.append_cons newline_notMem_toolUseNeedle (ih parts.2 rest)

end

/-! ## A record under assembly -/

namespace SessionMetricsParser

/-- What is kept of a record beyond the bound, from its bytes. -/
def ends (harness : String) (bytes : List UInt8) : Oversized where
  head := bytes.take sessionFragmentBytes
  tail := bytes.drop (bytes.length - sessionFragmentBytes)
  streamedToolUse := if harness = "claude" then occurrences toolUseNeedle (bytes.take (bytes.length - sessionFragmentBytes))
    else 0
  carry := if harness = "claude" then carried toolUseNeedle (bytes.take (bytes.length - sessionFragmentBytes)) else []

/-- The parser that has read these bytes of a record. -/
def assemble (parser : SessionMetricsParser ν) (bytes : List UInt8) : SessionMetricsParser ν :=
  if bytes.length ≤ sessionRecordMaxBytes then { parser with pending := bytes, oversized := none }
  else { parser with pending := [], oversized := some (ends parser.harness bytes) }

/-- A parser between two records. -/
def Idle (parser : SessionMetricsParser ν) : Prop := parser.pending = [] ∧ parser.oversized = none

theorem Idle.assemble_nil {parser : SessionMetricsParser ν} (idle : parser.Idle) : parser.assemble [] = parser := by
  cases parser
  obtain ⟨rfl, rfl⟩ := idle
  rfl

/-- Counting behind a carry goes on with the count. -/
private theorem countWithCarry_carried {needle first second : List UInt8} (apart : Apart needle (first ++ second)) :
    countWithCarry second (carried needle first) needle =
      ⟨occurrences needle (carried needle first ++ second), carried needle (first ++ second)⟩ := by
  have inside : carried needle first ++ second <:+: first ++ second := by
    refine ⟨first.take (first.length - (needle.length - 1)), [], ?_⟩
    rw [carried, ← List.append_assoc, List.take_append_drop, List.append_nil]
  have rest : carried needle (carried needle first ++ second) = carried needle (first ++ second) :=
    carried_append needle first second
  rw [countWithCarry, countNeedle, searchFrom_eq (apart.within inside), ← rest]
  rfl

private theorem countWithCarry_nil {needle text : List UInt8} (apart : Apart needle text) :
    countWithCarry text [] needle = ⟨occurrences needle text, carried needle text⟩ := by
  rw [countWithCarry, List.nil_append, countNeedle, searchFrom_eq apart]
  rfl

/-- A record that outgrows the bound. -/
private theorem absorb_outgrown {parser : SessionMetricsParser ν} {bytes piece : List UInt8} (fits :
    bytes.length ≤ sessionRecordMaxBytes)
    (long : ¬ (bytes ++ piece).length ≤ sessionRecordMaxBytes) (apart : parser.harness =
      "claude" → Apart toolUseNeedle (bytes ++ piece)) :
    (parser.assemble bytes).absorb piece = parser.assemble (bytes ++ piece) := by
  have beyond : sessionFragmentBytes < (bytes ++ piece).length := Nat.lt_of_le_of_lt (by decide) (Nat.lt_of_not_le long)
  have small : min sessionFragmentBytes (bytes ++ piece).length = sessionFragmentBytes := Nat.min_eq_left (Nat.le_of_lt beyond)
  have region : (bytes ++ piece).length - ((bytes ++ piece).drop ((bytes ++ piece).length - sessionFragmentBytes)).length =
      (bytes ++ piece).length - sessionFragmentBytes := by
    rw [List.length_drop]
    omega
  have longer : ¬ bytes.length + piece.length ≤ sessionRecordMaxBytes := List.length_append ▸ long
  rw [assemble, assemble, if_pos fits, if_neg long]
  simp only [absorb, if_neg longer, small, region, ends]
  by_cases claude : parser.harness = "claude"
  · have front : (bytes ++ piece).take ((bytes ++ piece).length - sessionFragmentBytes) <:+: bytes ++ piece :=
      (List.take_prefix ..).isInfix
    simp only [if_pos claude, countWithCarry_nil ((apart claude).within front)]
  · simp only [if_neg claude]

/-- Where the tail of a record that goes on begins. -/
private theorem tail_start {front tail piece : List UInt8} {size : Nat} (full : tail.length = size) :
    (front ++ tail ++ piece).length - size = front.length + piece.length := by
  rw [List.length_append, List.length_append]
  omega

/-- A record beyond the bound. -/
private theorem absorb_oversized {parser : SessionMetricsParser ν} {bytes piece : List UInt8} (long :
    ¬ bytes.length ≤ sessionRecordMaxBytes)
    (apart : parser.harness = "claude" → Apart toolUseNeedle (bytes ++ piece)) :
    (parser.assemble bytes).absorb piece = parser.assemble (bytes ++ piece) := by
  have beyond : sessionFragmentBytes < bytes.length := Nat.lt_of_le_of_lt (by decide) (Nat.lt_of_not_le long)
  have longer : ¬ (bytes ++ piece).length ≤ sessionRecordMaxBytes := by
    rw [List.length_append]
    omega
  have full : (bytes.drop (bytes.length - sessionFragmentBytes)).length = sessionFragmentBytes := by
    rw [List.length_drop]
    omega
  have head : (bytes ++ piece).take sessionFragmentBytes = bytes.take sessionFragmentBytes :=
    List.take_append_of_le_length (Nat.le_of_lt beyond)
  rw [assemble, assemble, if_neg long, if_neg longer, ends, ends, head]
  generalize bytes.take sessionFragmentBytes = opening
  have split := List.take_append_drop (bytes.length - sessionFragmentBytes) bytes
  generalize bytes.take (bytes.length - sessionFragmentBytes) = front at *
  generalize bytes.drop (bytes.length - sessionFragmentBytes) = tail at *
  obtain rfl := split
  have window : (tail ++ piece).length - sessionFragmentBytes = piece.length := by
    rw [List.length_append]
    omega
  have left : (tail ++ piece).length - ((tail ++ piece).drop piece.length).length = piece.length := by
    rw [List.length_drop, List.length_append]
    omega
  have region : (front ++ tail ++ piece).take (front.length + piece.length) = front ++ (tail ++ piece).take piece.length := by
    rw [List.append_assoc, List.take_length_add_append]
  have kept : (front ++ tail ++ piece).drop (front.length + piece.length) = (tail ++ piece).drop piece.length := by
    rw [List.append_assoc, List.drop_length_add_append]
  simp only [absorb, window, left, tail_start full, region, kept]
  by_cases claude : parser.harness = "claude"
  · have inside : front ++ (tail ++ piece).take piece.length <:+: front ++ tail ++ piece := region ▸ (List.take_prefix ..).isInfix
    simp only [if_pos claude, countWithCarry_carried ((apart claude).within inside), ← occurrences_append]
  · simp only [if_neg claude]

/-- Absorbing a piece of a record goes on with its bytes. -/
theorem absorb_assemble {parser : SessionMetricsParser ν} {bytes piece : List UInt8}
    (apart : parser.harness = "claude" → Apart toolUseNeedle (bytes ++ piece)) :
    (parser.assemble bytes).absorb piece = parser.assemble (bytes ++ piece) := by
  by_cases fits : bytes.length ≤ sessionRecordMaxBytes
  · by_cases short : (bytes ++ piece).length ≤ sessionRecordMaxBytes
    · have shorter : bytes.length + piece.length ≤ sessionRecordMaxBytes := List.length_append ▸ short
      rw [assemble, assemble, if_pos fits, if_pos short]
      simp only [absorb, if_pos shorter]
    · exact absorb_outgrown fits short apart
  · exact absorb_oversized fits apart

/-- So much is kept of a record, whatever its length. -/
theorem retained_assemble_le (parser : SessionMetricsParser ν) (bytes : List UInt8) :
    (parser.assemble bytes).retained ≤ sessionRecordMaxBytes + 16 := by
  rw [assemble]
  split_ifs with fits
  · exact Nat.le_add_right_of_le fits
  · have carry : (ends parser.harness bytes).carry.length ≤ 16 := by
      by_cases claude : parser.harness = "claude"
      · simp only [ends, if_pos claude]
        have bound := length_carried_le toolUseNeedle (bytes.take (bytes.length - sessionFragmentBytes))
        rwa [length_toolUseNeedle] at bound
      · simp only [ends, if_neg claude, List.length_nil, Nat.zero_le]
    have head : (ends parser.harness bytes).head.length ≤ sessionFragmentBytes := List.length_take_le ..
    have tail : (ends parser.harness bytes).tail.length ≤ sessionFragmentBytes := by
      simp only [ends, List.length_drop]
      omega
    have halves : sessionFragmentBytes + sessionFragmentBytes = sessionRecordMaxBytes := rfl
    change 0 + (_ + _ + _) ≤ _
    omega

/-! ## A transcript -/

section

variable [Numerals ν] [Add ν] [Zero ν] [Max ν]

/-- A record of the transcript read as a whole: its value, or beyond the bound its two ends and the needles in all of it. -/
def readRecord (parser : SessionMetricsParser ν) (bytes : List UInt8) : SessionMetricsParser ν :=
  if bytes.length ≤ sessionRecordMaxBytes then foldLine { parser with pending := [], oversized := none } bytes
  else
    foldEnds { parser with pending := [], oversized := none }
      { head := decodeFragment (bytes.take sessionFragmentBytes)
        tail := decodeFragment (bytes.drop (bytes.length - sessionFragmentBytes))
        toolUse := if parser.harness = "claude" then occurrences toolUseNeedle bytes else 0 }

omit [Add ν] [Zero ν] [Max ν] in
@[simp] theorem foldCompletionEvidence_harness (parser : SessionMetricsParser ν) (record : JsValue ν) :
    (parser.foldCompletionEvidence record).harness = parser.harness := by
  simp only [foldCompletionEvidence]
  split <;> rfl

omit [Add ν] [Zero ν] [Max ν] in
@[simp] theorem foldCompletionEvidence_pending (parser : SessionMetricsParser ν) (record : JsValue ν) :
    (parser.foldCompletionEvidence record).pending = parser.pending := by
  simp only [foldCompletionEvidence]
  split <;> rfl

omit [Add ν] [Zero ν] [Max ν] in
@[simp] theorem foldCompletionEvidence_oversized (parser : SessionMetricsParser ν) (record : JsValue ν) :
    (parser.foldCompletionEvidence record).oversized = parser.oversized := by
  simp only [foldCompletionEvidence]
  split <;> rfl

theorem readRecord_harness (parser : SessionMetricsParser ν) (bytes : List UInt8) :
    (parser.readRecord bytes).harness = parser.harness := by
  by_cases fits : bytes.length ≤ sessionRecordMaxBytes
  · rw [readRecord, if_pos fits, foldLine]
    split <;> simp
  · rw [readRecord, if_neg fits]
    rfl

theorem readRecord_idle (parser : SessionMetricsParser ν) (bytes : List UInt8) : (parser.readRecord bytes).Idle := by
  by_cases fits : bytes.length ≤ sessionRecordMaxBytes
  · rw [readRecord, if_pos fits, foldLine]
    split <;> simp [Idle]
  · rw [readRecord, if_neg fits]
    exact ⟨rfl, rfl⟩

/-- Completing a record reads it as a whole. -/
theorem completeRecord_assemble {parser : SessionMetricsParser ν} {bytes : List UInt8}
    (apart : parser.harness = "claude" → Apart toolUseNeedle bytes) : (parser.assemble bytes).completeRecord =
      parser.readRecord bytes := by
  by_cases fits : bytes.length ≤ sessionRecordMaxBytes
  · rw [assemble, readRecord, if_pos fits, if_pos fits]
    rfl
  · rw [assemble, readRecord, if_neg fits, if_neg fits]
    by_cases claude : parser.harness = "claude"
    · have split := List.take_append_drop (bytes.length - sessionFragmentBytes) bytes
      have apart : Apart toolUseNeedle
        (bytes.take (bytes.length - sessionFragmentBytes) ++ bytes.drop (bytes.length - sessionFragmentBytes)) := by
        rw [split]
        exact apart claude
      simp only [completeRecord, ends, if_pos claude, countWithCarry_carried apart, ← occurrences_append, split]
    · simp only [completeRecord, ends, if_neg claude]

/-- The parser behind some bytes of a transcript. -/
def standing (parser : SessionMetricsParser ν) (bytes : List UInt8) : SessionMetricsParser ν :=
  ((completeLines bytes).foldl readRecord parser).assemble (bytes.drop (completeBytes bytes))

theorem standing_plain (parser : SessionMetricsParser ν) {bytes : List UInt8} (plain : newline ∉ bytes) :
    parser.standing bytes = parser.assemble bytes := by
  rw [standing, completeLines_plain plain, completeBytes_plain plain]
  rfl

theorem standing_line (parser : SessionMetricsParser ν) {line : List UInt8} (plain : newline ∉ line) (rest : List UInt8) :
    parser.standing (line ++ newline :: rest) = (parser.readRecord line).standing rest := by
  have whole : line.length + 1 + completeBytes rest = (line ++ [newline]).length + completeBytes rest := by simp
  rw [standing, completeLines_line plain, completeBytes_line, whole, List.append_cons line newline rest,
    List.drop_length_add_append]
  rfl

private theorem push_plain (parser : SessionMetricsParser ν) {data : List UInt8} (plain : newline ∉ data) :
    parser.push data = if data = [] then parser else parser.absorb data := by
  rw [push, dif_neg plain]

private theorem push_line (parser : SessionMetricsParser ν) {line : List UInt8} (plain : newline ∉ line) (rest : List UInt8) :
    parser.push (line ++ newline :: rest) = (parser.absorb line).completeRecord.push rest := by
  have others : ∀ byte ∈ line, decide (byte ≠ newline) = true := by
    intro byte member
    rw [decide_eq_true_eq]
    rintro rfl
    exact plain member
  have before : (line ++ newline :: rest).takeWhile (· ≠ newline) = line := by
    rw [List.takeWhile_append_of_pos others, List.takeWhile_cons_of_neg (by simp), List.append_nil]
  have after : (line ++ newline :: rest).dropWhile (· ≠ newline) = newline :: rest := by
    rw [List.dropWhile_append_of_pos others, List.dropWhile_cons_of_neg (by simp)]
  rw [push, dif_pos (List.mem_append_right line List.mem_cons_self), before, after]
  rfl

/-- A chunk behind the bytes of a record: its lines are read one by one, and its open end is kept. -/
private theorem push_assemble {parser : SessionMetricsParser ν} {bytes data : List UInt8} (unbroken : newline ∉ bytes)
    (apart : parser.harness = "claude" → Apart toolUseNeedle (bytes ++ data)) :
    (parser.assemble bytes).push data = parser.standing (bytes ++ data) := by
  induction data using line_induction generalizing parser bytes with
  | plain tail plain =>
    have whole : newline ∉ bytes ++ tail := List.mem_append.not.mpr (not_or.mpr ⟨unbroken, plain⟩)
    rw [push_plain _ plain, standing_plain _ whole]
    split_ifs with none
    · rw [none, List.append_nil]
    · exact absorb_assemble apart
  | line line rest plain ih =>
    have whole : newline ∉ bytes ++ line := List.mem_append.not.mpr (not_or.mpr ⟨unbroken, plain⟩)
    have split : bytes ++ (line ++ newline :: rest) = bytes ++ line ++ newline :: rest := (List.append_assoc ..).symm
    have here : parser.harness = "claude" → Apart toolUseNeedle (bytes ++ line) := by
      intro claude
      exact (apart claude).within (split ▸ (List.prefix_append ..).isInfix)
    have later : (parser.readRecord (bytes ++ line)).harness = "claude" → Apart toolUseNeedle ([] ++ rest) := by
      intro claude
      rw [readRecord_harness] at claude
      exact (apart claude).within (split ▸ ((List.suffix_cons newline rest).trans (List.suffix_append ..)).isInfix)
    rw [push_line _ plain, absorb_assemble here, completeRecord_assemble here, split, standing_line _ whole,
      ← (readRecord_idle parser (bytes ++ line)).assemble_nil]
    rw [ih List.not_mem_nil later, List.nil_append, (readRecord_idle parser (bytes ++ line)).assemble_nil]

theorem foldl_harness (parser : SessionMetricsParser ν) (lines : List (List UInt8)) :
    (lines.foldl readRecord parser).harness = parser.harness := by
  induction lines generalizing parser with
  | nil => rfl
  | cons line lines ih => rw [List.foldl_cons, ih, readRecord_harness]

theorem Idle.foldl {parser : SessionMetricsParser ν} (idle : parser.Idle) (lines : List (List UInt8)) :
    (lines.foldl readRecord parser).Idle := by
  induction lines generalizing parser with
  | nil => exact idle
  | cons line lines ih => exact ih (readRecord_idle parser line)

private theorem standing_append (parser : SessionMetricsParser ν) {before : List UInt8} (ended : Ended before) (rest :
    List UInt8) :
    parser.standing (before ++ rest) = ((completeLines before).foldl readRecord parser).standing rest := by
  rw [standing, completeLines_append ended, completeBytes_append ended, List.drop_length_add_append, List.foldl_append]
  rfl

/-- A chunk behind the bytes of a transcript. -/
theorem push_standing {parser : SessionMetricsParser ν} {bytes chunk : List UInt8}
    (apart : parser.harness = "claude" → Apart toolUseNeedle (bytes ++ chunk)) :
    (parser.standing bytes).push chunk = parser.standing (bytes ++ chunk) := by
  have split : bytes ++ chunk = bytes.take (completeBytes bytes) ++ (bytes.drop (completeBytes bytes) ++ chunk) := by
    rw [← List.append_assoc, List.take_append_drop]
  rw [split, standing_append parser (ended_take_completeBytes bytes), completeLines_take, standing]
  refine push_assemble (newline_notMem_drop bytes) ?_
  intro claude
  rw [foldl_harness] at claude
  exact (apart claude).within (split ▸ (List.suffix_append ..).isInfix)

/-- The chunks behind the bytes of a transcript. -/
theorem pushAll_standing {parser : SessionMetricsParser ν} {bytes : List UInt8} {chunks : List (List UInt8)}
    (apart : parser.harness = "claude" → Apart toolUseNeedle (bytes ++ chunks.flatten)) :
    (parser.standing bytes).pushAll chunks = parser.standing (bytes ++ chunks.flatten) := by
  induction chunks generalizing bytes with
  | nil => rw [List.flatten_nil, List.append_nil]; rfl
  | cons chunk chunks ih =>
    rw [List.flatten_cons, ← List.append_assoc] at apart
    rw [List.flatten_cons, ← List.append_assoc, ← ih apart, ← push_standing]
    · rfl
    · exact fun claude => (apart claude).within (List.prefix_append ..).isInfix

/-- The records of a transcript, its open end as one where it is not empty. -/
def records (transcript : List UInt8) : List (List UInt8) :=
  completeLines transcript ++
    if transcript.drop (completeBytes transcript) = [] then [] else [transcript.drop (completeBytes transcript)]

private theorem flush_assemble {parser : SessionMetricsParser ν} (idle : parser.Idle) {bytes : List UInt8}
    (apart : parser.harness = "claude" → Apart toolUseNeedle bytes) :
    (parser.assemble bytes).flush = (if bytes = [] then [] else [bytes]).foldl readRecord parser := by
  by_cases none : bytes = []
  · have nothing : ¬ (parser.pending ≠ [] ∨ parser.oversized ≠ .none) := by
      rw [idle.1, idle.2]
      simp
    rw [if_pos none, none, idle.assemble_nil, flush, if_neg nothing]
    rfl
  · have something : (parser.assemble bytes).pending ≠ [] ∨ (parser.assemble bytes).oversized ≠ .none := by
      rw [assemble]
      split_ifs
      · exact .inl none
      · exact .inr nofun
    rw [if_neg none, flush, if_pos something, completeRecord_assemble apart]
    rfl

/-- What is left at the end is the fold of the records, each read as a whole. -/
theorem flush_standing {parser : SessionMetricsParser ν} (idle : parser.Idle) {bytes : List UInt8}
    (apart : parser.harness = "claude" → Apart toolUseNeedle bytes) : (parser.standing bytes).flush =
      (records bytes).foldl readRecord parser := by
  rw [standing, flush_assemble (idle.foldl _), records, List.foldl_append]
  intro claude
  rw [foldl_harness] at claude
  exact (apart claude).within (List.drop_suffix ..).isInfix

omit [Numerals ν] [Add ν] [Max ν] in
theorem idle_start (harness : String) (previous : Metrics ν) : (start harness previous).Idle := ⟨rfl, rfl⟩

/-- Behind every number of chunks the parser stands where their bytes put it. -/
private theorem pushAll_start {harness : String} (previous : Metrics ν) {chunks : List (List UInt8)}
    (apart : harness = "claude" → Apart toolUseNeedle chunks.flatten) :
    (start harness previous).pushAll chunks = (start harness previous).standing chunks.flatten := by
  have begins : (start harness previous).standing [] = start harness previous := (idle_start harness previous).assemble_nil
  have pushed : ((start harness previous).standing []).pushAll chunks = (start harness previous).standing ([] ++ chunks.flatten) :=
    pushAll_standing apart
  rwa [begins] at pushed

/-- Whatever the chunks, metering ends with the fold of the records, and so with what one push ends with; between two pushes it
keeps a
bounded number of bytes. A record beyond the bound adds the needles in all of it. -/
theorem pushAll_flush {harness : String} (previous : Metrics ν) {transcript : List UInt8} {chunks : List (List UInt8)}
    (joined : chunks.flatten = transcript) (valid : ∀ line ∈ completeLines transcript, (parse (ν :=
      ν) (Utf8.decode line)).isSome = true)
    (rest : harness = "claude" → Apart toolUseNeedle (transcript.drop (completeBytes transcript))) :
    ((start harness previous).pushAll chunks).flush = ((start harness previous).push transcript).flush ∧
    ((start harness previous).pushAll chunks).flush = (records transcript).foldl readRecord (start harness previous) ∧
    ∀ count, ((start harness previous).pushAll (chunks.take count)).retained ≤ sessionRecordMaxBytes + 16 := by
  have apart : harness = "claude" → Apart toolUseNeedle transcript := fun claude =>
    apart_of_lines (fun line member => apart_of_parse (valid line member)) (rest claude)
  have whole (pieces : List (List UInt8)) (same : pieces.flatten = transcript) :
      ((start harness previous).pushAll pieces).flush = (records transcript).foldl readRecord (start harness previous) := by
    rw [pushAll_start previous (same.symm ▸ apart), same, flush_standing (idle_start harness previous) apart]
  refine ⟨?_, whole chunks joined, fun count => ?_⟩
  · rw [whole chunks joined, ← whole [transcript] (List.append_nil transcript)]
    rfl
  · have begins : harness = "claude" → Apart toolUseNeedle (chunks.take count).flatten := by
      intro claude
      refine (apart claude).within ?_
      rw [← joined, ← List.take_append_drop count chunks, List.flatten_append, List.take_append_drop]
      exact (List.prefix_append ..).isInfix
    rw [pushAll_start previous begins]
    exact retained_assemble_le ..

end

/-- A message of so many letters. -/
def longRecord (count : Nat) : List UInt8 :=
  Utf8.encode (render (.object [("type", .string "assistant"), ("text", .string (String.ofList (List.replicate count 'x')))] : JsValue Nat))

/-- The last record of a session. -/
def lastRecord : List UInt8 := Utf8.encode "\x7b\"type\":\"result\",\"session_id\":\"s1\"\x7d".toList

/-- The transcript of both, the first beyond the bytes of a record that is kept whole. -/
def twoRecords : List UInt8 := longRecord 70000 ++ newline :: (lastRecord ++ [newline])

/-- Its chunks, each cut inside a record. -/
def twoRecordsChunks : List (List UInt8) := [twoRecords.take 40000, (twoRecords.drop 40000).take 30100, (twoRecords.drop 40000).drop 30100]

private theorem length_longRecord (count : Nat) : count < (longRecord count).length := by
  have letters : (List.replicate count (escapeBytes 'x')).sum = count := by
    induction count with
    | zero => rfl
    | succ count ih => rw [List.replicate_succ, List.sum_cons, ih, Nat.add_comm]; rfl
  have size := charBytes_render (.object [("type", .string "assistant"),
    ("text", .string (String.ofList (List.replicate count 'x')))] : JsValue Nat)
  simp only [jsonBytes, fieldsBytes, quotedBytes, String.toList_ofList, List.map_replicate, letters, bracketBytes] at size
  rw [longRecord, Utf8.length_encode, ← charBytes, size]
  omega

private theorem newline_notMem_longRecord (count : Nat) : newline ∉ longRecord count :=
  Utf8.newline_notMem_encode (newline_notMem_render _)

private theorem parse_longRecord (count : Nat) : (parse (ν := Nat) (Utf8.decode (longRecord count))).isSome = true := by
  rw [longRecord, Utf8.decode_encode, parse_render]
  rfl

/-- A transcript whose first record is beyond the bound, pushed in three chunks. -/
theorem pushAll_flush_lastRecord : sessionRecordMaxBytes < (longRecord 70000).length ∧
    ((start "claude" ⟨0, 0, 0, false⟩ : SessionMetricsParser Nat).pushAll twoRecordsChunks).flush =
      ((start "claude" ⟨0, 0, 0, false⟩).push twoRecords).flush ∧
    ((start "claude" ⟨0, 0, 0, false⟩ : SessionMetricsParser Nat).pushAll twoRecordsChunks).flush =
      (records twoRecords).foldl readRecord (start "claude" ⟨0, 0, 0, false⟩) ∧
    ∀ count, ((start "claude" ⟨0, 0, 0, false⟩ : SessionMetricsParser Nat).pushAll (twoRecordsChunks.take count)).retained ≤
      sessionRecordMaxBytes + 16 := by
  obtain ⟨plainLast, last⟩ : newline ∉ lastRecord ∧ (parse (ν := Nat) (Utf8.decode lastRecord)).isSome = true := by decide +kernel
  have lines : completeLines twoRecords = [longRecord 70000, lastRecord] := by
    rw [twoRecords, completeLines_line (newline_notMem_longRecord _), completeLines_line plainLast]
    rfl
  refine ⟨Nat.lt_trans (by decide) (length_longRecord 70000), pushAll_flush ⟨0, 0, 0, false⟩ ?_ ?_ ?_⟩
  · simp only [twoRecordsChunks, List.flatten_cons, List.flatten_nil, List.append_nil, List.take_append_drop]
  · rw [lines]
    simp only [List.forall_mem_cons, parse_longRecord, last, List.not_mem_nil, false_implies, implies_true, and_self]
  · intro _
    have whole : completeBytes twoRecords = twoRecords.length := completeBytes_of_getLast (by simp [twoRecords, List.getLast?_cons])
    rw [whole, List.drop_length]
    exact Apart.nil _

/-! ## Overlapping needles -/

/-- Bytes that stand in no needle. -/
private def filler (count : Nat) : List UInt8 := List.replicate count 120

private def assistantMark : List UInt8 := [34, 116, 121, 112, 101, 34, 58, 34, 97, 115, 115, 105, 115, 116, 97, 110, 116, 34]

/-- `"type":"assistant"`. -/
private theorem fieldText_assistant :
    fieldText "type" "assistant" = assistantMark.map fun byte => Char.ofNat byte.toNat := by decide

private theorem searchFrom_filler (first second : List UInt8) (count : Nat) :
    searchFrom toolUseNeedle 0 (first ++ filler (count + 1) ++ second) =
      searchFrom toolUseNeedle 0 first + searchFrom toolUseNeedle 0 second := by
  have some : toolUseNeedle ≠ [] := by rw [toolUseNeedle_eq]; nofun
  have foreign : (120 : UInt8) ∉ toolUseNeedle := by rw [toolUseNeedle_eq]; decide
  induction count generalizing first with
  | zero =>
    rw [filler, List.replicate_one, List.append_assoc, List.singleton_append, searchFrom_foreign some foreign]
  | succ count ih =>
    have split : first ++ filler (count + 1 + 1) ++ second = first ++ 120 :: (filler (count + 1) ++ second) := by
      rw [filler, List.replicate_succ]
      simp [filler]
    have rest := ih []
    rw [List.nil_append] at rest
    rw [split, searchFrom_foreign some foreign, rest]
    simp [searchFrom]

/-- The rest of the record of an assistant: the end of the needle again, and filler. -/
private def crowdedFront : List UInt8 := assistantMark ++ filler sessionFragmentBytes ++ toolUseNeedle

/-- A text without a line break in which two needles share a quote. -/
def crowded : List UInt8 := crowdedFront ++ toolUseNeedle.tail ++ filler sessionFragmentBytes

/-- Its two chunks: the first needle just left the tail when the first one ends. -/
def crowdedChunks : List (List UInt8) := [crowdedFront ++ (toolUseNeedle.tail ++ filler (sessionFragmentBytes - 16)), filler 16]

/-- A record that is beyond the bound from its first piece on. -/
private theorem absorb_whole {parser : SessionMetricsParser ν} (idle : parser.Idle) (claude : parser.harness = "claude")
    {front tail : List UInt8} (full : tail.length = sessionFragmentBytes) (long : sessionFragmentBytes < front.length) :
    parser.absorb (front ++ tail) =
      { parser with
        oversized := some ⟨front.take sessionFragmentBytes, tail, searchFrom toolUseNeedle 0 front,
          carried toolUseNeedle front⟩ } := by
  have halves : sessionFragmentBytes + sessionFragmentBytes = sessionRecordMaxBytes := rfl
  have size : (front ++ tail).length = front.length + sessionFragmentBytes := by rw [List.length_append, full]
  have beyond : ¬ (front ++ tail).length ≤ sessionRecordMaxBytes := by omega
  have small : min sessionFragmentBytes (front ++ tail).length = sessionFragmentBytes := Nat.min_eq_left (by omega)
  have head : (front ++ tail).take sessionFragmentBytes = front.take sessionFragmentBytes :=
    List.take_append_of_le_length (Nat.le_of_lt long)
  have start : (front ++ tail).length - sessionFragmentBytes = front.length := by omega
  have cut : (front ++ tail).length - tail.length = front.length := by omega
  obtain ⟨harness, totals, continuationId, lastItemType, lastAgentText, pending, oversized⟩ := parser
  obtain ⟨rfl, rfl⟩ := idle
  obtain rfl := claude
  simp only [absorb, List.length_nil, Nat.zero_add, List.nil_append, if_neg beyond, if_true, small, head, start, List.drop_left,
    cut,
    List.take_left, countWithCarry, countNeedle]
  rfl

/-- A piece that pushes as much out of the tail as it brings. -/
private theorem absorb_more {parser : SessionMetricsParser ν} (claude : parser.harness = "claude")
    {head out kept carry piece : List UInt8} {count : Nat} (oversized : parser.oversized = some ⟨head, out ++ kept, count, carry⟩)
    (full : (kept ++ piece).length = sessionFragmentBytes) :
    parser.absorb piece =
      { parser with
        oversized := some ⟨head, kept ++ piece, count + searchFrom toolUseNeedle 0 (carry ++ out),
          carried toolUseNeedle (carry ++ out)⟩ } := by
  have window : (out ++ kept ++ piece).length - sessionFragmentBytes = out.length := by
    rw [List.append_assoc, List.length_append, full, Nat.add_sub_cancel]
  have cut : (out ++ (kept ++ piece)).length - (kept ++ piece).length = out.length := by
    rw [List.length_append, Nat.add_sub_cancel]
  rw [List.append_assoc] at window
  simp only [absorb, oversized, if_pos claude, List.append_assoc, window, List.drop_left, cut, List.take_left, countWithCarry,
    countNeedle]
  rfl

/-- The tool calls of the record of an assistant beyond the bound. -/
private theorem flush_assistant {parser : SessionMetricsParser Nat} (claude : parser.harness = "claude") {head tail carry more :
    List UInt8}
    {count : Nat} (oversized : parser.oversized = some ⟨head, tail, count, carry⟩) (begins : head = assistantMark ++ more) :
    parser.flush.totals.toolCalls = parser.totals.toolCalls + (count + searchFrom toolUseNeedle 0 (carry ++ tail)) := by
  have something : parser.pending ≠ [] ∨ parser.oversized ≠ none := .inr (by rw [oversized]; nofun)
  have all : assistantMark.all (fun byte => decide (byte.toNat < 0x80)) = true := rfl
  have ascii : ∀ byte ∈ assistantMark, byte.toNat < 0x80 :=
    fun byte member => of_decide_eq_true (List.all_eq_true.mp all byte member)
  have some : assistantMark ≠ [] := nofun
  have first : assistantMark = 34 :: assistantMark.tail := rfl
  have decoded : decodeFragment head = fieldText "type" "assistant" ++ Utf8.decode more := by
    have whole := Utf8.decode_ascii_run some ascii [] more
    rw [← fieldText_assistant] at whole
    rw [begins, decodeFragment, first, List.cons_append, List.dropWhile_cons_of_neg (by decide), ← List.cons_append, ← first]
    exact whole
  have found (rest : List Char) (toolUse : Nat) :
      includes (Fragments.text ⟨fieldText "type" "assistant" ++ Utf8.decode more, rest, toolUse⟩)
        (fieldText "type" "assistant") = true := by
    have marked : fieldText "type" "assistant" ≠ [] := List.cons_ne_nil _ _
    rw [includes, Fragments.text, List.append_assoc, BreakOn.breakOn_marker marked]
    rfl
  rw [flush, if_pos something, completeRecord, oversized]
  simp only [if_pos claude, decoded, foldEnds, foldFragmentRecord, foldClaudeFragments, found, if_true, countWithCarry,
    countNeedle]

private theorem crowdedFront_take : ∃ more, crowdedFront.take sessionFragmentBytes = assistantMark ++ more := by
  have short : assistantMark.length ≤ sessionFragmentBytes := by decide
  refine ⟨(filler sessionFragmentBytes ++ toolUseNeedle).take (sessionFragmentBytes - assistantMark.length), ?_⟩
  rw [crowdedFront, List.append_assoc, List.take_append, List.take_of_length_le short]

private theorem length_filler (count : Nat) : (filler count).length = count := List.length_replicate

private theorem newline_notMem_filler (count : Nat) : newline ∉ filler count := by
  intro member
  exact absurd (List.eq_of_mem_replicate member) (by decide)

private theorem newline_notMem_crowdedFront : newline ∉ crowdedFront := by
  have mark : newline ∉ assistantMark := by decide
  intro member
  rcases List.mem_append.mp member with front | needle
  · exact (List.mem_append.mp front).elim mark (newline_notMem_filler _)
  · exact newline_notMem_toolUseNeedle needle

private theorem sessionFragmentBytes_succ : sessionFragmentBytes = 32767 + 1 := rfl

private theorem length_crowdedFront : sessionFragmentBytes < crowdedFront.length := by
  rw [crowdedFront, List.length_append, List.length_append, length_filler, length_toolUseNeedle]
  omega

private theorem searchFrom_crowdedFront (more : List UInt8) :
    searchFrom toolUseNeedle 0 (crowdedFront ++ more) = searchFrom toolUseNeedle 0 (toolUseNeedle ++ more) := by
  have mark : searchFrom toolUseNeedle 0 assistantMark = 0 := by rw [toolUseNeedle_eq]; rfl
  rw [crowdedFront, sessionFragmentBytes_succ, List.append_assoc, searchFrom_filler, mark, Nat.zero_add]

private theorem searchFrom_rest : searchFrom toolUseNeedle 0 (toolUseNeedle.tail ++ filler sessionFragmentBytes) = 0 := by
  have alone : searchFrom toolUseNeedle 0 toolUseNeedle.tail = 0 := by rw [toolUseNeedle_eq]; rfl
  have none : searchFrom toolUseNeedle 0 [] = 0 := by rw [searchFrom]
  have single := searchFrom_filler toolUseNeedle.tail [] 32767
  rw [List.append_nil, alone, none] at single
  rw [sessionFragmentBytes_succ]
  exact single

private theorem carried_crowdedFront : carried toolUseNeedle crowdedFront = toolUseNeedle.tail := by
  have own : carried toolUseNeedle toolUseNeedle = toolUseNeedle.tail := by rw [toolUseNeedle_eq]; rfl
  rw [crowdedFront, carried_behind _ (by omega), own]

private theorem filler_append (first second : Nat) :
    filler first ++ filler second = filler (first + second) := List.replicate_append_replicate

private theorem length_crowdedTail :
    (toolUseNeedle.tail ++ filler (sessionFragmentBytes - 16)).length = sessionFragmentBytes := by
  rw [List.length_append, List.length_tail, length_toolUseNeedle, length_filler]
  rfl

private theorem crowded_split : crowded = crowdedFront ++ toolUseNeedle.tail ++ filler sessionFragmentBytes := rfl

private theorem crowdedChunks_flatten : crowdedChunks.flatten = crowded := by
  have pieces : filler (sessionFragmentBytes - 16) ++ filler 16 = filler sessionFragmentBytes := filler_append ..
  rw [crowdedChunks, crowded_split, ← pieces]
  simp only [List.flatten_cons, List.flatten_nil, List.append_nil, List.append_assoc]

private theorem newline_notMem_crowded : newline ∉ crowded := by
  have tail : newline ∉ toolUseNeedle.tail := fun member => newline_notMem_toolUseNeedle (List.mem_of_mem_tail member)
  intro member
  rcases List.mem_append.mp member with front | last
  · exact (List.mem_append.mp front).elim newline_notMem_crowdedFront tail
  · exact newline_notMem_filler _ last

private abbrev fresh : SessionMetricsParser Nat := start "claude" ⟨0, 0, 0, false⟩

/-- One push finds the two needles that share a quote as one. -/
private theorem crowded_once : (fresh.push crowded).flush.totals.toolCalls = 1 := by
  have longer : sessionFragmentBytes < (crowdedFront ++ toolUseNeedle.tail).length := by
    have front := length_crowdedFront
    rw [List.length_append]
    omega
  have some : crowded ≠ [] := by
    intro none
    rw [crowded_split, List.append_assoc, List.append_eq_nil_iff] at none
    have front := length_crowdedFront
    rw [none.1] at front
    exact absurd front (Nat.not_lt_zero _)
  have absorbed := absorb_whole (idle_start "claude" (⟨0, 0, 0, false⟩ : Metrics Nat)) rfl
    (length_filler sessionFragmentBytes) longer
  obtain ⟨more, begins⟩ := crowdedFront_take
  have head : (crowdedFront ++ toolUseNeedle.tail).take sessionFragmentBytes = assistantMark ++ more := by
    rw [List.take_append_of_le_length (Nat.le_of_lt length_crowdedFront), begins]
  have carry : carried toolUseNeedle (crowdedFront ++ toolUseNeedle.tail) = toolUseNeedle.tail := by
    have own : carried toolUseNeedle toolUseNeedle.tail = toolUseNeedle.tail := by rw [toolUseNeedle_eq]; rfl
    rw [carried_behind _ (by rw [toolUseNeedle_eq]; decide), own]
  have twice : searchFrom toolUseNeedle 0 (toolUseNeedle ++ toolUseNeedle.tail) = 1 := by rw [toolUseNeedle_eq]; rfl
  rw [push_plain _ newline_notMem_crowded, if_neg some, crowded_split, absorbed, searchFrom_crowdedFront, twice, carry,
    flush_assistant rfl rfl head, searchFrom_rest]
  rfl

/-- Where the first of them just left the tail, the second one is found behind the carry. -/
private theorem crowded_twice : (fresh.pushAll crowdedChunks).flush.totals.toolCalls = 2 := by
  have split : crowdedChunks = [crowdedFront ++ (toolUseNeedle.tail ++ filler (sessionFragmentBytes - 16)), filler 16] := rfl
  have first : newline ∉ crowdedFront ++ (toolUseNeedle.tail ++ filler (sessionFragmentBytes - 16)) := by
    have plain := newline_notMem_crowded
    rw [← crowdedChunks_flatten, split, List.flatten_cons] at plain
    exact fun member => plain (List.mem_append_left _ member)
  have some : crowdedFront ++ (toolUseNeedle.tail ++ filler (sessionFragmentBytes - 16)) ≠ [] := by
    intro none
    have size := congrArg List.length none
    rw [List.length_append, length_crowdedTail] at size
    exact absurd size (Nat.ne_of_gt (Nat.lt_of_lt_of_le (by decide) (Nat.le_add_left ..)))
  have filled : filler 16 ≠ [] := by decide
  have absorbed := absorb_whole (idle_start "claude" (⟨0, 0, 0, false⟩ : Metrics Nat)) rfl length_crowdedTail length_crowdedFront
  have pieces : filler (sessionFragmentBytes - 16) ++ filler 16 = filler sessionFragmentBytes := filler_append ..
  have full : (filler (sessionFragmentBytes - 16) ++ filler 16).length = sessionFragmentBytes := by rw [pieces, length_filler]
  obtain ⟨more, begins⟩ := crowdedFront_take
  have once : searchFrom toolUseNeedle 0 crowdedFront = 1 := by
    have own : searchFrom toolUseNeedle 0 toolUseNeedle = 1 := by rw [toolUseNeedle_eq]; rfl
    have single := searchFrom_crowdedFront []
    rwa [List.append_nil, List.append_nil, own] at single
  have again : searchFrom toolUseNeedle 0 (toolUseNeedle.tail ++ toolUseNeedle.tail) = 1 := by rw [toolUseNeedle_eq]; rfl
  have carry : carried toolUseNeedle (toolUseNeedle.tail ++ toolUseNeedle.tail) = toolUseNeedle.tail :=
    by rw [toolUseNeedle_eq]; rfl
  rw [pushAll, split, List.foldl_cons, List.foldl_cons, List.foldl_nil, push_plain _ first, if_neg some, absorbed, once,
    carried_crowdedFront,
    push_plain _ (newline_notMem_filler 16), if_neg filled, absorb_more rfl rfl full, again, carry, pieces,
      flush_assistant rfl rfl begins, searchFrom_rest]
  rfl

/-- A text that is no beginning of JSON is metered by its chunks. -/
theorem crowded_metered_by_chunks :
    completeLines crowded = [] ∧ crowdedChunks.flatten = crowded ∧
      ((start "claude" ⟨0, 0, 0, false⟩ : SessionMetricsParser Nat).pushAll crowdedChunks).flush.totals.toolCalls = 2 ∧
      ((start "claude" ⟨0, 0, 0, false⟩ : SessionMetricsParser Nat).push crowded).flush.totals.toolCalls = 1 :=
  ⟨completeLines_plain newline_notMem_crowded, crowdedChunks_flatten, crowded_twice, crowded_once⟩

end SessionMetricsParser

end Faberun.SessionMetrics
