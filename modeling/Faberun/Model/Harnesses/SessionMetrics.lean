import Faberun.Text.ByteLines
import Faberun.Text.Occurrences
import Faberun.Text.Utf8Encode
import Faberun.Model.Harnesses.Protocol

/-! # Session metering over a provider's transcript

The embedding of the session meter of `harnesses/session-metrics.mjs`: what a parsed record adds to the totals for each
harness, what the
two ends of a record beyond the retention bound add, and the parser that takes a transcript in chunks. Numbers are of any type
with numerals,
an addition and a maximum; a record is the list of its fields.
-/

namespace Faberun.SessionMetrics

open BreakOn JsonText

variable {ν : Type}

/-! ## Reading values -/

/-- `value[key]`; what is no object has none of the keys the meter reads. -/
def member : JsValue ν → String → JsValue ν
  | .object fields, key => ((fields.find? fun field => field.1 == key).map (·.2)).getD .undefined
  | _, _ => .undefined

/-- `value ?? other`. -/
def nullish : JsValue ν → JsValue ν → JsValue ν
  | .undefined, other => other
  | .null, other => other
  | value, _ => value

/-- `value === text`. -/
def isText (value : JsValue ν) (text : String) : Bool :=
  match value with
  | .string own => own == text
  | _ => false

def textOf : JsValue ν → Option String
  | .string text => some text
  | _ => none

section

variable [Numerals ν]

/-- `finite(value)`. -/
def finite : JsValue ν → Option ν
  | .number value => if (Numerals.print value).isSome then some value else none
  | _ => none

mutual
/-- `String(value)`. -/
def stringOf : JsValue ν → String
  | .undefined => "undefined"
  | .null => "null"
  | .bool true => "true"
  | .bool false => "false"
  | .number value => ((Numerals.print value).map String.ofList).getD "Infinity"
  | .string text => text
  | .array items => ",".intercalate (itemStrings items)
  | .object _ => "[object Object]"

def itemStrings : List (JsValue ν) → List String
  | [] => []
  | .undefined :: rest => "" :: itemStrings rest
  | .null :: rest => "" :: itemStrings rest
  | item :: rest => stringOf item :: itemStrings rest
end

end

/-- `eventItem(event)`. -/
def eventItem (record : JsValue ν) : Option (JsValue ν) :=
  match member record "item" with
  | .object fields => some (.object fields)
  | _ => none

/-! ## Totals -/

structure SessionTotals (ν : Type) where
  turns : Nat
  cacheReadInputTokens : ν
  cacheWriteInputTokens : Option ν
  outputTokens : Option ν
  toolCalls : Nat
  completed : Bool
  requests : Nat
  contextFirst : Option ν
  contextMax : Option ν
  contextLast : Option ν
  contextSum : ν

/-- What `metrics()` answers, and what a parser goes on from. -/
structure Metrics (ν : Type) where
  turns : Nat
  cacheReadInputTokens : ν
  toolCalls : Nat
  completed : Bool

structure SessionLedger (ν : Type) where
  turns : Nat
  toolCalls : Nat
  requests : Option Nat
  contextFirst : Option ν
  contextMax : Option ν
  contextLast : Option ν
  contextSum : Option ν
  completed : Bool

/-- `PER_REQUEST_USAGE`. -/
def perRequestUsage : List String := ["claude", "dsh", "fx", "agy", "exec-jsonl", "replay"]

/-- An entry of `RUNNER_TRANSCRIPTS`. -/
structure RunnerTranscript where
  usage : String
  tool : String
  completed : String
  failed : String

def runnerTranscript (harness : String) : Option RunnerTranscript :=
  if harness = "dsh" then some ⟨"dsh.message", "dsh.tool", "dsh.completed", "dsh.failed"⟩
  else if harness = "fx" then some ⟨"fx.request", "fx.tool", "fx.completed", "fx.failed"⟩
  else none

def isRunnerTerminal (harness : String) (type : JsValue ν) : Bool :=
  (runnerTranscript harness).any fun transcript => isText type transcript.completed || isText type transcript.failed

/-- `CODEX_TOOL_ITEM_TYPES`. -/
def codexToolItemTypes : List String := ["tool_call", "command_execution", "mcp_tool_call", "web_search", "file_change"]

/-- What `canonicalUsage` answers for the usage of one record. -/
structure Usage (ν : Type) where
  inputTokens : Option ν
  outputTokens : Option ν
  cacheReadInputTokens : Option ν

section

variable [Add ν] [Zero ν]

/-- `addMeasured(left, right)`. -/
def addMeasured : Option ν → Option ν → Option ν
  | none, none => none
  | left, right => some (left.getD 0 + right.getD 0)

variable [Max ν] [Numerals ν]

/-- `canonicalUsage(usage)`. -/
def canonicalUsage (usage : JsValue ν) : Usage ν :=
  let rawInput := finite (nullish (member usage "inputTokens") (member usage "input_tokens"))
  let cacheReadInputTokens :=
    finite (nullish (member usage "cacheReadInputTokens") (nullish (member usage "cache_read_input_tokens")
    (nullish (member usage "cached_input_tokens") (member usage "cache_read_tokens"))))
  let cacheWriteInputTokens :=
    (finite (nullish (member usage "cacheWriteInputTokens") (nullish (member usage "cache_creation_input_tokens")
    (member usage "cache_write_tokens")))).getD 0
  { inputTokens := rawInput.map fun raw => max 0 (raw + cacheWriteInputTokens)
    outputTokens := finite (nullish (member usage "outputTokens") (member usage "output_tokens"))
    cacheReadInputTokens }

omit [Add ν] [Zero ν] [Max ν] in
/-- `cacheWriteTokensOf(raw)`. -/
def cacheWriteTokensOf (raw : JsValue ν) : Option ν :=
  finite (nullish (member raw "cache_creation_input_tokens") (nullish (member raw "cacheWriteInputTokens")
    (nullish (member raw "cache_write_input_tokens")
      (nullish (member raw "cache_creation_tokens") (member raw "cache_write_tokens")))))

/-- `foldRequestUsage(totals, usage)`. -/
def foldRequestUsage (totals : SessionTotals ν) (usage : Usage ν) : SessionTotals ν :=
  match usage.inputTokens with
  | none => totals
  | some inputTokens =>
    let context := inputTokens + usage.cacheReadInputTokens.getD 0
    { totals with
      requests := totals.requests + 1
      contextFirst := totals.contextFirst.or (some context)
      contextMax := some (max (totals.contextMax.getD 0) context)
      contextLast := some context
      contextSum := totals.contextSum + context }

/-- One turn with its usage, as every stream that reports usage by the request folds it. -/
def foldTurn (totals : SessionTotals ν) (raw : JsValue ν) : SessionTotals ν :=
  let usage := canonicalUsage raw
  foldRequestUsage
    { totals with
      turns := totals.turns + 1
      cacheReadInputTokens := totals.cacheReadInputTokens + usage.cacheReadInputTokens.getD 0
      cacheWriteInputTokens := addMeasured totals.cacheWriteInputTokens (cacheWriteTokensOf raw)
      outputTokens := addMeasured totals.outputTokens usage.outputTokens } usage

/-- `foldSessionTotal(totals, raw)`. -/
def foldSessionTotal (totals : SessionTotals ν) (raw : JsValue ν) : SessionTotals ν :=
  let usage := canonicalUsage raw
  { totals with
    cacheReadInputTokens := usage.cacheReadInputTokens.getD totals.cacheReadInputTokens
    cacheWriteInputTokens := (cacheWriteTokensOf raw).or totals.cacheWriteInputTokens
    outputTokens := usage.outputTokens.or totals.outputTokens }

/-! ## Folding a parsed record -/

def foldCodexRecord (totals : SessionTotals ν) (record : JsValue ν) : SessionTotals ν :=
  if isText (member record "type") "turn.completed" then
    let usage := canonicalUsage (member record "usage")
    { totals with
      turns := totals.turns + 1
      cacheReadInputTokens := max totals.cacheReadInputTokens (usage.cacheReadInputTokens.getD 0)
      outputTokens := match usage.outputTokens with
        | some outputTokens => some (max (totals.outputTokens.getD 0) outputTokens)
        | none => totals.outputTokens }
  else if isText (member record "type") "item.completed" &&
      codexToolItemTypes.contains (stringOf (((eventItem record).map fun item => member item "type").getD .undefined)) then
    { totals with toolCalls := totals.toolCalls + 1 }
  else totals

def foldClaudeRecord (totals : SessionTotals ν) (record : JsValue ν) : SessionTotals ν :=
  if isText (member record "type") "assistant" then
    let message := nullish (member record "message") (.object [])
    let folded := foldTurn totals (member message "usage")
    let toolCalls := match member message "content" with
      | .array blocks => blocks.countP fun block => isText (member block "type") "tool_use"
      | _ => 0
    { folded with toolCalls := folded.toolCalls + toolCalls }
  else if isText (member record "type") "result" then foldSessionTotal totals (member record "usage")
  else totals

def foldRunnerRecord (transcript : RunnerTranscript) (totals : SessionTotals ν) (record : JsValue ν) : SessionTotals ν :=
  if isText (member record "type") transcript.usage then foldTurn totals (member record "usage")
  else if isText (member record "type") transcript.tool then { totals with toolCalls := totals.toolCalls + 1 }
  else if isText (member record "type") transcript.completed || isText (member record "type") transcript.failed then
    foldSessionTotal totals (member record "usage")
  else totals

omit [Add ν] [Zero ν] [Max ν] [Numerals ν] in
/-- An object field of a record with this event. -/
def eventField (record : JsValue ν) (event : String) : Option (JsValue ν) :=
  if isText (member record "event") event then
    match member record event with
    | .object fields => some (.object fields)
    | _ => none
  else none

omit [Add ν] [Zero ν] [Max ν] [Numerals ν] in
def agyStep (record : JsValue ν) : Option (JsValue ν) := eventField record "step_update"

omit [Add ν] [Zero ν] [Max ν] [Numerals ν] in
def agyResult (record : JsValue ν) : Option (JsValue ν) := eventField record "result"

def foldAgyRecord (totals : SessionTotals ν) (record : JsValue ν) : SessionTotals ν :=
  match agyStep record with
  | some step =>
    if isText (member step "step_type") "agent_response" && isText (member step "state") "DONE" then
      foldTurn totals (member step "usage")
    else if isText (member step "step_type") "tool" &&
      (isText (member step "state") "DONE" || isText (member step "state") "ERROR") then
      { totals with toolCalls := totals.toolCalls + 1 }
    else totals
  | none =>
    if isText (member record "event") "result" then
      foldSessionTotal totals (((agyResult record).map fun result => member result "usage").getD .undefined)
    else totals

/-- `foldRecord(harness, totals, record)`. -/
def foldRecord (harness : String) (totals : SessionTotals ν) (record : JsValue ν) : SessionTotals ν :=
  if harness = "codex" then foldCodexRecord totals record
  else if harness = "claude" then foldClaudeRecord totals record
  else
    match runnerTranscript harness with
    | some transcript => foldRunnerRecord transcript totals record
    | none =>
      if harness = "agy" then foldAgyRecord totals record
      else if harness = "exec-jsonl" && isText (member record "type") "run.completed" then foldTurn totals (member record "usage")
      else if harness = "replay" && (member record "status").isString then foldTurn totals (member record "usage")
      else totals

omit [Add ν] [Zero ν] [Max ν] [Numerals ν] in
/-- `recordContinuationId(harness, record)`. -/
def recordContinuationId (harness : String) (record : JsValue ν) : Option String :=
  if harness = "codex" then
    if isText (member record "type") "thread.started" then textOf (member record "thread_id") else none
  else if harness = "claude" then
    if isText (member record "type") "result" then textOf (member record "session_id") else none
  else if harness = "exec-jsonl" &&
    (isText (member record "type") "run.started" || isText (member record "type") "run.completed") then
    textOf (member record "continuationId")
  else none

end

/-! ## Folding the ends of a long record -/

/-- The two ends of a record, and the tool invocations found in all of it. -/
structure Fragments where
  head : List Char
  tail : List Char
  toolUse : Nat

def Fragments.text (fragments : Fragments) : List Char := fragments.head ++ '\n' :: fragments.tail

/-- `"key":"value"`. -/
def fieldText (key value : String) : List Char := '"' :: key.toList ++ ('"' :: ':' :: '"' :: value.toList ++ ['"'])

/-- `"key":`. -/
def keyText (key : String) : List Char := '"' :: key.toList ++ ['"', ':']

def includes (text needle : List Char) : Bool := (breakOn needle text).isSome

/-- `text.indexOf(needle)`, counted in characters. -/
def indexOf (text needle : List Char) : Option Nat := (breakOn needle text).map (·.1.length)

/-- What follows an opening. -/
def behind (opening text : List Char) :
    Option (List Char) := if opening.isPrefixOf text then some (text.drop opening.length) else none

/-- `text.matchAll(pattern)`, behind the characters the last match took. -/
def matchAll (pattern : List Char → Option (List Char × List Char)) : Nat → List Char → List (List Char)
  | _, [] => []
  | taken + 1, _ :: rest => matchAll pattern taken rest
  | 0, c :: rest =>
    match pattern (c :: rest) with
    | some (found, after) => found :: matchAll pattern (rest.length - after.length) rest
    | none => matchAll pattern 0 rest

/-- A counter under one of the keys: its digits, and what follows them. -/
def counterPattern (keys : List String) (text : List Char) : Option (List Char × List Char) :=
  (keys.findSome? fun key => behind (keyText key) text).bind fun rest =>
    if rest.takeWhile Char.isDigit = [] then none else some (rest.takeWhile Char.isDigit, rest.dropWhile Char.isDigit)

/-- The keys of `CACHE_READ_PATTERN`. -/
def cacheReadKeys : List String := ["cache_read_input_tokens", "cached_input_tokens", "cacheReadInputTokens"]

/-- The keys of `CACHE_WRITE_PATTERN`. -/
def cacheWriteKeys : List String :=
  ["cache_creation_input_tokens", "cacheWriteInputTokens", "cache_write_input_tokens", "cache_creation_tokens",
    "cache_write_tokens"]

/-- The numeral of some digits. -/
def significant (digits : List Char) : List Char :=
  match digits.dropWhile (· == '0') with
  | [] => ['0']
  | more => more

section

variable [Numerals ν]

/-- The number of the last match. -/
def lastCounter (keys : List String) (text : List Char) : Option ν :=
  (matchAll (counterPattern keys) 0 text).getLast?.bind fun digits => Numerals.scan (significant digits)

def lastCacheRead (text : List Char) : Option ν := lastCounter cacheReadKeys text

def lastCacheWrite (text : List Char) : Option ν := lastCounter cacheWriteKeys text

variable [Add ν] [Zero ν] [Max ν]

def foldClaudeFragments (totals : SessionTotals ν) (fragments : Fragments) : SessionTotals ν :=
  let text := fragments.text
  if includes text (fieldText "type" "assistant") then
    { totals with
      turns := totals.turns + 1
      toolCalls := totals.toolCalls + fragments.toolUse
      cacheReadInputTokens := match lastCacheRead text with
        | some cacheRead => totals.cacheReadInputTokens + cacheRead
        | none => totals.cacheReadInputTokens
      cacheWriteInputTokens := match lastCacheWrite text with
        | some cacheWrite => addMeasured totals.cacheWriteInputTokens (some cacheWrite)
        | none => totals.cacheWriteInputTokens }
  else if includes text (fieldText "type" "result") then
    { totals with
      cacheReadInputTokens := (lastCacheRead text).getD totals.cacheReadInputTokens
      cacheWriteInputTokens := (lastCacheWrite text).or totals.cacheWriteInputTokens
      completed := true }
  else totals

omit [Add ν] in
def foldCodexFragments (totals : SessionTotals ν) (fragments : Fragments) : SessionTotals ν :=
  let text := fragments.text
  match indexOf text (fieldText "type" "turn.completed") with
  | some completedAt =>
    { totals with
      turns := totals.turns + 1
      cacheReadInputTokens := max totals.cacheReadInputTokens ((lastCacheRead text).getD 0)
      completed := totals.completed || (indexOf text (fieldText "type" "agent_message")).any (· < completedAt) }
  | none =>
    if includes text (fieldText "type" "item.completed") && codexToolItemTypes.any
      fun type => includes text (fieldText "type" type) then
      { totals with toolCalls := totals.toolCalls + 1 }
    else totals

/-- `foldFragmentRecord(harness, totals, fragments)`. -/
def foldFragmentRecord (harness : String) (totals : SessionTotals ν) (fragments : Fragments) : SessionTotals ν :=
  if harness = "claude" then foldClaudeFragments totals fragments
  else if harness = "codex" then foldCodexFragments totals fragments
  else if harness = "exec-jsonl" && includes fragments.text (fieldText "type" "run.completed") then
    { totals with
      turns := totals.turns + 1
      cacheReadInputTokens := match lastCacheRead fragments.text with
        | some cacheRead => totals.cacheReadInputTokens + cacheRead
        | none => totals.cacheReadInputTokens
      cacheWriteInputTokens := match lastCacheWrite fragments.text with
        | some cacheWrite => addMeasured totals.cacheWriteInputTokens (some cacheWrite)
        | none => totals.cacheWriteInputTokens
      completed := true }
  else totals

end

/-- What stands quoted behind a key. -/
def idPattern (key : String) (text : List Char) : Option (List Char) :=
  (behind (keyText key ++ ['"']) text).bind fun rest =>
    if rest.takeWhile (· ≠ '"') = [] ∨ rest.dropWhile (· ≠ '"') = [] then none else some (rest.takeWhile (· ≠ '"'))

/-- `fragmentContinuationId(harness, fragments)`. -/
def fragmentContinuationId (harness : String) (fragments : Fragments) : Option String :=
  let key := if harness = "codex" then "thread_id" else if harness = "claude" then "session_id" else "continuationId"
  (fragments.text.tails.findSome? (idPattern key)).map String.ofList

/-! ## The parser -/

/-- `SESSION_RECORD_MAX_BYTES`. -/
def sessionRecordMaxBytes : Nat := 64 * 1024

/-- `SESSION_FRAGMENT_BYTES`. -/
def sessionFragmentBytes : Nat := sessionRecordMaxBytes / 2

/-- `TOOL_USE_NEEDLE`. -/
def toolUseNeedle : List UInt8 := Utf8.encode (fieldText "type" "tool_use")

/-- `countNeedle(haystack, needle)`. -/
def countNeedle (haystack needle : List UInt8) : Nat := searchFrom needle 0 haystack

/-- What `countWithCarry` answers. -/
structure Counted where
  hits : Nat
  carry : List UInt8

def countWithCarry (region carry needle : List UInt8) : Counted :=
  let stream := carry ++ region
  ⟨countNeedle stream needle, stream.drop (stream.length - (needle.length - 1))⟩

/-- `decodeFragment(fragment)`. -/
def decodeFragment (fragment : List UInt8) : List Char := Utf8.decode (fragment.dropWhile fun byte => byte &&& 0xC0 == 0x80)

/-- What is kept of a record beyond the bound. -/
structure Oversized where
  head : List UInt8
  tail : List UInt8
  streamedToolUse : Nat
  carry : List UInt8
  deriving DecidableEq

structure SessionMetricsParser (ν : Type) where
  harness : String
  totals : SessionTotals ν
  continuationId : Option String
  lastItemType : Option String
  lastAgentText : Option String
  pending : List UInt8
  oversized : Option Oversized

namespace SessionMetricsParser

/-- `new SessionMetricsParser(harness, previous)`. -/
def start [Zero ν] (harness : String) (previous : Metrics ν) : SessionMetricsParser ν where
  harness
  totals :=
    { turns := previous.turns
      cacheReadInputTokens := previous.cacheReadInputTokens
      cacheWriteInputTokens := none
      outputTokens := none
      toolCalls := previous.toolCalls
      completed := previous.completed
      requests := 0
      contextFirst := none
      contextMax := none
      contextLast := none
      contextSum := 0 }
  continuationId := none
  lastItemType := none
  lastAgentText := none
  pending := []
  oversized := none

/-- `absorb(piece)`. -/
def absorb (parser : SessionMetricsParser ν) (piece : List UInt8) : SessionMetricsParser ν :=
  match parser.oversized with
  | some oversized =>
    let window := oversized.tail ++ piece
    let keep := window.drop (window.length - sessionFragmentBytes)
    let dropped := window.take (window.length - keep.length)
    if parser.harness = "claude" then
      let counted := countWithCarry dropped oversized.carry toolUseNeedle
      { parser with oversized := some ⟨oversized.head, keep, oversized.streamedToolUse + counted.hits, counted.carry⟩ }
    else { parser with oversized := some { oversized with tail := keep } }
  | none =>
    if parser.pending.length + piece.length ≤ sessionRecordMaxBytes then { parser with pending := parser.pending ++ piece }
    else
      let whole := parser.pending ++ piece
      let head := whole.take (min sessionFragmentBytes whole.length)
      let tail := whole.drop (whole.length - sessionFragmentBytes)
      if parser.harness = "claude" then
        let counted := countWithCarry (whole.take (whole.length - tail.length)) [] toolUseNeedle
        { parser with pending := [], oversized := some ⟨head, tail, counted.hits, counted.carry⟩ }
      else { parser with pending := [], oversized := some ⟨head, tail, 0, []⟩ }

section

variable [Numerals ν] [Add ν] [Zero ν] [Max ν]

omit [Add ν] [Zero ν] [Max ν] in
/-- Whether one record ends the work of the provider. -/
def provesCompletion (parser : SessionMetricsParser ν) (record : JsValue ν) : Bool :=
  if parser.harness = "codex" then
    isText (member record "type") "turn.completed" && parser.lastItemType == some "agent_message" &&
      parser.lastAgentText.any fun text => (Protocol.extractJson ν text.toList).isSome
  else (parser.harness == "claude" && isText (member record "type") "result") ||
    isRunnerTerminal parser.harness (member record "type") ||
    (parser.harness == "agy" && isText (member record "event") "result") ||
    (parser.harness == "exec-jsonl" && isText (member record "type") "run.completed") ||
    (parser.harness == "replay" && (member record "status").isString)

omit [Add ν] [Zero ν] [Max ν] in
/-- `foldCompletionEvidence(record)`. -/
def foldCompletionEvidence (parser : SessionMetricsParser ν) (record : JsValue ν) : SessionMetricsParser ν :=
  let totals := if parser.provesCompletion record then { parser.totals with completed := true } else parser.totals
  match if isText (member record "type") "item.completed" then eventItem record else none with
  | some item =>
    let itemType := stringOf (nullish (member item "type") (.string ""))
    { parser with
      totals
      lastItemType := some itemType
      lastAgentText := if itemType = "agent_message" then textOf (member item "text") else none }
  | none => { parser with totals, lastItemType := none, lastAgentText := none }

/-- The record that is complete, read as a whole. -/
def foldLine (parser : SessionMetricsParser ν) (line : List UInt8) : SessionMetricsParser ν :=
  match parse (ν := ν) (Utf8.decode line) with
  | some (.object fields) =>
    let record := JsValue.object fields
    foldCompletionEvidence
      { parser with
        totals := foldRecord parser.harness parser.totals record
        continuationId := parser.continuationId.or (recordContinuationId parser.harness record) } record
  | _ => parser

/-- The record that is complete, read by its ends. -/
def foldEnds (parser : SessionMetricsParser ν) (fragments : Fragments) : SessionMetricsParser ν :=
  { parser with
    totals := foldFragmentRecord parser.harness parser.totals fragments
    continuationId := parser.continuationId.or (fragmentContinuationId parser.harness fragments) }

/-- `completeRecord()`. -/
def completeRecord (parser : SessionMetricsParser ν) : SessionMetricsParser ν :=
  match parser.oversized with
  | some oversized =>
    let toolUse := if parser.harness = "claude" then
      oversized.streamedToolUse + (countWithCarry oversized.tail oversized.carry toolUseNeedle).hits else 0
    foldEnds { parser with oversized := none } ⟨decodeFragment oversized.head, decodeFragment oversized.tail, toolUse⟩
  | none => foldLine { parser with pending := [] } parser.pending

/-- `push(chunk)`. -/
def push (parser : SessionMetricsParser ν) (data : List UInt8) : SessionMetricsParser ν :=
  if _ : newline ∈ data then
    push (completeRecord (parser.absorb (data.takeWhile (· ≠ newline)))) ((data.dropWhile (· ≠ newline)).drop 1)
  else if data = [] then parser else parser.absorb data
termination_by data.length
decreasing_by
  have fits := (List.dropWhile_suffix (· ≠ newline) (l := data)).length_le
  have some := List.length_pos_of_mem ‹newline ∈ data›
  rw [List.length_drop]
  omega

/-- `flush()`. -/
def flush (parser : SessionMetricsParser ν) : SessionMetricsParser ν :=
  if parser.pending ≠ [] ∨ parser.oversized ≠ none then parser.completeRecord else parser

/-- The parser after some chunks. -/
def pushAll (parser : SessionMetricsParser ν) (chunks : List (List UInt8)) : SessionMetricsParser ν := chunks.foldl push parser

end

/-- `metrics()`. -/
def metrics (parser : SessionMetricsParser ν) : Metrics ν :=
  ⟨parser.totals.turns, parser.totals.cacheReadInputTokens, parser.totals.toolCalls, parser.totals.completed⟩

/-- `session()`. -/
def session (parser : SessionMetricsParser ν) : SessionLedger ν :=
  let totals := parser.totals
  let metered := perRequestUsage.contains parser.harness
  { turns := totals.turns
    toolCalls := totals.toolCalls
    requests := if metered then some totals.requests else none
    contextFirst := if metered then totals.contextFirst else none
    contextMax := if metered then totals.contextMax else none
    contextLast := if metered then totals.contextLast else none
    contextSum := if metered ∧ 0 < totals.requests then some totals.contextSum else none
    completed := totals.completed }

/-- The bytes of the transcript kept between two chunks, beside `lastAgentText` and `continuationId`, which are values read of records. -/
def retained (parser : SessionMetricsParser ν) : Nat :=
  parser.pending.length +
    (parser.oversized.map fun oversized => oversized.head.length + oversized.tail.length + oversized.carry.length).getD 0

end SessionMetricsParser

end Faberun.SessionMetrics
