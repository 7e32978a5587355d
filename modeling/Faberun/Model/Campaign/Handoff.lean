import Faberun.Machine.LineBudget
import Faberun.Model.Util

/-! # The handoff of a campaign

The embedding of `campaign/handoff.mjs` with the ceilings of `campaign/layout.mjs`. The state is rendered into lines under a byte
budget: the critical sections first, each below a limit that leaves a floor for those that follow, then the linked runs, then the
low-priority tail. Every line is marked with what it shows of which part, which the text itself does not say.
-/

namespace Faberun.CampaignHandoff

/-- `HANDOFF_BYTES`. -/
def handoffBytes : Nat := 16 * 1024

/-- `GOAL_TEXT_BYTES`. -/
def goalTextBytes : Nat := 4 * 1024

/-- `RENDER_NOTE_BYTES`. -/
def renderNoteBytes : Nat := 300

/-- `CRITICAL_FLOOR_BYTES`. -/
def criticalFloorBytes : Nat := 512

/-- `ID_CAP_FLOOR`. -/
def idCapFloor : Nat := 48

/-! ## State -/

/-- What the handoff reads of a journal entry. -/
structure JournalEntry where
  text : String
  sessionId : String
  recordedAt : String
  decisionId : String
  tool : String
  transcript : String
  transcriptUnavailable : Bool
  format : Option String
  cursor : Option String
  runId : Option String

/-- How many entries the projection has dropped. -/
structure Evicted where
  sessions : Nat
  decisions : Nat
  constraints : Nat
  questions : Nat
  intents : Nat
  outcomes : Nat

/-- `Projection`. -/
structure Projection where
  updatedAt : Option String
  decisions : List JournalEntry
  constraints : List JournalEntry
  intents : List JournalEntry
  outcomes : List JournalEntry
  next : Option JournalEntry
  questions : List JournalEntry
  sessions : List JournalEntry
  evicted : Evicted

structure AttentionNode where
  id : String
  status : String
  note : String

structure RunSummary where
  id : String
  «exists» : Bool
  total : Nat
  summary : String
  attention : List AttentionNode
  unreadable : Option String

structure Campaign where
  id : String
  goal : String
  updatedAt : String

/-- `totals`. -/
structure Totals where
  decisions : Nat
  constraints : Nat
  intents : Nat
  outcomes : Nat
  questions : Nat
  sessions : Nat

structure Handoff where
  campaign : Campaign
  updatedAt : String
  linkedRuns : List RunSummary
  activeDecisions : List JournalEntry
  constraints : List JournalEntry
  intents : List JournalEntry
  outcomes : List JournalEntry
  nextEntry : Option JournalEntry
  questions : List JournalEntry
  sessions : List JournalEntry
  totals : Totals
  evicted : Evicted

/-- The parts of the handoff that show entries; the linked runs have two. -/
inductive Part where
  | nextAction
  | sessions
  | decisions
  | constraints
  | questions
  | attention
  | regular
  | intents
  | outcomes
  deriving DecidableEq

def Part.title : Part → String
  | .nextAction => "Latest next action"
  | .sessions => "Session lineage"
  | .decisions => "Active decisions"
  | .constraints => "User constraints"
  | .questions => "Open questions"
  | .attention | .regular => "Linked runs"
  | .intents => "Recent user intents"
  | .outcomes => "Attempts and outcomes"

/-- What an omission note calls the entries: `title.toLowerCase()`, but for the linked runs. -/
def Part.label : Part → String
  | .nextAction => "latest next action"
  | .sessions => "session lineage"
  | .decisions => "active decisions"
  | .constraints => "user constraints"
  | .questions => "open questions"
  | .attention => "attention-needed run states"
  | .regular => "run summaries"
  | .intents => "recent user intents"
  | .outcomes => "attempts and outcomes"

/-- What a line shows. -/
inductive Mark where
  /-- An entry of a part, or a line of one, by its place there. -/
  | entry (part : Part) (index : Nat)
  /-- A number of entries of a part that are not shown. -/
  | omitted (part : Part) (count : Nat)
  | plain
  deriving DecidableEq

structure Line where
  text : String
  mark : Mark
  deriving DecidableEq

def plain (text : String) : Line := ⟨text, .plain⟩

def lineBytes (line : Line) : Nat := charBytes line.text.toList + 1

abbrev Budget := LineBudget lineBytes

def totalLineBytes (lines : List Line) : Nat := tally lineBytes lines

/-- The note that counts what is omitted. -/
def omissionNote (part : Part) (count : Nat) : Line := ⟨s!"- {count} earlier {part.label} omitted", .omitted part count⟩

/-- `boundedText`. -/
def boundedText (value : String) (maxBytes : Nat) : String := if maxBytes = 0 then "…" else boundedUtf8 value maxBytes

/-! ## Entries -/

def sessionLine (entry : JournalEntry) (idCap : Nat) : String :=
  let tool := boundedText entry.tool idCap
  let sessionId := boundedText entry.sessionId idCap
  let transcript := if entry.transcriptUnavailable then "unavailable" else boundedText entry.transcript (max idCap 128)
  let format := boundedText (entry.format.getD "-") idCap
  let cursor := boundedText (entry.cursor.getD "-") idCap
  s!"{tool} {sessionId} · transcript: {transcript} · format: {format} · cursor: {cursor}"

def decisionLine (entry : JournalEntry) (idCap textCap : Nat) : String :=
  let decisionId := boundedText entry.decisionId idCap
  let text := boundedText entry.text textCap
  let sessionId := boundedText entry.sessionId idCap
  let recordedAt := boundedText entry.recordedAt idCap
  s!"[{decisionId}] {text} · {sessionId} · {recordedAt}"

def entryLine (entry : JournalEntry) (idCap textCap : Nat) : String :=
  let text := boundedText entry.text textCap
  let sessionId := boundedText entry.sessionId idCap
  let recordedAt := boundedText entry.recordedAt idCap
  s!"{text} · {sessionId} · {recordedAt}"

def outcomeLine (entry : JournalEntry) (idCap textCap : Nat) : String :=
  let run := match entry.runId.filter (· ≠ "") with
    | some runId =>
      let id := boundedText runId idCap
      s!"run {id}: "
    | none => ""
  run ++ entryLine entry idCap textCap

/-- The lines of some entries. -/
def entryLines (part : Part) (entries : List JournalEntry) (lineFor : JournalEntry → String) : List Line :=
  entries.mapIdx fun index entry => ⟨"- " ++ lineFor entry, .entry part index⟩

/-! ## Sections -/

/-- `criticalLimit`. -/
def criticalLimit (budget : Budget) (sectionsLeft : Nat) : Nat := budget.limit - criticalFloorBytes * (sectionsLeft - 1)

/-- The line of a part whose entries do not fit. -/
def noneFits : Line := plain "- (none fits the remaining budget)"

/-- The entries of `budgetedLines` that fit before the note is thought of. -/
def fittingLines (budget : Budget) (lines : List Line) (limit : Nat) : Nat :=
  LineBudget.fitting lineBytes limit budget.used lines.reverse

/-- The number an omission note states. -/
def droppedLines (budget : Budget) (lines : List Line) (omittedCount limit : Nat) : Nat :=
  lines.length - fittingLines budget lines limit + omittedCount

/-- How many entries are kept: those that fit, less those given back for the note. -/
def keptLines (budget : Budget) (lines : List Line) (part : Part) (omittedCount limit : Nat) : Nat :=
  let fitted := fittingLines budget lines limit
  let dropped := droppedLines budget lines omittedCount limit
  if 0 < dropped then LineBudget.takeBack lineBytes limit budget.used (lineBytes (omissionNote part dropped)) lines.reverse fitted
  else fitted

/-- The note is added where something is omitted. -/
def withNote (budget : Budget) (part : Part) (count : Nat) : Budget :=
  if 0 < count then budget.add (omissionNote part count) else budget

/-- The latest lines, or that none fits. -/
def showLatest (budget : Budget) (lines : List Line) (kept : Nat) : Budget :=
  if kept = 0 then budget.add noneFits else budget.addEach (lines.drop (lines.length - kept))

/-- `budgetedLines`: the budget afterwards, and how many entries it shows. -/
def budgetedLines (budget : Budget) (lines : List Line) (part : Part) (omittedCount limit : Nat) : Budget × Nat :=
  let kept := keptLines budget lines part omittedCount limit
  (withNote (showLatest budget lines kept) part (droppedLines budget lines omittedCount limit), kept)

/-- The heading of a section, and the blank line below it. -/
def headed (budget : Budget) (part : Part) : Budget := budget.addEach [plain ("## " ++ part.title), plain ""]

/-- `criticalSection`: 1 when every entry of it is lost. -/
def criticalSection (budget : Budget) (part : Part) (lines : List Line) (omittedCount sectionsLeft : Nat) : Budget × Nat :=
  let budget := headed budget part
  if lines = [] then (budget.addEach [plain "None.", plain ""], 0)
  else
    let (after, kept) := budgetedLines budget lines part omittedCount (criticalLimit budget sectionsLeft)
    (after.add (plain ""), if kept = 0 then 1 else 0)

/-- `lowPriorityLines`. -/
def lowPriorityLines (budget : Budget) (part : Part) (lines : List Line) (omittedCount : Nat) : Budget :=
  let (budget, added) := budget.addAll [plain ("## " ++ part.title), plain ""]
  if added = 0 then budget
  else if lines = [] then (budget.addAll [plain "None.", plain ""]).1
  else (budgetedLines budget lines part omittedCount budget.limit).1.add (plain "")

/-! ## Linked runs -/

/-- A run's summary line, and the lines of its nodes. -/
structure Group where
  summary : Line
  details : List Line

def Group.lines (group : Group) : List Line := group.summary :: group.details

/-- `fitGroupLines`: the summary and the latest details that fit, if the summary does. -/
def fitGroupLines (group : Group) (projected limit : Nat) : List Line :=
  if limit < projected + lineBytes group.summary then []
  else
    let kept := LineBudget.fitting lineBytes limit (projected + lineBytes group.summary) group.details.reverse
    group.summary :: group.details.drop (group.details.length - kept)

/-- What of some groups, the newest first, is rendered, oldest first, and how many lines are not. -/
def fitGroups (limit : Nat) : Nat → List Group → List (List Line) × Nat
  | _, [] => ([], 0)
  | projected, group :: older =>
    if projected + totalLineBytes group.lines ≤ limit then
      let (rendered, omitted) := fitGroups limit (projected + totalLineBytes group.lines) older
      (rendered ++ [group.lines], omitted)
    else
      let kept := fitGroupLines group projected limit
      if kept ≠ [] then
        let (rendered, omitted) := fitGroups limit (projected + totalLineBytes kept) older
        (rendered ++ [kept], omitted + (group.lines.length - kept.length))
      else ([], group.lines.length + (older.map (·.lines.length)).sum)

/-- Give back groups, the oldest first, until there is room for the note. -/
def takeBackGroups (limit used : Nat) (part : Part) : List (List Line) → Nat → List (List Line) × Nat
  | [], omitted => ([], omitted)
  | oldest :: rest, omitted =>
    if limit < used + totalLineBytes (oldest :: rest).flatten + lineBytes (omissionNote part omitted) then
      takeBackGroups limit used part rest (omitted + oldest.length)
    else (oldest :: rest, omitted)

/-- The groups `budgetedGroupLines` renders, and the number its note states. -/
def keptGroups (budget : Budget) (groups : List Group) (part : Part) (limit : Nat) : List (List Line) × Nat :=
  let (rendered, omitted) := fitGroups limit budget.used groups.reverse
  if 0 < omitted then takeBackGroups limit budget.used part rendered omitted else (rendered, omitted)

/-- `budgetedGroupLines`: the budget afterwards, and how many lines it shows. -/
def budgetedGroupLines (budget : Budget) (groups : List Group) (part : Part) (limit : Nat) : Budget × Nat :=
  let kept := keptGroups budget groups part limit
  (withNote (budget.addEach kept.1.flatten) part kept.2, kept.1.flatten.length)

/-- A run needs attention. -/
def needsAttention (run : RunSummary) : Bool :=
  !run.exists || (run.unreadable.filter (· ≠ "")).isSome || !run.attention.isEmpty

/-- `hasAttentionRuns`. -/
def hasAttentionRuns (linkedRuns : List RunSummary) : Bool := linkedRuns.any needsAttention

/-- The line of a node that needs attention. -/
def nodeLine (node : AttentionNode) (noteCap idCap : Nat) : String :=
  let nodeId := boundedText node.id idCap
  let status := boundedText node.status idCap
  let note := boundedText node.note noteCap
  s!"  - {nodeId}: {status}" ++ if node.note = "" then "" else s!" · {note}"

/-- The texts of a run in `buildRunsGroups`, and whether it needs attention. -/
def runTexts (run : RunSummary) (noteCap idCap : Nat) : (String × List String) × Bool :=
  let id := boundedText run.id idCap
  if !run.exists then ((s!"- {id}: run directory missing", []), true)
  else match run.unreadable.filter (· ≠ "") with
    | some unreadable =>
      let note := boundedText unreadable noteCap
      ((s!"- {id}: unreadable · {note}", []), true)
    | none =>
      if run.total = 0 then ((s!"- {id}: no node states yet", []), false)
      else
        let summary := boundedText run.summary idCap
        ((s!"- {id}: {summary}", run.attention.map fun node => nodeLine node noteCap idCap), !run.attention.isEmpty)

/-- The groups of a part, each line marked with the place of its group. -/
def groupsOf (part : Part) (texts : List (String × List String)) : List Group :=
  texts.mapIdx fun index run => ⟨⟨run.1, .entry part index⟩, run.2.map fun text => ⟨text, .entry part index⟩⟩

/-- `attention` of `buildRunsGroups`. -/
def attentionGroups (linkedRuns : List RunSummary) (noteCap idCap : Nat) : List Group :=
  groupsOf .attention (((linkedRuns.map fun run => runTexts run noteCap idCap).filter (·.2)).map (·.1))

/-- `regular` of `buildRunsGroups`. -/
def regularGroups (linkedRuns : List RunSummary) (noteCap idCap : Nat) : List Group :=
  groupsOf .regular (((linkedRuns.map fun run => runTexts run noteCap idCap).filter fun run => !run.2).map (·.1))

/-- `renderLinkedRuns`. -/
def renderLinkedRuns (budget : Budget) (attention regular : List Group) (sectionsLeft : Option Nat) : Budget × Nat :=
  if attention = [] ∧ regular = [] then
    ((budget.addSection [plain "## Linked runs", plain "", plain "No linked runs yet.", plain ""]).1, 0)
  else
    let limit := (sectionsLeft.map (criticalLimit budget)).getD budget.limit
    let (headed, headingFits) := budget.addSection [plain "## Linked runs", plain ""]
    let (shown, attentionKept) := if headingFits then budgetedGroupLines headed attention .attention limit else (headed, 0)
    if attention ≠ [] ∧ attentionKept = 0 then (shown, 1)
    else ((if headingFits then (budgetedGroupLines shown regular .regular limit).1 else shown).add (plain ""), 0)

/-! ## The handoff -/

/-- One call that renders a part of the handoff. -/
inductive Call where
  | critical (part : Part) (lines : List Line) (omittedCount sectionsLeft : Nat)
  | linkedRuns (attention regular : List Group) (sectionsLeft : Option Nat)
  | lowPriority (part : Part) (lines : List Line) (omittedCount : Nat)

/-- The budget after a call, and how many critical losses it had. -/
def Call.run (budget : Budget) : Call → Budget × Nat
  | .critical part lines omittedCount sectionsLeft => criticalSection budget part lines omittedCount sectionsLeft
  | .linkedRuns attention regular sectionsLeft => renderLinkedRuns budget attention regular sectionsLeft
  | .lowPriority part lines omittedCount => (lowPriorityLines budget part lines omittedCount, 0)

/-- The first lines of a handoff. -/
def header (handoff : Handoff) (cap : Nat) : List Line :=
  let id := boundedText handoff.campaign.id (max cap idCapFloor)
  [plain s!"# campaign {id} handoff", plain "", plain s!"Updated: {handoff.updatedAt}", plain "", plain "## Goal", plain "",
    plain (boundedText handoff.campaign.goal goalTextBytes), plain ""]

/-- The calls of `renderBudgeted`, in order. -/
def calls (handoff : Handoff) (cap : Nat) : List Call :=
  let noteCap := max (min renderNoteBytes cap) idCapFloor
  let idCap := max cap idCapFloor
  let attentionPresent := hasAttentionRuns handoff.linkedRuns
  let sectionsLeft := 5 + if attentionPresent then 1 else 0
  let entry := fun entry => entryLine entry idCap cap
  [.critical .nextAction (entryLines .nextAction handoff.nextEntry.toList entry) 0 sectionsLeft,
    .critical .sessions (entryLines .sessions handoff.sessions fun entry => sessionLine entry idCap)
      (handoff.totals.sessions - handoff.sessions.length + handoff.evicted.sessions) (sectionsLeft - 1),
    .critical .decisions (entryLines .decisions handoff.activeDecisions fun entry => decisionLine entry idCap cap)
      (handoff.totals.decisions - handoff.activeDecisions.length + handoff.evicted.decisions) (sectionsLeft - 2),
    .critical .constraints (entryLines .constraints handoff.constraints entry)
      (handoff.totals.constraints - handoff.constraints.length + handoff.evicted.constraints) (sectionsLeft - 3),
    .critical .questions (entryLines .questions handoff.questions entry)
      (handoff.totals.questions - handoff.questions.length + handoff.evicted.questions) (sectionsLeft - 4),
    .linkedRuns (attentionGroups handoff.linkedRuns noteCap idCap) (regularGroups handoff.linkedRuns noteCap idCap)
      (if attentionPresent then some (sectionsLeft - 5) else none),
    .lowPriority .intents (entryLines .intents handoff.intents entry)
      (handoff.totals.intents - handoff.intents.length + handoff.evicted.intents),
    .lowPriority .outcomes (entryLines .outcomes handoff.outcomes fun entry => outcomeLine entry idCap cap)
      (handoff.totals.outcomes - handoff.outcomes.length + handoff.evicted.outcomes)]

/-- The budget the sections share, after the header. -/
def opened (handoff : Handoff) (cap : Nat) :
    Budget := ((LineBudget.empty lineBytes handoffBytes).addSection (header handoff cap)).1

/-- The text of some lines. -/
def textOf (lines : List Line) : String := "\n".intercalate (lines.map (·.text)) ++ "\n"

/-! ## What a handoff owes -/

/-- What a mark accounts for of a part: an entry shown, or the entries a note states. -/
def accounted (part : Part) : Mark → Nat
  | .entry of _ => if of = part then 1 else 0
  | .omitted of count => if of = part then count else 0
  | .plain => 0

/-- The entries of a part that are shown, and those stated as omitted. -/
def account (part : Part) (lines : List Line) : Nat := tally (fun line => accounted part line.mark) lines

/-- The note that is due has room beside the entries that fit, or beside the line that says none does. -/
def NoteFits (budget : Budget) (lines : List Line) (part : Part) (omittedCount limit : Nat) : Prop :=
  let fitted := fittingLines budget lines limit
  let note := lineBytes (omissionNote part (droppedLines budget lines omittedCount limit))
  droppedLines budget lines omittedCount limit = 0 ∨
    (0 < fitted ∧ budget.used + totalLineBytes (lines.reverse.take fitted) + note ≤ limit) ∨
      (fitted = 0 ∧ (budget.add noneFits).used + note ≤ budget.limit)

/-- The newest group has room for its summary, and the note that is due beside what is shown of it. -/
def NewestFits (budget : Budget) (groups : List Group) (part : Part) (limit : Nat) : Prop :=
  ∃ newest ∈ groups.getLast?, budget.used + lineBytes newest.summary ≤ limit ∧
    let shown := fitGroupLines newest budget.used limit
    let note := omissionNote part ((groups.flatMap Group.lines).length - shown.length)
    (budget.used + totalLineBytes (groups.flatMap Group.lines) ≤ limit ∨
      budget.used + totalLineBytes shown + lineBytes note ≤ limit)

/-- A call that finds room for what it has to show and to state. -/
def Call.Straight (budget : Budget) : Call → Prop
  | .critical part lines omittedCount sectionsLeft =>
    let budget := headed budget part
    let limit := criticalLimit budget sectionsLeft
    if lines = [] then omittedCount = 0 else 0 < fittingLines budget lines limit ∧ NoteFits budget lines part omittedCount limit
  | .lowPriority part lines omittedCount =>
    let headed := (budget.addAll [plain ("## " ++ part.title), plain ""]).1
    lines.length + omittedCount = 0 ∨ (budget.fits (plain ("## " ++ part.title)) = true ∧ lines ≠ [] ∧
      NoteFits headed lines part omittedCount headed.limit)
  | .linkedRuns attention regular sectionsLeft =>
    let limit := (sectionsLeft.map (criticalLimit budget)).getD budget.limit
    let headed := budget.addSection [plain "## Linked runs", plain ""]
    let shown := (budgetedGroupLines headed.1 attention .attention limit).1
    let note := omissionNote .regular (regular.flatMap Group.lines).length
    (attention = [] ∧ regular = []) ∨
      (headed.2 = true ∧ (attention = [] ∨ NewestFits headed.1 attention .attention limit) ∧
        (regular = [] ∨ NewestFits shown regular .regular limit ∨ shown.used + lineBytes note ≤ shown.limit))

/-- A call that finds room for the newest entry of a critical part, and for the note that is due beside it. -/
def Call.Roomy (budget : Budget) : Call → Prop
  | .critical part lines omittedCount sectionsLeft =>
    let budget := headed budget part
    let limit := criticalLimit budget sectionsLeft
    let dropped := droppedLines budget lines omittedCount limit
    lines = [] ∨ ∃ newest ∈ lines.getLast?,
      budget.used + lineBytes newest + (if 0 < dropped then lineBytes (omissionNote part dropped) else 0) ≤ limit
  | .lowPriority .. => True
  | .linkedRuns attention _ sectionsLeft =>
    let limit := (sectionsLeft.map (criticalLimit budget)).getD budget.limit
    let headed := budget.addSection [plain "## Linked runs", plain ""]
    attention = [] ∨ (headed.2 = true ∧ NewestFits headed.1 attention .attention limit)

/-- Calls that all find room, one after the other. -/
def Straight (budget : Budget) : List Call → Prop
  | [] => True
  | call :: rest => call.Straight budget ∧ Straight (call.run budget).1 rest

/-- Calls that all show the newest entry of their critical part. -/
def Roomy (budget : Budget) : List Call → Prop
  | [] => True
  | call :: rest => call.Roomy budget ∧ Roomy (call.run budget).1 rest

end Faberun.CampaignHandoff
