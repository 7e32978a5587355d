import Faberun.Model.Engine.RunCommand
import Faberun.Soundness.VerificationLists

/-! # What a resumed verification pass answers

A command served from its checkpoint is not run: its verdict is the recorded one, and its effects on the workspace are
missing for the commands after it. The identity it is served by is the tree of its directory when the pass first used
that directory. So a suite of commands can be resumed unnoticed when such a tree decides the verdicts of the commands it
names, and when no command that is served changes the verdicts of others.
-/

namespace Faberun.VerificationHost

variable {ω : Type}

/-! ## Commands on their own -/

/-- The workspace a command leaves, and its verdict. -/
def leaves (host : VerificationHost ω) (command : VerificationCommand) (workspace : ω) : ω := (host.runEntry command workspace).1

def passes (host : VerificationHost ω) (command : VerificationCommand) (workspace : ω) : Bool :=
  (host.runEntry command workspace).2.1

/-- The workspace a list leaves. -/
def leavesAll (host : VerificationHost ω) (commands : List VerificationCommand) (workspace : ω) : ω :=
  commands.foldl (fun workspace command => host.leaves command workspace) workspace

/-- The verdicts of a list that is run from a workspace. -/
def answers (host : VerificationHost ω) : List VerificationCommand → ω → List Bool
  | [], _ => []
  | command :: rest, workspace => host.passes command workspace :: host.answers rest (host.leaves command workspace)

/-- The host of a packet with other declared files. -/
def packet (host : VerificationHost ω) (writeFiles : List String) : VerificationHost ω := { host with writeFiles }

/-- What a directory is identified by. -/
def treeOf (host : VerificationHost ω) (workspace : ω) (cwd : String) : WorkspaceTreeIdentity :=
  ⟨host.dirtyTreeFingerprint workspace cwd, host.headTreeId workspace cwd⟩

variable {host : VerificationHost ω}

/-- Commands that a contract may declare without mutation entries, each a function of the workspace to a workspace and a
result: its directory is there, and the directory has a fingerprint. -/
structure CommandSuite (host : VerificationHost ω) where
  commands : VerificationCommand → Prop
  directory : VerificationCommand → String
  normal : ∀ command, commands command → Normal command
  plain : ∀ command, commands command → command.mutation = none
  resolves : ∀ command, commands command → ∀ workspace,
    host.resolveVerificationCwd workspace (command.cwd.getD ".") = .ok (directory command)
  fingerprinted : ∀ workspace cwd, (host.dirtyTreeFingerprint workspace cwd).isSome = true

namespace CommandSuite

variable (suite : CommandSuite host)

/-- A list of commands of the suite. -/
def Lists (commands : List VerificationCommand) : Prop := ∀ command ∈ commands, suite.commands command

/-- Where a pass is resumed: the workspace the interrupted one left, or one in which a directory the list uses has the tree
it had at the start, as in a fresh checkout of the same tree. -/
def Resumable (commands : List VerificationCommand) (start left resumed : ω) : Prop :=
  resumed = left ∨ ∃ command ∈ commands, host.treeOf resumed (suite.directory command) = host.treeOf start (suite.directory command)

/-- Serving checkpoints is invisible: whatever the packet declares to write, whatever list of the suite a pass started and
wherever it was interrupted, a pass resumed over its log directory answers as it would over an empty one. -/
def Invisible : Prop :=
  ∀ writeFiles commands, suite.Lists commands → ∀ count start left,
    (host.packet writeFiles).runCommands (commands.take count) (opened start fun _ => none) = (left, none) →
      ∀ resumed, suite.Resumable commands start left.workspace resumed →
        verdicts ((host.packet writeFiles).runVerification commands resumed left.log) =
          verdicts ((host.packet writeFiles).runVerification commands resumed fun _ => none)

/-- Commands of one directory, or none, before a command of that directory. -/
def Follows (earlier : List VerificationCommand) (command : VerificationCommand) : Prop :=
  ∀ first ∈ earlier.head?, suite.directory first = suite.directory command

/-- The commands of a suite whose checkpoints can be read back are checks. -/
structure Checks : Prop where
  /-- Two workspaces in which a command's directory has the same tree give it the same verdict, also behind commands the
  first of which used the directory. -/
  decided : ∀ earlier command, suite.Lists (earlier ++ [command]) → suite.Follows earlier command →
    fitsState command = true → earlier.length < VerificationLimits.maxCommands → ∀ workspace other,
      host.treeOf workspace (suite.directory command) = host.treeOf other (suite.directory command) →
        host.passes command (host.leavesAll earlier workspace) = host.passes command (host.leavesAll earlier other)
  /-- To have run it changes no verdict of a list. -/
  unnoticed : ∀ command rest, suite.Lists (command :: rest) → fitsState command = true →
    rest.length < VerificationLimits.maxCommands → ∀ workspace,
      host.answers rest (host.leaves command workspace) = host.answers rest workspace

end CommandSuite

/-! ## One turn of a pass -/

/-- What a turn adds to a pass: a verdict, the workspace it leaves, and at most its own checkpoint. -/
structure Turn (pass next : VerificationPass ω) (after : ω) (verdict : Bool) : Prop where
  workspace : next.workspace = after
  results : next.results.map (·.passed) = pass.results.map (·.passed) ++ [verdict]
  log : ∀ ordinal, ordinal ≠ pass.results.length + 1 → next.log ordinal = pass.log ordinal

theorem Turn.length {pass next : VerificationPass ω} {after : ω} {verdict : Bool}
    (turn : Turn pass next after verdict) : next.results.length = pass.results.length + 1 := by
  have lengths := congrArg List.length turn.results
  simpa using lengths

/-- The checkpoint of an ordinal is served with a verdict to what asks under an identity, when the command fits. -/
def Holds (log : Nat → Option CheckpointRecord) (ordinal : Nat) (command : VerificationCommand) (identity : CheckpointIdentity)
    (verdict : Bool) : Prop :=
  ∀ asked : CheckpointIdentity, asked.treeFingerprint.isSome = true →
    (servedCheckpoint log ordinal asked).map (·.passed) =
      if fitsState command = true ∧ identity = asked then some verdict else none

section Turns

variable (suite : CommandSuite host) (writeFiles : List String)

/-- The identity a command is served or recorded under. -/
def CommandSuite.identity (pass : VerificationPass ω) (command : VerificationCommand) : CheckpointIdentity :=
  (host.packet writeFiles).commandIdentity pass command (suite.directory command)

/-- A turn serves a command or runs it. -/
structure CommandSuite.Turned (command : VerificationCommand) (pass next : VerificationPass ω) : Prop where
  trees : next.trees = fun other =>
    if other = suite.directory command then some (host.treeIdentity pass (suite.directory command)) else pass.trees other
  dependencies : next.dependencyHash = some ((host.packet writeFiles).dependencyInputs pass)
  turn : match (servedCheckpoint pass.log (pass.results.length + 1) (suite.identity writeFiles pass command)).map (·.passed) with
    | some verdict => Turn pass next pass.workspace verdict
    | none => Turn pass next (host.leaves command pass.workspace) (host.passes command pass.workspace) ∧
        Holds next.log (pass.results.length + 1) command (suite.identity writeFiles pass command)
          (host.passes command pass.workspace)

/-- The commands of a list from the first on that uses a directory. -/
def CommandSuite.since (commands : List VerificationCommand) (cwd : String) : List VerificationCommand :=
  commands.dropWhile fun command => !decide (suite.directory command = cwd)

private theorem since_concat (commands : List VerificationCommand) (command : VerificationCommand) (cwd : String) :
    suite.since (commands ++ [command]) cwd =
      if suite.since commands cwd = [] then if suite.directory command = cwd then [command] else []
      else suite.since commands cwd ++ [command] := by
  rw [CommandSuite.since, List.dropWhile_append]
  by_cases none : suite.since commands cwd = []
  · have empty : (commands.dropWhile fun command => !decide (suite.directory command = cwd)) = [] := none
    rw [empty, List.isEmpty_nil, if_pos rfl, if_pos none]
    by_cases here : suite.directory command = cwd <;> simp [here]
  · have some : ¬ (commands.dropWhile fun command => !decide (suite.directory command = cwd)).isEmpty := by
      rw [List.isEmpty_iff]
      exact none
    rw [if_neg some, if_neg none]
    rfl

/-- Between two commands of a pass, some commands done: each directory in use has the tree it had when it was first used,
and since then the workspace has changed as `Now` says. -/
structure CommandSuite.Between (Now : ω → List VerificationCommand → ω → Prop) (done : List VerificationCommand)
    (pass : VerificationPass ω) : Prop where
  counted : pass.results.length = done.length
  unused : ∀ cwd, suite.since done cwd = [] → pass.trees cwd = none
  used : ∀ cwd, suite.since done cwd ≠ [] → ∃ first, pass.trees cwd = some (host.treeOf first cwd) ∧
    Now first (suite.since done cwd) pass.workspace

variable {suite writeFiles}

/-- The tree a command is identified by, and what the workspace has become since. -/
private theorem CommandSuite.Between.tree {Now : ω → List VerificationCommand → ω → Prop}
    (reflexive : ∀ workspace, Now workspace [] workspace)
    {done : List VerificationCommand} {pass : VerificationPass ω} (between : suite.Between Now done pass) (cwd : String) :
    ∃ first, host.treeIdentity pass cwd = host.treeOf first cwd ∧ Now first (suite.since done cwd) pass.workspace := by
  by_cases fresh : suite.since done cwd = []
  · refine ⟨pass.workspace, ?_, ?_⟩
    · rw [treeIdentity, between.unused cwd fresh]
      rfl
    · rw [fresh]
      exact reflexive pass.workspace
  · obtain ⟨first, cached, now⟩ := between.used cwd fresh
    exact ⟨first, by rw [treeIdentity, cached, Option.getD_some], now⟩

/-- A turn keeps the trees, and the workspace changes as the turn does. -/
private theorem CommandSuite.Between.next {Now Later : ω → List VerificationCommand → ω → Prop}
    (reflexive : ∀ workspace, Now workspace [] workspace)
    {done : List VerificationCommand} {command : VerificationCommand} {pass next : VerificationPass ω}
    (between : suite.Between Now done pass) (turned : suite.Turned writeFiles command pass next)
    (length : next.results.length = pass.results.length + 1)
    (now : ∀ first earlier, Now first earlier pass.workspace → Later first (earlier ++ [command]) next.workspace) :
    suite.Between Later (done ++ [command]) next := by
  refine ⟨by rw [length, between.counted, List.length_append, List.length_singleton], fun cwd unused => ?_, fun cwd used => ?_⟩
  · rw [since_concat] at unused
    split_ifs at unused with fresh here
    · rw [turned.trees]
      simp only [Ne.symm here, if_false]
      exact between.unused cwd fresh
    · simp at unused
  · rw [turned.trees]
    by_cases here : cwd = suite.directory command
    · obtain ⟨first, tree, since⟩ := between.tree reflexive cwd
      refine ⟨first, by simp only [here, if_true]; rw [← here, tree], ?_⟩
      have later := now first _ since
      rw [since_concat]
      by_cases fresh : suite.since done cwd = []
      · rw [if_pos fresh, if_pos here.symm]
        rw [fresh] at later
        exact later
      · rw [if_neg fresh]
        exact later
    · rw [since_concat] at used ⊢
      by_cases fresh : suite.since done cwd = []
      · rw [if_pos fresh, if_neg (Ne.symm here)] at used
        exact absurd rfl used
      · rw [if_neg fresh]
        obtain ⟨first, cached, since⟩ := between.used cwd fresh
        exact ⟨first, by simp only [here, if_false, cached], now first _ since⟩

variable (suite)

/-- A log directory that holds the verdicts of some commands behind those that are done, each under the tree its directory
had when it was first used, and nothing after them. -/
def CommandSuite.Recorded (log : Nat → Option CheckpointRecord) : List VerificationCommand → List VerificationCommand → Prop
  | done, [] => ∀ ordinal, done.length < ordinal → log ordinal = none
  | done, command :: rest =>
      (∃ identity first, WorkspaceTreeIdentity.mk identity.treeFingerprint identity.headTree =
          host.treeOf first (suite.directory command) ∧
        Holds log (done.length + 1) command identity
          (host.passes command (host.leavesAll (suite.since done (suite.directory command)) first))) ∧
      CommandSuite.Recorded log (done ++ [command]) rest

variable {suite}

/-- The results of a turn, whichever it is. -/
private theorem CommandSuite.Turned.any {command : VerificationCommand} {pass next : VerificationPass ω}
    (turned : suite.Turned writeFiles command pass next) : ∃ after verdict, Turn pass next after verdict := by
  have turn := turned.turn
  split at turn
  · exact ⟨_, _, turn⟩
  · exact ⟨_, _, turn.1⟩

/-- Where nothing is recorded a command is run, and its verdict is recorded. -/
private theorem CommandSuite.Turned.run {command : VerificationCommand} {pass next : VerificationPass ω}
    (turned : suite.Turned writeFiles command pass next) (absent : pass.log (pass.results.length + 1) = none) :
    Turn pass next (host.leaves command pass.workspace) (host.passes command pass.workspace) ∧
      Holds next.log (pass.results.length + 1) command (suite.identity writeFiles pass command)
        (host.passes command pass.workspace) := by
  have turn := turned.turn
  have unserved : servedCheckpoint pass.log (pass.results.length + 1) (suite.identity writeFiles pass command) = none := by
    simp only [servedCheckpoint, absent, bind, Option.bind]
  rw [unserved, Option.map_none] at turn
  exact turn

/-- Where its verdict is recorded under its identity, a command that fits is served. -/
private theorem CommandSuite.Turned.serve {command : VerificationCommand} {pass next : VerificationPass ω} {verdict : Bool}
    (turned : suite.Turned writeFiles command pass next) (fits : fitsState command = true)
    (tree : ∃ first, host.treeIdentity pass (suite.directory command) = host.treeOf first (suite.directory command))
    (holds : Holds pass.log (pass.results.length + 1) command (suite.identity writeFiles pass command) verdict) :
    Turn pass next pass.workspace verdict := by
  have turn := turned.turn
  obtain ⟨first, tree⟩ := tree
  have fingerprint : (suite.identity writeFiles pass command).treeFingerprint =
      host.dirtyTreeFingerprint first (suite.directory command) := congrArg (·.dirtyTreeFingerprint) tree
  rw [holds _ (by rw [fingerprint]; exact suite.fingerprinted first _), if_pos ⟨fits, rfl⟩] at turn
  exact turn

/-- What a pass over some commands keeps: the checkpoints of others, the trees it has asked for and the dependency inputs. -/
structure Keeps (host : VerificationHost ω) (commands : List VerificationCommand) (pass left : VerificationPass ω) : Prop where
  length : left.results.length = pass.results.length + commands.length
  log : ∀ ordinal, ordinal ≤ pass.results.length ∨ left.results.length < ordinal → left.log ordinal = pass.log ordinal
  trees : ∀ cwd tree, pass.trees cwd = some tree → left.trees cwd = some tree
  dependencies : host.dependencyInputs left = host.dependencyInputs pass

section Resumed

variable (checks : suite.Checks)

include checks

end Resumed

/-- So are commands that leave the workspace as they find it and answer by the tree of their directory. -/
theorem CommandSuite.checks_of_readers (suite : CommandSuite host)
    (reads : ∀ command, suite.commands command → ∀ workspace, host.leaves command workspace = workspace)
    (decided : ∀ command, suite.commands command → ∀ workspace other,
      host.treeOf workspace (suite.directory command) = host.treeOf other (suite.directory command) →
        host.passes command workspace = host.passes command other) : suite.Checks := by
  have stays {commands : List VerificationCommand} (lists : suite.Lists commands) (workspace : ω) :
      host.leavesAll commands workspace = workspace := by
    induction commands with
    | nil => rfl
    | cons command rest ih =>
      obtain ⟨member, others⟩ := List.forall_mem_cons.mp lists
      rw [leavesAll, List.foldl_cons, reads command member]
      exact ih others
  refine ⟨fun earlier command lists _ _ _ workspace other trees => ?_, fun command rest lists _ _ workspace => ?_⟩
  · obtain ⟨before, last⟩ := List.forall_mem_append.mp lists
    rw [stays before, stays before]
    exact decided command (last command (List.mem_singleton_self command)) workspace other trees
  · rw [reads command (List.forall_mem_cons.mp lists).1]

end Turns

/-! ## A build and its check -/

/-- A tracked source file, and the bundle git ignores. -/
structure Checkout where
  source : String
  bundle : Option String
  deriving DecidableEq

/-- An attempt that exits with a code. -/
def exits (code : Int) (attempt : Nat) : VerificationAttemptResult :=
  { attempt, stdout := "", stderr := "", durationMs := 1, exitCode := some code, signal := none, timedOut := false,
    error := none, passed := code == 0, sandboxBlockedWrite := none, signalDeath := false }

/-- `npm run build` bundles the source and `npm run check` needs the bundle. -/
def npmHost : VerificationHost Checkout where
  realpath _ path := some path
  isContained _ := true
  isDirectory _ _ := true
  dirtyTreeFingerprint checkout _ := some checkout.source
  headTreeId _ _ := none
  readFile _ _ := none
  processEnv _ := none
  writeFiles := []
  runCommand command attempt checkout :=
    if command.argv = ["npm", "run", "build"] then ({ checkout with bundle := some checkout.source }, exits 0 attempt)
    else (checkout, exits (if checkout.bundle = some checkout.source then 0 else 1) attempt)
  runMutation _ checkout := (checkout, false, [])

end Faberun.VerificationHost
