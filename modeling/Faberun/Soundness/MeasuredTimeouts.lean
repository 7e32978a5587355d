import Mathlib.Data.List.Forall2
import Faberun.Model.Plan.Freeze

/-! # Measured timeouts, raised and checked

Unless the repository's `test` script is itself `npm test`, unmeasured, what was measured for a command is found within two calls. The
repair then raises every command's timeout to what the check asks, where that is legal at all, and a second repair finds nothing.
-/

namespace Faberun.Freeze

/-! ## The lookup ends -/

/-- The `test` script runs `npm test` again, and no candidate measured that command. -/
def selfTest (facts : MeasuredFacts) : Bool :=
  (facts.scripts.lookup "test").any fun script => isNpmTest (splitWords script) && (exact facts (splitWords script)).isNone

/-- The lookup returns, given enough of the stack. -/
def Ends (facts : MeasuredFacts) (argv : List String) : Prop := ∃ depth measured, measuredMsFor facts depth argv = some measured

private theorem testScript_eq_some {facts : MeasuredFacts} {argv : List String} {script : String}
    (resolved : testScript facts argv = some script) : isNpmTest argv = true ∧ facts.scripts.lookup "test" = some script := by
  unfold testScript at resolved
  split at resolved
  · exact ⟨‹_›, resolved⟩
  · contradiction

/-- Behind the script nothing calls the lookup again. -/
private theorem measuredMsFor_script {facts : MeasuredFacts} (other : selfTest facts = false) {script : String}
    (named : facts.scripts.lookup "test" = some script) :
    ∃ measured, ∀ depth, measuredMsFor facts (depth + 1) (splitWords script) = some measured := by
  cases found : exact facts (splitWords script) with
  | some measuredMs => exact ⟨some measuredMs, fun depth => by rw [measuredMsFor, found]⟩
  | none =>
    have plain : testScript facts (splitWords script) = none := by
      have differs : isNpmTest (splitWords script) = false := by
        simpa [selfTest, named, found] using other
      rw [testScript, differs, if_neg (by decide)]
    exact ⟨directorySum facts (splitWords script), fun depth => by rw [measuredMsFor, found, plain]⟩

/-- Two calls are enough for every command. -/
private theorem measuredMsFor_settles {facts : MeasuredFacts} (other : selfTest facts = false) (argv : List String) :
    ∃ measured, ∀ depth, measuredMsFor facts (depth + 2) argv = some measured := by
  cases found : exact facts argv with
  | some measuredMs => exact ⟨some measuredMs, fun depth => by rw [measuredMsFor, found]⟩
  | none =>
    cases resolved : testScript facts argv with
    | none => exact ⟨directorySum facts argv, fun depth => by rw [measuredMsFor, found, resolved]⟩
    | some script =>
      obtain ⟨measured, settled⟩ := measuredMsFor_script other (testScript_eq_some resolved).2
      exact ⟨measured, fun depth => by rw [measuredMsFor, found, resolved]; exact settled depth⟩

/-- A script that runs itself is looked up without end. -/
private theorem measuredMsFor_selfTest {facts : MeasuredFacts} {script : String} (named : facts.scripts.lookup "test" = some script)
    (again : isNpmTest (splitWords script) = true) (unmeasured : exact facts (splitWords script) = none) (depth : Nat) :
    measuredMsFor facts depth (splitWords script) = none := by
  induction depth with
  | zero => rw [measuredMsFor]
  | succ depth ih =>
    have resolved : testScript facts (splitWords script) = some script := by rw [testScript, again, if_pos rfl, named]
    rw [measuredMsFor, unmeasured, resolved]
    exact ih

private theorem not_selfTest_of_ends {facts : MeasuredFacts} (ends : ∀ argv, Ends facts argv) : selfTest facts = false := by
  by_contra loops
  have loops : selfTest facts = true := by simpa using loops
  obtain ⟨script, named, test⟩ := (Option.any_eq_true ..).mp loops
  rw [Bool.and_eq_true, Option.isNone_iff_eq_none] at test
  obtain ⟨depth, measured, returns⟩ := ends (splitWords script)
  rw [measuredMsFor_selfTest named test.1 test.2] at returns
  contradiction

/-! ## One command -/

section

variable {ε : Type}

/-- The command as it was, with a timeout that is no lower. -/
structure Raised (before after : SuiteCommand ε) : Prop where
  argv : after.argv = before.argv
  other : after.other = before.other
  notLower : before.timeout ≤ after.timeout

private theorem Raised.refl (command : SuiteCommand ε) : Raised command command := ⟨rfl, rfl, le_refl _⟩

/-- No repair is left for the command: its timeout is long enough, or no legal one is. -/
def Covered (settled : List String → Option Rat) (command : SuiteCommand ε) : Prop :=
  ∀ measuredMs, settled command.argv = some measuredMs →
    requiredSec measuredMs ≤ command.timeout ∨ (VerificationLimits.maxTimeoutSec : Rat) < requiredSec measuredMs

variable (numeral seconds : Rat → String) (settled : List String → Option Rat)

/-- One turn of the repair, where every command's measurement is settled. -/
private def turn (label : String) (command : SuiteCommand ε) : SuiteCommand ε × Option String :=
  match settled command.argv with
  | none => (command, none)
  | some measuredMs =>
    if requiredSec measuredMs ≤ command.timeout ∨ (VerificationLimits.maxTimeoutSec : Rat) < requiredSec measuredMs then (command, none)
    else
      ({ command with timeoutSec := some (requiredSec measuredMs) },
        some s!"{label}: {joined command.argv} {numeral command.timeout}s -> {numeral (requiredSec measuredMs)}s")

private theorem turn_covered (label : String) {command : SuiteCommand ε} (covered : Covered settled command) :
    turn numeral settled label command = (command, none) := by
  unfold turn
  cases measured : settled command.argv with
  | none => rfl
  | some measuredMs => exact if_pos (covered measuredMs measured)

/-- A turn raises the command to what the check asks, or finds nothing to raise. -/
private theorem turn_raises (label : String) (command : SuiteCommand ε) :
    Raised command (turn numeral settled label command).1 ∧ Covered settled (turn numeral settled label command).1 ∧
      ((turn numeral settled label command).2 = none → (turn numeral settled label command).1 = command) := by
  by_cases covered : Covered settled command
  · rw [turn_covered numeral settled label covered]
    exact ⟨.refl command, covered, fun _ => rfl⟩
  · unfold Covered at covered
    push Not at covered
    obtain ⟨measuredMs, measured, short, legal⟩ := covered
    have raises : turn numeral settled label command = ({ command with timeoutSec := some (requiredSec measuredMs) },
        some s!"{label}: {joined command.argv} {numeral command.timeout}s -> {numeral (requiredSec measuredMs)}s") := by
      unfold turn
      rw [measured]
      exact if_neg (not_or.mpr ⟨not_le.mpr short, not_lt.mpr legal⟩)
    rw [raises]
    refine ⟨⟨rfl, rfl, le_of_lt short⟩, ?_, nofun⟩
    intro again same
    have same : again = measuredMs := Option.some.inj (same.symm.trans measured)
    exact .inl (same ▸ le_refl _)

/-! ## A list of commands -/

/-- The commands behind the repair of a list. -/
private def turned (label : String) (commands : List (SuiteCommand ε)) : List (SuiteCommand ε) :=
  commands.map fun command => (turn numeral settled label command).1

/-- What the repair of a list records. -/
private def notes (label : String) (commands : List (SuiteCommand ε)) : List String :=
  commands.filterMap fun command => (turn numeral settled label command).2

private theorem raiseCommandTimeouts_eq (label : String) (commands : List (SuiteCommand ε)) :
    raiseCommandTimeouts numeral (fun argv => some (settled argv)) label commands =
      some (turned numeral settled label commands, notes numeral settled label commands) := by
  have every : commands.mapM (raiseCommand numeral (fun argv => some (settled argv)) label) =
      some (commands.map (turn numeral settled label)) := by
    exact List.mapM_pure
  rw [raiseCommandTimeouts, every, Option.map_some, List.map_map, List.filterMap_map]
  rfl

private theorem turned_raised (label : String) (commands : List (SuiteCommand ε)) :
    List.Forall₂ Raised commands (turned numeral settled label commands) := by
  rw [turned, List.forall₂_map_right_iff, List.forall₂_same]
  exact fun command _ => (turn_raises numeral settled label command).1

private theorem turned_covered (label : String) (commands : List (SuiteCommand ε)) :
    ∀ command ∈ turned numeral settled label commands, Covered settled command := by
  intro command member
  obtain ⟨before, _, rfl⟩ := List.mem_map.mp member
  exact (turn_raises numeral settled label before).2.1

/-- A repair that records nothing left every command alone. -/
private theorem turned_of_notes_nil {label : String} {commands : List (SuiteCommand ε)}
    (silent : notes numeral settled label commands = []) : turned numeral settled label commands = commands := by
  rw [notes, List.filterMap_eq_nil_iff] at silent
  rw [turned]
  calc commands.map (fun command => (turn numeral settled label command).1) = commands.map id :=
        List.map_congr_left fun command member => (turn_raises numeral settled label command).2.2 (silent command member)
    _ = commands := List.map_id commands

private theorem notes_covered (label : String) {commands : List (SuiteCommand ε)}
    (covered : ∀ command ∈ commands, Covered settled command) : notes numeral settled label commands = [] := by
  rw [notes, List.filterMap_eq_nil_iff]
  intro command member
  rw [turn_covered numeral settled label (covered command member)]

/-! ## A plan -/

/-- The repair of one node. -/
private def turnedNode (node : SuiteNode ε) : SuiteNode ε :=
  { node with verification := some (turned numeral settled node.id (node.verification.getD [])) }

/-- The plan rebuilt from what the repair made of its lists. -/
private def rebuilt (plan : Suites ε) : Suites ε :=
  ⟨plan.nodes.map (turnedNode numeral settled),
    plan.sharedVerification.map fun _ => turned numeral settled "sharedVerification" (plan.sharedVerification.getD []),
    plan.finalVerification.map fun _ => turned numeral settled "finalVerification" (plan.finalVerification.getD [])⟩

/-- All a repair records. -/
private def allNotes (plan : Suites ε) : List String :=
  (plan.nodes.flatMap fun node => notes numeral settled node.id (node.verification.getD [])) ++
    notes numeral settled "sharedVerification" (plan.sharedVerification.getD []) ++
      notes numeral settled "finalVerification" (plan.finalVerification.getD [])

private theorem raiseNodes_eq (nodes : List (SuiteNode ε)) :
    nodes.mapM (raiseNode numeral fun argv => some (settled argv)) =
      some (nodes.map fun node => (turnedNode numeral settled node, notes numeral settled node.id (node.verification.getD []))) := by
  have each : (raiseNode numeral fun argv => some (settled argv)) = fun node : SuiteNode ε =>
      some (turnedNode numeral settled node, notes numeral settled node.id (node.verification.getD [])) := by
    funext node
    rw [raiseNode, raiseCommandTimeouts_eq]
    rfl
  rw [each]
  exact List.mapM_pure

private theorem raiseTimeoutsToMeasured_eq (plan : Suites ε) :
    raiseTimeoutsToMeasured numeral (fun argv => some (settled argv)) plan =
      some (if allNotes numeral settled plan = [] then (plan, []) else (rebuilt numeral settled plan, allNotes numeral settled plan)) := by
  unfold raiseTimeoutsToMeasured
  rw [raiseNodes_eq, raiseCommandTimeouts_eq, raiseCommandTimeouts_eq]
  simp only [Option.bind_eq_bind, Option.bind_some, List.flatMap_map, List.map_map]
  by_cases silent : allNotes numeral settled plan = []
  · rw [if_pos silent]
    exact if_pos silent
  · rw [if_neg silent]
    exact if_neg silent

/-- The containers of the rebuilt plan are the plan's, each repaired. -/
private theorem lists_rebuilt (plan : Suites ε) :
    (rebuilt numeral settled plan).lists =
      plan.nodes.map (fun node => turned numeral settled node.id (node.verification.getD [])) ++
        [turned numeral settled "sharedVerification" (plan.sharedVerification.getD []),
          turned numeral settled "finalVerification" (plan.finalVerification.getD [])] := by
  have given (label : String) (suite : Option (List (SuiteCommand ε))) :
      (suite.map fun _ => turned numeral settled label (suite.getD [])).getD [] = turned numeral settled label (suite.getD []) := by
    cases suite <;> rfl
  simp only [rebuilt, Suites.lists, given, List.map_map]
  rfl

private theorem rebuilt_raised (plan : Suites ε) :
    List.Forall₂ (List.Forall₂ Raised) plan.lists (rebuilt numeral settled plan).lists := by
  rw [lists_rebuilt, Suites.lists]
  refine List.rel_append ?_ (.cons (turned_raised ..) (.cons (turned_raised ..) .nil))
  rw [List.forall₂_map_left_iff, List.forall₂_map_right_iff, List.forall₂_same]
  exact fun node _ => turned_raised numeral settled node.id (node.verification.getD [])

private theorem rebuilt_covered (plan : Suites ε) :
    ∀ command ∈ (rebuilt numeral settled plan).lists.flatten, Covered settled command := by
  intro command member
  obtain ⟨commands, listed, member⟩ := List.mem_flatten.mp member
  rw [lists_rebuilt] at listed
  rcases List.mem_append.mp listed with node | suite
  · obtain ⟨node, _, rfl⟩ := List.mem_map.mp node
    exact turned_covered numeral settled _ _ command member
  · rcases List.mem_pair.mp suite with rfl | rfl
    · exact turned_covered numeral settled _ _ command member
    · exact turned_covered numeral settled _ _ command member

/-- A plan with nothing recorded has nothing left to raise. -/
private theorem covered_of_allNotes_nil {plan : Suites ε} (silent : allNotes numeral settled plan = []) :
    ∀ command ∈ plan.lists.flatten, Covered settled command := by
  rw [allNotes, List.append_eq_nil_iff, List.append_eq_nil_iff, List.flatMap_eq_nil_iff] at silent
  obtain ⟨⟨nodes, shared⟩, final⟩ := silent
  intro command member
  obtain ⟨commands, listed, member⟩ := List.mem_flatten.mp member
  rcases List.mem_append.mp listed with node | suite
  · obtain ⟨owner, there, rfl⟩ := List.mem_map.mp node
    rw [← turned_of_notes_nil numeral settled (nodes owner there)] at member
    exact turned_covered numeral settled _ _ command member
  · rcases List.mem_pair.mp suite with rfl | rfl
    · rw [← turned_of_notes_nil numeral settled shared] at member
      exact turned_covered numeral settled _ _ command member
    · rw [← turned_of_notes_nil numeral settled final] at member
      exact turned_covered numeral settled _ _ command member

private theorem allNotes_covered {plan : Suites ε} (covered : ∀ command ∈ plan.lists.flatten, Covered settled command) :
    allNotes numeral settled plan = [] := by
  have silent (label : String) {commands : List (SuiteCommand ε)} (listed : commands ∈ plan.lists) :
      notes numeral settled label commands = [] :=
    notes_covered numeral settled label fun command member => covered command (List.mem_flatten.mpr ⟨commands, listed, member⟩)
  rw [allNotes, List.append_eq_nil_iff, List.append_eq_nil_iff, List.flatMap_eq_nil_iff]
  refine ⟨⟨fun node there => silent _ ?_, silent _ ?_⟩, silent _ ?_⟩
  · exact List.mem_append_left _ (List.mem_map.mpr ⟨node, there, rfl⟩)
  · exact List.mem_append_right _ List.mem_cons_self
  · exact List.mem_append_right _ (List.mem_cons_of_mem _ List.mem_cons_self)

/-! ## The check -/

/-- The check of commands left without a repair names only those that no legal timeout covers. -/
private theorem check_covered {contract : Suites ε} (covered : ∀ command ∈ contract.lists.flatten, Covered settled command) :
    ∃ problems, assertTimeoutsCoverMeasured numeral seconds (fun argv => some (settled argv)) contract = some problems ∧
      ∀ problem ∈ problems, ∃ command ∈ contract.lists.flatten, ∃ measuredMs, settled command.argv = some measuredMs ∧
        (VerificationLimits.maxTimeoutSec : Rat) < requiredSec measuredMs ∧
          problem = splitProblem numeral seconds command measuredMs := by
  have every : contract.lists.flatten.mapM (problemOf numeral seconds fun argv => some (settled argv)) =
      some (contract.lists.flatten.map fun command => (settled command.argv).bind fun measuredMs =>
        if (VerificationLimits.maxTimeoutSec : Rat) < requiredSec measuredMs then some (splitProblem numeral seconds command measuredMs)
        else if command.timeout < requiredSec measuredMs then some (raiseProblem numeral seconds command measuredMs)
        else none) := by
    exact List.mapM_pure
  refine ⟨_, by rw [assertTimeoutsCoverMeasured, every]; rfl, ?_⟩
  intro problem member
  rw [List.mem_eraseDups, List.filterMap_map, List.mem_filterMap] at member
  obtain ⟨command, there, reported⟩ := member
  obtain ⟨measuredMs, measured, reported⟩ := Option.bind_eq_some_iff.mp reported
  refine ⟨command, there, measuredMs, measured, ?_⟩
  by_cases passes : (VerificationLimits.maxTimeoutSec : Rat) < requiredSec measuredMs
  · rw [if_pos passes] at reported
    exact ⟨passes, (Option.some.inj reported).symm⟩
  · have long : requiredSec measuredMs ≤ command.timeout := (covered command there measuredMs measured).resolve_right passes
    rw [if_neg passes, if_neg (not_lt.mpr long)] at reported
    contradiction

end

/-! ## Repair and check -/

section

variable {ε : Type} (numeral seconds : Rat → String)

/-- The repair of the plan returns and lowers no timeout, a second repair records nothing, and the check of a contract with the repaired
commands names only those that no legal timeout covers. -/
def RepairMeetsCheck (measure : List String → Option (Option Rat)) (plan : Suites ε) : Prop :=
  ∃ repaired raised, raiseTimeoutsToMeasured numeral measure plan = some (repaired, raised) ∧
    List.Forall₂ (List.Forall₂ Raised) plan.lists repaired.lists ∧
    raiseTimeoutsToMeasured numeral measure repaired = some (repaired, []) ∧
    ∀ contract : Suites ε,
      (∀ command ∈ contract.lists.flatten, ∃ planned ∈ repaired.lists.flatten,
        planned.argv = command.argv ∧ planned.timeout = command.timeout) →
      ∃ problems, assertTimeoutsCoverMeasured numeral seconds measure contract = some problems ∧
        ∀ problem ∈ problems, ∃ command ∈ contract.lists.flatten, ∃ measuredMs, measure command.argv = some (some measuredMs) ∧
          (VerificationLimits.maxTimeoutSec : Rat) < requiredSec measuredMs ∧
            problem = splitProblem numeral seconds command measuredMs

private theorem repairMeetsCheck_settled (settled : List String → Option Rat) (plan : Suites ε) :
    RepairMeetsCheck numeral seconds (fun argv => some (settled argv)) plan := by
  have same {repaired contract : Suites ε} (covered : ∀ command ∈ repaired.lists.flatten, Covered settled command)
      (planned : ∀ command ∈ contract.lists.flatten, ∃ planned ∈ repaired.lists.flatten,
        planned.argv = command.argv ∧ planned.timeout = command.timeout) :
      ∀ command ∈ contract.lists.flatten, Covered settled command := by
    intro command member measuredMs measured
    obtain ⟨before, there, argv, timeout⟩ := planned command member
    rw [← timeout]
    exact covered before there measuredMs (argv ▸ measured)
  have checked {contract : Suites ε} (covered : ∀ command ∈ contract.lists.flatten, Covered settled command) :=
    check_covered numeral seconds settled covered
  unfold RepairMeetsCheck
  simp only [raiseTimeoutsToMeasured_eq, Option.some.injEq]
  by_cases silent : allNotes numeral settled plan = []
  · refine ⟨plan, [], by rw [if_pos silent], ?_, by rw [if_pos silent], ?_⟩
    · exact List.forall₂_same.mpr fun commands _ => List.forall₂_same.mpr fun command _ => .refl command
    · intro contract planned
      exact checked (same (covered_of_allNotes_nil numeral settled silent) planned)
  · have covered := rebuilt_covered numeral settled plan
    refine ⟨rebuilt numeral settled plan, allNotes numeral settled plan, by rw [if_neg silent], rebuilt_raised numeral settled plan, ?_, ?_⟩
    · rw [if_pos (allNotes_covered numeral settled covered)]
    · intro contract planned
      exact checked (same covered planned)

/-- Lookup, repair and check end and agree just when the `test` script is not itself an unmeasured `npm test`. -/
theorem measuredTimeouts_agree_iff (facts : MeasuredFacts) :
    ((∀ argv, Ends facts argv) ∧
      ∀ plan : Suites ε, ∃ least, ∀ depth ≥ least, RepairMeetsCheck numeral seconds (measuredMsFor facts depth) plan) ↔
      selfTest facts = false := by
  constructor
  · exact fun agree => not_selfTest_of_ends agree.1
  · intro other
    choose settled settles using measuredMsFor_settles other
    refine ⟨fun argv => ⟨2, settled argv, settles argv 0⟩, fun plan => ⟨2, ?_⟩⟩
    intro depth enough
    obtain ⟨depth, rfl⟩ := Nat.exists_eq_add_of_le' enough
    have measure : measuredMsFor facts (depth + 2) = fun argv => some (settled argv) := funext fun argv => settles argv depth
    rw [measure]
    exact repairMeetsCheck_settled numeral seconds settled plan

/-- A repository whose `test` script is `npm test`: the lookup of that command never returns. -/
theorem npmTest_loops : ¬ Ends ⟨[("test", "npm test")], []⟩ ["npm", "test"] := by
  rintro ⟨depth, measured, returns⟩
  have words : splitWords "npm test" = ["npm", "test"] := by decide
  have loops : measuredMsFor ⟨[("test", "npm test")], []⟩ depth (splitWords "npm test") = none :=
    measuredMsFor_selfTest rfl (by decide) (by decide) depth
  rw [words, returns] at loops
  contradiction

end

end Faberun.Freeze
