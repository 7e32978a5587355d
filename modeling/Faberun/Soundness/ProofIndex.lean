import Mathlib.Data.String.Basic
import Faberun.Model.Contract.DefinitionOfDone
import Faberun.Model.Engine.RunCommand
import Faberun.Soundness.CheckpointReuse
import Faberun.Soundness.VerificationLists

/-! # Verification proofs and their commands

A `verification` proof names a command of its packet by position, and the gate looks the position up in the record a
pass left. A pass answers one result for each command, in order; the record keeps them up to the first that does not
fit with those before it. An accepted index is within the record's count, but its command need not be within the bytes.
-/

namespace Faberun.VerificationHost

variable {ω : Type} {host : VerificationHost ω}

/-! ## The record -/

/-- The bytes of several lists. -/
def listBytes (lists : List (List String)) : Nat := (lists.map totalBytes).sum

/-- The argv and the env of some commands fit the persisted bounds together. -/
def FitTogether (commands : List VerificationCommand) : Prop :=
  listBytes (commands.map (·.argv)) ≤ VerificationLimits.stateArgvBytes ∧
    listBytes (commands.map (·.env)) ≤ VerificationLimits.stateEnvBytes

/-- A position of the record: the commands up to it are few enough and fit what is left of the bounds. -/
private def Recordable (count argvBytes envBytes index : Nat) (results : List VerificationCommandResult) : Prop :=
  count + index < VerificationLimits.stateCommands ∧
    argvBytes + listBytes ((results.take (index + 1)).map (·.argv)) ≤ VerificationLimits.stateArgvBytes ∧
    envBytes + listBytes ((results.take (index + 1)).map (·.env)) ≤ VerificationLimits.stateEnvBytes

/-- The record holds the commands in order, up to the first that does not fit. -/
private theorem getElem?_compactCommands {results : List VerificationCommandResult} {index : Nat} (inside : index < results.length)
    (count argvBytes envBytes : Nat) :
    (Recordable count argvBytes envBytes index results →
      (compactCommands count argvBytes envBytes results)[index]? = (results[index]?).map compactCommand) ∧
    (¬ Recordable count argvBytes envBytes index results →
      (compactCommands count argvBytes envBytes results)[index]? = none) := by
  induction results generalizing index count argvBytes envBytes with
  | nil => exact absurd inside (Nat.not_lt_zero _)
  | cons command rest ih =>
    have argvSum : ∀ index, listBytes (((command :: rest).take (index + 1)).map (·.argv)) =
        totalBytes command.argv + listBytes ((rest.take index).map (·.argv)) := fun _ => rfl
    have envSum : ∀ index, listBytes (((command :: rest).take (index + 1)).map (·.env)) =
        totalBytes command.env + listBytes ((rest.take index).map (·.env)) := fun _ => rfl
    simp only [Recordable, argvSum, envSum]
    rw [compactCommands]
    split
    · refine ⟨fun fits => ?_, fun _ => rfl⟩
      omega
    · dsimp only
      split
      · refine ⟨fun fits => ?_, fun _ => rfl⟩
        omega
      · cases index with
        | zero =>
          refine ⟨fun _ => rfl, fun beyond => absurd ?_ beyond⟩
          have none : listBytes ((rest.take 0).map (·.argv)) = 0 ∧ listBytes ((rest.take 0).map (·.env)) = 0 := ⟨rfl, rfl⟩
          omega
        | succ index =>
          obtain ⟨kept, cut⟩ := ih (Nat.lt_of_succ_lt_succ inside) (count + 1) (argvBytes + totalBytes command.argv)
            (envBytes + totalBytes command.env)
          simp only [Recordable] at kept cut
          simp only [List.getElem?_cons_succ]
          exact ⟨fun fits => kept (by omega), fun beyond => cut (by omega)⟩

/-! ## A pass -/

/-- What a command runs as. -/
def SameRun (result command : VerificationCommand) : Prop := result.argv = command.argv ∧ result.env = command.env

/-- Every checkpoint holds a result of the command its identity names. -/
private def Kept (log : Nat → Option CheckpointRecord) : Prop :=
  ∀ ordinal record, log ordinal = some record → ∀ result ∈ record.result.commands,
    SameRun result.toVerificationCommand record.identity.command

/-- A log directory as passes over it leave it, whole or cut short. -/
inductive Written : (Nat → Option CheckpointRecord) → Prop
  | empty : Written fun _ => none
  | pass (host : VerificationHost ω) (commands : List VerificationCommand) (workspace : ω) {log : Nat → Option CheckpointRecord} :
      Written log → Written (host.runCommands commands (opened workspace log)).1.log

private theorem sameRun_of_served {log : Nat → Option CheckpointRecord} (kept : Kept log) {ordinal : Nat}
    {identity : CheckpointIdentity} {result : VerificationCommandResult} (served : servedCheckpoint log ordinal identity = some result) :
    SameRun result.toVerificationCommand identity.command := by
  simp only [servedCheckpoint, bind, Option.bind_eq_some_iff] at served
  obtain ⟨record, logged, parsed, parses, served⟩ := served
  split_ifs at served with same
  cases served
  have recorded := kept ordinal record logged
  unfold parseCommandCheckpoint at parses
  split at parses
  · rename_i command single
    rw [compactVerification, single, compactCommands_single] at parses
    split at parses
    · rename_i command' fits
      split_ifs at fits
      cases fits
      cases parses
      obtain rfl : record.identity = identity := same.2
      exact recorded command (single ▸ List.mem_singleton_self _)
    · cases parses
  · cases parses

private theorem identify_spec {command : VerificationCommand} {pass cached : VerificationPass ω} {identity : Option CheckpointIdentity}
    (identified : host.identify command pass = .ok (cached, identity)) :
    cached.log = pass.log ∧ cached.results = pass.results ∧ ∀ name ∈ identity, name.command = command := by
  unfold identify at identified
  split at identified
  · cases identified
    exact ⟨rfl, rfl, nofun⟩
  · unfold checkpointIdentity at identified
    cases resolved : host.resolveVerificationCwd pass.workspace (command.cwd.getD ".") with
    | error refusal =>
      rw [resolved] at identified
      cases identified
    | ok cwd =>
      rw [resolved] at identified
      cases identified
      exact ⟨rfl, rfl, fun _ named => Option.mem_some_iff.mp named ▸ rfl⟩

private theorem sameRun_of_run {command : VerificationCommand} {workspace after : ω} {result : VerificationCommandResult}
    (ran : host.runRepeatedCommand command workspace = .ok (after, result)) : SameRun result.toVerificationCommand command := by
  unfold runRepeatedCommand at ran
  cases resolved : host.resolveVerificationCwd (host.runEntry command workspace).1 (command.cwd.getD ".") with
  | error refusal =>
    simp only [bind, Except.bind, resolved] at ran
    cases ran
  | ok cwd =>
    simp only [bind, Except.bind, resolved] at ran
    cases ran
    exact ⟨rfl, rfl⟩

private theorem kept_recordResult {pass : VerificationPass ω} (kept : Kept pass.log) {command : VerificationCommand} (workspace : ω)
    {result : VerificationCommandResult} (same : SameRun result.toVerificationCommand command) {identity : Option CheckpointIdentity}
    (named : ∀ name ∈ identity, name.command = command) : Kept (recordResult pass workspace result identity).log := by
  intro ordinal record logged held member
  simp only [recordResult] at logged
  split at logged
  · obtain ⟨name, rfl, rfl⟩ := Option.map_eq_some_iff.mp logged
    dsimp only at member ⊢
    rw [compactVerification, compactCommands_single] at member
    rw [named name rfl]
    split at member
    · obtain rfl := List.mem_singleton.mp member
      exact same
    · cases member
  · exact kept ordinal record logged held member

/-- One turn adds a result of its command. -/
private theorem runListed_sameRun {command : VerificationCommand} {pass next : VerificationPass ω} (kept : Kept pass.log)
    (listed : host.runListed pass command = .ok next) :
    Kept next.log ∧ ∃ result, next.results = pass.results ++ [result] ∧ SameRun result.toVerificationCommand command := by
  unfold runListed at listed
  cases identified : host.identify command pass with
  | error refusal =>
    simp only [identified, bind, Except.bind] at listed
    cases listed
  | ok found =>
    obtain ⟨cached, identity⟩ := found
    obtain ⟨log, results, named⟩ := identify_spec identified
    rw [← log] at kept
    simp only [identified, bind, Except.bind] at listed
    split at listed
    · rename_i result reuse
      cases listed
      obtain ⟨name, rfl, served⟩ := Option.bind_eq_some_iff.mp reuse
      have same := named name rfl ▸ sameRun_of_served kept served
      exact ⟨kept_recordResult kept _ same named, result, by rw [recordResult, results], same⟩
    · split at listed
      · cases listed
      · rename_i outcome ran
        obtain ⟨after, result⟩ := outcome
        cases listed
        have same := sameRun_of_run ran
        exact ⟨kept_recordResult kept _ same named, result, by rw [recordResult, results], same⟩

/-- A pass answers the commands it was given, one result each. -/
private theorem runCommands_sameRun {commands : List VerificationCommand} {pass left : VerificationPass ω} {refusal : Option Refusal}
    (kept : Kept pass.log) (ran : host.runCommands commands pass = (left, refusal)) :
    Kept left.log ∧ (refusal = none → ∃ added, left.results = pass.results ++ added ∧
      List.Forall₂ (fun result command => SameRun (VerificationCommandResult.toVerificationCommand result) command) added commands) := by
  induction commands generalizing pass with
  | nil =>
    cases ran
    exact ⟨kept, fun _ => ⟨[], (List.append_nil _).symm, .nil⟩⟩
  | cons command rest ih =>
    unfold runCommands at ran
    split at ran
    · rename_i next listed
      obtain ⟨nextKept, result, results, same⟩ := runListed_sameRun kept listed
      obtain ⟨leftKept, further⟩ := ih nextKept ran
      refine ⟨leftKept, fun completed => ?_⟩
      obtain ⟨added, whole, each⟩ := further completed
      exact ⟨result :: added, by rw [whole, results, List.append_assoc, List.singleton_append], .cons same each⟩
    · cases ran
      exact ⟨kept, nofun⟩

private theorem kept_of_written {log : Nat → Option CheckpointRecord} (written : Written (ω := ω) log) : Kept log := by
  induction written with
  | empty => exact fun _ _ logged => nomatch logged
  | pass host commands workspace _ ih => exact (runCommands_sameRun ih rfl).1

/-- A completed pass over normal commands answers them one by one. -/
private theorem runVerification_sameRun {commands : List VerificationCommand} (normal : ∀ command ∈ commands, Normal command)
    {workspace : ω} {log : Nat → Option CheckpointRecord} (written : Written (ω := ω) log) {result : VerificationResult}
    (returned : (host.runVerification commands workspace log).2 = .ok result) :
    List.Forall₂ (fun result command => SameRun (VerificationCommandResult.toVerificationCommand result) command)
      result.commands commands := by
  unfold runVerification at returned
  split at returned
  · cases returned
  · rename_i validated accepted
    have same : validated = commands := by
      unfold runnableCommands validateVerificationCommands at accepted
      dsimp only at accepted
      split at accepted
      · rw [validateEach_normal normal] at accepted
        cases accepted
        rfl
      · cases accepted
    rw [same] at returned
    split at returned
    · cases returned
    · rename_i left ran
      cases returned
      obtain ⟨added, whole, each⟩ := (runCommands_sameRun (kept_of_written written) ran).2 rfl
      rw [opened, List.nil_append] at whole
      exact whole ▸ each

/-! ## The proof and its entry -/

/-- A persisted command as the gate reads it, with what its last attempt printed. -/
def recordedCommand (command : VerificationCommandResult) : RecordedCommand where
  argv := command.argv
  passed := command.passed
  stdout := (command.attempts.getLast?.map (·.stdout)).getD ""
  stderr := (command.attempts.getLast?.map (·.stderr)).getD ""

/-- The record has, under an index, the entry of the packet's command, and a proof of that index passes as the command
did. -/
structure Linked (packet : List VerificationCommand) (result : VerificationResult) (index : Nat) : Prop where
  entry : ∃ command ∈ packet[index]?, ∃ outcome ∈ result.commands[index]?, ∃ entry ∈ (compactVerification result).commands[index]?,
    entry.argv = command.argv ∧ entry.passed = outcome.passed
  proof : ∀ outcome ∈ result.commands[index]?,
    (proveVerification index ((compactVerification result).commands.map recordedCommand)).1 = outcome.passed

/-- An accepted index is within the packet and within the count of the record. -/
private theorem accepted_index {packet : List VerificationCommand} {items : List DoneItem} {label : String} {first : Nat}
    (accepted : validateDoneItems label (nodeDoneOptions packet) first items = .ok ()) {item : DoneItem} (listed : item ∈ items)
    {index : Nat} (proof : item.proof = some (.verification index)) :
    index < packet.length ∧ index < VerificationLimits.stateCommands := by
  induction items generalizing first with
  | nil => cases listed
  | cons head rest ih =>
    unfold validateDoneItems at accepted
    obtain ⟨here, later⟩ := andThen_ok_iff.mp accepted
    rcases List.mem_cons.mp listed with rfl | listed
    · unfold validateDoneItem at here
      rw [proof] at here
      obtain ⟨_, here⟩ := andThen_ok_iff.mp here
      obtain ⟨_, here⟩ := andThen_ok_iff.mp here
      obtain ⟨_, checked⟩ := andThen_ok_iff.mp here
      obtain ⟨declared, recordable⟩ := andThen_ok_iff.mp checked
      exact ⟨of_decide_eq_true (check_ok_iff.mp declared), of_decide_eq_true (check_ok_iff.mp recordable)⟩
    · exact ih later listed

/-- What the answered commands take is what the declared ones do. -/
private theorem listBytes_sameRun {results : List VerificationCommandResult} {commands : List VerificationCommand}
    (same : List.Forall₂ (fun result command => SameRun (VerificationCommandResult.toVerificationCommand result) command) results commands) :
    results.map (·.argv) = commands.map (·.argv) ∧ results.map (·.env) = commands.map (·.env) := by
  induction same with
  | nil => exact ⟨rfl, rfl⟩
  | cons head _ ih =>
    obtain ⟨argv, env⟩ := ih
    exact ⟨by rw [List.map_cons, List.map_cons, argv, head.1], by rw [List.map_cons, List.map_cons, env, head.2]⟩

/-- A verification proof finds its command exactly when the packet's commands up to it fit the persisted bounds. -/
theorem verificationProof_linked_iff {ν : Type} [DecidableEq ν] (declared : DeclaredVerification ν)
    {node : ContractNode ν VerificationCommand} (member : node ∈ declared.contract.nodes) (settledIds : List ν)
    {items : List DoneItem} {label : String} (accepted : validateDefinitionOfDone items label (nodeDoneOptions node.verification) = .ok ())
    {item : DoneItem} (listed : item ∈ items) {index : Nat} (proof : item.proof = some (.verification index))
    (host : VerificationHost ω) (workspace : ω) {log : Nat → Option CheckpointRecord} (written : Written (ω := ω) log)
    {result : VerificationResult}
    (returned : (host.runVerification (verificationCommands declared.contract node settledIds) workspace log).2 = .ok result) :
    Linked node.verification result index ↔ FitTogether (node.verification.take (index + 1)) := by
  obtain ⟨inside, count⟩ := accepted_index accepted listed proof
  have each := runVerification_sameRun (verificationCommands_normal declared member settledIds) written returned
  obtain ⟨argv, env⟩ := listBytes_sameRun each
  have packet : ∀ count ≤ node.verification.length,
      (verificationCommands declared.contract node settledIds).take count = node.verification.take count := by
    intro count bound
    rw [verificationCommands, List.append_assoc, List.take_append_of_le_length bound]
  have answered : index < result.commands.length := by
    rw [each.length_eq, verificationCommands, List.append_assoc, List.length_append]
    omega
  have argvTaken : (result.commands.take (index + 1)).map (·.argv) = (node.verification.take (index + 1)).map (·.argv) := by
    rw [List.map_take, argv, ← List.map_take, packet _ inside]
  have envTaken : (result.commands.take (index + 1)).map (·.env) = (node.verification.take (index + 1)).map (·.env) := by
    rw [List.map_take, env, ← List.map_take, packet _ inside]
  have recordable : Recordable 0 0 0 index result.commands ↔ FitTogether (node.verification.take (index + 1)) := by
    rw [Recordable, FitTogether, argvTaken, envTaken]
    simp only [Nat.zero_add, count, true_and]
  obtain ⟨kept, cut⟩ := getElem?_compactCommands answered 0 0 0
  rw [← recordable]
  constructor
  · rintro ⟨⟨_, _, _, _, entry, found, _⟩, _⟩
    by_contra beyond
    rw [compactVerification, cut beyond] at found
    cases found
  · intro fits
    have found : (compactVerification result).commands[index]? = some (compactCommand result.commands[index]) := by
      rw [compactVerification, kept fits, List.getElem?_eq_getElem answered, Option.map_some]
    have here : (verificationCommands declared.contract node settledIds)[index]? = node.verification[index]? := by
      rw [verificationCommands, List.append_assoc, List.getElem?_append_left inside]
    have same : (result.commands.map (·.argv))[index]? = ((verificationCommands declared.contract node settledIds).map (·.argv))[index]? :=
      congrArg (·[index]?) argv
    rw [List.getElem?_map, List.getElem?_map, here, List.getElem?_eq_getElem answered, List.getElem?_eq_getElem inside,
      Option.map_some, Option.map_some, Option.some_inj] at same
    refine ⟨⟨_, List.getElem?_eq_getElem inside, _, List.getElem?_eq_getElem answered, _, found, same, rfl⟩, ?_⟩
    intro outcome at_
    rw [List.getElem?_eq_getElem answered] at at_
    obtain rfl := Option.mem_some_iff.mp at_
    rw [proveVerification, List.getElem?_map, found]
    rfl

/-- An item whose proof is a command of its packet. -/
def checkedItem (index : Nat) : DoneItem := ⟨"D1", "the suite passes", some (.verification index), false, none⟩

theorem verificationProof_linked_true : FitTogether [trueCommand] ∧
    ∃ result, (npmHost.runVerification [trueCommand] ⟨"export {}", none⟩ fun _ => none).2 = .ok result ∧ Linked [trueCommand] result 0 := by
  have fits : FitTogether [trueCommand] := ⟨by decide, by decide⟩
  have accepted : validateDefinitionOfDone [checkedItem 0] "nodes[0].definitionOfDone" (nodeDoneOptions [trueCommand]) = .ok () := rfl
  refine ⟨fits, _, rfl, ?_⟩
  exact (verificationProof_linked_iff (declareCommands 1 0 0) (List.mem_singleton_self _) [] accepted
    (List.mem_singleton_self _) rfl npmHost ⟨"export {}", none⟩ .empty rfl).mpr fits

/-- An argument of many characters. -/
def longArgument : String := String.ofList (List.replicate 8190 'a')

/-- A script that is given one. -/
def longCommand : VerificationCommand := { trueCommand with argv := ["node", longArgument] }

private theorem byteLength_replicate (count : Nat) : byteLength (String.ofList (List.replicate count 'a')) = count := by
  rw [byteLength, String.utf8ByteSize_ofList]
  induction count with
  | zero => rfl
  | succ count ih =>
    rw [List.replicate_succ, String.utf8Len_cons, ih]
    rfl

private theorem isBlank_replicate (count : Nat) : isBlank (String.ofList (List.replicate (count + 1) 'a')) = false := by
  rw [isBlank, String.toList_ofList, List.replicate_succ, List.all_cons]
  rfl

private theorem longArgument_bytes : byteLength longArgument = 8190 := byteLength_replicate 8190

private theorem longCommand_bytes : totalBytes longCommand.argv = 8194 := by
  have first : byteLength "node" = 4 := by decide
  rw [longCommand, totalBytes, List.map_cons, List.map_singleton, longArgument_bytes, first]
  rfl

private theorem longCommand_allowed : argvAllowed longCommand.argv = true := by
  have some : isBlank longArgument = false := isBlank_replicate 8189
  have first : isBlank "node" = false ∧ byteLength "node" ≤ 8 * 1024 := by decide
  have short : byteLength longArgument ≤ 8 * 1024 := longArgument_bytes.trans_le (by decide)
  simp [argvAllowed, longCommand, some, first, short]

private theorem readArgv_ofStrings {argv : List String} (allowed : argvAllowed argv = true)
    (bounded : totalBytes argv ≤ VerificationLimits.maxArgvBytes) (label : String) :
    readArgv label (some (.ofStrings argv)) = .ok argv := by
  simp [readArgv, JsonValue.strings?_ofStrings, check, allowed, bounded, bind, Except.bind, pure, Except.pure]

private theorem longCommand_normal : Normal longCommand := by
  intro label
  rw [validateVerificationCommand_toJson, readArgv_ofStrings longCommand_allowed (longCommand_bytes.trans_le (by decide))]
  rfl

/-- One node that declares it. -/
def declareLong (normal : Normal longCommand) : DeclaredVerification String where
  contract :=
    { nodes := [⟨"build", [], none, [longCommand]⟩]
      sharedVerification := none
      finalVerification := none
      nonempty := nofun
      nodup := List.nodup_singleton _
      known := by
        intro node member
        obtain rfl := List.mem_singleton.mp member
        nofun
      acyclic := ⟨fun _ => 0, by
        intro node member
        obtain rfl := List.mem_singleton.mp member
        nofun⟩ }
  packets := by
    intro node member
    obtain rfl := List.mem_singleton.mp member
    refine ⟨.array ([longCommand].map (·.toJson)), 0, ?_⟩
    exact validateEach_normal (List.forall_mem_singleton.mpr normal) 0
  shared := nofun
  final := nofun

/-- A command that passed and whose argv is too long for the record has no entry, and its proof fails. -/
theorem verificationProof_unrecorded : ∃ declared : DeclaredVerification String, ∃ node ∈ declared.contract.nodes,
    validateDefinitionOfDone [checkedItem 0] "nodes[0].definitionOfDone" (nodeDoneOptions node.verification) = .ok () ∧
      ∃ result, (npmHost.runVerification (verificationCommands declared.contract node []) ⟨"export {}", some "export {}"⟩ fun _ => none).2 =
          .ok result ∧ result.passed = true ∧ (compactVerification result).commands[0]? = none ∧
        (proveVerification 0 ((compactVerification result).commands.map recordedCommand)).1 = false := by
  have accepted : runnableCommands [longCommand] = .ok [longCommand] := validateEach_normal (List.forall_mem_singleton.mpr longCommand_normal) 0
  have cut : compactCommands 0 0 0 [⟨{ longCommand with cwd := some "." }, true, [exits 0 1]⟩] = [] := by
    have beyond : fitsState { longCommand with cwd := some "." } = false := by
      rw [fitsState, longCommand_bytes]
      rfl
    rw [compactCommands_single, beyond]
    rfl
  refine ⟨declareLong longCommand_normal, _, List.mem_singleton_self _, rfl,
    ⟨true, [⟨{ longCommand with cwd := some "." }, true, [exits 0 1]⟩]⟩, ?_, rfl, ?_⟩
  · have listed : verificationCommands (declareLong longCommand_normal).contract ⟨"build", [], none, [longCommand]⟩ [] = [longCommand] := rfl
    rw [listed, runVerification, accepted]
    rfl
  · rw [compactVerification, cut]
    exact ⟨rfl, rfl⟩

end Faberun.VerificationHost
