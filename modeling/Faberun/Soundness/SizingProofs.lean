import Faberun.Soundness.SizingOrder

/-! # Sizing and the proofs of nodes

A done item selects a command by its position, and a fold joins two lists of commands and drops every command whose
words came before. A fold that keeps every item, command and position of the two nodes hands them on to the next one, so
the last node holds what was folded into it; a fold that does not loses something of a node there and then.
-/

namespace Faberun.Sizing

open Digraph FirstByKey Faberun.Plan

/-- A command runs as another does, for no less time. -/
structure Covers (kept command : VerificationCommand) : Prop where
  argv : kept.argv = command.argv
  cwd : kept.cwd = command.cwd
  env : kept.env = command.env
  repeatCount : kept.repeatCount = command.repeatCount
  timeoutSec : command.timeoutSec ≤ kept.timeoutSec

/-- What stands in a sized node for a command: one that covers it, or a piece of its split. -/
def StandsFor (options : Options) (output : SizingNode) (kept command : SizingCommand) : Prop :=
  Covers kept.command command.command ∨ command.measuredMs.isSome = true ∧
    kept ∈ (splitCommand options.nodeBudgetMs (coveringTests options.facts (writeFilesOf output)) output.id command).1

/-- A node holds the items, the commands, the proofs and the files of another; `stands` says what counts for a command. -/
structure Keeps (stands : SizingCommand → SizingCommand → Prop) (output node : SizingNode) : Prop where
  items : ∀ item ∈ node.definitionOfDone, item ∈ output.definitionOfDone
  commands : ∀ command ∈ node.taskPacket.verification, ∃ kept ∈ output.taskPacket.verification, stands kept command
  proofs : ∀ item ∈ node.definitionOfDone, ∀ index command, item.proof = some (.verification index) →
    node.taskPacket.verification[index]? = some command →
      ∃ other ∈ output.definitionOfDone, other.text = item.text ∧ ∃ position kept,
        other.proof = some (.verification position) ∧ output.taskPacket.verification[position]? = some kept ∧ stands kept command
  writeFiles : ∀ path ∈ writeFilesOf node, path ∈ writeFilesOf output
  readFiles : ∀ path ∈ node.taskPacket.readFiles, path ∈ output.taskPacket.readFiles

/-- What every node asked for is where it ended, and the files are those there were. -/
structure KeepsProofs (nodes : List SizingNode) (options : Options) (result : SizingResult) : Prop where
  kept : ∀ node ∈ nodes, ∃ output ∈ result.nodes,
    output.id = endsIn result.transformations node.id ∧ Keeps (StandsFor options output) output node
  writeFiles : ∀ path, (∃ output ∈ result.nodes, path ∈ writeFilesOf output) ↔ ∃ node ∈ nodes, path ∈ writeFilesOf node
  readFiles : ∀ path, (∃ output ∈ result.nodes, path ∈ output.taskPacket.readFiles) ↔
    ∃ node ∈ nodes, path ∈ node.taskPacket.readFiles

/-- How many commands of different words come before the first one with the words of a command. -/
def placeOf (commands : List SizingCommand) (command : SizingCommand) : Nat :=
  (dedupeVerification (commands.takeWhile fun other => commandKey other ≠ commandKey command)).length

namespace Fold

def items (fold : Fold) : List DoneItem := fold.parent.definitionOfDone ++ fold.child.definitionOfDone

def commands (fold : Fold) : List SizingCommand := fold.parent.taskPacket.verification ++ fold.child.taskPacket.verification

/-- Of the items and commands of the parent and then the child, the first of an id or of some words is good for the node,
and an item with the text of a proof counts as far as its command. -/
structure Serves (fold : Fold) (node : SizingNode) : Prop where
  items : ∀ item ∈ node.definitionOfDone, fold.items.find? (fun other => other.id = item.id) = some item
  commands : ∀ command ∈ node.taskPacket.verification, ∃ first,
    fold.commands.find? (fun other => commandKey other = commandKey command) = some first ∧ Covers first.command command.command
  proofs : ∀ item ∈ node.definitionOfDone, ∀ index command, item.proof = some (.verification index) →
    node.taskPacket.verification[index]? = some command →
      ∃ other, fold.items.find? (fun another => another.id = other.id) = some other ∧ other.text = item.text ∧
        other.proof = some (.verification (placeOf fold.commands command))
  writeFiles : ∀ path ∈ writeFilesOf node, path ∈ writeFilesOf fold.parent ∨ path ∈ writeFilesOf fold.child
  readFiles : ∀ path ∈ node.taskPacket.readFiles,
    path ∈ fold.parent.taskPacket.readFiles ∨ path ∈ fold.child.taskPacket.readFiles

/-- A fold of two nodes that serves them, and any other node of their ids. -/
structure Lossless (fold : Fold) : Prop where
  apart : fold.parent.id ≠ fold.child.id
  served : ∀ node ∈ fold.before, node.id = fold.child.id ∨ node.id = fold.parent.id → fold.Serves node

/-- A fold that hands on everything of every node. -/
def HandsOn (fold : Fold) : Prop := ∀ node ∈ fold.before, ∃ output ∈ fold.after,
  output.id = rename fold.child.id fold.parent.id node.id ∧
    Keeps (fun kept command => Covers kept.command command.command) output node

end Fold

/-! ## Keeping -/

private theorem covers_refl (command : VerificationCommand) : Covers command command := ⟨rfl, rfl, rfl, rfl, Rat.le_refl⟩

private theorem Covers.trans {first second third : VerificationCommand} (one : Covers first second) (two : Covers second third) :
    Covers first third :=
  ⟨one.argv.trans two.argv, one.cwd.trans two.cwd, one.env.trans two.env, one.repeatCount.trans two.repeatCount,
    Rat.le_trans two.timeoutSec one.timeoutSec⟩

/-- Commands that cover one another have the same words. -/
private theorem Covers.words {kept command : SizingCommand} (covers : Covers kept.command command.command) :
    commandKey kept = commandKey command := by
  rw [commandKey, commandKey, covers.argv]

private abbrev Holds (output node : SizingNode) : Prop :=
  Keeps (fun kept command => Covers kept.command command.command) output node

/-- A node holds another that asks for the same. -/
private theorem holds_of_same {output node : SizingNode} (items : output.definitionOfDone = node.definitionOfDone)
    (packet : output.taskPacket = node.taskPacket) : Holds output node where
  items _ member := items ▸ member
  commands command member := ⟨command, packet ▸ member, covers_refl _⟩
  proofs item member index command proof selected :=
    ⟨item, items ▸ member, rfl, index, command, proof, packet ▸ selected, covers_refl _⟩
  writeFiles _ member := by rwa [writeFilesOf, packet]
  readFiles _ member := packet ▸ member

private theorem holds_trans {output middle node : SizingNode} (one : Holds output middle) (two : Holds middle node) :
    Holds output node where
  items item member := one.items item (two.items item member)
  commands command member := by
    obtain ⟨kept, inside, covers⟩ := two.commands command member
    obtain ⟨last, there, further⟩ := one.commands kept inside
    exact ⟨last, there, further.trans covers⟩
  proofs item member index command proof selected := by
    obtain ⟨other, inside, text, position, kept, link, here, covers⟩ := two.proofs item member index command proof selected
    obtain ⟨last, there, text', position', kept', link', here', further⟩ := one.proofs other inside position kept link here
    exact ⟨last, there, text'.trans text, position', kept', link', here', further.trans covers⟩
  writeFiles path member := one.writeFiles path (two.writeFiles path member)
  readFiles path member := one.readFiles path (two.readFiles path member)

/-! ## One fold -/

section OneFold

variable {fold : Fold} {node : SizingNode}

/-- The place of a command in the list that keeps the first of every key. -/
private theorem getElem?_dedupeVerification {commands : List SizingCommand} {position : Nat} {first : SizingCommand} :
    (dedupeVerification commands)[position]? = some first ↔
      commands.find? (fun other => commandKey other = commandKey first) = some first ∧ position = placeOf commands first :=
  getElem?_firsts

private theorem placeOf_congr {commands : List SizingCommand} {first command : SizingCommand}
    (words : commandKey first = commandKey command) : placeOf commands first = placeOf commands command := by
  rw [placeOf, placeOf, words]

/-- The node of a fold holds a node exactly when the fold serves it. -/
private theorem holds_absorb_iff : Holds (absorb fold.child fold.parent) node ↔ fold.Serves node := by
  have packet : (absorb fold.child fold.parent).taskPacket.verification = dedupeVerification fold.commands := rfl
  have done : (absorb fold.child fold.parent).definitionOfDone = dedupeById fold.items := rfl
  constructor
  · intro holds
    refine ⟨fun item member => mem_firsts_iff.mp (holds.items item member), fun command member => ?_,
      fun item member index command proof selected => ?_, fun path member => ?_, fun path member => ?_⟩
    · obtain ⟨kept, inside, covers⟩ := holds.commands command member
      exact ⟨kept, covers.words ▸ mem_firsts_iff.mp inside, covers⟩
    · obtain ⟨other, inside, text, position, kept, link, here, covers⟩ := holds.proofs item member index command proof selected
      obtain ⟨-, rfl⟩ := getElem?_dedupeVerification.mp (packet ▸ here)
      exact ⟨other, mem_firsts_iff.mp inside, text, placeOf_congr covers.words ▸ link⟩
    · simpa [writeFilesOf, absorb] using holds.writeFiles path member
    · simpa [absorb] using holds.readFiles path member
  · intro serves
    refine ⟨fun item member => mem_firsts_iff.mpr (serves.items item member), fun command member => ?_,
      fun item member index command proof selected => ?_, fun path member => ?_, fun path member => ?_⟩
    · obtain ⟨first, found, covers⟩ := serves.commands command member
      rw [← covers.words] at found
      exact ⟨first, mem_firsts_iff.mpr found, covers⟩
    · obtain ⟨other, found, text, link⟩ := serves.proofs item member index command proof selected
      obtain ⟨first, here, covers⟩ := serves.commands command (List.mem_of_getElem? selected)
      rw [← covers.words] at here
      rw [← placeOf_congr covers.words] at link
      exact ⟨other, mem_firsts_iff.mpr found, text, _, first, link, getElem?_dedupeVerification.mpr ⟨here, rfl⟩, covers⟩
    · simpa [writeFilesOf, absorb] using serves.writeFiles path member
    · simpa [absorb] using serves.readFiles path member

/-- A fold hands on everything exactly when it is lossless. -/
theorem Fold.lossless_iff (childMember : fold.child ∈ fold.before) (parentMember : fold.parent ∈ fold.before) :
    fold.Lossless ↔ fold.HandsOn := by
  constructor
  · rintro ⟨apart, served⟩ node member
    have absorbing : absorb fold.child fold.parent ∈ fold.after :=
      mem_foldNodeInto.mpr (.inr ⟨apart, ⟨fold.parent, parentMember, rfl⟩, rfl⟩)
    by_cases isChild : node.id = fold.child.id
    · refine ⟨_, absorbing, ?_, holds_absorb_iff.mpr (served node member (.inl isChild))⟩
      rw [isChild, rename_child]
      rfl
    · rw [rename_of_ne isChild]
      by_cases isParent : node.id = fold.parent.id
      · exact ⟨_, absorbing, isParent.symm, holds_absorb_iff.mpr (served node member (.inr isParent))⟩
      · exact ⟨redirect fold.child.id fold.parent.id node, mem_foldNodeInto.mpr (.inl ⟨node, member, isChild, isParent, rfl⟩), rfl,
          holds_of_same rfl rfl⟩
  · intro hands
    have onto {node : SizingNode} (member : node ∈ fold.before) (either : node.id = fold.child.id ∨ node.id = fold.parent.id) :
        fold.parent.id ≠ fold.child.id ∧ fold.Serves node := by
      obtain ⟨output, inside, named, holds⟩ := hands node member
      have same : rename fold.child.id fold.parent.id node.id = fold.parent.id := by
        rcases either with isChild | isParent
        · rw [isChild, rename_child]
        · rw [isParent, rename]
          split <;> rfl
      rw [same] at named
      rcases mem_foldNodeInto.mp inside with ⟨old, -, -, away, rfl⟩ | ⟨apart, -, rfl⟩
      · exact absurd named away
      · exact ⟨apart, holds_absorb_iff.mp holds⟩
    exact ⟨(onto childMember (.inl rfl)).1, fun node member either => (onto member either).2⟩

/-- A fold makes up no files. -/
private theorem files_after {output : SizingNode} (childMember : fold.child ∈ fold.before) (parentMember : fold.parent ∈ fold.before)
    (inside : output ∈ fold.after) : (∀ path ∈ writeFilesOf output, ∃ node ∈ fold.before, path ∈ writeFilesOf node) ∧
      ∀ path ∈ output.taskPacket.readFiles, ∃ node ∈ fold.before, path ∈ node.taskPacket.readFiles := by
  rcases mem_foldNodeInto.mp inside with ⟨old, member, -, -, rfl⟩ | ⟨-, -, rfl⟩
  · exact ⟨fun path here => ⟨old, member, here⟩, fun path here => ⟨old, member, here⟩⟩
  · have either {path : String} {files : SizingNode → List String} (here : path ∈ files fold.parent ∨ path ∈ files fold.child) :
        ∃ node ∈ fold.before, path ∈ files node :=
      here.elim (fun one => ⟨_, parentMember, one⟩) fun two => ⟨_, childMember, two⟩
    refine ⟨fun path here => @either path writeFilesOf ?_, fun path here => @either path (fun node => node.taskPacket.readFiles) ?_⟩
    · simpa [writeFilesOf, absorb] using here
    · simpa [absorb] using here

end OneFold

/-! ## All folds -/

/-- What some lossless folds leave of the nodes. -/
private structure Handed (start : List SizingNode) (folds : List Fold) (current : List SizingNode) : Prop where
  kept : ∀ node ∈ start, ∃ output ∈ current, output.id = endsIn (folds.map Fold.transformation) node.id ∧ Holds output node
  writeFiles : ∀ output ∈ current, ∀ path ∈ writeFilesOf output, ∃ node ∈ start, path ∈ writeFilesOf node
  readFiles : ∀ output ∈ current, ∀ path ∈ output.taskPacket.readFiles, ∃ node ∈ start, path ∈ node.taskPacket.readFiles

private theorem handed_of_folded {start current : List SizingNode} {folds : List Fold} (folded : Folded start folds current)
    (lossless : ∀ fold ∈ folds, fold.Lossless) : Handed start folds current := by
  induction folded with
  | none => exact ⟨fun node member => ⟨node, member, rfl, holds_of_same rfl rfl⟩, fun node member path here => ⟨node, member, here⟩,
      fun node member path here => ⟨node, member, here⟩⟩
  | @next folds fold _ childMember parentMember _ ih =>
    have handed := ih fun other member => lossless other (List.mem_append_left _ member)
    have hands := (fold.lossless_iff childMember parentMember).mp (lossless fold (by simp))
    refine ⟨fun node member => ?_, fun output inside path here => ?_, fun output inside path here => ?_⟩
    · obtain ⟨middle, there, named, holds⟩ := handed.kept node member
      obtain ⟨output, inside, named', further⟩ := hands middle there
      exact ⟨output, inside, by rw [endsIn_concat, ← named, named'], holds_trans further holds⟩
    · obtain ⟨middle, there, before⟩ := (files_after childMember parentMember inside).1 path here
      exact handed.writeFiles middle there path before
    · obtain ⟨middle, there, before⟩ := (files_after childMember parentMember inside).2 path here
      exact handed.readFiles middle there path before

/-- Every fold of a chain joins two of the nodes it was made among. -/
private theorem members_of_folded {start current : List SizingNode} {folds : List Fold} (folded : Folded start folds current) :
    ∀ fold ∈ folds, fold.child ∈ fold.before ∧ fold.parent ∈ fold.before := by
  induction folded with
  | none => exact fun fold member => absurd member List.not_mem_nil
  | @next folds fold _ childMember parentMember _ ih =>
    intro other member
    rcases List.mem_append.mp member with earlier | last
    · exact ih other earlier
    · obtain rfl := List.mem_singleton.mp last
      exact ⟨childMember, parentMember⟩

/-! ## What follows the folds -/

/-- No command has a measured duration. -/
private def Unmeasured (nodes : List SizingNode) : Prop :=
  ∀ node ∈ nodes, ∀ command ∈ node.taskPacket.verification, command.measuredMs = none

private theorem unmeasured_sizingNodes (plan : PlanOutput) : Unmeasured (sizingNodes plan) := by
  intro node member command inside
  obtain ⟨planned, -, rfl⟩ := List.mem_map.mp member
  obtain ⟨own, -, rfl⟩ := List.mem_map.mp inside
  rfl

/-- A fold finds no durations. -/
private theorem unmeasured_of_folded {start current : List SizingNode} {folds : List Fold} (folded : Folded start folds current)
    (plain : Unmeasured start) : Unmeasured current := by
  induction folded with
  | none => exact plain
  | @next folds fold _ childMember parentMember _ ih =>
    intro node member command inside
    rcases mem_foldNodeInto.mp member with ⟨old, there, -, -, rfl⟩ | ⟨-, -, rfl⟩
    · exact ih old there command inside
    · rcases List.mem_append.mp (mem_of_mem_firsts inside) with first | second
      · exact ih _ parentMember command first
      · exact ih _ childMember command second

private theorem splitNode_plain (nodeBudgetMs : Rat) (facts : Facts) (node : SizingNode)
    (plain : ∀ command ∈ node.taskPacket.verification, command.measuredMs = none) :
    (splitNode nodeBudgetMs facts node).1 = node := by
  have whole (candidates : List String) : (node.taskPacket.verification.map
      (splitCommand nodeBudgetMs candidates node.id)).flatMap (·.1) = node.taskPacket.verification := by
    rw [List.flatMap_map]
    refine (List.flatMap_congr fun command member => ?_).trans (List.flatMap_singleton' _)
    simp only [splitCommand, plain command member]
  simp only [splitNode, whole]

/-- What the rules after the folds leave of a node. -/
private def content (node : SizingNode) : String × List DoneItem × SizingPacket :=
  (node.id, node.definitionOfDone, node.taskPacket)

private theorem content_reshape {options : Options} {nodes : List SizingNode} (plain : Unmeasured nodes) :
    (reshape options nodes).1.map content = nodes.map content := by
  have split : (markEach (splitNode options.nodeBudgetMs options.facts) nodes).1 = nodes := by
    refine (List.map_congr_left fun node member => ?_).trans (List.map_id _)
    exact splitNode_plain _ _ node (plain node member)
  have marked (others : List SizingNode) (node : SizingNode) : content (markNode others node).1 = content node := by
    unfold markNode
    dsimp only
    split <;> rfl
  have flagged (node : SizingNode) : content (flagNode options.turnCeiling node).1 = content node := by
    unfold flagNode
    split
    · split <;> rfl
    · rfl
  simp only [reshape, split]
  simp only [markEach, List.map_map]
  refine List.map_congr_left fun node _ => ?_
  simp only [Function.comp_apply, flagged, marked]

/-- What holds a node after the folds keeps it after the rules that follow. -/
private theorem keeps_of_content {options : Options} {output other node : SizingNode} (same : content other = content output)
    (holds : Holds output node) : Keeps (StandsFor options other) other node := by
  simp only [content, Prod.mk.injEq] at same
  obtain ⟨-, items, packet⟩ := same
  constructor
  · intro item member
    exact items ▸ holds.items item member
  · intro command member
    obtain ⟨kept, inside, covers⟩ := holds.commands command member
    exact ⟨kept, packet ▸ inside, .inl covers⟩
  · intro item member index command proof selected
    obtain ⟨another, inside, text, position, kept, link, there, covers⟩ := holds.proofs item member index command proof selected
    exact ⟨another, items ▸ inside, text, position, kept, link, packet ▸ there, .inl covers⟩
  · intro path member
    rw [writeFilesOf, packet]
    exact holds.writeFiles path member
  · intro path member
    rw [packet]
    exact holds.readFiles path member

/-! ## The proofs are kept -/

/-- When every fold is lossless, sizing keeps every proof; and a fold that is not loses something of a node it found. -/
theorem sizePlan_keepsProofs {plan : PlanOutput} {options : Options} {result : SizingResult}
    (success : sizePlan plan options = .ok result) :
    ((∀ fold ∈ foldsOf (sizingNodes plan) options, fold.Lossless) → KeepsProofs (sizingNodes plan) options result) ∧
      ∀ fold ∈ foldsOf (sizingNodes plan) options, (fold.Lossless ↔ fold.HandsOn) := by
  have folded := mergeAll_folded options (sizingNodes plan)
  refine ⟨fun lossless => ?_, fun fold member => ?_⟩
  · have handed := handed_of_folded folded lossless
    have same : result.nodes.map content = (mergeAll options (sizingNodes plan)).current.map content := by
      rw [(applySizingRules_ok success).1]
      exact content_reshape (unmeasured_of_folded folded (unmeasured_sizingNodes plan))
    have ends (id : String) : endsIn result.transformations id =
        endsIn ((foldsOf (sizingNodes plan) options).map Fold.transformation) id := by
      rw [(applySizingRules_ok success).2, foldsOf]
      exact endsIn_append_single _ _ (fun _ member => reshape_single options _ member) id
    have later {output : SizingNode} (inside : output ∈ (mergeAll options (sizingNodes plan)).current) :
        ∃ other ∈ result.nodes, content other = content output :=
      List.mem_map.mp (same ▸ List.mem_map_of_mem inside)
    have earlier {output : SizingNode} (inside : output ∈ result.nodes) :
        ∃ other ∈ (mergeAll options (sizingNodes plan)).current, content other = content output :=
      List.mem_map.mp (same ▸ List.mem_map_of_mem inside)
    have kept (node : SizingNode) (member : node ∈ sizingNodes plan) : ∃ output ∈ result.nodes,
        output.id = endsIn result.transformations node.id ∧ Keeps (StandsFor options output) output node := by
      obtain ⟨output, inside, named, holds⟩ := handed.kept node member
      obtain ⟨other, there, equal⟩ := later inside
      exact ⟨other, there, ((congrArg Prod.fst equal).trans named).trans (ends node.id).symm, keeps_of_content equal holds⟩
    refine ⟨kept, fun path => ⟨?_, ?_⟩, fun path => ⟨?_, ?_⟩⟩
    · rintro ⟨output, inside, here⟩
      obtain ⟨other, there, equal⟩ := earlier inside
      have packet : other.taskPacket = output.taskPacket := congrArg (fun whole => whole.2.2) equal
      refine handed.writeFiles other there path ?_
      rwa [writeFilesOf, packet]
    · rintro ⟨node, member, here⟩
      obtain ⟨output, inside, -, keeps⟩ := kept node member
      exact ⟨output, inside, keeps.writeFiles path here⟩
    · rintro ⟨output, inside, here⟩
      obtain ⟨other, there, equal⟩ := earlier inside
      have packet : other.taskPacket = output.taskPacket := congrArg (fun whole => whole.2.2) equal
      refine handed.readFiles other there path ?_
      rwa [packet]
    · rintro ⟨node, member, here⟩
      obtain ⟨output, inside, -, keeps⟩ := kept node member
      exact ⟨output, inside, keeps.readFiles path here⟩
  · obtain ⟨childMember, parentMember⟩ := members_of_folded folded fold member
    exact fold.lossless_iff childMember parentMember

/-! ## Nodes that are served -/

private theorem found_of_distinct {items : List DoneItem} (distinct : (items.map DoneItem.id).Nodup) {item : DoneItem}
    (member : item ∈ items) : items.find? (fun other => other.id = item.id) = some item := by
  refine mem_firsts_iff.mp ?_
  rwa [firsts_of_nodup distinct]

/-- The node others are folded into is served when no two items share an id and its commands differ in their words. -/
theorem Fold.serves_parent {fold : Fold} (distinct : (fold.items.map DoneItem.id).Nodup)
    (words : (fold.parent.taskPacket.verification.map commandKey).Nodup) : fold.Serves fold.parent := by
  have kept {command : SizingCommand} (member : command ∈ fold.parent.taskPacket.verification) :
      command ∈ dedupeVerification fold.commands := by
    rw [dedupeVerification, Fold.commands, firsts_append, firsts_of_nodup words]
    exact List.mem_append_left _ member
  refine ⟨fun item member => ?_, fun command member => ?_, fun item member index command proof selected => ?_,
    fun path => .inl, fun path => .inl⟩
  · exact found_of_distinct distinct (List.mem_append_left _ member)
  · exact ⟨command, mem_firsts_iff.mp (kept member), covers_refl _⟩
  · refine ⟨item, found_of_distinct distinct (List.mem_append_left _ member), rfl, ?_⟩
    have there : (dedupeVerification fold.commands)[index]? = some command := by
      rw [dedupeVerification, Fold.commands, firsts_append, firsts_of_nodup words,
        List.getElem?_append_left (List.getElem?_eq_some_iff.mp selected).1]
      exact selected
    rw [← (getElem?_dedupeVerification.mp there).2]
    exact proof

/-- A node without commands is served when no two items share an id. -/
theorem Fold.serves_child {fold : Fold} (distinct : (fold.items.map DoneItem.id).Nodup)
    (plain : fold.child.taskPacket.verification = []) : fold.Serves fold.child := by
  refine ⟨fun item member => ?_, fun command member => ?_, fun item member index command proof selected => ?_,
    fun path => .inr, fun path => .inr⟩
  · exact found_of_distinct distinct (List.mem_append_right _ member)
  · rw [plain] at member
    cases member
  · rw [plain] at selected
    cases selected

/-! ## Runs -/

/-- Two nodes of one directory; each proof is the first command of its node. -/
def sharedDirectoryPlan : PlanOutput :=
  { crossingPlan with nodes := [plainNode "server" "api/server.mjs" [] true, plainNode "client" "api/client.mjs" [] true,
      plainNode "guide" "docs/guide.md" [] true] }

/-- No item of a node selects the command. -/
private def unselected (argv : List String) (output : SizingNode) : Bool :=
  output.definitionOfDone.all fun item =>
    match item.proof with
    | some (.verification position) => (output.taskPacket.verification[position]?).all fun kept => kept.command.argv != argv
    | _ => true

private theorem not_keeps_of_unselected {options : Options} {output node : SizingNode} {item : DoneItem} {index : Nat}
    {command : SizingCommand} (member : item ∈ node.definitionOfDone) (proof : item.proof = some (.verification index))
    (selected : node.taskPacket.verification[index]? = some command) (plain : command.measuredMs = none)
    (none : unselected command.command.argv output = true) : ¬ Keeps (StandsFor options output) output node := by
  intro keeps
  obtain ⟨other, inside, -, position, kept, link, there, stands⟩ := keeps.proofs item member index command proof selected
  have covers : Covers kept.command command.command := stands.resolve_right fun measured => by simp [plain] at measured
  have apart := List.all_eq_true.mp none other inside
  simp only [link, there, Option.all_some, covers.argv, bne_self_eq_false, Bool.false_eq_true] at apart

/-- An accepted plan whose second node is folded into the first: its proof then selects the command of the first. -/
theorem sizePlan_loses_proof : ∃ plan options result, validatePlanOutput plan = .ok () ∧
    sizePlan plan options = .ok result ∧ ¬ KeepsProofs (sizingNodes plan) options result := by
  obtain ⟨result, success⟩ : ∃ result, sizePlan sharedDirectoryPlan pipelineOptions = .ok result := ⟨_, rfl⟩
  refine ⟨sharedDirectoryPlan, pipelineOptions, result, by decide, success, fun keeps => ?_⟩
  have member : toSizingNode (plainNode "client" "api/client.mjs" [] true) ∈ sizingNodes sharedDirectoryPlan := by decide
  obtain ⟨output, inside, -, kept⟩ := keeps.kept _ member
  rw [(applySizingRules_ok success).1] at inside
  have nowhere : ∀ other ∈ (reshape pipelineOptions (mergeAll pipelineOptions (sizingNodes sharedDirectoryPlan)).current).1,
      unselected ["npm", "run", "client"] other = true := by
    decide
  have selected : (toSizingNode (plainNode "client" "api/client.mjs" [] true)).taskPacket.verification[0]? = some _ := rfl
  exact not_keeps_of_unselected List.mem_cons_self rfl selected rfl (nowhere output inside) kept

/-- A node without commands folded into another keeps every proof. -/
theorem sizePlan_keepsProofs_straight : ∃ result, sizePlan straightPlan pipelineOptions = .ok result ∧
    foldsOf (sizingNodes straightPlan) pipelineOptions ≠ [] ∧ KeepsProofs (sizingNodes straightPlan) pipelineOptions result := by
  obtain ⟨result, success⟩ : ∃ result, sizePlan straightPlan pipelineOptions = .ok result := ⟨_, rfl⟩
  refine ⟨result, success, by decide, (sizePlan_keepsProofs success).1 fun fold member => ?_⟩
  have shape : ∀ fold ∈ foldsOf (sizingNodes straightPlan) pipelineOptions, fold.parent.id ≠ fold.child.id ∧
      (fold.items.map DoneItem.id).Nodup ∧ (fold.parent.taskPacket.verification.map commandKey).Nodup ∧
        fold.child.taskPacket.verification = [] ∧
          ∀ node ∈ fold.before, node.id = fold.child.id ∨ node.id = fold.parent.id → node = fold.child ∨ node = fold.parent := by
    decide
  obtain ⟨apart, distinct, words, plain, only⟩ := shape fold member
  refine ⟨apart, fun node inside either => ?_⟩
  rcases only node inside either with rfl | rfl
  · exact Fold.serves_child distinct plain
  · exact Fold.serves_parent distinct words

end Faberun.Sizing
