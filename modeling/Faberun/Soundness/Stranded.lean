import Mathlib.Data.List.Forall2
import Faberun.Soundness.Reauthor
import Faberun.Soundness.RunRecord

/-! # A widened run is stranded

A resume that widens a packet writes `contract.json`, but its controller still records the identity that was captured
before, and the digest of the launch. The packet of the node is another one from then on, so no later resume of the run
passes its comparison, and a supervisor does not read the contract any more.
-/

namespace Faberun.RunRecord

open Reauthor (Grew ReauthorAdditions replacePacket widenTaskPacket)

variable {isAncestor : String → String → Bool} {hashPacket : TaskPacket → String} {contractDigest : StoredContract → String}
variable {blank : Metadata} {contract now : StoredContract} {launch : Checkout} {baseRef : Option String} {lock : LockRecord}
variable {controllerIdentity : ControllerIdentity} {nodeId : String} {node : Reauthor.ContractNode}
variable {additions : ReauthorAdditions}

/-! ## The contract of a run -/

/-- A node as widenings may have left it. -/
structure GrownNode (launched now : Reauthor.ContractNode) : Prop where
  packet : Grew launched.taskPacket now.taskPacket
  same : now = { launched with taskPacket := now.taskPacket }

/-- A contract as widenings may have left it. -/
structure Grown (launched now : StoredContract) : Prop where
  cwd : now.cwd = launched.cwd
  nodes : List.Forall₂ GrownNode launched.nodes now.nodes

/-- A node after a reauthor. -/
def widened (nodeId : String) (additions : ReauthorAdditions) (node : Reauthor.ContractNode) : Reauthor.ContractNode :=
  if node.id = nodeId then { node with taskPacket := widenTaskPacket node.taskPacket additions } else node

theorem Grown.refl (contract : StoredContract) : Grown contract contract :=
  ⟨rfl, List.forall₂_same.mpr fun _ _ => ⟨.inl rfl, rfl⟩⟩

theorem GrownNode.id {launched now : Reauthor.ContractNode} (grown : GrownNode launched now) : now.id = launched.id := by
  rw [grown.same]

theorem Grown.ids (grown : Grown contract now) :
    now.nodes.map Reauthor.ContractNode.id = contract.nodes.map Reauthor.ContractNode.id := by
  rw [← List.forall₂_eq_eq_eq, List.forall₂_map_left_iff, List.forall₂_map_right_iff]
  exact grown.nodes.flip.imp fun _ _ grown => grown.id

theorem GrownNode.widened {launched : Reauthor.ContractNode} (grown : GrownNode launched node) (nodeId : String)
    (additions : ReauthorAdditions) : GrownNode launched (widened nodeId additions node) := by
  unfold RunRecord.widened
  split_ifs
  · exact ⟨grown.packet.widen additions, by rw [grown.same]⟩
  · exact grown

/-- A node that left the launched one does not come back to it. -/
theorem GrownNode.eq_of_widened {launched : Reauthor.ContractNode} (grown : GrownNode launched node)
    (back : RunRecord.widened nodeId additions node = launched) : node = launched := by
  unfold RunRecord.widened at back
  split_ifs at back
  · by_contra left
    refine grown.packet.ne_launched (fun same => left ?_) additions (congrArg Reauthor.ContractNode.taskPacket back)
    rw [grown.same, same]
  · exact back

theorem replacePacket_eq_map {nodes : List Reauthor.ContractNode} (ids : (nodes.map Reauthor.ContractNode.id).Nodup)
    (found : (nodes.find? fun node => decide (node.id = nodeId)) = some node) :
    replacePacket nodes nodeId (widenTaskPacket node.taskPacket additions) = nodes.map (widened nodeId additions) := by
  refine List.map_congr_left fun other member => ?_
  simp only [widened]
  split_ifs with same
  · have named : node.id = nodeId := by simpa using List.find?_some found
    rw [List.inj_on_of_nodup_map ids member (List.mem_of_find?_eq_some found) (same.trans named.symm)]
  · rfl

/-- What a step does to the contract. -/
theorem contract_cases {run run' : RunDir} {label : Label} (grown : Grown contract run.contract)
    (ids : (contract.nodes.map Reauthor.ContractNode.id).Nodup)
    (taken : (machine isAncestor hashPacket blank).step run label = some run') :
    run'.contract = run.contract ∨ ∃ nodeId additions,
      run'.contract = { run.contract with nodes := run.contract.nodes.map (widened nodeId additions) } := by
  obtain rfl | ⟨checkout, accepted, -, rfl⟩ | ⟨nodeId, additions, node, found, rfl⟩ | ⟨change, rfl, taken⟩ := step_cases taken
  · exact .inl rfl
  · exact .inl rfl
  · refine .inr ⟨nodeId, additions, ?_⟩
    simp only [replacePacket_eq_map (grown.ids ▸ ids) found]
  · obtain ⟨record, -, rfl, -⟩ := write_cases taken
    exact .inl rfl

theorem Grown.step {run run' : RunDir} {label : Label} (grown : Grown contract run.contract)
    (ids : (contract.nodes.map Reauthor.ContractNode.id).Nodup)
    (taken : (machine isAncestor hashPacket blank).step run label = some run') : Grown contract run'.contract := by
  obtain same | ⟨nodeId, additions, same⟩ := contract_cases grown ids taken
  · rw [same]
    exact grown
  · rw [same]
    refine ⟨grown.cwd, List.forall₂_map_right_iff.mpr ?_⟩
    exact grown.nodes.imp fun _ _ grown => grown.widened nodeId additions

theorem eq_of_map_widened {launched nodes : List Reauthor.ContractNode} (grown : List.Forall₂ GrownNode launched nodes)
    (back : nodes.map (widened nodeId additions) = launched) : nodes = launched := by
  induction grown with
  | nil => rfl
  | cons first rest ih =>
    rw [List.map_cons, List.cons.injEq] at back
    rw [first.eq_of_widened back.1, ih back.2]

/-- A contract that left the launched one does not come back to it. -/
theorem Grown.ne_step {run run' : RunDir} {label : Label} (grown : Grown contract run.contract)
    (ids : (contract.nodes.map Reauthor.ContractNode.id).Nodup) (left : run.contract ≠ contract)
    (taken : (machine isAncestor hashPacket blank).step run label = some run') : run'.contract ≠ contract := by
  obtain same | ⟨nodeId, additions, same⟩ := contract_cases grown ids taken
  · rw [same]
    exact left
  · intro back
    rw [same] at back
    refine left ?_
    have nodes := eq_of_map_widened grown.nodes (congrArg StoredContract.nodes back)
    exact StoredContract.mk.injEq .. ▸ ⟨grown.cwd, nodes⟩

theorem grown_of_reach {guard : RunDir → Label → Prop} {run : RunDir}
    (ids : (contract.nodes.map Reauthor.ContractNode.id).Nodup)
    (reach : (machine isAncestor hashPacket blank).Reach guard
      (fun run => run = created hashPacket contractDigest contract launch baseRef lock controllerIdentity) run) :
    Grown contract run.contract := by
  refine reach.invariant (fun run => Grown contract run.contract) ?_ fun run label run' grown _ taken => grown.step ids taken
  rintro run rfl
  exact .refl contract

/-! ## The comparison of a resume -/

/-- The hashes a capture records. -/
def packetHashes (hashPacket : TaskPacket → String) (contract : StoredContract) : List (String × String) :=
  contract.nodes.map fun node => (node.id, hashPacket node.taskPacket)

/-- Two contracts of one launch have the same hashes only where they have the same packets. -/
theorem eq_of_packetHashes (grown : Grown contract now) (ids : (contract.nodes.map Reauthor.ContractNode.id).Nodup)
    (hashes : ∀ node ∈ contract.nodes, ∀ packet, hashPacket packet = hashPacket node.taskPacket → packet = node.taskPacket)
    (same : stableEntries (packetHashes hashPacket contract) = stableEntries (packetHashes hashPacket now)) :
    now = contract := by
  have first : (stableEntries (packetHashes hashPacket contract)).Perm (packetHashes hashPacket contract) :=
    List.perm_insertionSort _ _
  have second : (stableEntries (packetHashes hashPacket now)).Perm (packetHashes hashPacket now) :=
    List.perm_insertionSort _ _
  rw [← same] at second
  have perm := first.symm.trans second
  obtain ⟨length, pairs⟩ := List.forall₂_iff_zip.mp grown.nodes
  have nodes : List.Forall₂ (fun before after => before = after) contract.nodes now.nodes := by
    refine List.forall₂_iff_zip.mpr ⟨length, fun {before after} member => ?_⟩
    obtain ⟨isBefore, isAfter⟩ := List.of_mem_zip member
    have grownNode := pairs member
    -- The hash of the launched node is that of the only node with its id.
    obtain ⟨other, isOther, entry⟩ := List.mem_map.mp (perm.subset (List.mem_map_of_mem isBefore))
    obtain ⟨named, hashed⟩ := Prod.mk.inj entry
    have unique : other = after :=
      List.inj_on_of_nodup_map (grown.ids ▸ ids) isOther isAfter (named.trans grownNode.id.symm)
    rw [grownNode.same, hashes before isBefore after.taskPacket (unique ▸ hashed)]
  rw [List.forall₂_eq_eq_eq] at nodes
  exact StoredContract.mk.injEq .. ▸ ⟨grown.cwd, nodes.symm⟩

theorem resume_ok_iff {run : RunDir} {checkout : Checkout} :
    (∃ accepted, run.resume isAncestor hashPacket checkout = .ok accepted) ↔
      SameSource isAncestor run.record.file.content.sourceIdentity
        (captureRunIdentity hashPacket run.contract checkout (recordedBaseRef run.record.file.content)) := by
  rw [← assertSourceUnchanged_ok_iff]
  simp only [RunDir.resume, bind_ok_iff]
  constructor
  · rintro ⟨accepted, warnings, compared, -⟩
    exact ⟨warnings, compared⟩
  · rintro ⟨warnings, compared⟩
    exact ⟨_, warnings, compared, rfl⟩

/-- A resume passes exactly while the contract is the one of the launch, on a head after the recorded one and with the
harnesses of the launch. A contract that was widened once is never the one of the launch again: every later resume is
refused, and a supervisor reads no contract. The hashes of packets do not collide, and no more do the digests of contracts
in one directory, which they leave out. -/
theorem widening_strands (through : ∀ a b c, isAncestor a b = true → isAncestor b c = true → isAncestor a c = true)
    (ids : (contract.nodes.map Reauthor.ContractNode.id).Nodup)
    (hashes : ∀ node ∈ contract.nodes, ∀ packet, hashPacket packet = hashPacket node.taskPacket → packet = node.taskPacket)
    (digests : ∀ other, other.cwd = contract.cwd → contractDigest other = contractDigest contract → other = contract) {run : RunDir}
    (reach : (machine isAncestor hashPacket blank).Reach Machine.free
      (fun run => run = created hashPacket contractDigest contract launch baseRef lock controllerIdentity) run) :
    (∀ checkout, (∃ accepted, run.resume isAncestor hashPacket checkout = .ok accepted) ↔
      run.contract = contract ∧
      Follows isAncestor run.record.file.content.sourceIdentity.gitHead
        (checkout.head (recordedBaseRef run.record.file.content)) ∧
      SameVersions launch.harnessVersions checkout.harnessVersions) ∧
    run.readRunContract contractDigest = (if run.contract = contract then some contract else none) ∧
    (run.contract ≠ contract → ∀ later,
      (machine isAncestor hashPacket blank).Reach Machine.free (fun first => first = run) later → later.contract ≠ contract) := by
  have grown := grown_of_reach ids reach
  have frozen := (kept_of_reach through reach).record.content
  refine ⟨fun checkout => ?_, ?_, fun left later onward => ?_⟩
  · rw [resume_ok_iff]
    constructor
    · intro same
      exact ⟨eq_of_packetHashes grown ids hashes (frozen.source.packets.trans same.packets), same.head,
        fun id => (frozen.source.versions id).trans (same.versions id)⟩
    · rintro ⟨unchanged, head, versions⟩
      refine ⟨?_, head, ?_, fun id => (frozen.source.versions id).symm.trans (versions id)⟩
      · exact frozen.source.cwd.symm.trans (congrArg StoredContract.cwd unchanged).symm
      · rw [← frozen.source.packets, unchanged]
        rfl
  · have digest : run.record.file.content.contractDigest = some (contractDigest contract) := frozen.contractDigest
    simp only [RunDir.readRunContract, digest]
    split_ifs with same unchanged unchanged
    · rw [unchanged]
    · exact absurd (digests _ grown.cwd same) unchanged
    · exact absurd (congrArg contractDigest unchanged) same
    · rfl
  · exact (onward.invariant (fun later => Grown contract later.contract ∧ later.contract ≠ contract)
      (by rintro _ rfl; exact ⟨grown, left⟩)
      fun run label run' kept _ taken => ⟨kept.1.step ids taken, kept.1.ne_step ids kept.2 taken⟩).2

/-- Hashes that tell the contract of one node from every other one. -/
def hashOfOne (packet : TaskPacket) : String := if packet = Reauthor.readsOne then "0" else "1"

def digestOfOne (other : StoredContract) : String := if other.nodes = oneNode.nodes then "0" else "1"

def oneNodeRun : RunDir :=
  created hashOfOne digestOfOne oneNode (headAt "a") none ⟨1, none, "t0"⟩ ⟨"/snapshot", "s"⟩

/-- A resume that widens the packet of the node, and records its start. -/
def widenOne : List Label :=
  [.resume (headAt "a"), .reauthor "build" ⟨none, some ["src/b.mjs"], none, none⟩,
    .record (.opens (.start ⟨⟨2, none, "t1"⟩, ⟨"/snapshot", "s"⟩, "1"⟩ ⟨captureRunIdentity hashOfOne oneNode (headAt "a") none,
      []⟩
      true)), .record (.write 0)]

theorem widening_strands_one : ∃ run,
    (machine fromA hashOfOne launchedRecord).replay? Machine.free oneNodeRun widenOne = some run ∧
    (∀ checkout, ¬∃ accepted, run.resume fromA hashOfOne checkout = .ok accepted) ∧ run.readRunContract digestOfOne = none := by
  have hashes : ∀ node ∈ oneNode.nodes, ∀ packet, hashOfOne packet = hashOfOne node.taskPacket → packet = node.taskPacket := by
    intro node member packet same
    obtain rfl := List.mem_singleton.mp member
    by_contra other
    have differs : hashOfOne packet = "1" := if_neg other
    rw [differs] at same
    exact absurd same (by decide)
  have digests : ∀ other, other.cwd = oneNode.cwd → digestOfOne other = digestOfOne oneNode → other = oneNode := by
    intro other cwd same
    by_contra left
    have differs : digestOfOne other = "1" := if_neg fun nodes => left (StoredContract.mk.injEq .. ▸ ⟨cwd, nodes⟩)
    rw [differs] at same
    exact absurd same (by decide)
  refine Machine.exists_replay (fun run => run.contract ≠ oneNode) (fun run ran left => ?_) (by decide)
  have stranded := widening_strands fromA_trans (by decide) hashes digests (Machine.Reach.of_replay rfl _ ran)
  exact ⟨fun checkout passed => left ((stranded.1 checkout).mp passed).1, stranded.2.1.trans (if_neg left)⟩

end Faberun.RunRecord
