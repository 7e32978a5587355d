import Faberun.Model.Engine.Supervise

/-! # What a heartbeat tells

A heartbeat that does not breach says exactly this: it was written in time, and since each active node last made
progress, or became active, no more than that node's own budget has passed. A busy sibling hides nothing.
-/

namespace Faberun.Supervise

variable {h : Heartbeats} {beat : Beat} {beats : List Beat} {id : String} {now interval : Int}

/-! ## The writes -/

/-- The run directory after the writes of its controllers, the last one first. -/
def Heartbeats.after : List Beat → Option Heartbeats
  | [] => some unwritten
  | beat :: before => (after before).bind fun h => h.step beat

/-- When the heartbeat was last written. -/
def lastWrite : List Beat → Option Int
  | [] => none
  | .starts now :: _ | .write now :: _ | .progress _ _ now :: _ | .setActive _ now :: _ | .recovering _ now :: _ => some now
  | .stops :: before => lastWrite before

/-- What the last write waits for, when it marks a recovery. -/
def recoveringUntil : List Beat → Option Int
  | [] | .starts _ :: _ | .write _ :: _ | .progress _ _ _ :: _ | .setActive _ _ :: _ => none
  | .recovering until' _ :: _ => some until'
  | .stops :: before => recoveringUntil before

/-- The last progress of an active node, or since when it is active. -/
def lastSign (id : String) : List Beat → Option Int
  | [] | .starts _ :: _ => none
  | .progress (some other) _ now :: before => if other = id then some now else lastSign id before
  | .setActive nodes now :: before => if id ∈ nodes.map (·.1) then some ((lastSign id before).getD now) else none
  | .progress none _ _ :: before | .write _ :: before | .recovering _ _ :: before | .stops :: before => lastSign id before

/-- The budget an active node was last given. -/
def budget (id : String) : List Beat → Int
  | [] | .starts _ :: _ => 0
  | .progress (some other) basis _ :: before => if other = id then basis.getD (budget id before) else budget id before
  | .setActive nodes _ :: _ => ((nodes.reverse.find? fun node => decide (node.1 = id)).map Prod.snd).getD 0
  | .progress none _ _ :: before | .write _ :: before | .recovering _ _ :: before | .stops :: before => budget id before

/-! ## The active nodes on disk -/

def Heartbeats.activeNodes (h : Heartbeats) : KeyedStore String HeartbeatNode :=
  (h.file.map HeartbeatFile.activeNodes).getD .empty

/-- The node the writes say. -/
def expected (id : String) (beats : List Beat) : Option HeartbeatNode :=
  (lastSign id beats).map fun last => ⟨last, budget id beats⟩

/-- A node without a sign has no budget. -/
theorem budget_of_silent (silent : lastSign id beats = none) : budget id beats = 0 := by
  induction beats with
  | nil => rfl
  | cons beat before ih =>
    cases beat with
    | starts now => rfl
    | write now | recovering until' now | stops => exact ih silent
    | progress nodeId basis now =>
      cases nodeId with
      | none => exact ih silent
      | some other =>
        simp only [lastSign] at silent
        split_ifs at silent with same
        rw [budget, if_neg same]
        exact ih silent
    | setActive nodes now =>
      simp only [lastSign] at silent
      split_ifs at silent with listed
      have absent : nodes.reverse.find? (fun node => decide (node.1 = id)) = none := by
        refine List.find?_eq_none.mpr fun node member same => listed ?_
        exact List.mem_map.mpr ⟨node, List.mem_reverse.mp member, of_decide_eq_true same⟩
      rw [budget, absent]
      rfl

/-- `setActive` gives a listed node its last budget and leaves its last progress alone. -/
theorem get?_foldl_activate (active : KeyedStore String HeartbeatNode) (nodes : List (String × Int)) :
    (nodes.foldl (Heartbeat.activate now) active).get? id =
      match nodes.reverse.find? fun node => decide (node.1 = id) with
      | some node => some ⟨((active.get? id).map HeartbeatNode.lastProgressAt).getD now, node.2⟩
      | none => active.get? id := by
  induction nodes using List.reverseRecOn with
  | nil => rfl
  | append_singleton nodes node ih =>
    rw [List.foldl_append, List.foldl_cons, List.foldl_nil, List.reverse_append, List.reverse_singleton, List.singleton_append,
      List.find?_cons]
    generalize nodes.foldl (Heartbeat.activate now) active = folded at ih ⊢
    by_cases same : node.1 = id
    · subst same
      simp only [decide_true]
      have last : ((folded.get? node.1).map HeartbeatNode.lastProgressAt).getD now =
          ((active.get? node.1).map HeartbeatNode.lastProgressAt).getD now := by
        rw [ih]
        split <;> rfl
      rw [← last, Heartbeat.activate]
      cases found : folded.get? node.1 with
      | none => simp [KeyedStore.get?_set]
      | some existing =>
        dsimp only
        split_ifs with unchanged
        · rw [found, ← unchanged]
          rfl
        · simp [KeyedStore.get?_set]
    · rw [decide_eq_false same, ← ih, Heartbeat.activate]
      cases folded.get? node.1 with
      | none => rw [KeyedStore.get?_set, if_neg (Ne.symm same)]
      | some existing =>
        dsimp only
        split_ifs
        · rfl
        · rw [KeyedStore.get?_set, if_neg (Ne.symm same)]

private theorem listed_iff {nodes : List (String × Int)} :
    id ∈ nodes.map (·.1) ↔ (nodes.reverse.find? fun node => decide (node.1 = id)).isSome = true := by
  rw [List.find?_isSome]
  simp [eq_comm]

/-- The file holds the nodes the writes say, when it was last written and what it waits for; the writer has its nodes. -/
structure Tells (beats : List Beat) (h : Heartbeats) : Prop where
  nodes : ∀ id, h.activeNodes.get? id = expected id beats
  writer : ∀ beat, h.controller = some beat → beat.activeNodes = h.activeNodes
  written : h.file.map HeartbeatFile.writtenAt = lastWrite beats
  waits : h.file.bind HeartbeatFile.recovering = recoveringUntil beats

theorem Tells.step {before : List Beat} {after : Heartbeats} (tells : Tells before h) (taken : h.step beat = some after) :
    Tells (beat :: before) after := by
  cases beat with
  | starts now =>
    simp only [Heartbeats.step] at taken
    split_ifs at taken
    obtain rfl := Option.some.inj taken
    refine ⟨fun id => rfl, ?_, rfl, rfl⟩
    rintro _ ⟨⟩
    rfl
  | write now =>
    obtain ⟨writer, alive, rfl⟩ := Option.map_eq_some_iff.mp taken
    refine ⟨fun id => ?_, ?_, rfl, rfl⟩
    · exact (congrArg (fun store => KeyedStore.get? store id) (tells.writer writer alive)).trans (tells.nodes id)
    · rintro _ ⟨⟩
      rfl
  | progress nodeId basis now =>
    obtain ⟨writer, alive, rfl⟩ := Option.map_eq_some_iff.mp taken
    refine ⟨fun id => ?_, ?_, rfl, rfl⟩
    · have own (id : String) : writer.activeNodes.get? id = expected id before := by
        rw [tells.writer writer alive]
        exact tells.nodes id
      cases nodeId with
      | none => exact own id
      | some other =>
        -- a node without a sign counts as one with no budget
        have basis : (((writer.activeNodes.get? other).map HeartbeatNode.budgetBasis).getD 0) = budget other before := by
          rw [own, expected]
          cases silent : lastSign other before with
          | none => exact (budget_of_silent silent).symm
          | some last => rfl
        show (writer.activeNodes.set other ⟨now, _⟩).get? id = _
        rw [KeyedStore.get?_set, basis, expected, lastSign, budget]
        split_ifs with same differ
        · subst same
          rfl
        · exact absurd same.symm differ
        · exact absurd (Eq.symm ‹other = id›) same
        · exact own id
    · rintro _ ⟨⟩
      rfl
  | setActive nodes now =>
    obtain ⟨writer, alive, rfl⟩ := Option.map_eq_some_iff.mp taken
    refine ⟨fun id => ?_, ?_, rfl, rfl⟩
    · show (nodes.foldl (Heartbeat.activate now) (writer.activeNodes.filter fun id => decide (id ∈ nodes.map (·.1)))).get? id = _
      have own : writer.activeNodes.get? id = expected id before := by
        rw [tells.writer writer alive]
        exact tells.nodes id
      rw [get?_foldl_activate, expected, lastSign, budget]
      by_cases listed : id ∈ nodes.map (·.1)
      · obtain ⟨node, found⟩ := Option.isSome_iff_exists.mp (listed_iff.mp listed)
        rw [found, if_pos listed, KeyedStore.get?_filter, if_pos (decide_eq_true listed), own, expected]
        cases lastSign id before <;> rfl
      · have absent : nodes.reverse.find? (fun node => decide (node.1 = id)) = none :=
          Option.not_isSome_iff_eq_none.mp (mt listed_iff.mpr listed)
        rw [absent, if_neg listed, KeyedStore.get?_filter, decide_eq_false listed]
        rfl
    · rintro _ ⟨⟩
      rfl
  | recovering until' now =>
    simp only [Heartbeats.step] at taken
    split_ifs at taken
    obtain rfl := Option.some.inj taken
    refine ⟨tells.nodes, ?_, rfl, rfl⟩
    rintro _ ⟨⟩
  | stops =>
    obtain rfl := Option.some.inj taken
    refine ⟨tells.nodes, ?_, tells.written, tells.waits⟩
    rintro _ ⟨⟩

theorem tells_of_after (ran : Heartbeats.after beats = some h) : Tells beats h := by
  induction beats generalizing h with
  | nil =>
    obtain rfl := Option.some.inj ran
    refine ⟨fun id => rfl, ?_, rfl, rfl⟩
    rintro _ ⟨⟩
  | cons beat before ih =>
    obtain ⟨mid, earlier, taken⟩ := Option.bind_eq_some_iff.mp ran
    exact (ih earlier).step taken

/-! ## The judgement -/

theorem nodeBreach_eq_none {node : HeartbeatNode} :
    Coordinator.nodeBreach now (some node.lastProgressAt, some node.budgetBasis) = none ↔
      now - node.lastProgressAt ≤ node.budgetBasis := by
  simp [Coordinator.nodeBreach]

theorem heartbeatBreach_eq_none {file : HeartbeatFile} :
    heartbeatBreach (some file) now interval = none ↔ now - file.writtenAt ≤ 2 * interval ∧
      match file.recovering with
      | some until' => now ≤ until' + Coordinator.recoveringGrace
      | none => ∀ id node, file.activeNodes.get? id = some node → now - node.lastProgressAt ≤ node.budgetBasis := by
  rw [heartbeatBreach, Option.map_some, Coordinator.heartbeatBreach]
  by_cases fresh : now - file.writtenAt ≤ 2 * interval
  · have timely : Coordinator.staleBreach file.judged now interval = none := if_neg (Int.not_lt.mpr fresh)
    rw [timely, and_iff_right fresh]
    simp only [HeartbeatFile.judged]
    cases file.recovering with
    | some until' => simp
    | none =>
      simp only [Option.map_none, List.findSome?_map, List.findSome?_eq_none_iff, Function.comp_apply, nodeBreach_eq_none]
      exact ⟨fun quiet id node found => quiet (id, node) (KeyedStore.mem_entries.mpr found),
        fun quiet entry member => quiet entry.1 entry.2 (KeyedStore.mem_entries.mp member)⟩
  · have stale : Coordinator.staleBreach file.judged now interval = some (.stale (now - file.writtenAt)) :=
      if_pos (Int.not_le.mp fresh)
    rw [stale]
    exact iff_of_false (Option.some_ne_none _) fun quiet => fresh quiet.1

/-- Over every run of the controllers of a run directory: its heartbeat does not breach if and only if it was written in
time and, where it waits for an orphan, the orphan's time and the grace behind it are not over, and where it does not, no
active node is silent for longer than its budget. -/
theorem heartbeatBreach_tells (ran : Heartbeats.after beats = some h) (some' : h.file.isSome = true) :
    heartbeatBreach h.file now interval = none ↔ (∀ written, lastWrite beats = some written → now - written ≤ 2 * interval) ∧
      match recoveringUntil beats with
      | some until' => now ≤ until' + Coordinator.recoveringGrace
      | none => ∀ id last, lastSign id beats = some last → now - last ≤ budget id beats := by
  have tells := tells_of_after ran
  obtain ⟨file, here⟩ := Option.isSome_iff_exists.mp some'
  have written : lastWrite beats = some file.writtenAt := by
    rw [← tells.written, here]
    rfl
  have waits : recoveringUntil beats = file.recovering := by
    rw [← tells.waits, here]
    rfl
  have nodes (id : String) : file.activeNodes.get? id = expected id beats := by
    rw [← tells.nodes, Heartbeats.activeNodes, here]
    rfl
  rw [here, heartbeatBreach_eq_none, written, waits]
  refine and_congr ⟨fun fresh _ same => Option.some.inj same ▸ fresh, fun fresh => fresh _ rfl⟩ ?_
  cases file.recovering with
  | some until' => exact Iff.rfl
  | none =>
    simp only [nodes, expected, Option.map_eq_some_iff]
    exact ⟨fun quiet id last sign => quiet id _ ⟨last, sign, rfl⟩, by
      rintro quiet id _ ⟨last, sign, rfl⟩
      exact quiet id last sign⟩

/-- The second of two nodes is busy, and the first one froze. -/
def frozenBeats : List Beat := [.progress (some "b") none 900, .setActive [("a", 500), ("b", 500)] 10, .starts 0]

theorem heartbeatBreach_tells_frozen :
    ∃ h, Heartbeats.after frozenBeats = some h ∧ heartbeatBreach h.file 1000 Coordinator.heartbeatInterval ≠ none := by
  obtain ⟨h, ran, written⟩ : ∃ h, Heartbeats.after frozenBeats = some h ∧ h.file.isSome = true := ⟨_, rfl, rfl⟩
  refine ⟨h, ran, (heartbeatBreach_tells ran written).not.mpr fun quiet => ?_⟩
  have sign : lastSign "a" frozenBeats = some 10 := by decide
  exact absurd (quiet.2 "a" 10 sign) (by decide)

end Faberun.Supervise
