import Mathlib.Data.List.Dedup
import Faberun.Machine.FirstByKey
import Faberun.Model.Engine.Reauthor

/-! # What a reauthor changes

A widening only adds to a packet, and once it has changed one no later widening brings the old packet back. What a
reauthor applies changes the packet of one node, passes the validation of the whole contract, takes no file another node
writes, and comes within the rounds it was given, each of which saw the findings of the rounds before it.
-/

namespace Faberun.Reauthor

variable {nodes : List ContractNode} {node : ContractNode} {packet other : TaskPacket} {additions : ReauthorAdditions}

/-! ## Unions -/

theorem mem_union {base extra : Option (List String)} {item : String} :
    item ∈ union base extra ↔ item ∈ base.getD [] ∨ item ∈ extra.getD [] := by
  rw [union, List.mem_eraseDups, List.mem_append]

/-- A packet that has at least what another one has, and nothing else changed. -/
structure Widens (before after : TaskPacket) : Prop where
  readFiles : before.readFiles.getD [] ⊆ after.readFiles.getD []
  writeFiles : before.writeFiles.getD [] ⊆ after.writeFiles.getD []
  symbols : before.symbols ⊆ after.symbols
  scopeAcknowledged : before.scopeAcknowledged.getD [] ⊆ after.scopeAcknowledged.getD []
  same : after = { before with
    readFiles := after.readFiles
    writeFiles := after.writeFiles
    symbols := after.symbols
    scopeAcknowledged := after.scopeAcknowledged }

theorem widenTaskPacket_widens (packet : TaskPacket) (additions : ReauthorAdditions) :
    Widens packet (widenTaskPacket packet additions) := by
  refine ⟨fun _ member => mem_union.mpr (.inl member), fun _ member => mem_union.mpr (.inl member),
    fun _ member => mem_union.mpr (.inl member), fun item member => ?_, rfl⟩
  simp only [widenTaskPacket]
  split_ifs with nothing
  · exact member
  · exact mem_union.mpr (.inl member)

/-! ## A packet that was widened -/

section Growth

variable {launched : TaskPacket} {base extra : Option (List String)}

theorem nodup_union : (union base extra).Nodup := FirstByKey.nodup_eraseDups _

/-- A union only appends to a list without repeats. -/
theorem prefix_union (nodup : (base.getD []).Nodup) : base.getD [] <+: union base extra := by
  rw [union, List.eraseDups_append, FirstByKey.eraseDups_of_nodup nodup]
  exact List.prefix_append _ _

theorem eq_nil_of_union (nothing : union base extra = []) : base.getD [] = [] := by
  refine List.eq_nil_iff_forall_not_mem.mpr fun item member => ?_
  have inside : item ∈ union base extra := mem_union.mpr (.inl member)
  rw [nothing] at inside
  cases inside

/-- The lists of a packet that a widening made. -/
structure Normal (packet : TaskPacket) : Prop where
  readFiles : ∃ files, packet.readFiles = some files ∧ files.Nodup
  writeFiles : ∃ files, packet.writeFiles = some files ∧ files.Nodup
  symbols : packet.symbols.Nodup
  scopeAcknowledged : (packet.scopeAcknowledged.getD []).Nodup

theorem widenTaskPacket_normal (packet : TaskPacket) (additions : ReauthorAdditions) :
    Normal (widenTaskPacket packet additions) := by
  refine ⟨⟨_, rfl, nodup_union⟩, ⟨_, rfl, nodup_union⟩, nodup_union, ?_⟩
  simp only [widenTaskPacket]
  split_ifs with nothing
  · rw [eq_nil_of_union nothing]
    exact List.nodup_nil
  · exact nodup_union

/-- A packet whose lists begin with those of another one, with nothing else changed. -/
structure Extends (before after : TaskPacket) : Prop where
  readFiles : before.readFiles.getD [] <+: after.readFiles.getD []
  writeFiles : before.writeFiles.getD [] <+: after.writeFiles.getD []
  symbols : before.symbols <+: after.symbols
  scopeAcknowledged : before.scopeAcknowledged.getD [] <+: after.scopeAcknowledged.getD []
  same : after = { before with
    readFiles := after.readFiles
    writeFiles := after.writeFiles
    symbols := after.symbols
    scopeAcknowledged := after.scopeAcknowledged }

theorem Extends.trans {first second third : TaskPacket} (one : Extends first second) (two : Extends second third) :
    Extends first third where
  readFiles := one.readFiles.trans two.readFiles
  writeFiles := one.writeFiles.trans two.writeFiles
  symbols := one.symbols.trans two.symbols
  scopeAcknowledged := one.scopeAcknowledged.trans two.scopeAcknowledged
  same := by rw [two.same, one.same]

/-- Past the first widening, the lists of a packet only grow at their ends. -/
theorem widenTaskPacket_extends (normal : Normal packet) : Extends packet (widenTaskPacket packet additions) := by
  obtain ⟨reads, readFiles, readsNodup⟩ := normal.readFiles
  obtain ⟨writes, writeFiles, writesNodup⟩ := normal.writeFiles
  have symbols := show ((some packet.symbols).getD []).Nodup from normal.symbols
  refine ⟨prefix_union (by rw [readFiles]; exact readsNodup), prefix_union (by rw [writeFiles]; exact writesNodup),
    prefix_union symbols, ?_, rfl⟩
  simp only [widenTaskPacket]
  split_ifs with nothing
  · exact List.prefix_rfl
  · exact prefix_union normal.scopeAcknowledged

/-- What widenings make of a packet. -/
def Grew (launched packet : TaskPacket) : Prop :=
  packet = launched ∨ (Normal packet ∧ (Normal launched → Extends launched packet))

theorem Grew.widen (grew : Grew launched packet) (additions : ReauthorAdditions) :
    Grew launched (widenTaskPacket packet additions) := by
  refine .inr ⟨widenTaskPacket_normal _ _, fun normal => ?_⟩
  obtain rfl | ⟨made, later⟩ := grew
  · exact widenTaskPacket_extends normal
  · exact (later normal).trans (widenTaskPacket_extends made)

/-- A packet that left the launched one does not come back to it. -/
theorem Grew.ne_launched (grew : Grew launched packet) (left : packet ≠ launched) (additions : ReauthorAdditions) :
    widenTaskPacket packet additions ≠ launched := by
  intro back
  obtain ⟨made, later⟩ := grew.resolve_left left
  have home : Extends packet (widenTaskPacket packet additions) := widenTaskPacket_extends made
  have out := later (back ▸ widenTaskPacket_normal _ _)
  rw [← back] at out left
  refine left ?_
  have reads : packet.readFiles = (widenTaskPacket packet additions).readFiles := by
    obtain ⟨files, there, -⟩ := made.readFiles
    have same := home.readFiles.sublist.antisymm out.readFiles.sublist
    rw [there] at same ⊢
    exact congrArg some same
  have writes : packet.writeFiles = (widenTaskPacket packet additions).writeFiles := by
    obtain ⟨files, there, -⟩ := made.writeFiles
    have same := home.writeFiles.sublist.antisymm out.writeFiles.sublist
    rw [there] at same ⊢
    exact congrArg some same
  have symbols := home.symbols.sublist.antisymm out.symbols.sublist
  have acknowledged : packet.scopeAcknowledged = (widenTaskPacket packet additions).scopeAcknowledged := by
    have same := home.scopeAcknowledged.sublist.antisymm out.scopeAcknowledged.sublist
    simp only [widenTaskPacket] at same ⊢
    split_ifs at same ⊢ with nothing
    · rfl
    · cases there : packet.scopeAcknowledged with
      | none =>
        rw [there] at same nothing
        exact absurd same.symm nothing
      | some files =>
        rw [there] at same
        exact congrArg some same
  have whole := home.same
  rw [← reads, ← writes, ← symbols, ← acknowledged] at whole
  exact whole.symm

end Growth

/-! ## The rounds -/

section Rounds

variable {α : Type} {accepted : α → Bool} {step : Nat → List α → α}

/-- The rounds of a budget, the first at a given number and with what came before. -/
structure Spent (accepted : α → Bool) (step : Nat → List α → α) (left : Nat) (budget : Budget α) (before : List α) : Prop where
  within : budget.history.length ≤ before.length + left
  used : budget.roundsUsed = budget.history.length
  kept : before <+: budget.history
  each : ∀ index, before.length ≤ index → ∀ result, budget.history[index]? = some result →
    result = step (index + 1) (budget.history.take index) ∧
      (accepted result = true → index + 1 = budget.history.length)
  last : budget.accepted = true → ∃ result, budget.last = some result ∧ budget.history.getLast? = some result ∧
    accepted result = true

theorem roundsFrom_spent (left : Nat) (before : List α) :
    Spent accepted step left (roundsFrom accepted step left (before.length + 1) before) before := by
  induction left generalizing before with
  | zero =>
    refine ⟨Nat.le_refl _, Nat.add_sub_cancel .., List.prefix_rfl, fun index past result found => ?_, fun no => by cases no⟩
    exact absurd (List.getElem?_eq_some_iff.mp found).1 (Nat.not_lt.mpr past)
  | succ left ih =>
    simp only [roundsFrom]
    split_ifs with done
    · refine ⟨by simp, by simp, List.prefix_append _ _, fun index past result found => ?_, fun _ => ⟨_, rfl, by simp, done⟩⟩
      have here : index = before.length := by
        have inside := (List.getElem?_eq_some_iff.mp found).1
        simp only [List.length_append, List.length_singleton] at inside
        omega
      subst here
      simp only [List.getElem?_concat_length, Option.some.injEq] at found
      subst found
      exact ⟨by simp, fun _ => by simp⟩
    · have rest := ih (before ++ [step (before.length + 1) before])
      rw [List.length_append, List.length_singleton] at rest
      refine ⟨by have := rest.within; simp at this; omega, rest.used, (List.prefix_append _ _).trans rest.kept,
        fun index past result found => ?_, rest.last⟩
      obtain rfl | later := Nat.eq_or_lt_of_le past
      · obtain ⟨more, whole⟩ := rest.kept
        rw [← whole, List.append_assoc] at found ⊢
        simp only [List.getElem?_append_right (Nat.le_refl _), Nat.sub_self, List.singleton_append,
          List.getElem?_cons_zero, Option.some.injEq] at found
        subst found
        exact ⟨by simp, fun yes => absurd yes done⟩
      · exact rest.each index (by simpa using Nat.succ_le_of_lt later) result found

theorem runBoundedRounds_spent {rounds : Nat} {budget : Budget α}
    (success : runBoundedRounds accepted step rounds = .ok budget) : Spent accepted step rounds budget [] := by
  simp only [runBoundedRounds, bind_ok_iff] at success
  obtain ⟨_, -, same⟩ := success
  obtain rfl := Except.ok.inj same
  exact roundsFrom_spent rounds []

end Rounds

/-! ## What is applied -/

variable {validate : List ContractNode → Except String Unit} {discover : Nat → List String → ReauthorAdditions}

theorem reauthorWriteConflicts_eq_nil {added : Option (List String)} (none' : reauthorWriteConflicts nodes node.id added = []) :
    ∀ other ∈ nodes, other.id ≠ node.id → ∀ path ∈ other.taskPacket.writeFiles.getD [], path ∉ added.getD [] := by
  intro other member differs path declared taken
  have conflict := List.flatMap_eq_nil_iff.mp none' other (List.mem_filter.mpr ⟨member, decide_eq_true differs⟩)
  rw [List.map_eq_nil_iff, List.filter_eq_nil_iff] at conflict
  exact conflict path declared (decide_eq_true taken)

/-- An accepted round has a candidate that passes, and adds no write of another node. -/
theorem reauthorRound_accepted {round : Nat} {history : List ReauthorRound}
    (accepted : (reauthorRound validate discover nodes node round history).accepted = true) :
    let result := reauthorRound validate discover nodes node round history
    result.candidate = replacePacket nodes node.id (widenTaskPacket node.taskPacket result.additions) ∧
      validate result.candidate = .ok () ∧
      ∀ other ∈ nodes, other.id ≠ node.id → ∀ path ∈ other.taskPacket.writeFiles.getD [],
        path ∉ result.additions.writeFiles.getD [] := by
  simp only [reauthorRound] at accepted ⊢
  split at accepted
  · rename_i valid
    exact ⟨rfl, valid, reauthorWriteConflicts_eq_nil (List.map_eq_nil_iff.mp (of_decide_eq_true accepted))⟩
  · cases accepted

/-- What a reauthor does within its rounds, and what it writes. -/
theorem reauthor_applies {refused approve : Bool} {rounds : Nat} {approveBelow : Option String} {result : Reauthoring}
    (success : reauthorRefusedNode validate discover nodes node refused rounds approve approveBelow = .ok result) :
    Spent ReauthorRound.accepted (reauthorRound validate discover nodes node) rounds result.budget [] ∧
    (result.outcome ≠ .applied → result.written nodes = nodes) ∧
    (result.outcome = .applied → ∃ additions,
      result.written nodes = replacePacket nodes node.id (widenTaskPacket node.taskPacket additions) ∧
      Widens node.taskPacket (widenTaskPacket node.taskPacket additions) ∧ validate (result.written nodes) = .ok () ∧
      (∀ other ∈ nodes, other.id ≠ node.id → ∀ path ∈ other.taskPacket.writeFiles.getD [],
        path ∉ additions.writeFiles.getD []) ∧
      reauthorApproved node approve approveBelow = .ok true) := by
  simp only [reauthorRefusedNode, bind_ok_iff] at success
  obtain ⟨_, -, budget, spent, rest⟩ := success
  have spent := runBoundedRounds_spent spent
  split_ifs at rest with accepted
  · simp only [bind_ok_iff] at rest
    obtain ⟨approved, decided, same⟩ := rest
    obtain rfl := Except.ok.inj same
    obtain ⟨round, last, ended, counts⟩ := spent.last accepted
    cases approved with
    | false => exact ⟨spent, fun _ => rfl, fun applied => by cases applied⟩
    | true =>
      simp only [↓reduceIte]
      refine ⟨spent, fun other => absurd rfl other, fun _ => ?_⟩
      have inside : budget.history[budget.history.length - 1]? = some round := by rw [← List.getLast?_eq_getElem?, ended]
      obtain ⟨made, -⟩ := spent.each _ (Nat.zero_le _) round inside
      rw [made] at counts
      obtain ⟨candidate, valid, free⟩ := reauthorRound_accepted counts
      have written : (Reauthoring.mk budget .applied (budget.last.map ReauthorRound.candidate)).written nodes =
          round.candidate := by
        rw [last]
        rfl
      rw [written, made]
      exact ⟨_, candidate, widenTaskPacket_widens _ _, valid, free, decided⟩
  · obtain rfl := Except.ok.inj rest
    exact ⟨spent, fun _ => rfl, fun applied => by cases applied⟩

/-- A packet that reads one file. -/
def readsOne : TaskPacket := ⟨.execution, "Ship it", [], some ["src/a.mjs"], [], none, [], [], none, none, []⟩

def buildNode : ContractNode := ⟨"build", readsOne, true, "none"⟩

/-- The additions of a first and of every later round. -/
def secondRound (round : Nat) (findings : List String) : ReauthorAdditions :=
  if round = 1 then ⟨none, some ["src/b.mjs"], none, none⟩ else ⟨some findings, some ["src/c.mjs"], none, none⟩

def lintNode : ContractNode := ⟨"lint", { readsOne with writeFiles := some ["src/b.mjs"] }, false, "none"⟩

def secondApplies : Except Refusal Reauthoring :=
  reauthorRefusedNode (fun _ => .ok ()) secondRound [buildNode, lintNode] buildNode true 3 false none

/-- A second round that adds no write of the other node is applied. -/
theorem reauthor_applies_second : ∃ result, secondApplies = .ok result ∧ result.budget.roundsUsed = 2 ∧ ∃ additions,
    result.written [buildNode, lintNode] = replacePacket [buildNode, lintNode] "build" (widenTaskPacket readsOne additions) ∧
    Widens readsOne (widenTaskPacket readsOne additions) := by
  have ran : (secondApplies.toOption.any fun result =>
      decide (result.budget.roundsUsed = 2 ∧ result.outcome = .applied)) = true := by decide
  cases found : secondApplies with
  | error refusal =>
    rw [found] at ran
    cases ran
  | ok result =>
    rw [found] at ran
    obtain ⟨second, applied⟩ := of_decide_eq_true ran
    obtain ⟨additions, written, widens, -⟩ := (reauthor_applies found).2.2 applied
    exact ⟨result, rfl, second, additions, written, widens⟩

end Faberun.Reauthor
