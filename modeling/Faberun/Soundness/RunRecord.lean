import Faberun.Model.Engine.RunRecord
import Faberun.Soundness.Reauthor

/-! # What a run keeps of its start

Every controller of a run starts on the source the run was launched on, or on commits after it: the identity a resume is
compared with moves only by comparisons that held, and the digest, the scope decision and the controller of a run are those
of its launch.
-/

namespace Faberun.RunRecord

open Reauthor (ReauthorAdditions replacePacket widenTaskPacket)

variable {isAncestor : String → String → Bool} {hashPacket : TaskPacket → String} {contractDigest : StoredContract → String}
variable {blank : Metadata} {contract : StoredContract} {launch : Checkout} {baseRef : Option String} {lock : LockRecord}
variable {controllerIdentity : ControllerIdentity}

/-! ## The comparison -/

/-- A head that is the recorded one, or comes after it. -/
def Follows (isAncestor : String → String → Bool) (recorded head : Option String) : Prop :=
  recorded = head ∨ ∃ before ∈ recorded, ∃ after ∈ head, isAncestor before after = true

/-- Each harness answers with the same version, or has none in both. -/
def SameVersions (expected actual : List (String × Option String)) : Prop :=
  ∀ id, (expected.lookup id).join = (actual.lookup id).join

/-- An identity a resume accepts. -/
structure SameSource (isAncestor : String → String → Bool) (expected actual : SourceIdentity) : Prop where
  cwd : expected.cwd = actual.cwd
  head : Follows isAncestor expected.gitHead actual.gitHead
  packets : stableEntries expected.packetHashes = stableEntries actual.packetHashes
  versions : SameVersions expected.harnessVersions actual.harnessVersions

theorem SameSource.refl (identity : SourceIdentity) : SameSource isAncestor identity identity :=
  ⟨rfl, .inl rfl, rfl, fun _ => rfl⟩

theorem Follows.trans (through : ∀ a b c, isAncestor a b = true → isAncestor b c = true → isAncestor a c = true)
    {first second third : Option String} (one : Follows isAncestor first second) (two : Follows isAncestor second third) :
    Follows isAncestor first third := by
  obtain rfl | ⟨a, isFirst, b, isSecond, before⟩ := one
  · exact two
  obtain rfl | ⟨b', same, c, isThird, after⟩ := two
  · exact .inr ⟨a, isFirst, b, isSecond, before⟩
  · obtain rfl := Option.mem_unique isSecond same
    exact .inr ⟨a, isFirst, c, isThird, through a b c before after⟩

theorem SameSource.trans (through : ∀ a b c, isAncestor a b = true → isAncestor b c = true → isAncestor a c = true)
    {first second third : SourceIdentity} (one : SameSource isAncestor first second)
    (two : SameSource isAncestor second third) : SameSource isAncestor first third :=
  ⟨one.cwd.trans two.cwd, one.head.trans through two.head, one.packets.trans two.packets,
    fun id => (one.versions id).trans (two.versions id)⟩

theorem lookup_join_eq_none {versions : List (String × Option String)} {id : String} (absent : id ∉ versions.map Prod.fst) :
    (versions.lookup id).join = none := by
  have none' : versions.lookup id = none := by
    rw [List.lookup_eq_none_iff]
    intro entry member
    exact bne_iff_ne.mpr fun same => absent (List.mem_map.mpr ⟨entry, member, same.symm⟩)
  rw [none']
  rfl

theorem checkVersions_ok_iff {expected actual : List (String × Option String)} :
    checkVersions expected actual = .ok () ↔ SameVersions expected actual := by
  rw [checkVersions, forM_ok_iff]
  constructor
  · intro all id
    by_cases named : id ∈ (expected ++ actual).map Prod.fst
    · have here := all id (List.mem_eraseDups.mpr named)
      simp only at here
      split_ifs at here with same
      exact same
    · rw [List.map_append, List.mem_append, not_or] at named
      rw [lookup_join_eq_none named.1, lookup_join_eq_none named.2]
  · exact fun all id _ => if_pos (all id)

theorem checkHead_ok_iff {expected actual : Option String} :
    checkHead isAncestor expected actual = .ok () ↔ Follows isAncestor expected actual := by
  simp only [checkHead, Follows]
  split_ifs with same
  · exact iff_of_true rfl (.inl same)
  · cases expected with
    | none => simp [same]
    | some recorded =>
      cases actual with
      | none => simp
      | some head => simp_all

/-- A resume gets past the comparison exactly on a source it accepts. -/
theorem assertSourceUnchanged_ok_iff {expected actual : SourceIdentity} :
    (∃ warnings, assertSourceUnchanged isAncestor expected actual = .ok warnings) ↔ SameSource isAncestor expected actual := by
  constructor
  · rintro ⟨warnings, success⟩
    simp only [assertSourceUnchanged] at success
    generalize (if expected.dirtyTreeFingerprint = actual.dirtyTreeFingerprint then [] else [treeChanged]) = found at success
    split_ifs at success with moved changed
    · simp only [bind_ok_iff] at success
      obtain ⟨_, -, refused⟩ := success
      cases refused
    · simp only [bind_ok_iff] at success
      obtain ⟨_, head, _, versions, -⟩ := success
      exact ⟨not_not.mp moved, checkHead_ok_iff.mp head, not_not.mp changed, checkVersions_ok_iff.mp versions⟩
  · intro same
    simp only [assertSourceUnchanged, same.cwd, ne_eq, not_true, if_false, checkHead_ok_iff.mpr same.head, same.packets,
      checkVersions_ok_iff.mpr same.versions]
    exact ⟨_, rfl⟩

/-! ## What stays -/

/-- A record of the run that was created with another one. -/
structure Frozen (isAncestor : String → String → Bool) (first now : Metadata) : Prop where
  contractDigest : now.contractDigest = first.contractDigest
  scopeDecision : now.scopeDecision = first.scopeDecision
  controllerIdentity : now.controllerIdentity = first.controllerIdentity
  baseRef : recordedBaseRef now = recordedBaseRef first
  source : SameSource isAncestor first.sourceIdentity now.sourceIdentity

/-- An identity a controller of the run may start with. -/
structure Startable (isAncestor : String → String → Bool) (first : Metadata) (accepted : Accepted) : Prop where
  source : SameSource isAncestor first.sourceIdentity accepted.identity
  baseRef : (accepted.identity.baseRef.filter fun ref => decide (ref ≠ "")) = recordedBaseRef first

/-- The records a creation makes are all there. -/
structure Complete (first : Metadata) : Prop where
  contractDigest : first.contractDigest.isSome = true
  scopeDecision : first.scopeDecision.isSome = true
  controllerIdentity : first.controllerIdentity.isSome = true

theorem Frozen.refl (first : Metadata) : Frozen isAncestor first first := ⟨rfl, rfl, rfl, rfl, .refl _⟩

theorem some_getD_of_eq {α : Type} {now first : Option α} {other : α} (same : now = first) (there : first.isSome = true) :
    some (now.getD other) = first := by
  obtain ⟨found, rfl⟩ := Option.isSome_iff_exists.mp there
  rw [same]
  rfl

theorem Frozen.apply {first now : Metadata} (complete : Complete first) (frozen : Frozen isAncestor first now)
    (change : Change) (startable : ∀ start accepted cleared, change = .start start accepted cleared →
      Startable isAncestor first accepted) : Frozen isAncestor first (apply now change) := by
  cases change with
  | start start accepted cleared =>
    obtain ⟨source, baseRef⟩ := startable _ _ _ rfl
    exact ⟨some_getD_of_eq frozen.contractDigest complete.contractDigest,
      some_getD_of_eq frozen.scopeDecision complete.scopeDecision,
      some_getD_of_eq frozen.controllerIdentity complete.controllerIdentity, baseRef, source⟩
  | autoRetry nodeId code retriedAt => exact ⟨frozen.1, frozen.2, frozen.3, frozen.4, frozen.5⟩
  | relaunch progressAt =>
    simp only [RunRecord.apply]
    split
    · exact frozen
    · exact ⟨frozen.1, frozen.2, frozen.3, frozen.4, frozen.5⟩
  | park attention => exact ⟨frozen.1, frozen.2, frozen.3, frozen.4, frozen.5⟩
  | announce attention => exact ⟨frozen.1, frozen.2, frozen.3, frozen.4, frozen.5⟩

/-! ## Every interleaving -/

/-- What a step on the record is. -/
theorem write_cases {run run' : RunDir} {label : UnlockedFile.Label Change} (taken : run.write blank label = some run') :
    ∃ record, UnlockedFile.step apply blank run.record label = some record ∧ run' = { run with record } ∧
      label ≠ .damage ∧ ∀ change, label = .opens change → run.opens change = true := by
  cases label with
  | opens change =>
    simp only [RunDir.write] at taken
    split_ifs at taken with allowed
    obtain ⟨record, step, rfl⟩ := Option.map_eq_some_iff.mp taken
    exact ⟨record, step, rfl, by simp, fun other same => by cases same; exact allowed⟩
  | write index =>
    obtain ⟨record, step, rfl⟩ := Option.map_eq_some_iff.mp taken
    exact ⟨record, step, rfl, by simp, fun other same => by cases same⟩
  | die index =>
    simp only [RunDir.write, Option.map_eq_some_iff] at taken
    obtain ⟨record, step, rfl⟩ := taken
    exact ⟨record, step, rfl, by simp, fun other same => by cases same⟩
  | damage => cases taken

/-- What a step of a run is: a resume that is refused, one that passes, a widening, or a step on the record. -/
theorem step_cases {run run' : RunDir} {label : Label}
    (taken : (machine isAncestor hashPacket blank).step run label = some run') :
    run' = run ∨
    (∃ checkout accepted, run.resume isAncestor hashPacket checkout = .ok accepted ∧
      run' = { run with resumed := accepted :: run.resumed }) ∨
    (∃ nodeId additions node, (run.contract.nodes.find? fun node => decide (node.id = nodeId)) = some node ∧
      run' = { run with
        contract.nodes := replacePacket run.contract.nodes nodeId (widenTaskPacket node.taskPacket additions) }) ∨
    ∃ change, label = .record change ∧ run.write blank change = some run' := by
  cases label with
  | resume checkout =>
    simp only [machine, RunDir.step] at taken
    split at taken
    · rename_i accepted success
      exact .inr (.inl ⟨checkout, accepted, success, (Option.some.inj taken).symm⟩)
    · exact .inl (Option.some.inj taken).symm
  | reauthor nodeId additions =>
    simp only [machine, RunDir.step] at taken
    split_ifs at taken
    obtain ⟨node, found, same⟩ := Option.map_eq_some_iff.mp taken
    exact .inr (.inr (.inl ⟨nodeId, additions, node, found, same.symm⟩))
  | record change => exact .inr (.inr (.inr ⟨change, rfl, taken⟩))

/-- What holds of a run in every interleaving. -/
structure Kept (isAncestor : String → String → Bool) (first : Metadata) (run : RunDir) : Prop where
  record : run.record.Holds (Frozen isAncestor first)
  launched : Startable isAncestor first run.launched
  resumed : ∀ accepted ∈ run.resumed, Startable isAncestor first accepted

theorem recordedBaseRef_idem (metadata : Metadata) :
    ((recordedBaseRef metadata).filter fun ref => decide (ref ≠ "")) = recordedBaseRef metadata := by
  rw [recordedBaseRef, Option.filter_filter]
  simp only [Bool.and_self]

/-- A resume that passes starts from the recorded source. -/
theorem startable_of_resume (through : ∀ a b c, isAncestor a b = true → isAncestor b c = true → isAncestor a c = true)
    {first : Metadata} {run : RunDir} {checkout : Checkout} {accepted : Accepted}
    (frozen : Frozen isAncestor first run.record.file.content)
    (success : run.resume isAncestor hashPacket checkout = .ok accepted) : Startable isAncestor first accepted := by
  simp only [RunDir.resume, bind_ok_iff] at success
  obtain ⟨warnings, compared, same⟩ := success
  obtain rfl := Except.ok.inj same
  exact ⟨frozen.source.trans through (assertSourceUnchanged_ok_iff.mp ⟨warnings, compared⟩),
    (recordedBaseRef_idem _).trans frozen.baseRef⟩

theorem Kept.write {first : Metadata} {run run' : RunDir} {label : UnlockedFile.Label Change} (complete : Complete first)
    (kept : Kept isAncestor first run) (taken : run.write blank label = some run') : Kept isAncestor first run' := by
  obtain ⟨record, step, rfl, whole, opens⟩ := write_cases taken
  refine ⟨kept.record.step (fun damaged => absurd damaged whole) (fun change asked => ?_) step, kept.launched, kept.resumed⟩
  refine kept.record.content.apply complete change ?_
  rintro start accepted cleared rfl
  have listed : accepted ∈ run.launched :: run.resumed := List.contains_iff_mem.mp (opens _ asked)
  obtain rfl | later := List.mem_cons.mp listed
  · exact kept.launched
  · exact kept.resumed accepted later

theorem kept_created : Kept isAncestor
    (createdMetadata hashPacket contractDigest contract launch baseRef lock controllerIdentity)
    (created hashPacket contractDigest contract launch baseRef lock controllerIdentity) :=
  ⟨⟨.refl _, fun _ member => absurd member List.not_mem_nil⟩, ⟨.refl _, rfl⟩, fun _ member => absurd member List.not_mem_nil⟩

theorem kept_of_reach (through : ∀ a b c, isAncestor a b = true → isAncestor b c = true → isAncestor a c = true)
    {guard : RunDir → Label → Prop} {run : RunDir}
    (reach : (machine isAncestor hashPacket blank).Reach guard
      (fun run => run = created hashPacket contractDigest contract launch baseRef lock controllerIdentity) run) :
    Kept isAncestor (createdMetadata hashPacket contractDigest contract launch baseRef lock controllerIdentity) run := by
  refine reach.invariant (Kept isAncestor _) ?_ fun run label run' kept _ taken => ?_
  · rintro run rfl
    exact kept_created
  obtain rfl | ⟨checkout, accepted, success, rfl⟩ | ⟨nodeId, additions, node, -, rfl⟩ | ⟨label, rfl, taken⟩ := step_cases taken
  · exact kept
  · exact ⟨kept.record, kept.launched, List.forall_mem_cons.mpr
      ⟨startable_of_resume through kept.record.content success, kept.resumed⟩⟩
  · exact ⟨kept.record, kept.launched, kept.resumed⟩
  · exact kept.write ⟨rfl, rfl, rfl⟩ taken

/-- However controllers, resumes and supervisors interleave, a run keeps the digest, the scope decision, the controller and
the base of its launch, and starts only on the source of its launch or on commits after it. -/
theorem source_kept (through : ∀ a b c, isAncestor a b = true → isAncestor b c = true → isAncestor a c = true)
    {run : RunDir} (reach : (machine isAncestor hashPacket blank).Reach Machine.free
      (fun run => run = created hashPacket contractDigest contract launch baseRef lock controllerIdentity) run) :
    Frozen isAncestor (createdMetadata hashPacket contractDigest contract launch baseRef lock controllerIdentity)
        run.record.file.content ∧
      ∀ accepted ∈ run.resumed, Startable isAncestor
        (createdMetadata hashPacket contractDigest contract launch baseRef lock controllerIdentity) accepted :=
  have kept := kept_of_reach through reach
  ⟨kept.record.content, kept.resumed⟩

/-- Commit `a` is before every other one. -/
def fromA (before after : String) : Bool := before = after || before = "a"

theorem fromA_trans (first second third : String) (one : fromA first second = true) (two : fromA second third = true) :
    fromA first third = true := by
  simp only [fromA, Bool.or_eq_true, decide_eq_true_eq] at *
  grind

/-- A contract with one node. -/
def oneNode : StoredContract := ⟨"/work", [Reauthor.buildNode]⟩

def headAt (head : String) : Checkout := ⟨fun _ => some head, some head, [("codex", some "1")]⟩

/-- Its run, launched on commit `a`. -/
def launchedRun : RunDir :=
  created (fun _ => "h") (fun _ => "d") oneNode (headAt "a") none ⟨1, none, "t0"⟩ ⟨"/snapshot", "s"⟩

def launchedRecord : Metadata := launchedRun.record.file.content

/-- What a resume on commit `b` accepts. -/
def acceptedAtB : Accepted := ⟨captureRunIdentity (fun _ => "h") oneNode (headAt "b") none, [treeChanged]⟩

/-- A resume after a commit, by another controller; its start is recorded. -/
def resumeAtB : List Label :=
  [.resume (headAt "b"), .record (.opens (.start ⟨⟨2, none, "t1"⟩, ⟨"/other", "r"⟩, "e"⟩ acceptedAtB true)), .record (.write 0)]

theorem source_kept_resumed : ∃ run,
    (machine fromA (fun _ => "h") launchedRecord).replay? Machine.free launchedRun resumeAtB = some run ∧
    run.record.file.content.sourceIdentity.gitHead = some "b" ∧ Frozen fromA launchedRecord run.record.file.content :=
  Machine.exists_replay (fun run => run.record.file.content.sourceIdentity.gitHead = some "b")
    (fun _ ran moved => ⟨moved, (source_kept fromA_trans (Machine.Reach.of_replay rfl _ ran)).1⟩) (by decide)

/-! ## One automatic retry -/

/-- The change spends the automatic retry of a node. -/
def Change.retries (nodeId : String) : Change → Bool
  | .autoRetry other _ _ => decide (other = nodeId)
  | .start _ _ _ | .relaunch _ | .park _ | .announce _ => false

/-- The process that spends the automatic retry of a node is alone from its read to its write; other processes may overlap. -/
def RetriesAlone (nodeId : String) (run : RunDir) : Label → Prop
  | .record (.opens change) => (change.retries nodeId = true → run.record.sessions = []) ∧
      ∀ session ∈ run.record.sessions, session.change.retries nodeId = false
  | .record _ | .resume _ | .reauthor _ _ => True

instance (nodeId : String) : DecidableRel (RetriesAlone nodeId) := fun run label =>
  match label with
  | .record (.opens change) => @instDecidableAnd _ _
      (if retries : change.retries nodeId = true then
        decidable_of_iff (run.record.sessions.isEmpty = true) (by simp [retries])
      else .isTrue fun retried => absurd retried retries)
      inferInstance
  | .record (.write _) | .record (.die _) | .record .damage | .resume _ | .reauthor _ _ => instDecidableTrue

variable {nodeId : String}

theorem consumed_iff {metadata : Metadata} :
    autoRetryConsumed metadata nodeId = true ↔ ∃ entry ∈ metadata.autoRetries.getD [], entry.1 = nodeId := by
  simp [autoRetryConsumed]

theorem consumed_consumeAutoRetry {metadata : Metadata} {other code retriedAt : String} :
    autoRetryConsumed (consumeAutoRetry metadata other code retriedAt) nodeId = true ↔
      autoRetryConsumed metadata nodeId = true ∨ other = nodeId := by
  simp only [consumed_iff, consumeAutoRetry, Option.getD_some, List.mem_append, List.mem_filter, List.mem_singleton,
    decide_eq_true_eq]
  constructor
  · rintro ⟨entry, ⟨member, -⟩ | rfl, same⟩
    · exact .inl ⟨entry, member, same⟩
    · exact .inr same
  · rintro (⟨entry, member, same⟩ | same)
    · by_cases renewed : entry.1 = other
      · exact ⟨_, .inr rfl, renewed.symm.trans same⟩
      · exact ⟨entry, .inl ⟨member, renewed⟩, same⟩
    · exact ⟨_, .inr rfl, same⟩

/-- A change keeps the retries that are spent, and a retry spends its own. -/
theorem consumed_apply {metadata : Metadata} {change : Change}
    (spent : autoRetryConsumed metadata nodeId = true ∨ change.retries nodeId = true) :
    autoRetryConsumed (apply metadata change) nodeId = true := by
  cases change with
  | autoRetry other code retriedAt =>
    exact consumed_consumeAutoRetry.mpr (spent.imp_right fun same => of_decide_eq_true same)
  | relaunch progressAt =>
    simp only [RunRecord.apply]
    split
    · exact spent.resolve_right (by simp [Change.retries])
    · exact spent.resolve_right (by simp [Change.retries])
  | _ => exact spent.resolve_right (by simp [Change.retries])

/-- The retries of a node that were written. -/
def RunDir.retries (nodeId : String) (run : RunDir) : Nat := run.record.written.countP (Change.retries nodeId)

/-- The ledger and what the processes would write know the retry that was spent, and the process about to spend it is alone. -/
structure Ledger (nodeId : String) (run : RunDir) : Prop where
  alone : ∀ session ∈ run.record.sessions, session.change.retries nodeId = true →
    run.retries nodeId = 0 ∧ run.record.sessions.length ≤ 1
  once : run.retries nodeId ≤ 1
  told : 0 < run.retries nodeId → autoRetryConsumed run.record.file.content nodeId = true
  carries : ∀ session ∈ run.record.sessions, 0 < run.retries nodeId ∨ session.change.retries nodeId = true →
    autoRetryConsumed session.changed.content nodeId = true

theorem Ledger.write {run run' : RunDir} {label : UnlockedFile.Label Change} (ledger : Ledger nodeId run)
    (apart : RetriesAlone nodeId run (.record label)) (taken : run.write blank label = some run') : Ledger nodeId run' := by
  obtain ⟨record, step, rfl, whole, opens⟩ := write_cases taken
  cases label with
  | opens change =>
    obtain rfl := Option.some.inj step
    obtain ⟨free, others⟩ := apart
    refine ⟨List.forall_mem_cons.mpr ⟨fun retries => ⟨?_, ?_⟩, fun session member retries => ?_⟩, ledger.once, ledger.told,
      List.forall_mem_cons.mpr ⟨fun spent => ?_, ledger.carries⟩⟩
    · refine Nat.eq_zero_of_not_pos fun spent => ?_
      have known := ledger.told spent
      have asked := opens change rfl
      cases change with
      | autoRetry other code retriedAt =>
        obtain rfl : other = nodeId := of_decide_eq_true retries
        simp [RunDir.opens, known] at asked
      | _ => cases retries
    · rw [free retries]
      exact Nat.le_refl _
    · exact absurd retries (by simp [others session member])
    · exact consumed_apply (spent.imp_left ledger.told)
  | write index =>
    obtain ⟨session, found, rfl⟩ := Option.map_eq_some_iff.mp step
    have member := List.mem_of_getElem? found
    have count : ({ run with record := { run.record with
        file := session.changed
        sessions := run.record.sessions.eraseIdx index
        written := session.change :: run.record.written } } : RunDir).retries nodeId =
          run.retries nodeId + if session.change.retries nodeId then 1 else 0 :=
      List.countP_cons
    have left {other : FileSession Metadata Change} (inside : other ∈ run.record.sessions.eraseIdx index) :
        other ∈ run.record.sessions := List.mem_of_mem_eraseIdx inside
    by_cases retries : session.change.retries nodeId = true
    · -- the process that spends the retry was alone, so none is left
      obtain ⟨none, single⟩ := ledger.alone session member retries
      have closed : run.record.sessions.eraseIdx index = [] := by
        refine List.eq_nil_of_length_eq_zero ?_
        have inside := (List.getElem?_eq_some_iff.mp found).1
        rw [List.length_eraseIdx_of_lt inside]
        omega
      refine ⟨by simp [closed], ?_, fun _ => ledger.carries session member (.inr retries), by simp [closed]⟩
      rw [count, none, if_pos retries]
    · rw [if_neg retries, Nat.add_zero] at count
      refine ⟨fun other inside spends => ?_, count ▸ ledger.once, fun spent => ?_, fun other inside => ?_⟩
      · obtain ⟨none, single⟩ := ledger.alone other (left inside) spends
        exact ⟨count.trans none, Nat.le_trans (List.length_eraseIdx_le _ _) single⟩
      · exact ledger.carries session member (.inl (count ▸ spent))
      · rw [count]
        exact ledger.carries other (left inside)
  | die index =>
    obtain rfl := Option.some.inj step
    refine ⟨fun session member spends => ?_, ledger.once, ledger.told, fun session member => ?_⟩
    · obtain ⟨none, single⟩ := ledger.alone session (List.mem_of_mem_eraseIdx member) spends
      exact ⟨none, Nat.le_trans (List.length_eraseIdx_le _ _) single⟩
    · exact ledger.carries session (List.mem_of_mem_eraseIdx member)
  | damage => exact absurd rfl whole

/-- Where the process that spends the automatic retry of a node is alone with the record, whatever else overlaps or dies and however
often controllers start, the node gets no second automatic retry. -/
theorem one_automatic_retry {run : RunDir} (reach : (machine isAncestor hashPacket blank).Reach (RetriesAlone nodeId)
    (fun run => run = created hashPacket contractDigest contract launch baseRef lock controllerIdentity) run) :
    run.record.written.countP (Change.retries nodeId) ≤ 1 := by
  refine (reach.invariant (Ledger nodeId) ?_ fun run label run' ledger apart taken => ?_).once
  · rintro run rfl
    exact ⟨fun _ member => absurd member List.not_mem_nil, Nat.zero_le 1, fun no => absurd no (Nat.lt_irrefl 0),
      fun _ member => absurd member List.not_mem_nil⟩
  obtain rfl | ⟨checkout, accepted, -, rfl⟩ | ⟨nodeId, additions, node, -, rfl⟩ | ⟨label, rfl, taken⟩ := step_cases taken
  · exact ledger
  · exact ⟨ledger.alone, ledger.once, ledger.told, ledger.carries⟩
  · exact ⟨ledger.alone, ledger.once, ledger.told, ledger.carries⟩
  · exact ledger.write apart taken

/-- A controller that retries a node and dies; a supervisor relaunches the run and records that after the controller it launched
recorded its start; that one does not retry the node again. -/
def retriedRun : List Label :=
  [.record (.opens (.autoRetry "build" "provider_error" "t1")), .record (.write 0), .resume (headAt "b"),
    .record (.opens (.relaunch none)), .record (.opens (.start ⟨⟨2, none, "t2"⟩, ⟨"/other", "r"⟩, "e"⟩ acceptedAtB false)),
    .record (.write 0), .record (.write 0), .record (.opens (.park ⟨"parked", "stuck", 3⟩)), .record (.write 0)]

theorem one_automatic_retry_resumed : ∃ run,
    (machine fromA (fun _ => "h") launchedRecord).replay? (RetriesAlone "build") launchedRun retriedRun = some run ∧
    run.record.file.content.attention.isSome = true ∧ run.opens (.autoRetry "build" "provider_error" "t4") = false ∧
    run.record.written.countP (Change.retries "build") ≤ 1 :=
  Machine.exists_replay (fun run => run.record.file.content.attention.isSome = true ∧
      run.opens (.autoRetry "build" "provider_error" "t4") = false)
    (fun _ ran at' => ⟨at'.1, at'.2, one_automatic_retry (Machine.Reach.of_replay rfl _ ran)⟩) (by decide +kernel)

/-- A relaunch records what it read before the launch: a retry that was spent in between can be spent again. -/
theorem retry_forgotten {run : RunDir} {progressAt : Option Int} {code retriedAt : String} (free : run.record.sessions = [])
    (listed : code ∈ autoRetryCodes) (declared : ∃ node ∈ run.contract.nodes, node.id = nodeId)
    (unspent : autoRetryConsumed run.record.file.content nodeId = false) :
    ((machine isAncestor hashPacket blank).replay? Machine.free run
      [.record (.opens (.relaunch progressAt)), .record (.opens (.autoRetry nodeId code retriedAt)), .record (.write 0),
        .record (.write 0)]).map (fun after => autoRetryConsumed after.record.file.content nodeId) = some false := by
  have relaunched : autoRetryConsumed (apply run.record.file.content (.relaunch progressAt)) nodeId = false := by
    simp only [RunRecord.apply]
    split
    · exact unspent
    · exact unspent
  simp [Machine.replay?, machine, Machine.free, RunDir.step, RunDir.write, RunDir.opens, UnlockedFile.step, free, unspent,
    relaunched, listed, declared]

end Faberun.RunRecord
