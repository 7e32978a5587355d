import Faberun.Model.Campaign.Ledger
import Faberun.Text.ByteLines

/-! # The evidence a ledger keeps

Whatever dies and whenever, every file of a ledger is the beginning of what its source once was, and what the manifest calls
preserved is there. A reledger only appends: a copy it does not extend stays, and so does that of the node snapshots, which
is one line and can not be extended by another line.
-/

namespace Faberun.Ledger

variable {project : RunSource → Bytes → Option Bytes} {s s' : State} {pass : Pass} {file : LedgerFile} {rest : List Item}
variable {source projected bytes : Bytes} {existing : Option Bytes} {verb : Verb}

/-! ## What is written -/

theorem written_some (writes : written verb existing projected = some bytes) :
    bytes = projected ∧ (verb = .reledger → ∀ held ∈ existing, held <+: projected ∧ held.length < projected.length) := by
  cases verb with
  | preserve => exact ⟨(Option.some.inj writes).symm, fun other => by cases other⟩
  | reledger =>
    cases existing with
    | none => exact ⟨(Option.some.inj writes).symm, fun _ held none' => by cases none'⟩
    | some held =>
      simp only [written, writeIfStrictExtension] at writes
      split_ifs at writes with shorter
      rw [not_or, Nat.not_le, not_not] at shorter
      refine ⟨(Option.some.inj writes).symm, fun _ other same => ?_⟩
      obtain rfl := Option.some.inj same
      exact ⟨shorter.2 ▸ List.take_prefix _ _, shorter.1⟩

/-- Where nothing is written, a copy is there. -/
theorem written_none (keeps : written verb existing projected = none) : existing.isSome = true := by
  cases verb with
  | preserve => cases keeps
  | reledger =>
    cases existing with
    | none => cases keeps
    | some held => rfl

/-! ## What a step does -/

/-- What a step does, by what it leaves. -/
inductive Moved (project : RunSource → Bytes → Option Bytes) (s : State) : Label → State → Prop
  | begun (verb : Verb) (linkedRunIds : List String) : Moved project s (.begins verb linkedRunIds)
      { s with pass := some ⟨verb, items linkedRunIds, readSourceManifest s.manifest⟩ }
  | looked {label : Label} (pass : Pass) (working : s.pass = some pass) (rest : List Item) (sets : Manifest)
      (preserved : sets.preserved = pass.sets.preserved)
      (absent : ∀ file ∈ sets.absent, file ∈ pass.sets.absent ∨ file ∉ pass.sets.preserved) :
      Moved project s label { s with pass := some { pass with todo := rest, sets } }
  | kept {label : Label} (pass : Pass) (working : s.pass = some pass) (file : LedgerFile) (rest : List Item) (source : Bytes)
      (stands : (s.files file).isSome = true) : Moved project s label { s with
        read := (file, source) :: s.read
        pass := some { pass with todo := rest, sets := pass.sets.keep file } }
  | copied (pass : Pass) (working : s.pass = some pass) (file : LedgerFile) (rest : List Item) (source projected : Bytes)
      (answer : project file.source source = some projected)
      (writes : written pass.verb (s.files file) projected = some projected) :
      Moved project s (.copy source) { s.put file projected with
        read := (file, source) :: s.read
        pass := some { pass with todo := rest, sets := pass.sets.keep file } }
  | torn (file : LedgerFile) (source projected : Bytes) (kept : Nat) (answer : project file.source source = some projected) :
      Moved project s (.torn source kept) { s.put file (projected.take kept) with
        read := (file, source) :: s.read
        pass := none }
  | finished {label : Label} (pass : Pass) (working : s.pass = some pass) :
      Moved project s label { s with manifest := some pass.sets, pass := none }
  | stopped {label : Label} (manifest : Option Manifest) (read : List (LedgerFile × Bytes))
      (left : manifest = none ∨ manifest = s.manifest) (more : s.read ⊆ read) :
      Moved project s label { s with manifest, read, pass := none }

theorem moved_copy (working : s.pass = some pass) (file : LedgerFile) (rest : List Item) (source : Bytes) :
    Moved project s (.copy source) (s.copy project pass file rest source) := by
  simp only [State.copy]
  cases answer : project file.source source with
  | none => exact .stopped s.manifest _ (.inr rfl) (List.subset_cons_self _ _)
  | some projected =>
    simp only
    cases writes : written pass.verb (s.files file) projected with
    | none => exact .kept pass working file rest source (written_none writes)
    | some bytes =>
      obtain ⟨rfl, -⟩ := written_some writes
      exact .copied pass working file rest source bytes answer writes

theorem moved_of_step {label : Label} (taken : step project s label = some s') : Moved project s label s' := by
  cases label with
  | begins verb linkedRunIds =>
    obtain rfl := Option.some.inj taken
    exact .begun verb linkedRunIds
  | run planning =>
    simp only [step, Option.bind_eq_bind, Option.bind_eq_some_iff] at taken
    obtain ⟨pass, working, taken⟩ := taken
    split at taken
    · obtain rfl := Option.some.inj taken
      refine .looked pass working _ _ ?_ fun file member => .inl ?_
      · split_ifs <;> rfl
      · split_ifs at member <;> exact member
    · cases taken
  | missing =>
    simp only [step, Option.bind_eq_bind, Option.bind_eq_some_iff] at taken
    obtain ⟨pass, working, taken⟩ := taken
    split at taken
    · rename_i file rest _
      obtain rfl := Option.some.inj taken
      refine .looked pass working _ _ ?_ fun other member => ?_
      · cases pass.verb with
        | preserve => simp only [Manifest.miss]; split_ifs <;> rfl
        | reledger => rfl
      · cases asked : pass.verb with
        | preserve =>
          rw [asked] at member
          simp only [Manifest.miss] at member
          split_ifs at member with known
          · exact .inl member
          · obtain rfl | old := Finset.mem_insert.mp member
            · exact .inr known
            · exact .inl old
        | reledger =>
          rw [asked] at member
          exact .inl member
    · cases taken
  | copy source =>
    simp only [step, Option.bind_eq_bind, Option.bind_eq_some_iff] at taken
    obtain ⟨pass, working, taken⟩ := taken
    split at taken
    · obtain rfl := Option.some.inj taken
      exact moved_copy working _ _ _
    · cases taken
  | torn source kept =>
    simp only [step, Option.bind_eq_bind, Option.bind_eq_some_iff] at taken
    obtain ⟨pass, working, taken⟩ := taken
    split at taken
    · obtain ⟨projected, answer, taken⟩ := Option.bind_eq_some_iff.mp taken
      obtain ⟨bytes, writes, rfl⟩ := Option.map_eq_some_iff.mp taken
      obtain ⟨rfl, -⟩ := written_some writes
      exact .torn _ source bytes kept answer
    · cases taken
  | finish =>
    simp only [step, Option.bind_eq_bind, Option.bind_eq_some_iff] at taken
    obtain ⟨pass, working, taken⟩ := taken
    split at taken
    · obtain rfl := Option.some.inj taken
      exact .finished pass working
    · cases taken
  | tornManifest =>
    simp only [step, Option.bind_eq_bind, Option.bind_eq_some_iff] at taken
    obtain ⟨pass, working, taken⟩ := taken
    split at taken
    · obtain rfl := Option.some.inj taken
      exact .stopped none s.read (.inl rfl) (List.Subset.refl _)
    · cases taken
  | die =>
    obtain rfl := Option.some.inj taken
    exact .stopped s.manifest s.read (.inr rfl) (List.Subset.refl _)

/-! ## What holds of a ledger -/

/-- A manifest that calls preserved what is there, and nothing it calls absent. -/
structure Manifest.Sound (files : LedgerFile → Option Bytes) (sets : Manifest) : Prop where
  stands : ∀ file ∈ sets.preserved, (files file).isSome = true
  apart : ∀ file ∈ sets.preserved, file ∉ sets.absent

theorem sound_unread {files : LedgerFile → Option Bytes} : Manifest.Sound files (readSourceManifest none) :=
  ⟨fun _ member => absurd member (Finset.notMem_empty _), fun _ member => absurd member (Finset.notMem_empty _)⟩

theorem Manifest.Sound.keep {files : LedgerFile → Option Bytes} {sets : Manifest} (sound : sets.Sound files)
    (stands : (files file).isSome = true) : (sets.keep file).Sound files := by
  refine ⟨fun other member => ?_, fun other member gone => ?_⟩
  · obtain rfl | old := Finset.mem_insert.mp member
    · exact stands
    · exact sound.stands other old
  · obtain ⟨differs, absent⟩ := Finset.mem_erase.mp gone
    exact sound.apart other ((Finset.mem_insert.mp member).resolve_left differs) absent

theorem Manifest.Sound.mono {files later : LedgerFile → Option Bytes} {sets : Manifest} (sound : sets.Sound files)
    (more : ∀ file, (files file).isSome = true → (later file).isSome = true) : sets.Sound later :=
  ⟨fun file member => more file (sound.stands file member), sound.apart⟩

theorem put_self (file : LedgerFile) (bytes : Bytes) : (s.put file bytes).files file = some bytes := Function.update_self ..

theorem put_of_ne {other : LedgerFile} (differs : other ≠ file) (bytes : Bytes) :
    (s.put file bytes).files other = s.files other :=
  Function.update_of_ne differs ..

theorem put_stands (file : LedgerFile) (bytes : Bytes) :
    ((s.put file bytes).files file).isSome = true ∧
      ∀ other, (s.files other).isSome = true → ((s.put file bytes).files other).isSome = true := by
  refine ⟨by rw [put_self]; rfl, fun other stands => ?_⟩
  by_cases same : other = file
  · rw [same, put_self]
    rfl
  · rw [put_of_ne same]
    exact stands

/-- The bytes of a file are the beginning of what a source made that was read. -/
def Made (project : RunSource → Bytes → Option Bytes) (read : List (LedgerFile × Bytes)) (file : LedgerFile) (bytes : Bytes) :
    Prop :=
  ∃ source projected, (file, source) ∈ read ∧ project file.source source = some projected ∧ bytes <+: projected

theorem Made.mono {read more : List (LedgerFile × Bytes)} (made : Made project read file bytes) (subset : read ⊆ more) :
    Made project more file bytes := by
  obtain ⟨source, projected, seen, answer, part⟩ := made
  exact ⟨source, projected, subset seen, answer, part⟩

/-- What holds of a ledger in every run. -/
structure Accounted (project : RunSource → Bytes → Option Bytes) (s : State) : Prop where
  manifest : (readSourceManifest s.manifest).Sound s.files
  pass : ∀ pass ∈ s.pass, pass.sets.Sound s.files
  made : ∀ file bytes, s.files file = some bytes → Made project s.read file bytes

/-- A file that is written with the beginning of what its source made. -/
theorem Accounted.made_put (accounted : Accounted project s) (answer : project file.source source = some projected)
    (part : bytes <+: projected) (other : LedgerFile) (held : Bytes) (stands : (s.put file bytes).files other = some held) :
    Made project ((file, source) :: s.read) other held := by
  by_cases same : other = file
  · subst same
    obtain rfl := Option.some.inj ((put_self other bytes).symm.trans stands)
    exact ⟨source, projected, List.mem_cons_self, answer, part⟩
  · rw [put_of_ne same] at stands
    exact (accounted.made other held stands).mono (List.subset_cons_self _ _)

theorem Accounted.moved {label : Label} (accounted : Accounted project s) (moved : Moved project s label s') :
    Accounted project s' := by
  obtain ⟨manifest, passes, made⟩ := accounted
  have older (file : LedgerFile) (source : Bytes) (other : LedgerFile) (bytes : Bytes) (stands : s.files other = some bytes) :
      Made project ((file, source) :: s.read) other bytes := (made other bytes stands).mono (List.subset_cons_self _ _)
  cases moved with
  | begun verb linkedRunIds => exact ⟨manifest, fun pass here => Option.some.inj here ▸ manifest, made⟩
  | looked pass working rest sets preserved absent =>
    have sound := passes pass working
    refine ⟨manifest, fun next here => ?_, made⟩
    obtain rfl := Option.some.inj here
    refine ⟨fun file member => sound.stands file (preserved ▸ member), fun file member gone => ?_⟩
    have old : file ∈ pass.sets.preserved := preserved ▸ member
    obtain missing | fresh := absent file gone
    · exact sound.apart file old missing
    · exact fresh old
  | kept pass working file rest source stands =>
    exact ⟨manifest, fun next here => Option.some.inj here ▸ (passes pass working).keep stands, older file source⟩
  | copied pass working file rest source projected answer writes =>
    obtain ⟨stands, more⟩ := put_stands (s := s) file projected
    refine ⟨manifest.mono more, fun next here => ?_, ?_⟩
    · exact Option.some.inj here ▸ ((passes pass working).mono more).keep stands
    · exact Accounted.made_put ⟨manifest, passes, made⟩ answer (List.prefix_refl _)
  | torn file source projected kept answer =>
    obtain ⟨stands, more⟩ := put_stands (s := s) file (projected.take kept)
    refine ⟨manifest.mono more, fun next here => (by cases here), ?_⟩
    exact Accounted.made_put ⟨manifest, passes, made⟩ answer (List.take_prefix _ _)
  | finished pass working => exact ⟨passes pass working, fun next here => (by cases here), made⟩
  | stopped left read same more =>
    refine ⟨?_, fun next here => (by cases here), fun file bytes stands => (made file bytes stands).mono more⟩
    obtain rfl | rfl := same
    · exact sound_unread
    · exact manifest

/-- In every run, whatever dies and whenever: every file of a ledger is the beginning of what its source once was, every
file the manifest calls preserved is there, and none of them is called absent. -/
theorem ledger_accounted (reach : (machine project).Reach Machine.free (fun s => s = empty) s) :
    (∀ file bytes, s.files file = some bytes → Made project s.read file bytes) ∧
    (∀ file ∈ (readSourceManifest s.manifest).preserved,
      (∃ bytes, s.files file = some bytes) ∧ file ∉ (readSourceManifest s.manifest).absent) := by
  have accounted : Accounted project s := by
    refine reach.invariant (Accounted project) ?_ fun s label s' accounted _ taken => accounted.moved (moved_of_step taken)
    rintro s rfl
    exact ⟨sound_unread, fun pass here => (by cases here), fun file bytes none' => by cases none'⟩
  exact ⟨accounted.made, fun file member =>
    ⟨Option.isSome_iff_exists.mp (accounted.manifest.stands file member), accounted.manifest.apart file member⟩⟩

/-! ## What a reledger keeps -/

/-- Copies are those of a reledger, and none is cut short. -/
def Appends (s : State) : Label → Prop
  | .copy _ => ∀ pass ∈ s.pass, pass.verb = .reledger
  | .torn _ _ => False
  | .begins _ _ | .run _ | .missing | .finish | .tornManifest | .die => True

instance : DecidableRel Appends := fun s label =>
  match label with
  | .copy _ => inferInstanceAs (Decidable (∀ pass ∈ s.pass, pass.verb = .reledger))
  | .torn _ _ => instDecidableFalse
  | .begins _ _ | .run _ | .missing | .finish | .tornManifest | .die => instDecidableTrue

/-- What a source makes is one ended line. -/
def OneLine (project : RunSource → Bytes → Option Bytes) (source : RunSource) : Prop :=
  ∀ bytes projected, project source bytes = some projected → ∃ text, newline ∉ text ∧ projected = text ++ [newline]

/-- An ended line does not begin a longer one. -/
theorem not_prefix_of_line {text other : Bytes} (line : newline ∉ other) (longer : text.length < other.length) :
    ¬text ++ [newline] <+: other ++ [newline] := by
  intro part
  obtain same | inside := List.prefix_concat_iff.mp part
  · have length := congrArg List.length same
    simp only [List.length_append, List.length_singleton] at length
    omega
  · exact line (inside.subset (List.mem_append_right _ (List.mem_singleton_self _)))

/-- A copy a reledger writes extends what was there. -/
theorem appends_of_moved {label : Label} (appends : Appends s label) (moved : Moved project s label s') (file : LedgerFile)
    (held : Bytes) (stands : s.files file = some held) : s'.files file = some held ∨
      ∃ source projected, project file.source source = some projected ∧ s'.files file = some projected ∧
        held <+: projected ∧ held.length < projected.length := by
  cases moved with
  | copied pass working written' rest source projected answer writes =>
    by_cases same : file = written'
    · subst same
      obtain ⟨part, longer⟩ := (written_some writes).2 (appends pass working) held stands
      exact .inr ⟨source, projected, answer, put_self file projected, part, longer⟩
    · exact .inl ((put_of_ne same projected).trans stands)
  | torn => exact absurd appends id
  | _ => exact .inl stands

/-- However many reledgers follow, whatever dies between two writes: no copy loses a byte. A whole copy of the node
snapshots is one line, so that no reledger ever changes it. -/
theorem reledger_appends {before after : State} (lines : OneLine project .nodes)
    (reach : (machine project).Reach Appends (fun s => s = before) after) :
    (∀ file held, before.files file = some held → ∃ later, after.files file = some later ∧ held <+: later) ∧
    (∀ runId text, newline ∉ text → before.files ⟨runId, .nodes⟩ = some (text ++ [newline]) →
      after.files ⟨runId, .nodes⟩ = some (text ++ [newline])) := by
  constructor
  · intro file held stood
    refine reach.invariant (fun s => ∃ later, s.files file = some later ∧ held <+: later) ?_ ?_
    · rintro s rfl
      exact ⟨held, stood, List.prefix_refl _⟩
    · rintro s label s' ⟨later, stands, part⟩ appends taken
      obtain kept | ⟨source, projected, -, written', more, -⟩ :=
        appends_of_moved appends (moved_of_step taken) file later stands
      · exact ⟨later, kept, part⟩
      · exact ⟨projected, written', part.trans more⟩
  · intro runId text line stood
    refine reach.invariant (fun s => s.files ⟨runId, .nodes⟩ = some (text ++ [newline])) ?_ ?_
    · rintro s rfl
      exact stood
    · intro s label s' stands appends taken
      obtain kept | ⟨source, projected, answer, -, part, longer⟩ :=
        appends_of_moved appends (moved_of_step taken) _ _ stands
      · exact kept
      · obtain ⟨other, plain, rfl⟩ := lines source projected answer
        simp only [List.length_append, List.length_singleton, Nat.add_lt_add_iff_right] at longer
        exact absurd part (not_prefix_of_line plain longer)

/-- Node snapshots become one line; the other sources are copied. -/
def lineOfNodes : RunSource → Bytes → Option Bytes
  | .nodes, bytes => some ((bytes.filter fun byte => byte ≠ newline) ++ [newline])
  | .events, bytes | .usage, bytes | .notify, bytes => some bytes

theorem lineOfNodes_oneLine : OneLine lineOfNodes .nodes := by
  intro bytes projected answer
  exact ⟨_, by simp [List.mem_filter], (Option.some.inj answer).symm⟩

/-- A close of a campaign with one run. -/
def closedRun : List Label :=
  [.begins .preserve ["r1"], .run false, .copy [1, newline], .missing, .missing, .copy [5], .finish]

/-- A reledger after the run went on. -/
def laterRun : List Label :=
  [.begins .reledger ["r1"], .run false, .copy [1, newline, 2, newline], .missing, .missing, .copy [5, 6], .finish]

def closedLedger : State := ((machine lineOfNodes).replay? Machine.free empty closedRun).getD empty

/-- The events of the run are completed, its node snapshots stay those of the close. -/
theorem reledger_appends_later : ∃ after, (machine lineOfNodes).replay? Appends closedLedger laterRun = some after ∧
    after.files ⟨"r1", .events⟩ = some [1, newline, 2, newline] ∧ after.files ⟨"r1", .nodes⟩ = some [5, newline] :=
  Machine.exists_replay (fun after => after.files ⟨"r1", .events⟩ = some [1, newline, 2, newline])
    (fun _ ran events => ⟨events, (reledger_appends lineOfNodes_oneLine (Machine.Reach.of_replay rfl _ ran)).2 "r1" [5]
      (by decide) (by decide)⟩) (by decide)

theorem ledger_accounted_torn : ∃ s, (machine lineOfNodes).replay? Machine.free empty
      (closedRun ++ [.begins .reledger ["r1"], .run false, .torn [1, newline, 2, newline] 1]) = some s ∧
    s.files ⟨"r1", .events⟩ = some [1] ∧ (∃ bytes, s.files ⟨"r1", .nodes⟩ = some bytes) :=
  Machine.exists_replay (fun s => s.files ⟨"r1", .events⟩ = some [1] ∧
      (⟨"r1", .nodes⟩ : LedgerFile) ∈ (readSourceManifest s.manifest).preserved)
    (fun _ ran held => ⟨held.1, ((ledger_accounted (Machine.Reach.of_replay rfl _ ran)).2 _ held.2).1⟩) (by decide)

end Faberun.Ledger
