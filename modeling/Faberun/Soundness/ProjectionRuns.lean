import Faberun.Soundness.Projection

/-! # The projection across calls and appends

Every read of a call keeps what the call holds tied to the journal's first bytes (`Reader.Sound`), whatever is appended
meanwhile. In the runs where no entry is completed between the read of the whole journal and its measure every call
returns the fold of the bytes it names, and these are all the runs that do.
-/

namespace Faberun.CampaignProjection

open Journal

variable {ν : Type} [Numerals ν] {dateParses : String → Bool} {bytes : List UInt8}

/-- What a call holds agrees with the journal. -/
def Reader.Sound (dateParses : String → Bool) (bytes : List UInt8) : Reader ν → Prop
  | idle | parsing _ => True
  | loaded stored => ∀ record, stored = some record → validProjectionRecord record = true →
      Exact dateParses bytes record.cursor record.byte record.projection
  | resuming stored _ => Exact dateParses bytes stored.cursor stored.byte stored.projection
  | delta stored _ _ => Exact dateParses bytes stored.cursor stored.byte stored.projection
  | measuring _ seen journal => Measured dateParses bytes seen journal bytes.length
  | scanning _ seen journal size _ => Measured dateParses bytes seen journal size
  | measured _ seen journal size byte =>
    Measured dateParses bytes seen journal size ∧ byte = completeBytes (bytes.take size)
  | resumed answer | returned answer => answer.Exact dateParses bytes

theorem Measured.append {seen : List UInt8} {journal : List (Entry ν)} {size : Nat}
    (measured : Measured dateParses bytes seen journal size) (more : List UInt8) :
    Measured dateParses (bytes ++ more) seen journal size := by
  have bound := measured.bound
  refine ⟨?_, ?_, measured.read⟩
  · rw [List.length_append]
    omega
  · rw [List.take_append_of_le_length bound]
    exact measured.begins

theorem Measured.grow {seen : List UInt8} {journal : List (Entry ν)} {size : Nat}
    (measured : Measured dateParses bytes seen journal size) : Measured dateParses bytes seen journal bytes.length := by
  refine ⟨le_refl _, ?_, measured.read⟩
  rw [List.take_length]
  exact measured.begins.trans (List.take_prefix size bytes)

theorem Reader.Sound.append {reader : Reader ν} (sound : reader.Sound dateParses bytes) (more : List UInt8) :
    reader.Sound dateParses (bytes ++ more) := by
  cases reader with
  | idle => trivial
  | loaded stored => exact fun record here valid => (sound record here valid).append more
  | resuming stored journalSize => exact Exact.append sound more
  | delta stored journalSize size => exact Exact.append sound more
  | parsing journalSize => trivial
  | measuring journalSize seen journal => exact (Measured.append sound more).grow
  | scanning journalSize seen journal size start => exact Measured.append sound more
  | measured journalSize seen journal size byte =>
    refine ⟨sound.1.append more, ?_⟩
    rw [List.take_append_of_le_length sound.1.bound]
    exact sound.2
  | resumed answer => exact Exact.append sound more
  | returned answer => exact Exact.append sound more

private theorem readJournal_bytes {journal : Option (List UInt8)} {entries : List (Entry ν)}
    (read : readJournal dateParses (journal.map Utf8.decode) = .ok entries) :
    deltaEntries dateParses (completeLines (journal.getD [])) = some entries := by
  cases journal with
  | none =>
    obtain rfl := Except.ok.inj read
    rfl
  | some bytes => exact readJournal_decode_iff.mp read

/-- One read of a call. -/
theorem Reader.Sound.read {journal : Option (List UInt8)} {reader next : Reader ν}
    (sound : reader.Sound dateParses (journal.getD [])) (taken : reader.read dateParses journal = some next) :
    next.Sound dateParses (journal.getD []) := by
  cases reader with
  | idle => exact nomatch taken
  | loaded stored =>
    cases stored with
    | none =>
      obtain rfl := Option.some.inj taken
      trivial
    | some record =>
      simp only [Reader.read, Option.some.injEq] at taken
      split_ifs at taken with trusted <;> subst taken
      · exact sound record rfl trusted.1
      · trivial
  | resuming stored journalSize =>
    cases journal with
    | none =>
      obtain rfl := Option.some.inj taken
      exact Exact.unchanged sound journalSize
    | some bytes =>
      simp only [Reader.read, Option.some.injEq] at taken
      split_ifs at taken with covered <;> subst taken
      · exact Exact.unchanged sound journalSize
      · exact sound
  | delta stored journalSize size =>
    simp only [Reader.read] at taken
    split at taken <;> obtain rfl := Option.some.inj taken
    · trivial
    · rename_i entries read
      exact Exact.resume sound read journalSize
  | parsing journalSize =>
    simp only [Reader.read] at taken
    split at taken <;> obtain rfl := Option.some.inj taken
    · trivial
    · rename_i entries read
      exact ⟨le_refl _, List.take_length.symm ▸ List.prefix_rfl, readJournal_bytes read⟩
  | measuring journalSize seen entries =>
    have whole : Measured dateParses (journal.getD []) seen entries (journal.getD []).length := sound
    simp only [Reader.read, Option.some.injEq] at taken
    split_ifs at taken with empty <;> subst taken
    · rw [empty] at whole
      exact ⟨whole, rfl⟩
    · exact whole
  | scanning journalSize seen entries size start =>
    have whole : Measured dateParses (journal.getD []) seen entries size := sound
    have length : ((journal.getD []).take size).length = size := by
      rw [List.length_take]
      exact min_eq_left whole.bound
    simp only [Reader.read] at taken
    split at taken
    · rename_i last
      obtain rfl := Option.some.inj taken
      exact ⟨whole, by rw [scan_ended last, length]⟩
    · split at taken
      · rename_i index found
        obtain rfl := Option.some.inj taken
        exact ⟨whole, (scan_found found).symm⟩
      · rename_i none
        obtain rfl := Option.some.inj taken
        split_ifs with first
        · subst first
          exact ⟨whole, (scan_none none).symm⟩
        · exact whole
  | measured journalSize seen entries size byte => exact nomatch taken
  | resumed answer => exact nomatch taken
  | returned answer => exact nomatch taken

/-! ## Runs -/

variable {ρ : Type} {s t : State ρ ν}

/-- What is stored, held and returned agrees with the journal. -/
structure Sound (dateParses : String → Bool) (s : State ρ ν) : Prop where
  stored : ∀ record, s.stored = some record → validProjectionRecord record = true →
    Exact dateParses s.bytes record.cursor record.byte record.projection
  readers : ∀ reader, (s.readers reader).Sound dateParses s.bytes
  answers : ∀ answer ∈ s.answers, answer.Exact dateParses s.bytes

theorem Initial.sound (initial : Initial dateParses s) : Sound dateParses s := by
  obtain ⟨stored, idle, none⟩ := initial
  refine ⟨stored, fun reader => ?_, ?_⟩
  · rw [idle reader]
    trivial
  · simp [none]

/-- The answer a call has is exact, unless an entry was completed before its measure. -/
theorem answer_exact {reader : ρ} {answer : Answer ν} (sound : Sound dateParses s)
    (unmoved : Unmoved s (.answer reader)) (answered : (s.readers reader).answer? = some answer) :
    answer.Exact dateParses s.bytes := by
  have here := sound.readers reader
  cases held : s.readers reader with
  | measured journalSize seen journal size byte =>
    rw [held] at here answered
    simp only [Unmoved, held] at unmoved
    obtain rfl := Option.some.inj answered
    obtain ⟨whole, rfl⟩ := here
    exact whole.exact_iff.mpr unmoved
  | resumed earlier =>
    rw [held] at here answered
    obtain rfl := Option.some.inj answered
    exact here
  | _ =>
    rw [held] at answered
    exact nomatch answered

variable [DecidableEq ρ]

omit [Numerals ν] in
private theorem update_sound {P : Reader ν → Prop} (others : ∀ reader, P (s.readers reader)) {reader : ρ}
    {next : Reader ν} (here : P next) (other : ρ) : P (Function.update s.readers reader next other) := by
  rcases eq_or_ne other reader with rfl | different
  · rw [Function.update_self]
    exact here
  · rw [Function.update_of_ne different]
    exact others other

private theorem Sound.withReader (sound : Sound dateParses s) {reader : ρ} {next : Reader ν}
    (here : next.Sound dateParses s.bytes) : Sound dateParses (s.withReader reader next) :=
  ⟨sound.stored, update_sound sound.readers here, sound.answers⟩

/-- Every step under the condition keeps the agreement. -/
theorem Sound.step (sound : Sound dateParses s) {label : Label ρ} (unmoved : Unmoved s label)
    (taken : s.step dateParses label = some t) : Sound dateParses t := by
  cases label with
  | append more =>
    obtain rfl := Option.some.inj taken
    exact ⟨fun record here valid => (sound.stored record here valid).append more,
      fun reader => (sound.readers reader).append more, fun answer member => (sound.answers answer member).append more⟩
  | lose =>
    obtain rfl := Option.some.inj taken
    exact ⟨nofun, sound.readers, sound.answers⟩
  | begin reader =>
    simp only [State.step] at taken
    split at taken
    · obtain rfl := Option.some.inj taken
      exact sound.withReader sound.stored
    · exact nomatch taken
  | read reader =>
    obtain ⟨next, read, rfl⟩ := Option.map_eq_some_iff.mp taken
    exact sound.withReader ((sound.readers reader).read read)
  | answer reader =>
    obtain ⟨answer, answered, rfl⟩ := Option.map_eq_some_iff.mp taken
    have exact := answer_exact sound unmoved answered
    refine ⟨sound.stored, update_sound sound.readers exact, ?_⟩
    intro other member
    rcases List.mem_append.mp member with earlier | last
    · exact sound.answers other earlier
    · obtain rfl := List.mem_singleton.mp last
      exact exact
  | store reader =>
    have here := sound.readers reader
    simp only [State.step] at taken
    split at taken
    · rename_i answer held
      obtain rfl := Option.some.inj taken
      rw [held] at here
      refine ⟨?_, update_sound sound.readers trivial, sound.answers⟩
      intro record kept valid
      split_ifs at kept with changed
      · obtain rfl := Option.some.inj kept
        exact here
      · exact sound.stored record kept valid
    · exact nomatch taken
  | leave reader =>
    simp only [State.step] at taken
    split at taken
    · obtain rfl := Option.some.inj taken
      exact sound.withReader trivial
    · exact nomatch taken

theorem sound_of_reach (reach : (machine ρ ν dateParses).Reach Unmoved (Initial dateParses) s) : Sound dateParses s :=
  reach.invariant (Sound dateParses) (fun _ initial => initial.sound)
    fun _ _ _ sound unmoved taken => sound.step unmoved taken

/-! ## Only then -/

/-- A step only appends to the journal and to the answers. -/
theorem step_grows {label : Label ρ} (taken : s.step dateParses label = some t) :
    s.bytes <+: t.bytes ∧ s.answers <+: t.answers := by
  cases label with
  | append more =>
    obtain rfl := Option.some.inj taken
    exact ⟨List.prefix_append .., List.prefix_rfl⟩
  | lose =>
    obtain rfl := Option.some.inj taken
    exact ⟨List.prefix_rfl, List.prefix_rfl⟩
  | read reader =>
    obtain ⟨next, -, rfl⟩ := Option.map_eq_some_iff.mp taken
    exact ⟨List.prefix_rfl, List.prefix_rfl⟩
  | answer reader =>
    obtain ⟨answer, -, rfl⟩ := Option.map_eq_some_iff.mp taken
    exact ⟨List.prefix_rfl, List.prefix_append ..⟩
  | begin reader | store reader | leave reader =>
    simp only [State.step] at taken
    split at taken
    · obtain rfl := Option.some.inj taken
      exact ⟨List.prefix_rfl, List.prefix_rfl⟩
    · exact nomatch taken

/-- Whether an answer is exact is settled by the bytes the journal had when it was given. -/
private theorem unmoved_of_exact (sound : Sound dateParses s) {label : Label ρ}
    (taken : s.step dateParses label = some t) {later : List UInt8} (grown : s.bytes <+: later)
    (exact : ∀ answer ∈ t.answers, answer.Exact dateParses later) : Unmoved s label := by
  cases label with
  | answer reader =>
    obtain ⟨answer, answered, rfl⟩ := Option.map_eq_some_iff.mp taken
    have here := sound.readers reader
    have given := exact answer (by simp)
    cases held : s.readers reader with
    | measured journalSize seen journal size byte =>
      rw [held] at here answered
      obtain rfl := Option.some.inj answered
      obtain ⟨whole, rfl⟩ := here
      obtain ⟨more, rfl⟩ := grown
      have below := completeBytes_le (s.bytes.take size)
      rw [List.length_take] at below
      have bound : completeBytes (s.bytes.take size) ≤ s.bytes.length := by omega
      simp only [Unmoved, held]
      refine whole.exact_iff.mp ⟨bound, ?_, ?_⟩
      · have ended := given.ended
        rwa [List.take_append_of_le_length bound] at ended
      · have folded := given.folded
        rwa [List.take_append_of_le_length bound] at folded
    | _ => simp only [Unmoved, held]
  | _ => trivial

private theorem unmoved_run (reach : (machine ρ ν dateParses).Reach Machine.free (Initial dateParses) s)
    {later : List UInt8} (grown : s.bytes <+: later) (exact : ∀ answer ∈ s.answers, answer.Exact dateParses later) :
    (machine ρ ν dateParses).Reach Unmoved (Initial dateParses) s := by
  induction reach with
  | start initial => exact .start initial
  | next _ _ taken ih =>
    have grows := step_grows taken
    have before := ih (grows.1.trans grown) fun answer member => exact answer (grows.2.subset member)
    exact .next before (unmoved_of_exact (sound_of_reach before) taken (grows.1.trans grown) exact) taken

/-- The runs whose calls all return the fold of the bytes they name are the runs that complete no entry between a read
of the whole journal and its measure. -/
theorem readProjectionState_exact : (machine ρ ν dateParses).Reach Unmoved (Initial dateParses) s ↔
    (machine ρ ν dateParses).Reach Machine.free (Initial dateParses) s ∧
      ∀ answer ∈ s.answers, answer.Exact dateParses s.bytes := by
  constructor
  · intro reach
    exact ⟨reach.mono fun _ _ _ => trivial, (sound_of_reach reach).answers⟩
  · rintro ⟨reach, exact⟩
    exact unmoved_run reach List.prefix_rfl exact

/-! ## An entry lost between two reads -/

theorem Exact.entries {cursor byte : Nat} {projection : Projection ν}
    (exact : Exact dateParses bytes cursor byte projection) : cursor = (entryLines (bytes.take byte)).length := by
  obtain ⟨-, -, entries, read, -, count⟩ := exact_iff.mp exact
  rw [count, deltaEntries_length read, entryLines]

/-- When the entries below were written. -/
def writtenAt : String := "2026-09-01T09:00:00.000Z"

/-- `Date.parse` on the entries below. -/
def parsesDate (text : String) : Bool := text == writtenAt

/-- A journal line. -/
def constraintLine (eventId : String) : List UInt8 :=
  ("\x7b\"at\":\"" ++ writtenAt ++ "\",\"type\":\"constraint\",\"eventId\":\"" ++ eventId ++
    "\",\"sessionId\":\"s\",\"text\":\"x\"\x7d\n").toList.map fun c => UInt8.ofNat c.toNat

/-- One entry in the journal, no projection and no call. -/
def oneEntry : State Unit Nat := ⟨some (constraintLine "a"), none, fun _ => .idle, []⟩

/-- A second entry is appended after `readJournal` and before `completeJournalByte`: both are covered, one is folded. -/
theorem readProjectionState_skips : ∃ s : State Unit Nat,
    (machine Unit Nat parsesDate).Reach Machine.free (Initial parsesDate) s ∧
      ∃ answer ∈ s.answers, ¬ answer.Exact parsesDate s.bytes := by
  have initial : Initial parsesDate oneEntry := ⟨nofun, fun _ => rfl, rfl⟩
  have ran : ∃ t, (machine Unit Nat parsesDate).replay? Machine.free oneEntry
      [.begin (), .read (), .read (), .append (constraintLine "b"), .read (), .read (), .answer ()] = some t ∧
        ∃ answer ∈ t.answers, answer.cursor ≠ (entryLines (t.bytes.take answer.byte)).length :=
    Machine.exists_replay
      (fun t => t.answers.any fun answer => answer.cursor != (entryLines (t.bytes.take answer.byte)).length)
      (fun t _ check => by simpa using check) (by decide +kernel)
  obtain ⟨s, ran, answer, member, differs⟩ := ran
  exact ⟨s, .of_replay initial _ ran, answer, member, fun exact => differs exact.entries⟩

end Faberun.CampaignProjection
