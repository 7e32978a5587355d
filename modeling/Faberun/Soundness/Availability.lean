import Faberun.Model.Run.Availability

/-! # What a recorded verdict says

Whatever the processes of a machine write over each other, a refusal that is read was met by one of them and its reset is
still to come, and an answer that is read is no older than its window. When no two of them overlap, the last verdict
decides.
-/

namespace Faberun.Availability

variable {dates : Dates} {verdicts : Verdicts} {key : String} {now then' : Int} {refusal : Refusal}

/-! ## The verdicts -/

theorem window_named : trimText preflightWindow.toList ≠ [] := by decide

theorem reason_named : ∀ reason ∈ "answered" :: refusalReasons, trimText reason.toList ≠ [] := by decide

theorem validates_answeredAt : validates dates (answeredAt dates now) = true := by
  have named : decide (trimText "answered".toList ≠ []) = true := decide_eq_true (reason_named _ List.mem_cons_self)
  rw [validates, answeredAt, named, Option.all_some, Option.all_some, dates.parse_toIso, decide_eq_true window_named]
  rfl

theorem validates_refusedAt : validates dates (refusedAt dates refusal now) = true := by
  simp [validates, refusedAt, dates.parse_toIso, reason_named _ (List.mem_cons_of_mem _ refusal.known), window_named]

theorem toIso_ne_empty (instant : Int) : dates.toIso instant ≠ "" := by
  intro empty
  have parsed := dates.parse_toIso instant
  rw [empty, dates.parse_empty] at parsed
  cases parsed

/-- An answer is fresh for fifteen minutes. -/
theorem isFresh_answeredAt : isFresh dates (answeredAt dates then') now = true ↔ now ≤ then' + 15 * 60 * 1000 := by
  simp [isFresh, answeredAt, Routing.isRuntimeAvailable, nonempty?, Routing.availabilityWindowSec, preflightWindow,
    dates.parse_toIso]

/-- A refusal reads as fresh once its reset has passed, for what is left of its fifteen minutes. -/
theorem isFresh_refusedAt : isFresh dates (refusedAt dates refusal then') now = true ↔
    heldUntil refusal then' ≤ now ∧ now ≤ then' + 15 * 60 * 1000 := by
  simp [isFresh, refusedAt, Routing.isRuntimeAvailable, nonempty?, Routing.availabilityWindowSec, preflightWindow,
    Routing.Clock.passed, dates.parse_toIso, toIso_ne_empty, Option.filter]

/-! ## The file -/

/-- The change is about the provider of a key. -/
def Change.names (key : String) : Change → Bool
  | .answered keys _ => decide (key ∈ keys)
  | .refused other _ _ => decide (other = key)

/-- The verdict a change writes. -/
def Change.writes (dates : Dates) : Change → Verdict
  | .answered _ now => answeredAt dates now
  | .refused _ refusal now => refusedAt dates refusal now

theorem validates_writes (change : Change) : validates dates (change.writes dates) = true := by
  cases change with
  | answered keys now => exact validates_answeredAt
  | refused other refusal now => exact validates_refusedAt

theorem get?_apply (change : Change) :
    (apply dates verdicts change).get? key = if change.names key then some (change.writes dates) else verdicts.get? key := by
  cases change with
  | answered keys now =>
    rw [apply, recordAvailability, KeyedStore.get?_foldl_set]
    by_cases named : key ∈ keys
    · obtain ⟨last, found⟩ : ∃ last, (keys.filter fun other => decide (other = key)).getLast? = some last := by
        refine Option.isSome_iff_exists.mp (List.getLast?_isSome.mpr ?_)
        exact List.ne_nil_of_mem (List.mem_filter.mpr ⟨named, decide_eq_true rfl⟩)
      simp [found, Change.names, Change.writes, named]
    · have none' : keys.filter (fun other => decide (other = key)) = [] := by
        refine List.filter_eq_nil_iff.mpr fun other member same => named ?_
        exact of_decide_eq_true same ▸ member
      simp [none', Change.names, named]
  | refused other refusal now =>
    rw [apply, recordRefusal, KeyedStore.get?_set]
    simp [Change.names, Change.writes, eq_comm]

/-- A key reads what the last change about it wrote. -/
theorem get?_contentOf (lineage : List Change) :
    (UnlockedFile.contentOf (apply dates) .empty lineage).get? key =
      (lineage.find? (Change.names key)).map (Change.writes dates) := by
  induction lineage with
  | nil => rfl
  | cons change lineage ih =>
    show (apply dates (UnlockedFile.contentOf (apply dates) .empty lineage) change).get? key = _
    rw [get?_apply, List.find?_cons]
    cases change.names key with
    | true => rfl
    | false => exact ih

theorem loadVerdict_contentOf (lineage : List Change) :
    loadVerdict dates (UnlockedFile.contentOf (apply dates) .empty lineage) key =
      (lineage.find? (Change.names key)).map (Change.writes dates) := by
  rw [loadVerdict, get?_contentOf]
  cases lineage.find? (Change.names key) with
  | none => rfl
  | some change => exact Option.filter_some_pos (validates_writes change)

/-- The change that decides what is read of a key. -/
def decisive (key : String) (f : UnlockedFile Verdicts Change) : Option Change := f.file.lineage.find? (Change.names key)

def Initial (f : UnlockedFile Verdicts Change) : Prop := f = UnlockedFile.untouched .empty

variable {guard : UnlockedFile Verdicts Change → UnlockedFile.Label Change → Prop} {f : UnlockedFile Verdicts Change}

theorem names_of_decisive {change : Change} (found : decisive key f = some change) : change.names key = true :=
  List.find?_some found

theorem loadVerdict_file (reach : (machine dates).Reach guard Initial f) :
    loadVerdict dates f.file.content key = (decisive key f).map (Change.writes dates) := by
  rw [(UnlockedFile.file_sound reach).made, loadVerdict_contentOf, decisive]

theorem refuses_writes {change : Change} : ((!(change.writes dates).available &&
      (nonempty? (change.writes dates).exhaustedUntil).any fun moment => (dates.parse moment).any fun reset => now < reset) = true) ↔
    ∃ key refusal then', change = .refused key refusal then' ∧ now < heldUntil refusal then' := by
  cases change with
  | answered keys then' => simp [Change.writes, answeredAt]
  | refused other refusal then' =>
    simp [Change.writes, refusedAt, nonempty?, toIso_ne_empty, dates.parse_toIso, Option.filter]

/-- What is read as a refusal. -/
theorem readRefusal_file (reach : (machine dates).Reach guard Initial f) {verdict : Verdict} :
    readRefusal dates f.file.content key now = some verdict ↔
      ∃ refusal then', decisive key f = some (.refused key refusal then') ∧
      verdict = refusedAt dates refusal then' ∧ now < heldUntil refusal then' := by
  rw [readRefusal, loadVerdict_file reach, Option.filter_eq_some_iff, Option.map_eq_some_iff]
  constructor
  · rintro ⟨⟨change, found, rfl⟩, refuses⟩
    obtain ⟨other, refusal, then', rfl, held⟩ := refuses_writes.mp refuses
    obtain rfl : other = key := of_decide_eq_true (names_of_decisive found)
    exact ⟨refusal, then', found, rfl, held⟩
  · rintro ⟨refusal, then', found, rfl, held⟩
    exact ⟨⟨_, found, rfl⟩, refuses_writes.mpr ⟨key, refusal, then', rfl, held⟩⟩

/-- What is read as an answer. -/
theorem readAvailability_file (reach : (machine dates).Reach guard Initial f) {verdict : Verdict} :
    readAvailability dates f.file.content key now = some verdict ↔
      ∃ change then', decisive key f = some change ∧ verdict = change.writes dates ∧ now ≤ then' + 15 * 60 * 1000 ∧
        ((∃ keys, change = .answered keys then') ∨
          ∃ refusal, change = .refused key refusal then' ∧ heldUntil refusal then' ≤ now) := by
  rw [readAvailability, loadVerdict_file reach, Option.filter_eq_some_iff, Option.map_eq_some_iff]
  constructor
  · rintro ⟨⟨change, found, rfl⟩, fresh⟩
    cases change with
    | answered keys then' => exact ⟨_, then', found, rfl, isFresh_answeredAt.mp fresh, .inl ⟨keys, rfl⟩⟩
    | refused other refusal then' =>
      obtain rfl : other = key := of_decide_eq_true (names_of_decisive found)
      obtain ⟨passed, recent⟩ := isFresh_refusedAt.mp fresh
      exact ⟨_, then', found, rfl, recent, .inr ⟨refusal, rfl, passed⟩⟩
  · rintro ⟨change, then', found, rfl, recent, ⟨keys, rfl⟩ | ⟨refusal, rfl, passed⟩⟩
    · exact ⟨⟨_, found, rfl⟩, isFresh_answeredAt.mpr recent⟩
    · exact ⟨⟨_, found, rfl⟩, isFresh_refusedAt.mpr ⟨passed, recent⟩⟩

/-- Over every interleaving of the processes of a machine that read, change and write the file, with processes that die
and files that are lost: a refusal that is read was met by one of them and its reset is still to come; an answer that is
read was recorded no longer than fifteen minutes ago, or is a refusal of these minutes whose reset has passed; and a
provider is never read as both. -/
theorem verdicts_met (reach : (machine dates).Reach Machine.free Initial f) :
    (∀ verdict, readRefusal dates f.file.content key now = some verdict → ∃ refusal then',
      .refused key refusal then' ∈ f.opened ∧ verdict = refusedAt dates refusal then' ∧ now < heldUntil refusal then') ∧
    (∀ verdict, readAvailability dates f.file.content key now = some verdict → ∃ then', now ≤ then' + 15 * 60 * 1000 ∧
      ((∃ keys, key ∈ keys ∧ .answered keys then' ∈ f.opened ∧ verdict = answeredAt dates then') ∨
        ∃ refusal, .refused key refusal then' ∈ f.opened ∧ verdict = refusedAt dates refusal then' ∧
          heldUntil refusal then' ≤ now)) ∧
    ¬((readRefusal dates f.file.content key now).isSome = true ∧
      (readAvailability dates f.file.content key now).isSome = true) := by
  have opened {change : Change} (found : decisive key f = some change) : change ∈ f.opened :=
    (UnlockedFile.file_sound reach).part.subset (List.mem_of_find?_eq_some found)
  refine ⟨fun verdict read => ?_, fun verdict read => ?_, fun both => ?_⟩
  · obtain ⟨refusal, then', found, same, held⟩ := (readRefusal_file reach).mp read
    exact ⟨refusal, then', opened found, same, held⟩
  · obtain ⟨change, then', found, rfl, recent, ⟨keys, rfl⟩ | ⟨refusal, rfl, passed⟩⟩ := (readAvailability_file reach).mp read
    · exact ⟨then', recent, .inl ⟨keys, of_decide_eq_true (names_of_decisive found), opened found, rfl⟩⟩
    · exact ⟨then', recent, .inr ⟨refusal, opened found, rfl, passed⟩⟩
  · obtain ⟨refused, read⟩ := Option.isSome_iff_exists.mp both.1
    obtain ⟨answered, read'⟩ := Option.isSome_iff_exists.mp both.2
    obtain ⟨refusal, then', found, -, held⟩ := (readRefusal_file reach).mp read
    obtain ⟨change, then'', found', -, -, ⟨keys, rfl⟩ | ⟨refusal', rfl, passed⟩⟩ := (readAvailability_file reach).mp read'
    · rw [found] at found'
      cases found'
    · rw [found] at found'
      cases found'
      exact Int.not_le.mpr held passed

/-- Over every run in which no process reads the file while another one has yet to write it: the last verdict that was
written about a provider decides. A refusal is held until its reset; an answer is reused for fifteen minutes, and so is a
refusal once its reset has passed. -/
theorem last_verdict_decides (reach : (machine dates).Reach UnlockedFile.Serial Initial f) :
    let last := f.written.find? (Change.names key)
    ((readRefusal dates f.file.content key now).isSome = true ↔
      ∃ refusal then', last = some (.refused key refusal then') ∧ now < heldUntil refusal then') ∧
    ((readAvailability dates f.file.content key now).isSome = true ↔ ∃ then', now ≤ then' + 15 * 60 * 1000 ∧
      ((∃ keys, last = some (.answered keys then')) ∨
        ∃ refusal, last = some (.refused key refusal then') ∧ heldUntil refusal then' ≤ now)) := by
  intro last
  have same : decisive key f = last := by rw [decisive, UnlockedFile.lineage_of_serial reach]
  constructor
  · rw [Option.isSome_iff_exists]
    constructor
    · rintro ⟨verdict, read⟩
      obtain ⟨refusal, then', found, -, held⟩ := (readRefusal_file reach).mp read
      exact ⟨refusal, then', same ▸ found, held⟩
    · rintro ⟨refusal, then', found, held⟩
      exact ⟨_, (readRefusal_file reach).mpr ⟨refusal, then', same.trans found, rfl, held⟩⟩
  · rw [Option.isSome_iff_exists]
    constructor
    · rintro ⟨verdict, read⟩
      obtain ⟨change, then', found, -, recent, ⟨keys, rfl⟩ | ⟨refusal, rfl, passed⟩⟩ := (readAvailability_file reach).mp read
      · exact ⟨then', recent, .inl ⟨keys, same ▸ found⟩⟩
      · exact ⟨then', recent, .inr ⟨refusal, same ▸ found, passed⟩⟩
    · rintro ⟨then', recent, ⟨keys, found⟩ | ⟨refusal, found, passed⟩⟩
      · exact ⟨_, (readAvailability_file reach).mpr ⟨_, then', same.trans found, rfl, recent, .inl ⟨keys, rfl⟩⟩⟩
      · exact ⟨_, (readAvailability_file reach).mpr ⟨_, then', same.trans found, rfl, recent, .inr ⟨refusal, rfl, passed⟩⟩⟩

/-! ## A machine of its own -/

def parseDate (text : String) : Option Int :=
  if text = "1970-01-01T00:00:00.000Z" then some 0
  else if text = "1970-01-01T00:15:00.000Z" then some 900000
  else if text.length < 30 then none
  else if text.length % 2 = 0 then some (((text.length - 30) / 2 : Nat) : Int)
  else some (-(((text.length - 30) / 2 : Nat) : Int))

theorem parseDate_padded {size : Nat} (long : 30 ≤ size) : parseDate (String.ofList (List.replicate size '0')) =
    if size % 2 = 0 then some (((size - 30) / 2 : Nat) : Int) else some (-(((size - 30) / 2 : Nat) : Int)) := by
  have length : (String.ofList (List.replicate size '0')).length = size := by
    rw [String.length_ofList, List.length_replicate]
  have other (text : String) (short : text.length < 30) : String.ofList (List.replicate size '0') ≠ text := by
    rintro rfl
    exact absurd short (by omega)
  rw [parseDate, if_neg (other _ (by decide)), if_neg (other _ (by decide)), length, if_neg (Nat.not_lt.mpr long)]

/-- Dates that print the first instant and the one a quarter of an hour later as they are, and any other by its length. -/
def epochDates : Dates where
  parse := parseDate
  toIso instant :=
    if instant = 0 then "1970-01-01T00:00:00.000Z"
    else if instant = 900000 then "1970-01-01T00:15:00.000Z"
    else if 0 ≤ instant then String.ofList (List.replicate (30 + 2 * instant.toNat) '0')
    else String.ofList (List.replicate (31 + 2 * (-instant).toNat) '0')
  parse_toIso instant := by
    split_ifs with first later positive
    · rw [first]
      rfl
    · rw [later]
      rfl
    · rw [parseDate_padded (by omega), if_pos (by omega)]
      congr 1
      omega
    · rw [parseDate_padded (by omega), if_neg (by omega)]
      congr 1
      omega
  parse_empty := by decide

def refusedQuota : Refusal := ⟨"quota_exhausted", none, by decide⟩

/-- One process meets a refusal between the read and the write of another one, which records another provider. -/
def racedWrites : List (UnlockedFile.Label Change) :=
  [.opens (.answered ["codex"] 0), .write 0, .opens (.answered ["claude"] 0), .opens (.refused "codex" refusedQuota 0), .write 0,
    .write 0]

theorem verdicts_met_raced : ∃ f, (machine epochDates).replay? Machine.free (UnlockedFile.untouched .empty) racedWrites = some f ∧
    (readAvailability epochDates f.file.content "codex" 0).isSome = true ∧
    ¬((readRefusal epochDates f.file.content "codex" 0).isSome = true ∧
      (readAvailability epochDates f.file.content "codex" 0).isSome = true) :=
  Machine.exists_replay (fun f => (readAvailability epochDates f.file.content "codex" 0).isSome = true)
    (fun _ ran read => ⟨read, (verdicts_met (.of_replay rfl _ ran)).2.2⟩) (by decide)

/-- A refusal can be lost to a process that read the file before it and writes after it: the answer that it followed is
read again. -/
theorem refusal_overwritten : ∃ f, (machine epochDates).Reach Machine.free Initial f ∧
    f.written.find? (Change.names "codex") = some (.refused "codex" refusedQuota 0) ∧
    (readAvailability epochDates f.file.content "codex" 0).isSome = true := by
  obtain ⟨f, ran, last, read⟩ := Machine.exists_replay (fun f : UnlockedFile Verdicts Change =>
      f.written.find? (Change.names "codex") = some (.refused "codex" refusedQuota 0) ∧
        (readAvailability epochDates f.file.content "codex" 0).isSome = true) (fun _ _ check => check)
    (show ((machine epochDates).replay? Machine.free (UnlockedFile.untouched .empty) racedWrites).any _ = true by decide)
  exact ⟨f, .of_replay rfl _ ran, last, read⟩

theorem last_verdict_decides_held : ∃ f, (machine epochDates).replay? UnlockedFile.Serial (UnlockedFile.untouched .empty)
      [.opens (.answered ["codex"] 0), .write 0, .opens (.refused "codex" refusedQuota 0), .write 0] = some f ∧
    (readRefusal epochDates f.file.content "codex" 899999).isSome = true :=
  Machine.exists_replay (fun f => f.written.find? (Change.names "codex") = some (.refused "codex" refusedQuota 0))
    (fun _ ran last => (last_verdict_decides (.of_replay rfl _ ran)).1.mpr ⟨refusedQuota, 0, last, by decide⟩)
    (by decide)

end Faberun.Availability
