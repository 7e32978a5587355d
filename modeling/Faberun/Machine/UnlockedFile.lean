import Faberun.Machine.Core

/-! # Files that are changed without a lock

A process reads the file, makes its change in memory and writes the whole file back. Other processes may do the same in
between, and then one of the changes is lost. A lineage lists the changes a content is made of, the last one first: in
every run it is a part of the changes made, in their order, so that nothing is made up, doubled or out of turn; and when
no two processes overlap it is all that was written.
-/

namespace Faberun

variable {σ ω : Type*}

/-- A content with the changes it is made of. -/
structure Traced (σ ω : Type*) where
  content : σ
  lineage : List ω

/-- A process between its read and its write. -/
structure FileSession (σ ω : Type*) where
  change : ω
  changed : Traced σ ω

structure UnlockedFile (σ ω : Type*) where
  file : Traced σ ω
  sessions : List (FileSession σ ω)
  /-- The changes processes have read the file for, the last one first. -/
  opened : List ω
  /-- The changes that were written, the last one first. -/
  written : List ω

namespace UnlockedFile

inductive Label (ω : Type*) where
  /-- A process reads the file and makes its change. -/
  | opens (change : ω)
  | write (index : Nat)
  | die (index : Nat)
  /-- The file becomes one that reads as blank. -/
  | damage

/-- The content some changes make. -/
def contentOf (apply : σ → ω → σ) (blank : σ) (lineage : List ω) : σ :=
  lineage.foldr (fun change content => apply content change) blank

variable (apply : σ → ω → σ) (blank : σ)

def step (f : UnlockedFile σ ω) : Label ω → Option (UnlockedFile σ ω)
  | .opens change => some { f with
      sessions := ⟨change, apply f.file.content change, change :: f.file.lineage⟩ :: f.sessions
      opened := change :: f.opened }
  | .write index => f.sessions[index]?.map fun session => { f with
      file := session.changed
      sessions := f.sessions.eraseIdx index
      written := session.change :: f.written }
  | .die index => some { f with sessions := f.sessions.eraseIdx index }
  | .damage => some { f with file := ⟨blank, []⟩ }

def machine : Machine (UnlockedFile σ ω) (Label ω) := ⟨step apply blank⟩

def untouched : UnlockedFile σ ω := ⟨⟨blank, []⟩, [], [], []⟩

/-- No process reads the file while another one has yet to write it. -/
def Serial (f : UnlockedFile σ ω) : Label ω → Prop
  | .opens _ => f.sessions = []
  | .write _ | .die _ => True
  | .damage => False

instance : DecidableRel (@Serial σ ω) := fun f label =>
  match label with
  | .opens _ => decidable_of_iff (f.sessions.isEmpty = true) List.isEmpty_iff
  | .write _ | .die _ => instDecidableTrue
  | .damage => instDecidableFalse

variable {apply blank}

/-- The changes after one work on what it made. -/
theorem contentOf_append {change : ω} (later earlier : List ω) : contentOf apply blank (later ++ change :: earlier) =
    contentOf apply (apply (contentOf apply blank earlier) change) later :=
  List.foldr_append

/-- A content is what its lineage makes, and its lineage a part of the changes made. -/
structure Sound (apply : σ → ω → σ) (blank : σ) (opened : List ω) (traced : Traced σ ω) : Prop where
  made : traced.content = contentOf apply blank traced.lineage
  part : traced.lineage.Sublist opened

theorem sound_of_step {f f' : UnlockedFile σ ω} {label : Label ω}
    (sound : Sound apply blank f.opened f.file ∧ ∀ session ∈ f.sessions, Sound apply blank f.opened session.changed)
    (taken : step apply blank f label = some f') :
    Sound apply blank f'.opened f'.file ∧ ∀ session ∈ f'.sessions, Sound apply blank f'.opened session.changed := by
  obtain ⟨file, sessions⟩ := sound
  cases label with
  | opens change =>
    obtain rfl := Option.some.inj taken
    refine ⟨⟨file.made, file.part.cons _⟩, fun session member => ?_⟩
    obtain rfl | member := List.mem_cons.mp member
    · refine ⟨?_, file.part.cons_cons _⟩
      rw [file.made]
      rfl
    · exact ⟨(sessions session member).made, (sessions session member).part.cons _⟩
  | write index =>
    obtain ⟨session, found, rfl⟩ := Option.map_eq_some_iff.mp taken
    exact ⟨sessions session (List.mem_of_getElem? found), fun other member => sessions other (List.mem_of_mem_eraseIdx member)⟩
  | die index =>
    obtain rfl := Option.some.inj taken
    exact ⟨file, fun other member => sessions other (List.mem_of_mem_eraseIdx member)⟩
  | damage =>
    obtain rfl := Option.some.inj taken
    exact ⟨⟨rfl, List.nil_sublist _⟩, sessions⟩

/-- In every run the file is made of a part of the changes, in their order. -/
theorem file_sound {guard : UnlockedFile σ ω → Label ω → Prop} {f : UnlockedFile σ ω}
    (reach : (machine apply blank).Reach guard (fun f => f = untouched blank) f) : Sound apply blank f.opened f.file := by
  refine (reach.invariant (fun f => Sound apply blank f.opened f.file ∧
    ∀ session ∈ f.sessions, Sound apply blank f.opened session.changed) ?_ fun f label f' sound _ taken => ?_).1
  · rintro f rfl
    exact ⟨⟨rfl, List.Sublist.slnil⟩, fun session member => absurd member List.not_mem_nil⟩
  · exact sound_of_step sound taken

/-- What is in the file, and what the processes would write, has a property. -/
structure Holds (P : σ → Prop) (f : UnlockedFile σ ω) : Prop where
  content : P f.file.content
  changed : ∀ session ∈ f.sessions, P session.changed.content

theorem Holds.step {P : σ → Prop} {f f' : UnlockedFile σ ω} {label : Label ω} (holds : f.Holds P)
    (start : label = .damage → P blank) (keeps : ∀ change, label = .opens change → P (apply f.file.content change))
    (taken : step apply blank f label = some f') : f'.Holds P := by
  cases label with
  | opens change =>
    obtain rfl := Option.some.inj taken
    exact ⟨holds.content, List.forall_mem_cons.mpr ⟨keeps change rfl, holds.changed⟩⟩
  | write index =>
    obtain ⟨session, found, rfl⟩ := Option.map_eq_some_iff.mp taken
    exact ⟨holds.changed session (List.mem_of_getElem? found),
      fun other member => holds.changed other (List.mem_of_mem_eraseIdx member)⟩
  | die index =>
    obtain rfl := Option.some.inj taken
    exact ⟨holds.content, fun other member => holds.changed other (List.mem_of_mem_eraseIdx member)⟩
  | damage =>
    obtain rfl := Option.some.inj taken
    exact ⟨start rfl, holds.changed⟩

/-- In a serial run the file has every change that was written. -/
theorem lineage_of_serial {f : UnlockedFile σ ω}
    (reach : (machine apply blank).Reach Serial (fun f => f = untouched blank) f) : f.file.lineage = f.written := by
  refine (reach.invariant (fun f => f.file.lineage = f.written ∧ f.sessions.length ≤ 1 ∧
    ∀ session ∈ f.sessions, session.changed.lineage = session.change :: f.file.lineage) ?_ ?_).1
  · rintro f rfl
    exact ⟨rfl, Nat.zero_le 1, fun session member => absurd member List.not_mem_nil⟩
  rintro f label f' ⟨all, alone, sessions⟩ serial taken
  cases label with
  | opens change =>
    obtain rfl := Option.some.inj taken
    have none' : f.sessions = [] := serial
    refine ⟨all, by simp [none'], fun session member => ?_⟩
    simp only [none', List.mem_singleton] at member
    rw [member]
  | write index =>
    obtain ⟨session, found, rfl⟩ := Option.map_eq_some_iff.mp taken
    have one : f.sessions = [session] := by
      obtain ⟨inside, same⟩ := List.getElem?_eq_some_iff.mp found
      obtain ⟨only, single⟩ := List.length_eq_one_iff.mp (Nat.le_antisymm alone (Nat.zero_lt_of_lt inside))
      simp only [single, List.getElem_singleton] at same
      rw [single, same]
    have closed : f.sessions.eraseIdx index = [] := by
      obtain ⟨inside, -⟩ := List.getElem?_eq_some_iff.mp found
      refine List.eq_nil_of_length_eq_zero ?_
      rw [List.length_eraseIdx_of_lt inside, one]
      rfl
    refine ⟨?_, by simp [closed], by simp [closed]⟩
    rw [sessions session (by simp [one]), all]
  | die index =>
    obtain rfl := Option.some.inj taken
    refine ⟨all, Nat.le_trans (List.length_eraseIdx_le _ _) alone, fun session member => ?_⟩
    exact sessions session (List.mem_of_mem_eraseIdx member)
  | damage => exact absurd serial id

end UnlockedFile

end Faberun
