import Faberun.Soundness.Migrate

/-! # Migrations through kills and re-runs

`Inv` says what each stage of a call knows of the three trees. While the staging copy is made there is no published
tree and the legacy tree is the original, so the copy that is published is complete; the published tree then only gains
what controllers write, whatever is left of the legacy tree.
-/

namespace Faberun.Migrate

variable {layout : Layout} {around : Surroundings} {original tree : Tree} {w next : World}

/-! ## Stages -/

/-- Which tree a call is about to verify or publish, or has published. -/
def Stage.branch : Stage → Option Role
  | .clearing | .copying _ _ | .extra _ | .publishing _ => some .staging
  | .verifying role _ | .verified role | .counted role _ => some role
  | .removing _ => some .published
  | _ => none

/-- The staging copy is made. -/
def Stage.copied : Stage → Bool
  | .verifying .staging _ | .extra _ | .verified .staging | .counted .staging _ | .publishing _ => true
  | _ => false

/-- A copy of the entries that are not in `todo`, and of nothing else. -/
structure Copied (original staged : Tree) (todo : List (Path × Entry)) : Prop where
  done : ∀ path entry, original.get? path = some entry → (path, entry) ∉ todo → staged.get? path = some entry
  nothingElse : ∀ path entry, staged.get? path = some entry → (original.get? path).isSome
  left : ∀ item ∈ todo, original.get? item.1 = some item.2

theorem Copied.start (original : Tree) : Copied original .empty original.entries where
  done _ _ here outside := absurd (KeyedStore.mem_entries.mpr here) outside
  nothingElse _ _ here := nomatch here
  left _ member := KeyedStore.mem_entries.mp member

/-- The next entry is written, in part or whole. -/
theorem Copied.set {staged : Tree} {path : Path} {entry written : Entry} {todo rest : List (Path × Entry)}
    (copied : Copied original staged ((path, entry) :: todo)) (rest' : ∀ item ∈ rest, item ∈ (path, entry) :: todo)
    (whole : (path, entry) ∉ rest → written = entry) (skipped : ∀ item ∈ todo, item ∈ rest) :
    Copied original (staged.set path written) rest where
  done other otherEntry here outside := by
    rw [KeyedStore.get?_set]
    split_ifs with same
    · subst same
      obtain rfl := Option.some.inj ((copied.left _ List.mem_cons_self).symm.trans here)
      rw [whole outside]
    · refine copied.done other otherEntry here ?_
      rintro (_ | ⟨_, later⟩)
      · exact same rfl
      · exact outside (skipped _ later)
  nothingElse other otherEntry here := by
    rw [KeyedStore.get?_set] at here
    split_ifs at here with same
    · rw [same, copied.left _ List.mem_cons_self]
      rfl
    · exact copied.nothingElse other otherEntry here
  left item member := copied.left item (rest' item member)

theorem Copied.same {staged : Tree} (copied : Copied original staged []) : Same original staged := by
  intro path
  cases here : original.get? path with
  | some entry => exact (copied.done path entry here List.not_mem_nil).symm
  | none =>
    cases there : staged.get? path with
    | none => rfl
    | some entry =>
      have known := copied.nothingElse path entry there
      rw [here] at known
      exact nomatch known

/-! ## The published tree -/

theorem Same.holds {staged : Tree} (same : Same original staged) (written : List (Path × String)) :
    Holds original written staged := fun path entry here => .inl (by rw [← same path, here])

theorem Holds.write {written : List (Path × String)} (holds : Holds original written tree) (path : Path)
    (before content : String) (here : tree.get? path = some (.file before)) :
    Holds original (written ++ [(path, content)]) (tree.set path (.file content)) := by
  intro other entry there
  rw [KeyedStore.get?_set]
  split_ifs with same
  · subst same
    have file : ∃ first, entry = .file first := by
      rcases holds other entry there with kept | ⟨first, after, rfl, -⟩
      · exact ⟨before, Option.some.inj (kept.symm.trans here)⟩
      · exact ⟨first, rfl⟩
    obtain ⟨first, rfl⟩ := file
    exact .inr ⟨first, content, rfl, rfl, List.mem_append_right _ List.mem_cons_self⟩
  · refine (holds other entry there).imp (fun kept => kept) ?_
    rintro ⟨first, after, equal, found, member⟩
    exact ⟨first, after, equal, found, List.mem_append_left _ member⟩

theorem Holds.create {written : List (Path × String)} (holds : Holds original written tree) (path : Path)
    (entry : Entry) (absent : tree.get? path = none) : Holds original written (tree.set path entry) := by
  intro other otherEntry there
  rw [KeyedStore.get?_set]
  split_ifs with same
  · subst same
    rcases holds other otherEntry there with kept | ⟨-, after, -, found, -⟩
    · cases absent.symm.trans kept
    · cases absent.symm.trans found
  · exact holds other otherEntry there

/-! ## The invariant -/

structure Inv (original : Tree) (w : World) : Prop where
  complete : w.removed = false → w.legacy = some original
  safe : w.removed = true → w.published.isSome
  holds : ∀ tree, w.published = some tree → Holds original w.written tree
  there : w.stage.going = true → w.legacy.isSome
  began : w.stage.going = true → (∀ result, w.stage ≠ .removing result) →
    w.legacy = w.began ∧ w.publishedAtStart = w.published.isSome
  branch : ∀ role, w.stage.branch = some role → (w.published.isSome ↔ role = .published)
  copying : ∀ todo half, w.stage = .copying todo half → ∃ staged, w.staging = some staged ∧ Copied original staged todo
  copied : w.stage.copied = true → ∃ staged, w.staging = some staged ∧ Same original staged
  todo : ∀ role todo, w.stage = .verifying role todo → ∀ item ∈ todo, ∀ tree, w.legacy = some tree →
    tree.get? item.1 = some item.2
  extra : ∀ todo, w.stage = .extra todo → ∀ item ∈ todo, ∀ staged, w.staging = some staged →
    staged.get? item.1 = some item.2
  finished : ∀ result, w.stage = .finished result → w.legacy = none

theorem Initial.inv (initial : Initial original w) : Inv original w := by
  obtain ⟨legacy, published, stage, removed⟩ := initial
  refine ⟨fun _ => legacy, ?_, ?_, ?_, ?_, ?_, ?_, ?_, ?_, ?_, ?_⟩ <;>
    simp [published, stage, removed, Stage.going, Stage.branch, Stage.copied]

namespace Inv

/-- While the staging copy is made, nothing is published and the legacy tree is the original. -/
theorem unpublished (inv : Inv original w) (staging : w.stage.branch = some .staging) :
    w.published = none ∧ w.legacy = some original := by
  have none : w.published = none := by
    refine Option.not_isSome_iff_eq_none.mp fun some => ?_
    exact nomatch (inv.branch .staging staging).mp some
  refine ⟨none, inv.complete (Bool.eq_false_iff.mpr fun removed => ?_)⟩
  have some := inv.safe removed
  rw [none] at some
  exact nomatch some

/-- A call is over, or killed. -/
theorem stop (inv : Inv original w) {stage : Stage} (beyond : stage = .idle ∨ ∃ thrown, stage = .threw thrown) :
    Inv original { w with stage } := by
  refine ⟨inv.complete, inv.safe, inv.holds, ?_, ?_, ?_, ?_, ?_, ?_, ?_, ?_⟩ <;>
    rcases beyond with rfl | ⟨thrown, rfl⟩ <;> simp [Stage.going, Stage.branch, Stage.copied]

/-- A call goes on with the trees as they are. -/
theorem goOn (inv : Inv original w) {stage : Stage} (going : w.stage.going = true)
    (early : ∀ result, w.stage ≠ .removing result)
    (branch : ∀ role, stage.branch = some role → (w.published.isSome ↔ role = .published))
    (copying : ∀ todo half, stage ≠ .copying todo half) (finished : ∀ result, stage ≠ .finished result)
    (copied : stage.copied = true → ∃ staged, w.staging = some staged ∧ Same original staged)
    (todo : ∀ role todo, stage = .verifying role todo → ∀ item ∈ todo, ∀ tree, w.legacy = some tree →
      tree.get? item.1 = some item.2)
    (extra : ∀ todo, stage = .extra todo → ∀ item ∈ todo, ∀ staged, w.staging = some staged →
      staged.get? item.1 = some item.2) : Inv original { w with stage } where
  complete := inv.complete
  safe := inv.safe
  holds := inv.holds
  there _ := inv.there going
  began _ _ := inv.began going early
  branch := branch
  copying todo half same := absurd same (copying todo half)
  copied := copied
  todo := todo
  extra := extra
  finished result same := absurd same (finished result)

/-- A step that goes on or throws. -/
theorem settle {α : Type} (inv : Inv original w) {outcome : Except Thrown α} {stage : α → Stage}
    (goes : ∀ value, Inv original { w with stage := stage value }) : Inv original (w.settle (outcome.map stage)) := by
  cases outcome with
  | error thrown => exact inv.stop (.inr ⟨thrown, rfl⟩)
  | ok value => exact goes value

private theorem start (inv : Inv original w) (taken : w.call layout .start = some next) : Inv original next := by
  simp only [World.call] at taken
  split_ifs at taken with going
  split at taken
  · rename_i gone
    obtain rfl := Option.some.inj taken
    refine ⟨inv.complete, inv.safe, inv.holds, ?_, ?_, ?_, ?_, ?_, ?_, ?_, fun _ _ => gone⟩ <;>
      simp [Stage.going, Stage.branch, Stage.copied]
  · rename_i tree here
    obtain rfl := Option.some.inj taken
    refine ⟨inv.complete, inv.safe, inv.holds, fun _ => ?_, fun _ _ => ⟨here, rfl⟩, ?_, ?_, ?_, ?_, ?_, ?_⟩
    · exact Option.isSome_iff_exists.mpr ⟨tree, here⟩
    all_goals simp [Stage.branch, Stage.copied]

private theorem lease (inv : Inv original w) (taken : w.call layout (.lease around) = some next) :
    Inv original next := by
  simp only [World.call] at taken
  split at taken
  · rename_i tree stage here
    obtain rfl := Option.some.inj taken
    refine inv.settle fun _ => inv.goOn ?_ ?_ nofun nofun nofun nofun nofun nofun
    · rw [stage]; rfl
    · rw [stage]; nofun
  · rename_i result tree stage here
    obtain rfl := Option.some.inj taken
    refine inv.settle fun _ => inv.goOn ?_ ?_ ?_ nofun nofun nofun nofun nofun
    · rw [stage]; rfl
    · rw [stage]; nofun
    · exact fun role same => inv.branch role (by rw [stage]; exact same)
  · rename_i result tree stage here
    obtain rfl := Option.some.inj taken
    refine inv.settle fun _ => inv.goOn ?_ ?_ ?_ nofun nofun ?_ nofun nofun
    · rw [stage]; rfl
    · rw [stage]; nofun
    · exact fun role same => inv.branch role (by rw [stage]; exact same)
    · exact fun _ => inv.copied (by rw [stage]; rfl)
  · exact nomatch taken

private theorem choose (inv : Inv original w) (taken : w.call layout .choose = some next) : Inv original next := by
  simp only [World.call] at taken
  split at taken
  · rename_i tree stage here
    have going : w.stage.going = true := by rw [stage]; rfl
    have early : ∀ result, w.stage ≠ .removing result := by rw [stage]; nofun
    split_ifs at taken with published
    · obtain rfl := Option.some.inj taken
      refine inv.goOn going early ?_ nofun nofun nofun ?_ nofun
      · rintro _ ⟨⟩
        exact ⟨fun _ => rfl, fun _ => published⟩
      · rintro _ _ ⟨⟩ item member _ same
        obtain rfl := Option.some.inj (here.symm.trans same)
        exact KeyedStore.mem_entries.mp member
    · obtain rfl := Option.some.inj taken
      refine inv.goOn going early ?_ nofun nofun nofun nofun nofun
      rintro _ ⟨⟩
      exact ⟨fun some => absurd some published, nofun⟩
  · exact nomatch taken

/-- A step that works on the staging copy. -/
private theorem stage (inv : Inv original w) {stage : Stage} {staged : Tree} (going : w.stage.going = true)
    (early : ∀ result, w.stage ≠ .removing result) (now : w.stage.branch = some .staging)
    (next : stage.branch = some .staging) (uncopied : stage.copied = false) (unfinished : ∀ result, stage ≠ .finished result)
    (copying : ∀ todo half, stage = .copying todo half → Copied original staged todo) :
    Inv original { w with staging := some staged, stage } where
  complete := inv.complete
  safe := inv.safe
  holds := inv.holds
  there _ := inv.there going
  began _ _ := inv.began going early
  branch role same := inv.branch role (now.trans (next.symm.trans same))
  copying todo half same := ⟨staged, rfl, copying todo half same⟩
  copied same := nomatch uncopied.symm.trans same
  todo role todo same := by
    obtain rfl : stage = .verifying role todo := same
    cases role with
    | staging => exact nomatch uncopied
    | published => exact nomatch next
  extra todo same := by
    obtain rfl : stage = .extra todo := same
    exact nomatch uncopied
  finished result same := absurd same (unfinished result)

private theorem clear {path : Path} (inv : Inv original w) (taken : w.call layout (.clear path) = some next) :
    Inv original next := by
  simp only [World.call] at taken
  split at taken
  · rename_i tree stage here
    split_ifs at taken
    obtain rfl := Option.some.inj taken
    refine inv.stage ?_ ?_ ?_ ?_ ?_ ?_ ?_ <;> rw [stage] <;> first | rfl | nofun
  · exact nomatch taken

private theorem cleared (inv : Inv original w) (taken : w.call layout .cleared = some next) : Inv original next := by
  simp only [World.call] at taken
  split at taken
  · rename_i tree stage here
    split_ifs at taken
    obtain rfl := Option.some.inj taken
    have staging : w.stage.branch = some .staging := by rw [stage]; rfl
    obtain rfl : tree = original := Option.some.inj (here.symm.trans (inv.unpublished staging).2)
    refine inv.stage ?_ ?_ staging rfl rfl nofun ?_
    · rw [stage]; rfl
    · rw [stage]; nofun
    · rintro _ _ ⟨⟩
      exact .start tree
  · exact nomatch taken

private theorem half {content : String} (inv : Inv original w) (taken : w.call layout (.half content) = some next) :
    Inv original next := by
  simp only [World.call] at taken
  split at taken
  · rename_i path whole todo staged stage here
    obtain rfl := Option.some.inj taken
    refine inv.stage ?_ ?_ ?_ rfl rfl nofun ?_
    · rw [stage]; rfl
    · rw [stage]; nofun
    · rw [stage]; rfl
    · rintro _ _ ⟨⟩
      obtain ⟨other, same, copied⟩ := inv.copying _ _ stage
      obtain rfl := Option.some.inj (here.symm.trans same)
      exact copied.set (fun _ member => member) (fun outside => absurd List.mem_cons_self outside)
        fun _ member => List.mem_cons_of_mem _ member
  · exact nomatch taken

private theorem copy (inv : Inv original w) (taken : w.call layout .copy = some next) : Inv original next := by
  simp only [World.call] at taken
  split at taken
  · rename_i half tree stage here
    obtain rfl := Option.some.inj taken
    have staging : w.stage.branch = some .staging := by rw [stage]; rfl
    refine inv.goOn ?_ ?_ ?_ nofun nofun ?_ ?_ nofun
    · rw [stage]; rfl
    · rw [stage]; nofun
    · exact fun role same => inv.branch role (staging.trans same)
    · intro _
      obtain ⟨staged, same, copied⟩ := inv.copying _ _ stage
      exact ⟨staged, same, copied.same⟩
    · rintro _ _ ⟨⟩ item member _ same
      obtain rfl := Option.some.inj (here.symm.trans same)
      exact KeyedStore.mem_entries.mp member
  · rename_i path entry todo half staged stage here
    obtain rfl := Option.some.inj taken
    refine inv.stage ?_ ?_ ?_ rfl rfl nofun ?_
    · rw [stage]; rfl
    · rw [stage]; nofun
    · rw [stage]; rfl
    · rintro _ _ ⟨⟩
      obtain ⟨other, same, copied⟩ := inv.copying _ _ stage
      obtain rfl := Option.some.inj (here.symm.trans same)
      exact copied.set (fun _ member => List.mem_cons_of_mem _ member) (fun _ => rfl) fun _ member => member
  · exact nomatch taken

private theorem check (inv : Inv original w) (taken : w.call layout (.check around) = some next) :
    Inv original next := by
  simp only [World.call] at taken
  split at taken
  · rename_i role path entry todo tree stage here
    obtain ⟨copy, -, rfl⟩ := Option.map_eq_some_iff.mp taken
    refine inv.settle fun _ => inv.goOn ?_ ?_ ?_ nofun nofun ?_ ?_ nofun
    · rw [stage]; rfl
    · rw [stage]; nofun
    · exact fun role same => inv.branch role (by rw [stage]; exact same)
    · cases role with
      | staging => exact fun _ => inv.copied (by rw [stage]; rfl)
      | published => exact nofun
    · rintro _ _ ⟨⟩ item member
      exact inv.todo role _ stage item (List.mem_cons_of_mem _ member)
  · rename_i tree stage here
    obtain rfl := Option.some.inj taken
    refine inv.goOn ?_ ?_ ?_ nofun nofun nofun nofun nofun
    · rw [stage]; rfl
    · rw [stage]; nofun
    · exact fun role same => inv.branch role (by rw [stage]; exact same)
  · rename_i tree stage here
    obtain ⟨copy, staged, rfl⟩ := Option.map_eq_some_iff.mp taken
    refine inv.goOn ?_ ?_ ?_ nofun nofun ?_ nofun ?_
    · rw [stage]; rfl
    · rw [stage]; nofun
    · exact fun role same => inv.branch role (by rw [stage]; exact same)
    · exact fun _ => inv.copied (by rw [stage]; rfl)
    · rintro _ ⟨⟩ item member _ same
      obtain rfl := Option.some.inj (staged.symm.trans same)
      exact KeyedStore.mem_entries.mp member
  · rename_i path entry todo tree stage here
    obtain rfl := Option.some.inj taken
    refine inv.settle fun _ => inv.goOn ?_ ?_ ?_ nofun nofun ?_ nofun ?_
    · rw [stage]; rfl
    · rw [stage]; nofun
    · exact fun role same => inv.branch role (by rw [stage]; exact same)
    · exact fun _ => inv.copied (by rw [stage]; rfl)
    · rintro _ ⟨⟩ item member
      exact inv.extra _ stage item (List.mem_cons_of_mem _ member)
  · rename_i tree stage here
    obtain rfl := Option.some.inj taken
    refine inv.goOn ?_ ?_ ?_ nofun nofun ?_ nofun nofun
    · rw [stage]; rfl
    · rw [stage]; nofun
    · exact fun role same => inv.branch role (by rw [stage]; exact same)
    · exact fun _ => inv.copied (by rw [stage]; rfl)
  · exact nomatch taken

private theorem count (inv : Inv original w) (taken : w.call layout (.count around) = some next) :
    Inv original next := by
  simp only [World.call] at taken
  split at taken
  · rename_i role tree stage here
    obtain rfl := Option.some.inj taken
    refine inv.settle fun _ => inv.goOn ?_ ?_ ?_ nofun nofun ?_ nofun nofun
    · rw [stage]; rfl
    · rw [stage]; nofun
    · exact fun role same => inv.branch role (by rw [stage]; exact same)
    · cases role with
      | staging => exact fun _ => inv.copied (by rw [stage]; rfl)
      | published => exact nofun
  · exact nomatch taken

private theorem publish (inv : Inv original w) (taken : w.call layout .publish = some next) : Inv original next := by
  simp only [World.call] at taken
  split at taken
  · rename_i result stage
    obtain rfl := Option.some.inj taken
    obtain ⟨staged, here, same⟩ := inv.copied (by rw [stage]; rfl)
    obtain ⟨-, legacy⟩ := inv.unpublished (by rw [stage]; rfl)
    refine ⟨fun _ => legacy, fun _ => ?_, ?_, fun _ => ?_, ?_, ?_, nofun, nofun, nofun, nofun, nofun⟩
    · rw [here]; rfl
    · intro tree published
      obtain rfl := Option.some.inj (here.symm.trans published)
      exact same.holds w.written
    · rw [legacy]; rfl
    · exact fun _ early => absurd rfl (early result)
    · rintro _ ⟨⟩
      exact ⟨fun _ => rfl, fun _ => by rw [here]; rfl⟩
  · exact nomatch taken

/-- What a removal does to the legacy tree is done once the published tree is there. -/
private theorem removing (inv : Inv original w) {result : MigrateResult} (now : w.stage = .removing result)
    {legacy : Option Tree} {stage : Stage} (goes : stage = .removing result ∧ legacy.isSome ∨
      stage = .finished result ∧ legacy = none) : Inv original { w with legacy, removed := true, stage } := by
  have published : w.published.isSome := (inv.branch .published (by rw [now]; rfl)).mpr rfl
  rcases goes with ⟨rfl, there⟩ | ⟨rfl, gone⟩
  · refine ⟨nofun, fun _ => published, inv.holds, fun _ => there, ?_, ?_, nofun, nofun, nofun, nofun, nofun⟩
    · exact fun _ early => absurd rfl (early result)
    · rintro _ ⟨⟩
      exact ⟨fun _ => rfl, fun _ => published⟩
  · exact ⟨nofun, fun _ => published, inv.holds, nofun, nofun, nofun, nofun, nofun, nofun, nofun, fun _ _ => gone⟩

/-- Every step of a call keeps the invariant. -/
theorem call {event : Event} (inv : Inv original w) (taken : w.call layout event = some next) : Inv original next := by
  cases event with
  | start => exact inv.start taken
  | lease around => exact inv.lease taken
  | choose => exact inv.choose taken
  | clear path => exact inv.clear taken
  | cleared => exact inv.cleared taken
  | half content => exact inv.half taken
  | copy => exact inv.copy taken
  | check around => exact inv.check taken
  | count around => exact inv.count taken
  | publish => exact inv.publish taken
  | remove path =>
    simp only [World.call] at taken
    split at taken
    · rename_i result tree stage here
      split_ifs at taken
      obtain rfl := Option.some.inj taken
      exact inv.removing stage (.inl ⟨stage, rfl⟩)
    · exact nomatch taken
  | removed =>
    simp only [World.call] at taken
    split at taken
    · rename_i result tree stage here
      split_ifs at taken
      obtain rfl := Option.some.inj taken
      exact inv.removing stage (.inr ⟨rfl, rfl⟩)
    · exact nomatch taken

/-- A controller writes under the published tree. -/
private theorem publishedWrite (inv : Inv original w) {before after : Tree} {written : List (Path × String)}
    (here : w.published = some before) (holds : Holds original written after) :
    Inv original { w with published := some after, written } := by
  have some : w.published.isSome := by rw [here]; rfl
  refine { inv with safe := fun _ => rfl, holds := ?_, began := ?_, branch := ?_ }
  · rintro _ ⟨⟩
    exact holds
  · intro going early
    obtain ⟨legacy, published⟩ := inv.began going early
    exact ⟨legacy, published.trans some⟩
  · intro role now
    exact ⟨fun _ => (inv.branch role now).mp some, fun _ => rfl⟩

theorem step {label : Label} (inv : Inv original w) (taken : w.step layout label = some next) : Inv original next := by
  cases label with
  | call event => exact inv.call taken
  | killed =>
    obtain rfl := Option.some.inj taken
    exact inv.stop (.inl rfl)
  | writes path content =>
    obtain ⟨tree, here, taken⟩ := Option.bind_eq_some_iff.mp taken
    split at taken
    · rename_i before found
      obtain rfl := Option.some.inj taken
      exact inv.publishedWrite here ((inv.holds tree here).write path before content found)
    · exact nomatch taken
  | creates path entry =>
    obtain ⟨tree, here, taken⟩ := Option.bind_eq_some_iff.mp taken
    split_ifs at taken with absent
    obtain rfl := Option.some.inj taken
    exact inv.publishedWrite here ((inv.holds tree here).create path entry absent)

end Inv

theorem inv_of_reach (reach : (machine layout).Reach Machine.free (Initial original) w) : Inv original w :=
  reach.invariant (Inv original) (fun _ initial => initial.inv) fun _ _ _ inv _ taken => inv.step taken

end Faberun.Migrate
