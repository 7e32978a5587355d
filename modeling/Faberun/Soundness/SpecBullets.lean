import Faberun.Model.Plan.Spec

/-! # The bullets of a requirement block

What the scan over the lines of a block leaves under a key is the text of the last bullet with that key, and every line up to a
blank one
or the next bullet that begins with no hyphen. The lines that belong to the bullet are the first of them: those behind a list
item are strays.
-/

namespace Faberun.Spec

open BreakOn Headings

/-! ## The lines of a bullet -/

/-- A line that goes on with a bullet: neither blank nor led by a hyphen. -/
def isWrapped (line : Line) : Bool := trimText line != [] && !isDashed line

/-- A line at which the scan does not leave a bullet. -/
def staysIn (line : Line) : Bool := trimText line != [] && (bulletKey line).isNone

/-- The text of a bullet with its wrapped lines. -/
def ownText (value : Line) (back : List Line) : Line := (back.takeWhile isWrapped).foldl joinWrapped value

/-- The text of a bullet as the scan leaves it. -/
def attachedText (value : Line) (back : List Line) : Line :=
  ((back.takeWhile staysIn).filter fun line => !isDashed line).foldl joinWrapped value

/-- The lines behind a list item that the scan joins to the bullet above it. -/
def strays (back : List Line) : List Line := ((back.takeWhile staysIn).dropWhile isWrapped).filter fun line => !isDashed line

/-- The text of the last bullet with a key. -/
def lastText (text : Line → List Line → Line) (key : String) : List Line → Option Line
  | [] => none
  | line :: rest =>
    (lastText text key rest).or
      (match keyedBullet line with
        | some (own, value) => if own = key then some (text value rest) else none
        | none => none)

/-- No bullet of these lines has the key. -/
def NoLater (key : String) (back : List Line) : Prop := ∀ line ∈ back, ∀ value, keyedBullet line ≠ some (key, value)

/-! ## Patterns -/

private theorem isTerminator_of_isKeyChar {c : Char} (key : isKeyChar c = true) : isTerminator c = false := by
  by_contra ends
  rw [Bool.not_eq_false, isTerminator] at ends
  simp only [Bool.or_eq_true, beq_iff_eq] at ends
  rcases ends with ((rfl | rfl) | rfl) | rfl <;> contradiction

private theorem ne_colon_of_isKeyChar {c : Char} (key : isKeyChar c = true) : c ≠ ':' := by
  rintro rfl
  contradiction

private theorem breakOn_key {key rest : Line} (chars : ∀ c ∈ key, isKeyChar c = true) :
    breakOn [':', '*', '*'] (key ++ ([':', '*', '*'] ++ rest)) = some (key, rest) := by
  induction key with
  | nil => exact breakOn_marker (List.cons_ne_nil _ _) rest
  | cons c key ih =>
    have parts := List.forall_mem_cons.mp chars
    have other : [':', '*', '*'].isPrefixOf (c :: (key ++ ([':', '*', '*'] ++ rest))) = false := by
      simp [List.isPrefixOf, (ne_colon_of_isKeyChar parts.1).symm]
    rw [List.cons_append, breakOn, other, ih parts.2]
    rfl

/-- A bullet with a key of letters and hyphens is a bullet. -/
theorem bulletKey_of_keyedBullet {line : Line} (keyed : (keyedBullet line).isSome = true) : (bulletKey line).isSome = true := by
  obtain ⟨found, keyed⟩ := Option.isSome_iff_exists.mp keyed
  obtain ⟨rest, start, keyed⟩ := Option.bind_eq_some_iff.mp keyed
  have chars : ∀ c ∈ rest.takeWhile isKeyChar, isKeyChar c = true := fun c => List.mem_takeWhile_imp
  have split := (List.takeWhile_append_dropWhile (p := isKeyChar) (l := rest)).symm
  split_ifs at keyed with none
  obtain ⟨after, marked, -⟩ := Option.bind_eq_some_iff.mp keyed
  rw [behind_eq_some_iff.mp marked] at split
  rw [bulletKey, start, Option.bind_some]
  generalize rest.takeWhile isKeyChar = key at *
  cases key with
  | nil => exact absurd rfl none
  | cons c key =>
    rw [split, List.cons_append]
    have parts := List.forall_mem_cons.mp chars
    have plain : (c :: key).any isTerminator = false := by
      rw [List.any_eq_false]
      exact fun d member => Bool.not_eq_true _ ▸ isTerminator_of_isKeyChar (chars d member)
    have found : breakOn [':', '*', '*'] (key ++ ([':', '*', '*'] ++ after)) = some (key, after) := breakOn_key parts.2
    simp only [found, Option.bind_some, restOfLine, plain, Bool.false_eq_true, if_false, Option.isSome_some]

/-- A bullet begins with a hyphen. -/
private theorem isDashed_of_bulletKey {line : Line} (bullet : (bulletKey line).isSome = true) : isDashed line = true := by
  obtain ⟨key, bullet⟩ := Option.isSome_iff_exists.mp bullet
  obtain ⟨rest, start, -⟩ := Option.bind_eq_some_iff.mp bullet
  obtain ⟨after, dash, -⟩ := Option.bind_eq_some_iff.mp start
  have split := behind_eq_some_iff.mp dash
  have shown : isJsWhitespace '-' = false := by decide
  have begins : trimText line = ('-' :: after).rdropWhile isJsWhitespace := by
    rw [split, trimText, List.singleton_append, List.dropWhile_cons_of_neg (by rw [shown]; decide)]
  rw [isDashed, begins]
  cases trimmed : ('-' :: after).rdropWhile isJsWhitespace with
  | nil =>
    have blank := List.rdropWhile_eq_nil_iff.mp trimmed '-' List.mem_cons_self
    rw [shown] at blank
    contradiction
  | cons c more =>
    have inside : c :: more <+: '-' :: after := trimmed ▸ List.rdropWhile_prefix isJsWhitespace ('-' :: after)
    rw [(List.cons_prefix_cons.mp inside).1]
    rfl

theorem staysIn_of_isWrapped {line : Line} (wrapped : isWrapped line = true) : staysIn line = true := by
  rw [isWrapped, Bool.and_eq_true, Bool.not_eq_true'] at wrapped
  rw [staysIn, Bool.and_eq_true]
  refine ⟨wrapped.1, ?_⟩
  by_contra bullet
  rw [Option.isNone_iff_eq_none, ← ne_eq, ← Option.isSome_iff_ne_none] at bullet
  rw [isDashed_of_bulletKey bullet] at wrapped
  exact Bool.noConfusion wrapped.2

/-! ## Strays -/

/-- The scan joins the wrapped lines, and then the strays. -/
theorem attachedText_eq (value : Line) (back : List Line) :
    attachedText value back = (strays back).foldl joinWrapped (ownText value back) := by
  have own : (back.takeWhile staysIn).takeWhile isWrapped = back.takeWhile isWrapped := by
    rw [List.takeWhile_takeWhile]
    congr 1
    funext line
    cases wrapped : isWrapped line with
    | false => simp
    | true => simp [staysIn_of_isWrapped wrapped]
  have all : (back.takeWhile isWrapped).filter (fun line => !isDashed line) = back.takeWhile isWrapped := by
    rw [List.filter_eq_self]
    intro line member
    have wrapped := List.mem_takeWhile_imp member
    rw [isWrapped, Bool.and_eq_true] at wrapped
    exact wrapped.2
  rw [attachedText, ownText, ← List.foldl_append, strays, ← all, ← own, ← List.filter_append, List.takeWhile_append_dropWhile]

/-- The characters of a text that show. -/
private def shownLength (text : Line) : Nat := (visible isJsWhitespace text).length

private theorem shownLength_joinWrapped (text line : Line) :
    shownLength (joinWrapped text line) = shownLength text + shownLength line := by
  have blank : isJsWhitespace ' ' = true := by decide
  have space : visible isJsWhitespace (' ' :: trimText line) = visible isJsWhitespace line := by
    rw [visible, List.filter_cons_of_neg (by rw [blank]; decide)]
    exact visible_trimText line
  rw [shownLength, joinWrapped, visible_trimText, visible_append, space, List.length_append]
  rfl

private theorem shownLength_pos {line : Line} (shown : trimText line ≠ []) : 0 < shownLength line := by
  rw [shownLength, List.length_pos_iff]
  intro none
  rw [trimText, dropWhile_eq_nil_iff_visible.mpr none] at shown
  exact shown rfl

/-- Joining more lines changes a text. -/
private theorem joinWrapped_ne {lines : List Line} (some : lines ≠ []) (shown : ∀ line ∈ lines, trimText line ≠ []) (text :
    Line) :
    lines.foldl joinWrapped text ≠ text := by
  have longer (lines : List Line) (text : Line) : shownLength text ≤ shownLength (lines.foldl joinWrapped text) := by
    induction lines generalizing text with
    | nil => exact Nat.le_refl _
    | cons line lines ih =>
      have here := shownLength_joinWrapped text line
      have rest := ih (joinWrapped text line)
      rw [List.foldl_cons]
      omega
  cases lines with
  | nil => exact absurd rfl some
  | cons line lines =>
    intro same
    have first := shownLength_joinWrapped text line
    have rest := longer lines (joinWrapped text line)
    have here := shownLength_pos (shown line List.mem_cons_self)
    rw [List.foldl_cons] at same
    rw [same] at rest
    omega

/-- The scan leaves a bullet its own text exactly where it has no strays. -/
theorem attachedText_eq_ownText_iff (value : Line) (back : List Line) :
    attachedText value back = ownText value back ↔ strays back = [] := by
  rw [attachedText_eq]
  constructor
  · intro same
    by_contra some
    refine joinWrapped_ne some ?_ (ownText value back) same
    intro line member
    have inside := List.mem_of_mem_filter member
    have stays := List.mem_takeWhile_imp ((List.dropWhile_suffix isWrapped).subset inside)
    rw [staysIn, Bool.and_eq_true, bne_iff_ne] at stays
    exact stays.1
  · intro none
    rw [none]
    rfl

/-! ## The last bullet with a key -/

variable {text : Line → List Line → Line} {key : String} {lines back : List Line} {line value : Line}

theorem lastText_eq_none_iff : lastText text key lines = none ↔ NoLater key lines := by
  induction lines with
  | nil => simp [lastText, NoLater]
  | cons line rest ih =>
    rw [lastText, Option.or_eq_none_iff, ih, NoLater, NoLater, List.forall_mem_cons, and_comm]
    cases keyed : keyedBullet line with
    | none => simp
    | some found =>
      obtain ⟨own, value⟩ := found
      simp only [ite_eq_right_iff, reduceCtorEq, imp_false, ne_eq, Option.some.injEq, Prod.mk.injEq]
      constructor
      · rintro ⟨other, rest⟩
        exact ⟨fun value same => other same.1, rest⟩
      · rintro ⟨other, rest⟩
        exact ⟨fun same => other value ⟨same, rfl⟩, rest⟩

theorem lastText_of_last (keyed : keyedBullet line = some (key, value)) (last : NoLater key back) (front : List Line) :
    lastText text key (front ++ line :: back) = some (text value back) := by
  induction front with
  | nil =>
    rw [List.nil_append, lastText, lastText_eq_none_iff.mpr last, keyed]
    simp
  | cons head front ih => rw [List.cons_append, lastText, ih, Option.some_or]

/-- Where a text is read, it is that of the last bullet. -/
theorem exists_of_lastText (found : lastText text key lines = some value) :
    ∃ front line own back, lines = front ++ line :: back ∧ keyedBullet line = some (key, own) ∧ NoLater key back ∧
      value = text own back := by
  induction lines with
  | nil => contradiction
  | cons head rest ih =>
    rw [lastText, Option.or_eq_some_iff] at found
    rcases found with later | ⟨none, here⟩
    · obtain ⟨front, line, own, back, rfl, keyed, last, same⟩ := ih later
      exact ⟨head :: front, line, own, back, rfl, keyed, last, same⟩
    · cases keyed : keyedBullet head with
      | none =>
        rw [keyed] at here
        contradiction
      | some found =>
        rw [keyed] at here
        obtain ⟨own, value⟩ := found
        simp only at here
        split_ifs at here with same
        exact ⟨[], head, value, rest, rfl, same ▸ keyed, lastText_eq_none_iff.mp none, (Option.some.inj here).symm⟩

/-! ## The scan -/

/-- The text under a key after the scan of more lines. -/
private def goOn (scan : BulletScan) (key : String) (lines : List Line) : Option Line :=
  if scan.currentKey = some key then (scan.bullets.get? key).map fun text => attachedText text lines else scan.bullets.get? key

private theorem takeWhile_staysIn_bullet (bullet : (bulletKey line).isSome = true) (rest : List Line) :
    (line :: rest).takeWhile staysIn = [] := by
  rw [List.takeWhile_cons_of_neg]
  rw [staysIn, Bool.and_eq_true, Option.isNone_iff_eq_none]
  rintro ⟨-, none⟩
  rw [none] at bullet
  contradiction

private theorem attachedText_bullet (bullet : (bulletKey line).isSome = true) (value : Line) (rest : List Line) :
    attachedText value (line :: rest) = value := by
  rw [attachedText, takeWhile_staysIn_bullet bullet]
  rfl

private theorem attachedText_blank (blank : trimText line = []) (value : Line) (rest : List Line) :
    attachedText value (line :: rest) = value := by
  rw [attachedText, List.takeWhile_cons_of_neg (by simp [staysIn, blank])]
  rfl

private theorem attachedText_stays (stays : staysIn line = true) (value : Line) (rest : List Line) :
    attachedText value (line :: rest) = if isDashed line then attachedText value rest
      else attachedText (joinWrapped value line) rest := by
  rw [attachedText, List.takeWhile_cons_of_pos stays, List.filter_cons]
  cases isDashed line <;> rfl

private theorem goOn_of_ended {scan : BulletScan} (ended : ∀ text, attachedText text lines = text) :
    goOn scan key lines = scan.bullets.get? key := by
  rw [goOn]
  split_ifs
  · simp [ended]
  · rfl

/-- One line: the text under a key goes on, or a bullet takes its place. -/
private theorem goOn_read (scan : BulletScan) (kept :
    scan.currentKey = some key → (scan.bullets.get? key).isSome = true) (line : Line)
    (rest : List Line) :
    ((scan.read line).currentKey = some key → ((scan.read line).bullets.get? key).isSome = true) ∧
    goOn (scan.read line) key rest =
      (match keyedBullet line with
        | some (own, value) => if own = key then some (attachedText value rest) else none
        | none => none).or (goOn scan key (line :: rest)) := by
  cases keyed : keyedBullet line with
  | some found =>
    obtain ⟨own, value⟩ := found
    have bullet := bulletKey_of_keyedBullet (keyed ▸ rfl : (keyedBullet line).isSome = true)
    have read : scan.read line = ⟨scan.bullets.set own value, scan.unknownKeys, some own, scan.offset + 1⟩ := by
      simp only [BulletScan.read, keyed]
    rw [read, goOn_of_ended (attachedText_bullet bullet · rest), goOn]
    simp only [KeyedStore.get?_set, Option.some.injEq]
    by_cases same : own = key
    · simp [same]
    · simp [same, Ne.symm same]
  | none =>
    cases bullet : bulletKey line with
    | some unknown =>
      have read : scan.read line = ⟨scan.bullets, scan.unknownKeys ++ [(unknown, scan.offset)], none, scan.offset + 1⟩ := by
        simp only [BulletScan.read, keyed, bullet]
      rw [read, goOn_of_ended (attachedText_bullet (bullet ▸ rfl) · rest), goOn]
      simp
    | none =>
      by_cases blank : trimText line = []
      · have read : scan.read line = ⟨scan.bullets, scan.unknownKeys, none, scan.offset + 1⟩ := by
          simp only [BulletScan.read, keyed, bullet, if_pos blank]
        rw [read, goOn_of_ended (attachedText_blank blank · rest), goOn]
        simp
      · have stays : staysIn line = true := by simp [staysIn, blank, bullet]
        cases current : scan.currentKey with
        | none =>
          have read : scan.read line = ⟨scan.bullets, scan.unknownKeys, none, scan.offset + 1⟩ := by
            simp only [BulletScan.read, keyed, bullet, if_neg blank, current]
          rw [read, goOn, goOn, current]
          simp
        | some own =>
          cases dashed : isDashed line with
          | true =>
            have read : scan.read line = ⟨scan.bullets, scan.unknownKeys, some own, scan.offset + 1⟩ := by
              simp only [BulletScan.read, keyed, bullet, if_neg blank, current, dashed, if_true]
            have attached (text : Line) : attachedText text (line :: rest) = attachedText text rest := by
              rw [attachedText_stays stays, dashed]
              rfl
            rw [current] at kept
            rw [read, goOn, goOn, current]
            simp only [attached, Option.none_or, and_true]
            exact kept
          | false =>
            have read : scan.read line =
              ⟨scan.bullets.set own (joinWrapped ((scan.bullets.get? own).getD "undefined".toList) line),
                scan.unknownKeys, some own, scan.offset + 1⟩ := by
              simp only [BulletScan.read, keyed, bullet, if_neg blank, current, dashed, Bool.false_eq_true, if_false]
            have attached (text : Line) : attachedText text (line :: rest) = attachedText (joinWrapped text line) rest := by
              rw [attachedText_stays stays, dashed]
              rfl
            rw [current] at kept
            rw [read, goOn, goOn, current]
            simp only [attached, Option.none_or, KeyedStore.get?_set, Option.some.injEq]
            by_cases same : own = key
            · obtain ⟨text, stored⟩ := Option.isSome_iff_exists.mp (kept (congrArg some same))
              subst same
              simp [stored]
            · simp [same, Ne.symm same]

private theorem get?_foldl_read (scan : BulletScan) (kept : scan.currentKey = some key → (scan.bullets.get? key).isSome = true)
    (lines : List Line) :
    (lines.foldl BulletScan.read scan).bullets.get? key = (lastText attachedText key lines).or (goOn scan key lines) := by
  induction lines generalizing scan with
  | nil => rw [List.foldl_nil, lastText, Option.none_or, goOn_of_ended fun _ => rfl]
  | cons line rest ih =>
    obtain ⟨kept, goes⟩ := goOn_read scan kept line rest
    rw [List.foldl_cons, lastText, ih _ kept, goes, Option.or_assoc]

/-- What the scan leaves under a key is the attached text of the last bullet with it. -/
theorem get?_parseBullets (key : String) (lines : List Line) :
    (parseBullets lines).bullets.get? key = lastText attachedText key lines := by
  have closed : (none : Option String) ≠ some key := nofun
  rw [parseBullets, get?_foldl_read _ fun same => absurd same closed, goOn, if_neg closed, KeyedStore.get?_empty, Option.or_none]

/-! ## Unknown keys -/

/-- The key of a bullet that is not one of letters and hyphens. -/
def unknownKey (line : Line) : Option Line := if (keyedBullet line).isSome then none else bulletKey line

private theorem unknownKeys_foldl (scan : BulletScan) (lines : List Line) :
    (lines.foldl BulletScan.read scan).unknownKeys =
      scan.unknownKeys ++ (blocks unknownKey (fun _ => true) scan.offset lines).map fun block => (block.2.1, block.1) := by
  induction lines generalizing scan with
  | nil => simp [blocks]
  | cons line rest ih =>
    have read : (scan.read line).offset = scan.offset + 1 ∧
        (scan.read line).unknownKeys = scan.unknownKeys ++ ((unknownKey line).map fun key => (key, scan.offset)).toList := by
      cases keyed : keyedBullet line with
      | some found => simp [BulletScan.read, unknownKey, keyed]
      | none =>
        cases bullet : bulletKey line with
        | some unknown => simp [BulletScan.read, unknownKey, keyed, bullet]
        | none =>
          have none : unknownKey line = none := by simp [unknownKey, keyed, bullet]
          simp only [none, BulletScan.read, keyed, bullet]
          cases scan.currentKey with
          | none => split_ifs <;> simp
          | some own => split_ifs <;> simp
    rw [List.foldl_cons, ih, read.1, read.2, blocks]
    cases unknownKey line <;> simp

/-- The scan keeps the key of each bullet it does not know, with its place. -/
theorem mem_unknownKeys {unknown : Line} {offset : Nat} : (unknown, offset) ∈ (parseBullets lines).unknownKeys ↔
    ∃ front line back, lines = front ++ line :: back ∧ unknownKey line = some unknown ∧ offset = front.length := by
  rw [parseBullets, unknownKeys_foldl, List.nil_append, List.mem_map]
  constructor
  · rintro ⟨⟨place, title, body⟩, member, same⟩
    obtain ⟨rfl, rfl⟩ := Prod.mk.inj same
    obtain ⟨front, line, back, split, here, place, -⟩ := mem_blocks.mp member
    exact ⟨front, line, back, split, here, place.trans (Nat.zero_add _)⟩
  · rintro ⟨front, line, back, split, here, rfl⟩
    refine ⟨(front.length, unknown, under (fun _ => true) back), mem_blocks.mpr ⟨front, line, back, split, here, ?_, rfl⟩, rfl⟩
    exact (Nat.zero_add _).symm

/-! ## What the lines of a block are read as -/

/-- What the scan leaves under each key is the own text of the last bullet with it. -/
def Kept (lines : List Line) : Prop := ∀ key, (parseBullets lines).bullets.get? key = lastText ownText key lines

/-- The last bullet of a key has no strays. -/
def NoStrays (lines : List Line) : Prop :=
  ∀ front line back key value, lines = front ++ line :: back → keyedBullet line =
    some (key, value) → NoLater key back → strays back = []

theorem kept_iff : Kept lines ↔ NoStrays lines := by
  constructor
  · rintro kept front line back key value rfl keyed last
    have read := kept key
    rw [get?_parseBullets, lastText_of_last keyed last, lastText_of_last keyed last] at read
    exact (attachedText_eq_ownText_iff value back).mp (Option.some.inj read)
  · intro none key
    rw [get?_parseBullets]
    cases found : lastText ownText key lines with
    | none => exact lastText_eq_none_iff.mpr (lastText_eq_none_iff.mp found)
    | some text =>
      obtain ⟨front, line, own, back, rfl, keyed, last, rfl⟩ := exists_of_lastText found
      rw [lastText_of_last keyed last, (attachedText_eq_ownText_iff own back).mpr (none front line back key own rfl keyed last)]

/-- A proof says all of a text: its kind, its reference, and of a judgment that it is `true`. -/
def CarriesProof (proof : Option SpecProof) (own : Line) : Prop :=
  ∃ parts, proofParts own = some parts ∧ proof = some (SpecProof.ofParts parts) ∧ (parts.1 = .judgment → parts.2 = "true".toList)

/-- A requirement has a text under a key. -/
def Carries (requirement : SpecRequirement) (key : String) (own : Line) : Prop :=
  (key = "statement" ∧ requirement.statement = some own) ∨ (key = "constraints" ∧ requirement.constraints = some own) ∨
    (key = "proof" ∧ CarriesProof requirement.proof own) ∨ (key = "measure" ∧ CarriesProof requirement.measure own)

/-- Two texts name the same proof, a judgment in its one form. -/
def SameProof (own last : Line) : Prop :=
  ∃ kind ref ref', proofParts own = some (kind, ref) ∧ proofParts last = some (kind, ref') ∧
    if kind = .judgment then ref = "true".toList else ref = ref'

/-- A bullet says what the last bullet with its key says, under one of the four keys. -/
def Agrees (key : String) (own last : Line) : Prop :=
  (key = "statement" ∧ own = last) ∨ (key = "constraints" ∧ own = last) ∨
    (key = "proof" ∧ (proofParts last = none ∨ SameProof own last)) ∨ (key = "measure" ∧ SameProof own last)

private theorem carriesProof_iff {own last : Line} : CarriesProof (parseProof (some last)) own ↔ SameProof own last := by
  constructor
  · rintro ⟨⟨kind, ref⟩, reads, same, whole⟩
    obtain ⟨⟨kind', ref'⟩, reads', ofParts⟩ := Option.map_eq_some_iff.mp same
    have reads' : proofParts last = some (kind', ref') := reads'
    by_cases judgment : kind = .judgment
    · subst judgment
      have kinds : kind' = .judgment := by
        by_contra other
        simp [SpecProof.ofParts, other] at ofParts
      exact ⟨_, ref, ref', reads, kinds ▸ reads', by rw [if_pos rfl]; exact whole rfl⟩
    · have kinds : kind' ≠ .judgment := by
        rintro rfl
        simp only [SpecProof.ofParts, if_true, if_neg judgment, SpecProof.mk.injEq] at ofParts
        exact judgment ofParts.1.symm
      simp only [SpecProof.ofParts, if_neg judgment, if_neg kinds, SpecProof.mk.injEq, Option.some.injEq] at ofParts
      obtain ⟨rfl, rfl⟩ := ofParts
      exact ⟨_, _, _, reads, reads', by rw [if_neg judgment]⟩
  · rintro ⟨kind, ref, ref', reads, reads', same⟩
    have parsed : parseProof (some last) = some (SpecProof.ofParts (kind, ref')) :=
      by rw [parseProof, Option.bind_some, reads']; rfl
    refine ⟨(kind, ref), reads, ?_, ?_⟩
    · rw [parsed]
      by_cases judgment : kind = .judgment
      · simp [SpecProof.ofParts, judgment]
      · rw [if_neg judgment] at same
        rw [same]
    · intro judgment
      rwa [if_pos judgment] at same

private theorem parseProof_eq_none_iff {last : Line} : parseProof (some last) = none ↔ proofParts last = none := by
  rw [parseProof, Option.map_eq_none_iff, Option.bind_some]

/-- A bullet's text reaches the requirement, or the requirement has no proof, exactly where it agrees with the last one of its
key. -/
theorem carries_iff (kept : Kept lines) {last : Line} (own : Line) (found : lastText ownText key lines = some last) (title :
    Line) (number : Nat) :
    Carries (requirementOf title number lines) key own ∨ (key = "proof" ∧ (requirementOf title number lines).proof = none) ↔
      Agrees key own last := by
  have stored := (kept key).trans found
  have statement : key = "statement" → (requirementOf title number lines).statement = some last := by
    rintro rfl
    exact stored
  have constraints : key = "constraints" → (requirementOf title number lines).constraints = some last := by
    rintro rfl
    exact stored
  have proof : key = "proof" → (requirementOf title number lines).proof = parseProof (some last) := by
    rintro rfl
    exact congrArg parseProof stored
  have measure : key = "measure" → (requirementOf title number lines).measure = parseProof (some last) := by
    rintro rfl
    exact congrArg parseProof stored
  constructor
  · rintro ((⟨same, here⟩ | ⟨same, here⟩ | ⟨same, here⟩ | ⟨same, here⟩) | ⟨same, none⟩)
    · rw [statement same, Option.some.injEq] at here
      exact .inl ⟨same, here.symm⟩
    · rw [constraints same, Option.some.injEq] at here
      exact .inr (.inl ⟨same, here.symm⟩)
    · rw [proof same] at here
      exact .inr (.inr (.inl ⟨same, .inr (carriesProof_iff.mp here)⟩))
    · rw [measure same] at here
      exact .inr (.inr (.inr ⟨same, carriesProof_iff.mp here⟩))
    · rw [proof same] at none
      exact .inr (.inr (.inl ⟨same, .inl (parseProof_eq_none_iff.mp none)⟩))
  · rintro (⟨same, rfl⟩ | ⟨same, rfl⟩ | ⟨same, none | both⟩ | ⟨same, both⟩)
    · exact .inl (.inl ⟨same, statement same⟩)
    · exact .inl (.inr (.inl ⟨same, constraints same⟩))
    · exact .inr ⟨same, (proof same).trans (parseProof_eq_none_iff.mpr none)⟩
    · exact .inl (.inr (.inr (.inl ⟨same, proof same ▸ carriesProof_iff.mpr both⟩)))
    · exact .inl (.inr (.inr (.inr ⟨same, measure same ▸ carriesProof_iff.mpr both⟩)))

end Faberun.Spec
