import Faberun.Soundness.SpecBullets

/-! # What becomes of the bullets of a spec

The requirements of a spec are those of the readable blocks of its last Requirements section. So the bullets that are accounted
for are those
of its blocks whose text the last bullet with their key says as well, and those with a key the format does not know; a block is
found
again by the number of its first line.
-/

namespace Faberun.Spec

open Headings

/-! ## Lines -/

private theorem newline_notMem_splitOn {line : Line} : ∀ {text : Line}, line ∈ text.splitOn '\n' → '\n' ∉ line := by
  intro text
  induction text generalizing line with
  | nil =>
    intro member
    rw [List.splitOn_nil, List.mem_singleton] at member
    simp [member]
  | cons c text ih =>
    intro member
    rw [List.splitOn_cons_eq_if_modifyHead] at member
    split_ifs at member with broken
    · rcases List.mem_cons.mp member with rfl | later
      · exact List.not_mem_nil
      · exact ih later
    · cases pieces : text.splitOn '\n' with
      | nil =>
        rw [pieces] at member
        contradiction
      | cons head rest =>
        rw [pieces] at ih
        rw [pieces, List.modifyHead_cons] at member
        rcases List.mem_cons.mp member with rfl | later
        · rw [beq_iff_eq] at broken
          rw [List.mem_cons, not_or]
          exact ⟨Ne.symm broken, ih List.mem_cons_self⟩
        · exact ih (List.mem_cons_of_mem head later)

/-- The lines of a section come back from its body, but for none of them. -/
private theorem blocks_joinLines {lines : List Line} (plain : ∀ line ∈ lines, '\n' ∉ line) :
    blocks (headingText 3) (opensBlock 3) 0 (splitLines (joinLines lines)) = blocks (headingText 3) (opensBlock 3) 0 lines := by
  cases lines with
  | nil => rfl
  | cons line lines => rw [splitLines, joinLines, List.splitOn_intercalate '\n' plain (List.cons_ne_nil line lines)]

/-! ## Places in the text -/

/-- A heading of a Requirements section. -/
def requirementsHeading (toLowerCase : Line → Line) (line : Line) : Bool :=
  (headingText 2 line).any fun title => decide (normalizeHeading toLowerCase title = "requirements".toList)

/-- A Requirements section of a text, behind its front matter. -/
structure RequirementsSection (toLowerCase : Line → Line) (text : Line) where
  before : List Line
  heading : Line
  after : List Line
  split : splitLines text = before ++ heading :: after
  behind : sectionsStart (splitLines text) ≤ before.length
  named : requirementsHeading toLowerCase heading = true

variable {toLowerCase : Line → Line} {text : Line}

def RequirementsSection.body (own : RequirementsSection toLowerCase text) : List Line := under (opensBlock 2) own.after

/-- No later section has the name. -/
def RequirementsSection.IsLast (own : RequirementsSection toLowerCase text) : Prop :=
  ∀ later ∈ own.after, requirementsHeading toLowerCase later = false

/-- A block of a Requirements section. -/
structure RequirementBlock (toLowerCase : Line → Line) (text : Line) where
  parent : RequirementsSection toLowerCase text
  before : List Line
  heading : Line
  after : List Line
  split : parent.body = before ++ heading :: after
  opens : opensBlock 3 heading = true

def RequirementBlock.lines (block : RequirementBlock toLowerCase text) : List Line := under (opensBlock 3) block.after

/-- The place of its heading. -/
def RequirementBlock.place (block : RequirementBlock toLowerCase text) :
    Nat := block.parent.before.length + 1 + block.before.length

/-- The number of the first line under the heading, counted from one. -/
def RequirementBlock.number (block : RequirementBlock toLowerCase text) : Nat := block.place + 2

private theorem opensBlock_of_headingText {level : Nat} {line title : Line} (read : headingText level line = some title) :
    opensBlock level line = true := by
  obtain ⟨start, found, -⟩ := Option.bind_eq_some_iff.mp read
  rw [opensBlock, found]
  rfl

theorem RequirementsSection.opens (own : RequirementsSection toLowerCase text) : opensBlock 2 own.heading = true := by
  have named := own.named
  rw [requirementsHeading, Option.any_eq_true] at named
  obtain ⟨title, read, -⟩ := named
  exact opensBlock_of_headingText read

private theorem length_lines_le (block : RequirementBlock toLowerCase text) :
    block.before.length + 1 + block.lines.length ≤ block.parent.body.length := by
  have inside : block.lines.length ≤ block.after.length := (List.takeWhile_prefix _).length_le
  rw [block.split, List.length_append, List.length_cons]
  omega

/-- Two blocks that hold the same place are one. -/
theorem RequirementBlock.unique {block other : RequirementBlock toLowerCase text} (held : Nat) (first : block.place ≤ held)
    (last : held ≤ block.place + block.lines.length) (first' : other.place ≤ held)
      (last' : held ≤ other.place + other.lines.length) :
    block = other := by
  have fits := length_lines_le block
  have fits' := length_lines_le other
  rw [place] at first last first' last'
  have parents := enclosing_unique held (block.parent.split.symm.trans other.parent.split) block.parent.opens other.parent.opens
    (by omega) (by rw [RequirementsSection.body] at fits; omega) (by omega) (by rw [RequirementsSection.body] at fits'; omega)
  obtain ⟨⟨sectionBefore, sectionHeading, sectionAfter, sectionSplit, behind, named⟩, before, heading, after, split, opens⟩ :=
    block
  obtain ⟨⟨sectionBefore', sectionHeading', sectionAfter', sectionSplit', behind', named'⟩, before', heading', after', split',
    opens'⟩ := other
  obtain ⟨rfl, rfl, rfl⟩ := parents
  have blocks := enclosing_unique (held - (sectionBefore.length + 1)) (split.symm.trans split') opens opens'
    (by simp only at first; omega) (by simp only [lines] at last; omega) (by simp only at first'; omega)
      (by simp only [lines] at last'; omega)
  obtain ⟨rfl, rfl, rfl⟩ := blocks
  rfl

/-! ## The requirements -/

private theorem requirementsHeading_eq_false_iff {line : Line} : requirementsHeading toLowerCase line = false ↔
    ∀ title, headingText 2 line = some title → decide (normalizeHeading toLowerCase title = "requirements".toList) = false := by
  rw [requirementsHeading]
  cases headingText 2 line with
  | none => exact ⟨fun _ => nofun, fun _ => rfl⟩
  | some title => exact ⟨fun other own same => Option.some.inj same ▸ other, fun all => all title rfl⟩

private theorem requirementsHeading_of {line title : Line} (read : headingText 2 line = some title)
    (named : decide (normalizeHeading toLowerCase title = "requirements".toList) = true) :
      requirementsHeading toLowerCase line = true := by
  rw [requirementsHeading, read]
  exact named

/-- The section that is parsed is the last one. -/
private theorem get?_requirements_iff {found : SpecSection} :
    (parseSpec toLowerCase text).sections.get? "requirements".toList = some found ↔
      ∃ own : RequirementsSection toLowerCase text, own.IsLast ∧ headingText 2 own.heading = some found.heading ∧
        found.body = joinLines own.body ∧ found.line = own.before.length + 2 := by
  have stored : (parseSpec toLowerCase text).sections.get? "requirements".toList = some found ↔
      ∃ block, ((blocks (headingText 2) (opensBlock 2) (sectionsStart (splitLines text))
          ((splitLines text).drop (sectionsStart (splitLines text)))).filter
            fun block => decide (normalizeHeading toLowerCase block.2.1 = "requirements".toList)).getLast? = some block ∧
        SpecSection.mk block.2.1 (joinLines block.2.2) (block.1 + 2) = found := by
    rw [← Option.map_eq_some_iff, parseSpec]
    simp only [extractSections, KeyedStore.get?_foldl_set, KeyedStore.get?_empty, Option.or_none]
  rw [stored]
  constructor
  · rintro ⟨⟨place, title, body⟩, last, rfl⟩
    obtain ⟨before, line, after, split, read, rfl, rfl, named, later⟩ :=
      (getLast?_blocks fun title => decide (normalizeHeading toLowerCase title = "requirements".toList)).mp last
    have long : sectionsStart (splitLines text) ≤ (splitLines text).length := by
      by_contra short
      rw [List.drop_eq_nil_of_le (Nat.le_of_not_le short)] at split
      exact absurd split.symm (List.append_ne_nil_of_right_ne_nil before (List.cons_ne_nil line after))
    have front := List.length_take_of_le long
    have whole : splitLines text = ((splitLines text).take (sectionsStart (splitLines text)) ++ before) ++ line :: after := by
      rw [List.append_assoc, ← split, List.take_append_drop]
    refine ⟨⟨_, line, after, whole, ?_, requirementsHeading_of read named⟩, ?_, read, rfl, ?_⟩
    · rw [List.length_append, front]
      exact Nat.le_add_right ..
    · exact fun other member => requirementsHeading_eq_false_iff.mpr (later other member)
    · simp only [List.length_append, front]
  · rintro ⟨own, last, read, body, line⟩
    refine ⟨(own.before.length, found.heading, own.body), ?_, ?_⟩
    · rw [getLast?_blocks fun title => decide (normalizeHeading toLowerCase title = "requirements".toList)]
      refine ⟨own.before.drop (sectionsStart (splitLines text)), own.heading, own.after, ?_, read, ?_, rfl, ?_, ?_⟩
      · have front := own.behind
        generalize sectionsStart (splitLines text) = start at front ⊢
        rw [own.split]
        exact List.drop_append_of_le_length front
      · rw [List.length_drop]
        exact (Nat.add_sub_cancel' own.behind).symm
      · have named := own.named
        rw [requirementsHeading, read] at named
        exact named
      · exact fun later member => requirementsHeading_eq_false_iff.mp (last later member)
    · obtain ⟨heading, foundBody, foundLine⟩ := found
      simp only at body line
      rw [body, line]

private theorem newline_notMem_body (own : RequirementsSection toLowerCase text) : ∀ line ∈ own.body, '\n' ∉ line := by
  intro line member
  have inside : line ∈ splitLines text := by
    rw [own.split]
    exact List.mem_append_right _ (List.mem_cons_of_mem _ ((List.takeWhile_prefix _).subset member))
  exact newline_notMem_splitOn inside

/-- The requirements of a spec are those of the readable blocks of its last Requirements section. -/
theorem mem_requirements_iff {requirement : SpecRequirement} : requirement ∈ (parseSpec toLowerCase text).requirements ↔
    ∃ block : RequirementBlock toLowerCase text, block.parent.IsLast ∧
      ∃ title, headingText 3 block.heading = some title ∧ requirement = requirementOf title block.number block.lines := by
  have parsed : (parseSpec toLowerCase text).requirements =
    extractRequirements ((parseSpec toLowerCase text).sections.get? "requirements".toList) :=
    rfl
  rw [parsed]
  constructor
  · intro member
    cases found : (parseSpec toLowerCase text).sections.get? "requirements".toList with
    | none =>
      rw [found] at member
      contradiction
    | some entry =>
      obtain ⟨own, last, -, body, line⟩ := get?_requirements_iff.mp found
      rw [found, extractRequirements, body, blocks_joinLines (newline_notMem_body own)] at member
      obtain ⟨⟨place, title, lines⟩, stands, rfl⟩ := List.mem_map.mp member
      obtain ⟨before, heading, after, split, read, rfl, rfl⟩ := mem_blocks.mp stands
      refine ⟨⟨own, before, heading, after, split, opensBlock_of_headingText read⟩, last, title, read, ?_⟩
      have number : entry.line + (0 + before.length) + 1 = own.before.length + 1 + before.length + 2 := by omega
      simp only [number]
      rfl
  · rintro ⟨block, last, title, read, rfl⟩
    obtain ⟨entry, found, body, line⟩ : ∃ entry, (parseSpec toLowerCase text).sections.get? "requirements".toList = some entry ∧
        entry.body = joinLines block.parent.body ∧ entry.line = block.parent.before.length + 2 := by
      have named := block.parent.named
      rw [requirementsHeading, Option.any_eq_true] at named
      obtain ⟨heading, name, -⟩ := named
      exact ⟨⟨heading, _, _⟩, get?_requirements_iff.mpr ⟨block.parent, last, name, rfl, rfl⟩, rfl, rfl⟩
    rw [found, extractRequirements, body, blocks_joinLines (newline_notMem_body block.parent), List.mem_map]
    refine ⟨(block.before.length, title, block.lines),
      mem_blocks.mpr ⟨block.before, block.heading, block.after, block.split, read, ?_, rfl⟩, ?_⟩
    · exact (Nat.zero_add _).symm
    · have number : entry.line + block.before.length + 1 = block.number := by
        rw [line, RequirementBlock.number, RequirementBlock.place]
        omega
      simp only [number]

/-! ## The findings -/

private theorem grade_rule (options : SpecOptions) (finding : SpecFinding) : (grade options finding).rule = finding.rule ∧
    (grade options finding).line = finding.line ∧ (grade options finding).message = finding.message := by
  rw [grade]
  split_ifs <;> exact ⟨rfl, rfl, rfl⟩

/-- The two rules of the findings a bullet may be named by. -/
private def OfBullets (rule : SpecRule) : Prop := rule = .requirementUnknownBulletKey ∨ rule = .requirementMissingProof

private theorem rule_baselineColumnFindings {found : SpecSection} {finding : SpecFinding} (member :
    finding ∈ baselineColumnFindings found) :
    finding.rule = .successCriteriaMissingBaseline := by
  rw [baselineColumnFindings] at member
  split at member
  · split at member
    · rw [List.mem_singleton.mp member]
    · obtain ⟨⟨row, index⟩, -, kept⟩ := List.mem_filterMap.mp member
      simp only at kept
      split_ifs at kept
      rw [← Option.some.inj kept]
  · contradiction

private theorem rule_proofFindings {requirements : List SpecRequirement} {results : List RequirementProofResult} {finding :
    SpecFinding}
    (member : finding ∈ proofFindings requirements results) : finding.rule = .requirementProofFailed := by
  obtain ⟨result, -, rfl⟩ := List.mem_map.mp member
  rfl

private theorem not_ofBullets {rule : SpecRule} (unknown : rule ≠ .requirementUnknownBulletKey) (missing :
    rule ≠ .requirementMissingProof) :
    ¬ OfBullets rule := not_or.mpr ⟨unknown, missing⟩

private theorem structuredFindings_of_bullets (host : SpecHost) (options : SpecOptions) (parsed : ParsedSpec)
    (frontMatter : KeyedStore String Line) {finding : SpecFinding} (rule : OfBullets finding.rule) :
    finding ∈ structuredFindings host options parsed frontMatter ↔
      ∃ requirement ∈ parsed.requirements, finding ∈ requirementFindings requirement := by
  have other {own : SpecRule} (unknown : own ≠ .requirementUnknownBulletKey) (missing : own ≠ .requirementMissingProof) :
      finding.rule ≠ own := by
    rintro rfl
    exact not_ofBullets unknown missing rule
  rw [← List.mem_flatMap]
  simp only [structuredFindings, List.mem_append]
  constructor
  · rintro (((((goals | inside) | criteria) | baseline) | target) | proofs)
    · split_ifs at goals
      · exact absurd (congrArg SpecFinding.rule (List.mem_singleton.mp goals)) (other nofun nofun)
      · contradiction
    · exact inside
    · cases own : parsed.sections.get? "success criteria".toList with
      | none =>
        rw [own] at criteria
        contradiction
      | some found =>
        rw [own] at criteria
        exact absurd (rule_baselineColumnFindings criteria) (other nofun nofun)
    · split at baseline
      · split_ifs at baseline
        · contradiction
        · exact absurd (congrArg SpecFinding.rule (List.mem_singleton.mp baseline)) (other nofun nofun)
      · contradiction
    · split at target
      · split_ifs at target
        · contradiction
        · exact absurd (congrArg SpecFinding.rule (List.mem_singleton.mp target)) (other nofun nofun)
      · contradiction
    · split_ifs at proofs
      · exact absurd (rule_proofFindings proofs) (other nofun nofun)
      · contradiction
  · exact fun inside => .inl (.inl (.inl (.inl (.inr inside))))

private theorem mem_requirementFindings {requirement : SpecRequirement} {finding : SpecFinding} (rule : OfBullets finding.rule) :
    finding ∈ requirementFindings requirement ↔
      (requirement.proof = none ∧ finding = missingProofFinding requirement) ∨
        ∃ unknown ∈ requirement.unknownBulletKeys, finding = unknownBulletFinding requirement unknown := by
  have other {own : SpecRule} (unknown : own ≠ .requirementUnknownBulletKey) (missing : own ≠ .requirementMissingProof) :
      finding.rule ≠ own := by
    rintro rfl
    exact not_ofBullets unknown missing rule
  simp only [requirementFindings, List.mem_append, List.mem_map]
  constructor
  · rintro (((id | proof) | ⟨unknown, known, rfl⟩) | unnamed)
    · split_ifs at id
      · exact absurd (congrArg SpecFinding.rule (List.mem_singleton.mp id)) (other nofun nofun)
      · contradiction
    · split_ifs at proof with none
      · exact .inl ⟨Option.isNone_iff_eq_none.mp none, List.mem_singleton.mp proof⟩
      · contradiction
    · exact .inr ⟨unknown, known, rfl⟩
    · obtain ⟨unbacked, -, rfl⟩ := Option.map_eq_some_iff.mp (Option.mem_toList.mp unnamed)
      exact absurd rfl (other nofun nofun)
  · rintro (⟨none, rfl⟩ | ⟨unknown, known, rfl⟩)
    · refine .inl (.inl (.inr ?_))
      rw [if_pos (Option.isNone_iff_eq_none.mpr none)]
      exact List.mem_singleton_self _
    · exact .inl (.inr ⟨unknown, known, rfl⟩)

/-- The findings of the two rules are those of the requirements. -/
private theorem exists_finding_iff (host : SpecHost) (options : SpecOptions) (structured :
    (extractFrontMatter (splitLines text)).isSome = true)
    (asked : SpecRule → Nat → String → Prop) (rules : ∀ rule line message, asked rule line message → OfBullets rule) :
    (∃ finding ∈ (validateSpec host options text).findings, asked finding.rule finding.line finding.message) ↔
      ∃ requirement ∈ (parseSpec host.toLowerCase text).requirements,
        (requirement.proof = none ∧ asked .requirementMissingProof requirement.line (missingProofFinding requirement).message) ∨
          ∃ unknown ∈ requirement.unknownBulletKeys,
            asked .requirementUnknownBulletKey unknown.line (unknownBulletFinding requirement unknown).message := by
  obtain ⟨⟨frontMatter, start⟩, found⟩ := Option.isSome_iff_exists.mp structured
  have validated : (validateSpec host options text).findings =
      (structuredFindings host options (parseSpec host.toLowerCase text) frontMatter).map (grade options) := by
    have parsed : (parseSpec host.toLowerCase text).frontMatter = some frontMatter := by rw [parseSpec, found]; rfl
    rw [validateSpec, parsed]
  rw [validated]
  constructor
  · rintro ⟨finding, member, holds⟩
    obtain ⟨finding, stands, rfl⟩ := List.mem_map.mp member
    obtain ⟨rule, line, message⟩ := grade_rule options finding
    rw [rule, line, message] at holds
    have ofBullets := rules _ _ _ holds
    obtain ⟨requirement, parsed, raised⟩ := (structuredFindings_of_bullets host options _ frontMatter ofBullets).mp stands
    rcases (mem_requirementFindings ofBullets).mp raised with ⟨none, rfl⟩ | ⟨unknown, known, rfl⟩
    · exact ⟨requirement, parsed, .inl ⟨none, holds⟩⟩
    · exact ⟨requirement, parsed, .inr ⟨unknown, known, holds⟩⟩
  · rintro ⟨requirement, parsed, ⟨none, holds⟩ | ⟨unknown, known, holds⟩⟩
    · have raised := (structuredFindings_of_bullets host options _ frontMatter (rules _ _ _ holds)).mpr
        ⟨requirement, parsed, (mem_requirementFindings (rules _ _ _ holds)).mpr (.inl ⟨none, rfl⟩)⟩
      obtain ⟨rule, line, message⟩ := grade_rule options (missingProofFinding requirement)
      exact ⟨_, List.mem_map_of_mem raised, by rw [rule, line, message]; exact holds⟩
    · have raised := (structuredFindings_of_bullets host options _ frontMatter (rules _ _ _ holds)).mpr
        ⟨requirement, parsed, (mem_requirementFindings (rules _ _ _ holds)).mpr (.inr ⟨unknown, known, rfl⟩)⟩
      obtain ⟨rule, line, message⟩ := grade_rule options (unknownBulletFinding requirement unknown)
      exact ⟨_, List.mem_map_of_mem raised, by rw [rule, line, message]; exact holds⟩

/-! ## What becomes of a bullet -/

/-- A finding names a key. -/
def Names (message : String) (key : Line) : Prop := ∃ before after, message = before ++ String.ofList key ++ after

/-- A bullet line of a block is accounted for: the requirement of its block has its text under its key, or a finding names the
key, or that
the requirement has no proof where the bullet is one. -/
def Accounted (host : SpecHost) (options : SpecOptions) (block : RequirementBlock host.toLowerCase text) (front :
    List Line) (line : Line)
    (back : List Line) : Prop :=
  (∃ requirement ∈ (parseSpec host.toLowerCase text).requirements, requirement.line = block.number ∧
    ∃ key value, keyedBullet line = some (key, value) ∧ Carries requirement key (ownText value back)) ∨
  (∃ finding ∈ (validateSpec host options text).findings,
    (finding.rule = .requirementUnknownBulletKey ∧ finding.line = block.number + front.length ∧
      ∃ key, bulletKey line = some key ∧ Names finding.message key) ∨
    (finding.rule = .requirementMissingProof ∧ finding.line = block.number ∧ ∃ value, keyedBullet line = some ("proof", value)))

/-- No requirement text is dropped silently: every bullet of every block of a Requirements section is accounted for, and no
line is joined
to a bullet it does not belong to. -/
def NothingDropped (host : SpecHost) (options : SpecOptions) (text : Line) : Prop :=
  ∀ block : RequirementBlock host.toLowerCase text, Kept block.lines ∧
    ∀ front line back, block.lines = front ++ line :: back → (bulletKey line).isSome =
      true → Accounted host options block front line back

/-- The bullets of a spec are written as they are read: in the last Requirements section under a heading that can be read,
without strays,
under the four keys, and the bullets of one key of a block agree with the last of them. -/
def WrittenAsRead (toLowerCase : Line → Line) (text : Line) : Prop :=
  ∀ block : RequirementBlock toLowerCase text, (∃ line ∈ block.lines, (bulletKey line).isSome = true) →
    block.parent.IsLast ∧ (headingText 3 block.heading).isSome = true ∧ NoStrays block.lines ∧
      ∀ front line back key value, block.lines = front ++ line :: back → keyedBullet line = some (key, value) →
        ∀ last, lastText ownText key block.lines = some last → Agrees key (ownText value back) last

/-- A block is parsed where its section is the last one and its heading can be read. -/
private def Parsed (block : RequirementBlock toLowerCase text) : Prop :=
  block.parent.IsLast ∧ (headingText 3 block.heading).isSome = true

/-- The requirement with the number of a block is that of the block. -/
private theorem requirement_of_number {block : RequirementBlock toLowerCase text} {requirement : SpecRequirement}
    (parsed : requirement ∈ (parseSpec toLowerCase text).requirements) (same : requirement.line = block.number) :
    Parsed block ∧ ∃ title, requirement = requirementOf title block.number block.lines := by
  obtain ⟨other, last, title, read, rfl⟩ := mem_requirements_iff.mp parsed
  have number : other.number = block.number := same
  rw [RequirementBlock.number, RequirementBlock.number] at number
  obtain rfl : other = block := RequirementBlock.unique block.place (by omega) (by omega) (by omega) (by omega)
  exact ⟨⟨last, read ▸ rfl⟩, title, rfl⟩

/-- A block with a line of a requirement's unknown keys is parsed, and the line has an unknown key. -/
private theorem unknown_of_number {block : RequirementBlock toLowerCase text} {requirement : SpecRequirement} {unknown :
    UnknownBulletKey}
    {front back : List Line} {line : Line} (parsed : requirement ∈ (parseSpec toLowerCase text).requirements)
    (known : unknown ∈ requirement.unknownBulletKeys) (split : block.lines = front ++ line :: back)
    (same : unknown.line = block.number + front.length) : Parsed block ∧ unknownKey line = some unknown.key := by
  obtain ⟨other, last, title, read, rfl⟩ := mem_requirements_iff.mp parsed
  obtain ⟨⟨key, offset⟩, found, rfl⟩ := List.mem_map.mp known
  obtain ⟨front', line', back', split', own, rfl⟩ := mem_unknownKeys.mp found
  have number : other.number + front'.length = block.number + front.length := same
  rw [RequirementBlock.number, RequirementBlock.number] at number
  have size : front.length < block.lines.length := by
    rw [split, List.length_append, List.length_cons]
    omega
  have size' : front'.length < other.lines.length := by
    rw [split', List.length_append, List.length_cons]
    omega
  obtain rfl : other = block :=
    RequirementBlock.unique (block.place + front.length) (by omega) (by omega) (by omega) (by omega)
  obtain ⟨rfl, rest⟩ := List.append_inj (split'.symm.trans split) (Nat.add_left_cancel (n := other.place + 2) number)
  obtain ⟨rfl, -⟩ := List.cons.inj rest
  exact ⟨⟨last, read ▸ rfl⟩, own⟩

private theorem unknownBulletFinding_names (requirement : SpecRequirement) (unknown : UnknownBulletKey) :
    Names (unknownBulletFinding requirement unknown).message unknown.key := ⟨_, _, rfl⟩

/-- A bullet is accounted for where its block is parsed and its text reaches the requirement, or its key is not known. -/
private theorem accounted_iff {host : SpecHost} {options : SpecOptions} (structured :
    (extractFrontMatter (splitLines text)).isSome = true)
    {block : RequirementBlock host.toLowerCase text} {front back : List Line} {line : Line} (split : block.lines =
      front ++ line :: back)
    (bullet : (bulletKey line).isSome = true) :
    Accounted host options block front line back ↔ Parsed block ∧
      ∀ key value, keyedBullet line = some (key, value) → ∃ title,
        Carries (requirementOf title block.number block.lines) key (ownText value back) ∨
          (key = "proof" ∧ (requirementOf title block.number block.lines).proof = none) := by
  have raised := exists_finding_iff host options structured
    (fun rule number message =>
      (rule = .requirementUnknownBulletKey ∧ number = block.number + front.length ∧ ∃ key, bulletKey line = some key ∧
        Names message key) ∨
      (rule = .requirementMissingProof ∧ number = block.number ∧ ∃ value, keyedBullet line = some ("proof", value)))
    (by rintro rule number message (⟨same, -⟩ | ⟨same, -⟩); exacts [.inl same, .inr same])
  rw [Accounted, raised]
  constructor
  · rintro (⟨requirement, parsed, same, key, value, keyed, carries⟩ |
      ⟨requirement, parsed, ⟨none, ⟨other, -⟩ | ⟨-, same, value, keyed⟩⟩ | ⟨unknown, known, ⟨-, same, -⟩ | ⟨other, -⟩⟩⟩)
    · obtain ⟨here, title, rfl⟩ := requirement_of_number parsed same
      refine ⟨here, fun other text again => ⟨title, .inl ?_⟩⟩
      obtain ⟨rfl, rfl⟩ := Prod.mk.inj (Option.some.inj (keyed.symm.trans again))
      exact carries
    · contradiction
    · obtain ⟨here, title, rfl⟩ := requirement_of_number parsed same
      refine ⟨here, fun other text again => ⟨title, .inr ⟨?_, none⟩⟩⟩
      exact (Prod.mk.inj (Option.some.inj (again.symm.trans keyed))).1
    · obtain ⟨here, own⟩ := unknown_of_number parsed known split same
      refine ⟨here, fun key value keyed => ?_⟩
      rw [unknownKey, keyed] at own
      contradiction
    · contradiction
  · rintro ⟨⟨last, read⟩, carried⟩
    obtain ⟨title, read⟩ := Option.isSome_iff_exists.mp read
    have parsed : requirementOf title block.number block.lines ∈ (parseSpec host.toLowerCase text).requirements :=
      mem_requirements_iff.mpr ⟨block, last, title, read, rfl⟩
    cases keyed : keyedBullet line with
    | some found =>
      obtain ⟨key, value⟩ := found
      obtain ⟨_, carries | ⟨rfl, none⟩⟩ := carried key value keyed
      · exact .inl ⟨_, parsed, rfl, key, value, rfl, carries⟩
      · exact .inr ⟨_, parsed, .inl ⟨none, .inr ⟨rfl, rfl, value, rfl⟩⟩⟩
    | none =>
      obtain ⟨key, named⟩ := Option.isSome_iff_exists.mp bullet
      have own : unknownKey line = some key := by rw [unknownKey, keyed, named]; rfl
      have known : (⟨key, block.number + front.length⟩ : UnknownBulletKey) ∈
        (requirementOf title block.number block.lines).unknownBulletKeys :=
        List.mem_map.mpr ⟨(key, front.length), mem_unknownKeys.mpr ⟨front, line, back, split, own, rfl⟩, rfl⟩
      exact .inr ⟨_, parsed, .inr ⟨_, known, .inl ⟨rfl, rfl, key, named, unknownBulletFinding_names _ _⟩⟩⟩

/-- Block by block: what is accounted for is what reaches its requirement. -/
private theorem nothingDropped_iff_writtenAsRead (host : SpecHost) (options : SpecOptions)
    (structured : (extractFrontMatter (splitLines text)).isSome = true) :
    NothingDropped host options text ↔ WrittenAsRead host.toLowerCase text := by
  constructor
  · rintro kept block ⟨line, member, bullet⟩
    obtain ⟨own, accounted⟩ := kept block
    obtain ⟨front, back, split⟩ := List.append_of_mem member
    obtain ⟨⟨last, read⟩, -⟩ := (accounted_iff structured split bullet).mp (accounted front line back split bullet)
    refine ⟨last, read, kept_iff.mp own, fun front line back key value split keyed lastOne found => ?_⟩
    have bullet := bulletKey_of_keyedBullet (keyed ▸ rfl : (keyedBullet line).isSome = true)
    obtain ⟨-, carried⟩ := (accounted_iff structured split bullet).mp (accounted front line back split bullet)
    obtain ⟨title, carries⟩ := carried key value keyed
    exact (carries_iff own (ownText value back) found title block.number).mp carries
  · intro written block
    by_cases some : ∃ line ∈ block.lines, (bulletKey line).isSome = true
    · obtain ⟨last, read, noStrays, agrees⟩ := written block some
      refine ⟨kept_iff.mpr noStrays, fun front line back split bullet => ?_⟩
      refine (accounted_iff structured split bullet).mpr ⟨⟨last, read⟩, fun key value keyed => ⟨[], ?_⟩⟩
      have stands : lastText ownText key block.lines ≠ none := by
        rw [ne_eq, lastText_eq_none_iff, split]
        exact fun none => none line (List.mem_append_right front List.mem_cons_self) value keyed
      obtain ⟨lastOne, found⟩ := Option.ne_none_iff_exists'.mp stands
      exact (carries_iff (kept_iff.mpr noStrays) (ownText value back) found [] block.number).mpr
        (agrees front line back key value split keyed lastOne found)
    · refine ⟨kept_iff.mpr fun front line back key value split keyed => ?_, fun front line back split bullet => ?_⟩
      · have bullet := bulletKey_of_keyedBullet (keyed ▸ rfl : (keyedBullet line).isSome = true)
        exact absurd ⟨line, split ▸ List.mem_append_right front List.mem_cons_self, bullet⟩ some
      · exact absurd ⟨line, split ▸ List.mem_append_right front List.mem_cons_self, bullet⟩ some

/-- Nothing of the requirements of a spec is dropped silently exactly where they are written as they are read. -/
theorem nothingDropped_iff (host : SpecHost) (options : SpecOptions) (structured :
    (extractFrontMatter (splitLines text)).isSome = true) :
    NothingDropped host options text ↔ WrittenAsRead host.toLowerCase text :=
      nothingDropped_iff_writtenAsRead host options structured

/-! ## A key the format does not read -/

/-- A repository in which every commit and remote is found, and no proof is run. -/
def plainHost : SpecHost where
  toLowerCase text := text.map Char.toLower
  resolvesToCommit _ := true
  targetMatchesOrigin _ := true
  proveRequirements _ := []

/-- A spec whose requirement has a note. -/
def noteSpec : Line :=
  ("---\nid: a\n---\n## Requirements\n### R1. One\n- **statement:** s\n- **proof:** path: a\n- **note:** kept nowhere\n" ++
    "## Non-goals").toList

private def noteLine : Line := "- **note:** kept nowhere".toList

private def bulletLines : List Line := ["- **statement:** s".toList, "- **proof:** path: a".toList, noteLine]

private def noteSection : List Line := "### R1. One".toList :: bulletLines

private theorem splitLines_noteSpec :
    splitLines noteSpec = ["---".toList, "id: a".toList, "---".toList] ++ "## Requirements".toList ::
      (noteSection ++ ["## Non-goals".toList]) := by
  have spelled : "---\nid: a\n---\n## Requirements\n### R1. One\n- **statement:** s\n- **proof:** path: a\n- **note:** kept nowhere\n" =
      String.ofList _ := rfl
  unfold noteSpec
  simp only [String.toList_append, spelled, String.toList_ofList]
  decide

private theorem noteSpec_facts :
    splitLines noteSpec = ["---".toList, "id: a".toList, "---".toList] ++ "## Requirements".toList ::
      (noteSection ++ ["## Non-goals".toList]) ∧
      (extractFrontMatter (splitLines noteSpec)).isSome = true ∧ sectionsStart (splitLines noteSpec) ≤ 3 ∧
      requirementsHeading plainHost.toLowerCase "## Requirements".toList = true ∧
      under (opensBlock 2) (noteSection ++ ["## Non-goals".toList]) = noteSection ∧ opensBlock 3 "### R1. One".toList = true ∧
      under (opensBlock 3) bulletLines = bulletLines ∧ keyedBullet noteLine = some ("note", "kept nowhere".toList) := by
  rw [splitLines_noteSpec]
  decide

/-- `nothingDropped_iff` at that spec. -/
theorem nothingDropped_iff_noteSpec :
    NothingDropped plainHost ⟨false, false⟩ noteSpec ↔ WrittenAsRead plainHost.toLowerCase noteSpec :=
  nothingDropped_iff plainHost ⟨false, false⟩ noteSpec_facts.2.1

/-- Its note is read by nobody, and no finding says so. -/
theorem noteSpec_dropped :
    (extractFrontMatter (splitLines noteSpec)).isSome = true ∧ ¬ NothingDropped plainHost ⟨false, false⟩ noteSpec := by
  obtain ⟨split, structured, start, named, body, opens, lines, keyed⟩ := noteSpec_facts
  refine ⟨structured, fun kept => ?_⟩
  have written := (nothingDropped_iff_writtenAsRead plainHost ⟨false, false⟩ structured).mp kept
  let parent : RequirementsSection plainHost.toLowerCase noteSpec := ⟨_, _, _, split, start, named⟩
  let block : RequirementBlock plainHost.toLowerCase noteSpec := ⟨parent, [], _, bulletLines, body, opens⟩
  have own : block.lines = ["- **statement:** s".toList, "- **proof:** path: a".toList] ++ noteLine :: [] := lines
  have bullet := bulletKey_of_keyedBullet (keyed ▸ rfl : (keyedBullet noteLine).isSome = true)
  obtain ⟨-, -, -, agrees⟩ := written block ⟨noteLine, own ▸ List.mem_append_right _ List.mem_cons_self, bullet⟩
  have found : lastText ownText "note" block.lines = some (ownText "kept nowhere".toList []) := by
    rw [own]
    exact lastText_of_last keyed (List.forall_mem_nil _) _
  rcases agrees _ _ _ _ _ own keyed _ found with ⟨same, -⟩ | ⟨same, -⟩ | ⟨same, -⟩ | ⟨same, -⟩
  all_goals exact absurd same (by decide)

end Faberun.Spec
