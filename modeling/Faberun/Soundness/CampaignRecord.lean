import Mathlib.Data.List.Dedup
import Faberun.Soundness.JournalEntry
import Faberun.Soundness.RequirementClosure

/-! # The campaign record stays readable

Whatever processes work on a campaign, and however their reads and writes interleave, `campaign.json` passes the check of
its readers, no run and no promotion stands in it twice, and it has a closing time and a closure exactly when it is
closed. A close is the one operation that can write more than it has checked: a requirement id of a contract is any text,
the one of a closure has to be an id.
-/

namespace Faberun.CampaignRecord

variable {isTimestamp : String → Bool} {c d : Campaign} {change : Change}

/-! ## The checks of a reader -/

def isId (value : String) : Bool := value != "" && value.toList.all isIdChar && (value != "." && value != "..")

theorem requireId_ok_iff {value label : String} : requireId value label = .ok () ↔ isId value = true := by
  simp only [requireId, andThen_ok_iff, check_ok_iff, isId, Bool.and_eq_true, and_assoc]

theorem forM_zipIdx_ok_iff {α : Type} {items : List α} {each : α × Nat → Except Refusal Unit} (holds : α → Prop)
    (ok : ∀ item index, each (item, index) = .ok () ↔ holds item) :
    items.zipIdx.forM each = .ok () ↔ ∀ item ∈ items, holds item := by
  rw [forM_ok_iff]
  constructor
  · intro all item member
    obtain ⟨index, inside, rfl⟩ := List.getElem_of_mem member
    exact (ok _ _).mp (all (items[index], index) (List.mk_mem_zipIdx_iff_getElem?.mpr (List.getElem?_eq_getElem inside)))
  · rintro all ⟨item, index⟩ member
    exact (ok item index).mpr (all item (List.fst_mem_of_mem_zipIdx member))

def ContractSound (entry : CampaignContract) : Prop := isBlank entry.path = false ∧ isPacketHash entry.digest = true

def IsTime (isTimestamp : String → Bool) (value : String) : Prop := isBlank value = false ∧ isTimestamp value = true

structure ReplacementSound (isTimestamp : String → Bool) (replacement : ContractReplacement) : Prop where
  oldPath : isBlank replacement.oldPath = false
  newPath : isBlank replacement.newPath = false
  time : IsTime isTimestamp replacement.at'
  runIds : ∀ runId ∈ replacement.runIds, isId runId = true

structure AttentionSound (isTimestamp : String → Bool) (attention : CampaignAttention) : Prop where
  code : isBlank attention.code = false
  message : isBlank attention.message = false
  time : IsTime isTimestamp attention.at'

structure PromotionSound (isTimestamp : String → Bool) (promotion : PromotionRecord) : Prop where
  runId : isId promotion.runId = true
  branch : isBlank promotion.branch = false
  sha : isBlank promotion.sha = false
  previousSha : ∀ sha ∈ promotion.previousSha, isBlank sha = false
  time : IsTime isTimestamp promotion.at'
  contractPath : ∀ path ∈ promotion.contractPath, isBlank path = false

structure ClosureSound (closure : RequirementClosure) : Prop where
  requirementId : isId closure.requirementId = true
  nodes : ∀ evidence ∈ closure.nodes, isId evidence.runId = true ∧ isId evidence.node = true

/-- What the check of a reader asks of a record. -/
structure Readable (isTimestamp : String → Bool) (c : Campaign) : Prop where
  id : isId c.id = true
  goal : isBlank c.goal = false
  linked : ∀ runId ∈ c.linkedRunIds, isId runId = true
  contracts : ∀ entry ∈ c.contracts, ContractSound entry
  replacements : ∀ replacement ∈ c.replacements, ReplacementSound isTimestamp replacement
  landBranch : isBlank c.landBranch = false
  reserve : ∀ balance ∈ c.reserveUsd, 0 ≤ balance
  attention : ∀ attention ∈ c.attention, AttentionSound isTimestamp attention
  promotions : ∀ promotion ∈ c.promotions, PromotionSound isTimestamp promotion
  requirements : ∀ closure ∈ c.requirements.getD [], ClosureSound closure

theorem requireString_ok_iff {value label : String} : requireString value label = .ok () ↔ isBlank value = false := by
  simp [requireString, check_ok_iff]

theorem requireTimestamp_ok_iff {value label : String} :
    requireTimestamp isTimestamp value label = .ok () ↔ IsTime isTimestamp value := by
  simp [requireTimestamp, check_ok_iff, IsTime]

theorem checkAttention_ok_iff {attention : CampaignAttention} :
    checkAttention isTimestamp attention = .ok () ↔ AttentionSound isTimestamp attention := by
  simp only [checkAttention, andThen_ok_iff, requireString_ok_iff, requireTimestamp_ok_iff]
  exact ⟨fun held => ⟨held.1, held.2.1, held.2.2⟩, fun held => ⟨held.code, held.message, held.time⟩⟩

theorem checkReplacement_ok_iff {index : Nat} {replacement : ContractReplacement} :
    checkReplacement isTimestamp index replacement = .ok () ↔ ReplacementSound isTimestamp replacement := by
  simp only [checkReplacement, andThen_ok_iff, requireString_ok_iff, requireTimestamp_ok_iff, forM_ok_iff, requireId_ok_iff]
  exact ⟨fun held => ⟨held.1, held.2.1, held.2.2.1, held.2.2.2⟩,
    fun held => ⟨held.oldPath, held.newPath, held.time, held.runIds⟩⟩

theorem all_nonblank_iff {value : Option String} :
    (value.all fun text => !isBlank text) = true ↔ ∀ text ∈ value, isBlank text = false := by
  cases value <;> simp

theorem checkPromotion_ok_iff {index : Nat} {promotion : PromotionRecord} :
    checkPromotion isTimestamp index promotion = .ok () ↔ PromotionSound isTimestamp promotion := by
  simp only [checkPromotion, andThen_ok_iff, requireId_ok_iff, requireString_ok_iff, requireTimestamp_ok_iff, check_ok_iff,
    all_nonblank_iff]
  exact ⟨fun held => ⟨held.1, held.2.1, held.2.2.1, held.2.2.2.1, held.2.2.2.2.1, held.2.2.2.2.2⟩,
    fun held => ⟨held.runId, held.branch, held.sha, held.previousSha, held.time, held.contractPath⟩⟩

theorem checkClosure_ok_iff {index : Nat} {closure : RequirementClosure} :
    checkClosure index closure = .ok () ↔ ClosureSound closure := by
  simp only [checkClosure, andThen_ok_iff, requireId_ok_iff]
  rw [forM_zipIdx_ok_iff (fun evidence => isId evidence.runId = true ∧ isId evidence.node = true)
    fun evidence index => by simp only [andThen_ok_iff, requireId_ok_iff]]
  exact ⟨fun held => ⟨held.1, held.2⟩, fun held => ⟨held.requirementId, held.nodes⟩⟩

/-- The check passes exactly the records every part of which is sound. -/
theorem validateCampaign_ok_iff : validateCampaign isTimestamp c = .ok () ↔ Readable isTimestamp c := by
  have contracts : (c.contracts.zipIdx.forM fun entry => checkContract entry.2 entry.1) = .ok () ↔
      ∀ entry ∈ c.contracts, ContractSound entry :=
    forM_zipIdx_ok_iff _ fun _ _ => by
      simp only [checkContract, andThen_ok_iff, requireString_ok_iff, requirePacketHash, check_ok_iff, ContractSound]
  have replacements : (c.replacements.zipIdx.forM fun entry => checkReplacement isTimestamp entry.2 entry.1) = .ok () ↔
      ∀ replacement ∈ c.replacements, ReplacementSound isTimestamp replacement :=
    forM_zipIdx_ok_iff _ fun _ _ => checkReplacement_ok_iff
  have promotions : (c.promotions.zipIdx.forM fun entry => checkPromotion isTimestamp entry.2 entry.1) = .ok () ↔
      ∀ promotion ∈ c.promotions, PromotionSound isTimestamp promotion :=
    forM_zipIdx_ok_iff _ fun _ _ => checkPromotion_ok_iff
  have requirements : ((c.requirements.getD []).zipIdx.forM fun entry => checkClosure entry.2 entry.1) = .ok () ↔
      ∀ closure ∈ c.requirements.getD [], ClosureSound closure :=
    forM_zipIdx_ok_iff _ fun _ _ => checkClosure_ok_iff
  simp only [validateCampaign, andThen_ok_iff, requireId_ok_iff, requireText, requireString_ok_iff, contracts, replacements,
    promotions, requirements]
  simp only [forM_ok_iff, requireId_ok_iff, Option.mem_toList, Reserve.nonNegativeNumber, check_ok_iff, decide_eq_true_eq,
    checkAttention_ok_iff]
  constructor
  · rintro ⟨id, goal, linked, contracts, replacements, landBranch, reserve, attention, promotions, requirements⟩
    exact ⟨id, goal, linked, contracts, replacements, landBranch, reserve, attention, promotions, requirements⟩
  · rintro ⟨id, goal, linked, contracts, replacements, landBranch, reserve, attention, promotions, requirements⟩
    exact ⟨id, goal, linked, contracts, replacements, landBranch, reserve, attention, promotions, requirements⟩

/-! ## What an operation does -/

theorem readCampaign_ok_iff : readCampaign isTimestamp c = .ok d ↔ Readable isTimestamp c ∧ c = d := by
  simp only [readCampaign, bind_ok_iff]
  rw [← validateCampaign_ok_iff (c := c)]
  exact ⟨fun held => ⟨held.choose_spec.1, Except.ok.inj held.choose_spec.2⟩, fun held => ⟨(), held.1, by rw [held.2]; rfl⟩⟩

theorem readActive_ok_iff : readActive isTimestamp c = .ok d ↔ Readable isTimestamp c ∧ c.closed = false ∧ c = d := by
  simp only [readActive, bind_ok_iff, readCampaign_ok_iff]
  constructor
  · rintro ⟨_, ⟨readable, rfl⟩, rest⟩
    cases closed : c.closed with
    | true => simp [closed, refuse] at rest
    | false => exact ⟨readable, rfl, by simpa [closed, pure, Except.pure] using rest⟩
  · rintro ⟨readable, active, rfl⟩
    exact ⟨c, ⟨readable, rfl⟩, by simp [active, pure, Except.pure]⟩

/-- What an operation that is not refused writes. -/
inductive Effect (isTimestamp : String → Bool) (c : Campaign) : Change → Campaign → Prop
  | known {runId at' : String} (active : c.closed = false) (linked : runId ∈ c.linkedRunIds) :
      Effect isTimestamp c (.register runId at') { c with updatedAt := at' }
  | registered {runId at' : String} (active : c.closed = false) (id : isId runId = true) (fresh : runId ∉ c.linkedRunIds) :
      Effect isTimestamp c (.register runId at') { c with linkedRunIds := c.linkedRunIds ++ [runId], updatedAt := at' }
  | unlisted {path digest at' : String} (active : c.closed = false) :
      Effect isTimestamp c (.addContract path (some digest) at') c
  | listed {path digest at' : String} {contracts : List CampaignContract} (active : c.closed = false)
      (named : isBlank path = false) (members : ∀ entry ∈ contracts, entry ∈ c.contracts ∨ entry = ⟨path, digest⟩) :
      Effect isTimestamp c (.addContract path (some digest) at') { c with contracts, updatedAt := at' }
  | replaced {oldPath newPath digest at' : String} {files : ReplacementFiles} {contracts : List CampaignContract}
      {attention : Option CampaignAttention} (active : c.closed = false) (found : files.digest = some digest)
      (names : isBlank oldPath = false ∧ isBlank newPath = false) (time : IsTime isTimestamp at')
      (members : ∀ entry ∈ contracts, entry ∈ c.contracts ∨ entry = ⟨newPath, digest⟩)
      (attended : attention = none ∨ attention = c.attention) :
      Effect isTimestamp c (.replace oldPath newPath files at')
        { c with
          contracts
          replacements := c.replacements ++ [⟨oldPath, newPath, replacedRunIds c files, at'⟩]
          updatedAt := at'
          attention }
  | recorded {entry record : PromotionRecord} (member : record ∈ c.promotions)
      (same : record.runId = entry.runId ∧ record.sha = entry.sha) : Effect isTimestamp c (.promote entry) c
  | promoted {entry : PromotionRecord} (id : isId entry.runId = true) (branch : isBlank entry.branch = false)
      (sha : isBlank entry.sha = false) (time : IsTime isTimestamp entry.at')
      (fresh : ∀ record ∈ c.promotions, ¬(record.runId = entry.runId ∧ record.sha = entry.sha)) :
      Effect isTimestamp c (.promote entry) { c with promotions := c.promotions ++ [entry], updatedAt := entry.at' }
  | parked {attention : CampaignAttention} (sound : AttentionSound isTimestamp attention) :
      Effect isTimestamp c (.park attention) { c with attention := some attention, updatedAt := attention.at' }
  | stillPaused {runIds : List String} {reason : Option String} {at' : String} {attention : CampaignAttention}
      (active : c.closed = false) (there : c.attention = some attention) (paused : attention.code = pauseAttentionCode) :
      Effect isTimestamp c (.pause runIds reason at') c
  | paused {runIds : List String} {reason : Option String} {at' message : String} (active : c.closed = false)
      (free : c.attention = none) (sound : AttentionSound isTimestamp ⟨pauseAttentionCode, message, at', none, none⟩) :
      Effect isTimestamp c (.pause runIds reason at')
        { c with attention := some ⟨pauseAttentionCode, message, at', none, none⟩, updatedAt := at' }
  | unparked {force : Bool} {state : Option String} {at' : String} (active : c.closed = false) :
      Effect isTimestamp c (.unpark force state at') { c with attention := none, updatedAt := at' }
  | closed {journal : List JournalEntry} {files : RunFiles} {at' : String} (active : c.closed = false)
      (retrospective : ∃ entry ∈ journal, entry.type = "retrospective")
      (answered : unacknowledgedAdvisories files journal c.linkedRunIds = []) :
      Effect isTimestamp c (.close journal files at')
        { c with
          closed := true
          closedAt := some at'
          updatedAt := at'
          requirements := some (buildRequirementClosure files c.linkedRunIds) }
  | marked : Effect isTimestamp c .markLedger { c with ledgerPreserved := true }
  | reserved {reserveUsd : Rat} {at' : String} (active : c.closed = false) (balance : 0 ≤ reserveUsd) :
      Effect isTimestamp c (.reserve reserveUsd at') { c with reserveUsd := some reserveUsd, updatedAt := at' }

private theorem pure_ok {α : Type} {value result : α} (success : (pure value : Except Refusal α) = .ok result) : value = result :=
  Except.ok.inj success

/-- An operation that succeeds has read a record that passes the check, and has one of these effects. -/
theorem effect_of_attempt (success : attempt isTimestamp c change = .ok d) :
    Readable isTimestamp c ∧ Effect isTimestamp c change d := by
  cases change with
  | register runId at' =>
    simp only [attempt, registerRun, bind_ok_iff, readActive_ok_iff] at success
    obtain ⟨_, id, _, -, _, ⟨readable, active, rfl⟩, rest⟩ := success
    refine ⟨readable, ?_⟩
    split_ifs at rest with linked
    · obtain rfl := pure_ok rest
      exact .known active linked
    · obtain rfl := pure_ok rest
      exact .registered active (requireId_ok_iff.mp id) linked
  | addContract path digest at' =>
    simp only [attempt, addContract, bind_ok_iff] at success
    obtain ⟨_, -, _, named, rest⟩ := success
    cases digest with
    | none => cases rest
    | some digest =>
      simp only [bind_ok_iff, readActive_ok_iff] at rest
      obtain ⟨_, ⟨readable, active, rfl⟩, rest⟩ := rest
      refine ⟨readable, ?_⟩
      split at rest
      · obtain rfl := pure_ok rest
        refine .listed active (requireString_ok_iff.mp named) fun entry member => ?_
        simpa using member
      · split_ifs at rest with same
        · obtain rfl := pure_ok rest
          exact .unlisted active
        · obtain rfl := pure_ok rest
          exact .listed active (requireString_ok_iff.mp named) fun entry member => List.mem_or_eq_of_mem_set member
  | replace oldPath newPath files at' =>
    simp only [attempt, replaceContract, bind_ok_iff] at success
    obtain ⟨_, time, _, old, _, new, rest⟩ := success
    split at rest
    case h_1 => cases rest
    rename_i digest found
    simp only [bind_ok_iff, readActive_ok_iff] at rest
    obtain ⟨_, ⟨readable, active, rfl⟩, rest⟩ := rest
    refine ⟨readable, ?_⟩
    split_ifs at rest with missing cleared
    · cases rest
    · obtain rfl := pure_ok rest
      exact .replaced active found ⟨requireString_ok_iff.mp old, requireString_ok_iff.mp new⟩ (requireTimestamp_ok_iff.mp time)
        (fun entry member => List.mem_or_eq_of_mem_set member) (.inl rfl)
    · obtain rfl := pure_ok rest
      exact .replaced active found ⟨requireString_ok_iff.mp old, requireString_ok_iff.mp new⟩ (requireTimestamp_ok_iff.mp time)
        (fun entry member => List.mem_or_eq_of_mem_set member) (.inr rfl)
  | promote entry =>
    simp only [attempt, recordPromotion, bind_ok_iff, readCampaign_ok_iff] at success
    obtain ⟨_, id, _, branch, _, sha, _, time, _, ⟨readable, rfl⟩, rest⟩ := success
    refine ⟨readable, ?_⟩
    split_ifs at rest with there
    · obtain rfl := pure_ok rest
      obtain ⟨record, member, same⟩ := List.any_eq_true.mp there
      exact .recorded member (of_decide_eq_true same)
    · obtain rfl := pure_ok rest
      refine .promoted (requireId_ok_iff.mp id) (requireString_ok_iff.mp branch) (requireString_ok_iff.mp sha)
        (requireTimestamp_ok_iff.mp time) fun record member same => there (List.any_eq_true.mpr ⟨record, member, ?_⟩)
      exact decide_eq_true same
  | park attention =>
    simp only [attempt, parkCampaign, bind_ok_iff, readCampaign_ok_iff] at success
    obtain ⟨_, sound, _, ⟨readable, rfl⟩, rest⟩ := success
    obtain rfl := pure_ok rest
    exact ⟨readable, .parked (checkAttention_ok_iff.mp sound)⟩
  | pause runIds reason at' =>
    simp only [attempt, pauseCampaign, bind_ok_iff, readActive_ok_iff] at success
    obtain ⟨_, -, _, ⟨readable, active, rfl⟩, rest⟩ := success
    refine ⟨readable, ?_⟩
    split at rest
    · rename_i attention there
      split_ifs at rest with paused
      · obtain rfl := pure_ok rest
        exact .stillPaused active there paused
      · cases rest
    · rename_i free
      simp only [parkCampaign, bind_ok_iff, readCampaign_ok_iff] at rest
      obtain ⟨_, sound, _, ⟨-, rfl⟩, rest⟩ := rest
      obtain rfl := pure_ok rest
      exact .paused active free (checkAttention_ok_iff.mp sound)
  | unpark force state at' =>
    simp only [attempt, unparkCampaign, bind_ok_iff, readActive_ok_iff] at success
    obtain ⟨_, -, _, ⟨readable, active, rfl⟩, rest⟩ := success
    refine ⟨readable, ?_⟩
    split at rest
    case h_1 => cases rest
    split at rest
    case h_1 => cases rest
    obtain rfl := pure_ok rest
    exact .unparked active
  | close journal files at' =>
    simp only [attempt, closeCampaign, bind_ok_iff, readCampaign_ok_iff] at success
    obtain ⟨_, -, _, ⟨readable, rfl⟩, rest⟩ := success
    refine ⟨readable, ?_⟩
    split_ifs at rest with closed retrospective answered
    · cases rest
    · cases rest
    · obtain rfl := pure_ok rest
      exact .closed (by simpa using closed) (by simpa using retrospective) (List.isEmpty_iff.mp answered)
    · cases rest
  | markLedger =>
    simp only [attempt, markCampaignLedgerPreserved, bind_ok_iff, readCampaign_ok_iff] at success
    obtain ⟨_, ⟨readable, rfl⟩, rest⟩ := success
    obtain rfl := pure_ok rest
    exact ⟨readable, .marked⟩
  | reserve reserveUsd at' =>
    simp only [attempt, configureCampaignReserve, bind_ok_iff, readActive_ok_iff] at success
    obtain ⟨_, balance, _, ⟨readable, active, rfl⟩, rest⟩ := success
    obtain rfl := pure_ok rest
    exact ⟨readable, .reserved active (of_decide_eq_true (check_ok_iff.mp balance))⟩

/-! ## What the operations keep -/

/-- The files of the runs name nodes and requirements by ids. -/
def RunFiles.Named (files : RunFiles) : Prop :=
  ∀ runId nodes, files.contract runId = some nodes → ∀ node ∈ nodes, isId node.id = true

/-- What the callers of an operation see to. -/
def Change.Lawful : Change → Prop
  | .addContract _ digest _ => ∀ hash ∈ digest, isPacketHash hash = true
  | .replace _ _ files _ => ∀ hash ∈ files.digest, isPacketHash hash = true
  | .promote entry => (∀ sha ∈ entry.previousSha, isBlank sha = false) ∧ ∀ path ∈ entry.contractPath, isBlank path = false
  | .close _ files _ => files.Named ∧
      ∀ runId nodes, files.contract runId = some nodes → ∀ node ∈ nodes, ∀ requirement ∈ node.requirementIds,
        isId requirement = true
  | .register _ _ | .park _ | .pause _ _ _ | .unpark _ _ _ | .markLedger | .reserve _ _ => True

theorem replacedRunIds_linked {files : ReplacementFiles} {runId : String} (member : runId ∈ replacedRunIds c files) :
    runId ∈ c.linkedRunIds := by
  rw [replacedRunIds, (sortTexts_perm _).mem_iff, List.mem_filter, List.mem_dedup, List.mem_append, List.mem_append] at member
  obtain ⟨(attended | named) | carried, -⟩ := member
  · simpa using (Option.mem_filter_iff.mp (Option.mem_toList.mp attended)).2
  · simpa using (Option.mem_filter_iff.mp (Option.mem_toList.mp named)).2
  · exact (List.mem_filter.mp carried).1

/-- The nodes of a closure are ids; its requirements are what the contracts declare. -/
theorem closure_sound_iff {files : RunFiles} {linkedRunIds : List String} (linked : ∀ runId ∈ linkedRunIds, isId runId = true)
    (named : files.Named) : (∀ closure ∈ buildRequirementClosure files linkedRunIds, ClosureSound closure) ↔
      ∀ requirementId, Declared files linkedRunIds requirementId → isId requirementId = true := by
  constructor
  · intro sound requirementId declared
    obtain ⟨closure, member, rfl⟩ := List.mem_map.mp (mem_requirementIds_closure.mpr declared)
    exact (sound closure member).requirementId
  · intro ids closure member
    refine ⟨ids _ (mem_requirementIds_closure.mp (List.mem_map_of_mem member)), fun evidence inside => ?_⟩
    obtain ⟨requirementId, -, rfl⟩ := List.mem_map.mp member
    obtain ⟨runId, here, nodes, contract, node, there, -, -, snapshot, -, -, -, rfl⟩ := gives_iff.mpr inside
    exact ⟨linked runId here, named runId nodes contract node there⟩

theorem Readable.effect (readable : Readable isTimestamp c) (effect : Effect isTimestamp c change d) (lawful : change.Lawful) :
    Readable isTimestamp d := by
  cases effect with
  | known => exact { readable with }
  | registered _ id =>
    refine { readable with linked := fun runId member => ?_ }
    obtain old | new := List.mem_append.mp member
    · exact readable.linked runId old
    · exact List.mem_singleton.mp new ▸ id
  | unlisted => exact readable
  | listed _ named members =>
    refine { readable with contracts := fun entry member => ?_ }
    obtain old | rfl := members entry member
    · exact readable.contracts entry old
    · exact ⟨named, lawful _ rfl⟩
  | replaced _ found names time members attended =>
    refine { readable with contracts := fun entry member => ?_, replacements := fun replacement member => ?_, attention := ?_ }
    · obtain old | rfl := members entry member
      · exact readable.contracts entry old
      · exact ⟨names.2, lawful _ found⟩
    · obtain old | new := List.mem_append.mp member
      · exact readable.replacements replacement old
      · obtain rfl := List.mem_singleton.mp new
        exact ⟨names.1, names.2, time, fun runId inside => readable.linked runId (replacedRunIds_linked inside)⟩
    · obtain rfl | rfl := attended
      · simp
      · exact readable.attention
  | recorded => exact readable
  | promoted id branch sha time =>
    refine { readable with promotions := fun promotion member => ?_ }
    obtain old | new := List.mem_append.mp member
    · exact readable.promotions promotion old
    · obtain rfl := List.mem_singleton.mp new
      exact ⟨id, branch, sha, lawful.1, time, lawful.2⟩
  | parked sound => exact { readable with attention := by simpa using sound }
  | stillPaused => exact readable
  | paused _ _ sound => exact { readable with attention := by simpa using sound }
  | unparked => exact { readable with attention := by simp }
  | closed =>
    refine { readable with requirements := (closure_sound_iff readable.linked lawful.1).mpr fun requirementId declared => ?_ }
    obtain ⟨runId, -, nodes, contract, node, member, -, declares⟩ := declared
    exact lawful.2 runId nodes contract node member requirementId declares
  | marked => exact { readable with }
  | reserved _ balance => exact { readable with reserve := by simpa using balance }

/-- What holds of the record of a campaign in every run. -/
structure Good (isTimestamp : String → Bool) (created c : Campaign) : Prop where
  readable : Readable isTimestamp c
  linked : c.linkedRunIds.Nodup
  promotions : c.promotions.Pairwise fun left right => ¬(left.runId = right.runId ∧ left.sha = right.sha)
  closedAt : c.closedAt.isSome = c.closed
  requirements : c.requirements.isSome = c.closed
  same : c.id = created.id ∧ c.goal = created.goal ∧ c.landBranch = created.landBranch ∧ c.createdAt = created.createdAt

variable {created : Campaign}

theorem Good.effect (good : Good isTimestamp created c) (effect : Effect isTimestamp c change d) (lawful : change.Lawful) :
    Good isTimestamp created d := by
  have readable := good.readable.effect effect lawful
  cases effect with
  | registered _ _ fresh =>
    refine { good with readable, linked := List.nodup_append.mpr ⟨good.linked, List.nodup_singleton _, ?_⟩ }
    intro runId member other single same
    rw [List.mem_singleton.mp single] at same
    exact fresh (same ▸ member)
  | promoted _ _ _ _ fresh =>
    refine { good with readable, promotions := List.pairwise_append.mpr ⟨good.promotions, List.pairwise_singleton _ _, ?_⟩ }
    intro record member other single same
    rw [List.mem_singleton.mp single] at same
    exact fresh record member same
  | closed => exact { good with readable, closedAt := rfl, requirements := rfl }
  | _ => exact { good with readable }

theorem Good.apply (good : Good isTimestamp created c) (lawful : change.Lawful) :
    Good isTimestamp created (apply isTimestamp c change) := by
  unfold CampaignRecord.apply
  split
  · rename_i success
    exact good.effect (effect_of_attempt success).2 lawful
  · exact good

theorem Good.contentOf {lineage : List Change} (good : Good isTimestamp created created)
    (lawful : ∀ change ∈ lineage, change.Lawful) :
    Good isTimestamp created (UnlockedFile.contentOf (CampaignRecord.apply isTimestamp) created lineage) := by
  induction lineage with
  | nil => exact good
  | cons change earlier ih =>
    exact (ih fun other member => lawful other (List.mem_cons_of_mem _ member)).apply (lawful change List.mem_cons_self)

/-- A campaign starts with a good record. -/
theorem good_new {campaignId goal at' : String} {contracts : List CampaignContract} {landBranch : Option String}
    (started : initializeCampaign isTimestamp campaignId goal at' contracts landBranch = .ok created) :
    Good isTimestamp created created := by
  simp only [initializeCampaign, bind_ok_iff] at started
  obtain ⟨_, id, _, -, _, listed, _, branch, text, normal, rest⟩ := started
  obtain rfl := pure_ok rest
  have goal : isBlank text = false := by
    simp only [Journal.normalizeText, bind_ok_iff, check_ok_iff] at normal
    obtain ⟨_, -, _, shown, _, -, same⟩ := normal
    obtain rfl := pure_ok same
    exact isBlank_collapseLines.mpr (Journal.collapseLines_visible (by simpa using shown))
  have contracts : ∀ entry ∈ contracts, ContractSound entry := (forM_zipIdx_ok_iff ContractSound fun entry index => by
    simp only [andThen_ok_iff, requireString_ok_iff, requirePacketHash, check_ok_iff, ContractSound]).mp listed
  exact {
    readable := {
      id := requireId_ok_iff.mp id, goal, contracts, landBranch := requireString_ok_iff.mp branch
      linked := by simp, replacements := by simp, reserve := by simp, attention := by simp, promotions := by simp
      requirements := by simp }
    linked := List.nodup_nil
    promotions := List.Pairwise.nil
    closedAt := rfl
    requirements := rfl
    same := ⟨rfl, rfl, rfl, rfl⟩ }

/-! ## Every interleaving -/

/-- Processes ask for what their callers see to, and nothing else touches the file. -/
def Lawful (_ : UnlockedFile Campaign Change) : UnlockedFile.Label Change → Prop
  | .opens change => change.Lawful
  | .write _ | .die _ => True
  | .damage => False

theorem opened_lawful {f : UnlockedFile Campaign Change}
    (reach : (machine isTimestamp created).Reach Lawful (fun f => f = UnlockedFile.untouched created) f) :
    ∀ change ∈ f.opened, change.Lawful := by
  refine reach.invariant (fun f => ∀ change ∈ f.opened, change.Lawful) ?_ fun f label f' held lawful taken => ?_
  · rintro f rfl change member
    cases member
  · cases label with
    | opens asked =>
      obtain rfl := Option.some.inj taken
      exact List.forall_mem_cons.mpr ⟨lawful, held⟩
    | write index =>
      obtain ⟨_, -, rfl⟩ := Option.map_eq_some_iff.mp taken
      exact held
    | die index =>
      obtain rfl := Option.some.inj taken
      exact held
    | damage => exact absurd lawful id

/-- However the processes that work on a campaign interleave, its record passes the check of its readers, links no run and
records no promotion twice, and has a closing time and a closure exactly when it is closed. -/
theorem record_good {campaignId goal at' : String} {contracts : List CampaignContract} {landBranch : Option String}
    (started : initializeCampaign isTimestamp campaignId goal at' contracts landBranch = .ok created)
    {f : UnlockedFile Campaign Change}
    (reach : (machine isTimestamp created).Reach Lawful (fun f => f = UnlockedFile.untouched created) f) :
    Good isTimestamp created f.file.content := by
  have sound := UnlockedFile.file_sound reach
  rw [sound.made]
  exact (good_new started).contentOf fun change member => opened_lawful reach change (sound.part.subset member)

/-- The record of a new campaign. -/
def newRecord : Campaign :=
  ⟨"c1", "Ship it", false, [], [], [], "campaign/c1", [], none, false, none, none, "t0", "t0", none⟩

/-- The files of a campaign whose run `r1` declares one requirement. -/
def oneRequirement (requirementId : String) : RunFiles where
  contract runId := if runId = "r1" then some [⟨"build", [requirementId]⟩] else none
  snapshot _ _ := some ⟨"done", [requirementId], some true, some "pass", 0, none⟩

/-- The close of that campaign. -/
def firstClose (requirementId : String) : Change := .close [⟨"retrospective", none⟩] (oneRequirement requirementId) "t1"

def closedWith (requirementId : String) : Campaign :=
  { newRecord with
    closed := true
    linkedRunIds := ["r1"]
    closedAt := some "t1"
    updatedAt := "t1"
    requirements := some (buildRequirementClosure (oneRequirement requirementId) ["r1"]) }

theorem named_oneRequirement (requirementId : String) : (oneRequirement requirementId).Named := by
  intro runId nodes contract node member
  simp only [oneRequirement, Option.ite_none_right_eq_some, Option.some.injEq] at contract
  rw [← contract.2, List.mem_singleton] at member
  rw [member]
  exact (by decide : isId "build" = true)

/-- A run that registers between the read and the write of a close reopens the campaign. -/
theorem record_good_raced : ∃ f : UnlockedFile Campaign Change, f.written.length = 2 ∧ f.file.content.closed = false ∧
    Good (fun _ => true) newRecord f.file.content := by
  have lawful : (firstClose "R1").Lawful := by
    refine ⟨named_oneRequirement "R1", fun runId nodes contract node member requirement declared => ?_⟩
    simp only [oneRequirement, Option.ite_none_right_eq_some, Option.some.injEq] at contract
    rw [← contract.2, List.mem_singleton] at member
    rw [member, List.mem_singleton] at declared
    rw [declared]
    decide
  have started : initializeCampaign (fun _ => true) "c1" "Ship it" "t0" [] none = .ok newRecord := by rfl
  have start : (machine (fun _ => true) newRecord).Reach Lawful (fun f => f = UnlockedFile.untouched newRecord)
      (UnlockedFile.untouched newRecord) := .start rfl
  have registers := start.next (show Lawful _ (.opens (.register "r1" "t1")) from trivial) rfl
  have closes := registers.next (show Lawful _ (.opens (firstClose "R1")) from lawful) rfl
  have closed := closes.next (show Lawful _ (.write 0) from trivial) rfl
  have registered := closed.next (show Lawful _ (.write 0) from trivial) rfl
  exact ⟨_, rfl, rfl, record_good started registered⟩

/-! ## What later changes leave -/

/-- What stays of a record whatever is changed later. -/
structure Follows (before after : Campaign) : Prop where
  linked : before.linkedRunIds <+: after.linkedRunIds
  promotions : before.promotions <+: after.promotions
  replacements : before.replacements <+: after.replacements
  marked : before.ledgerPreserved = true → after.ledgerPreserved = true
  closed : before.closed = true → after.closed = true ∧ after.closedAt = before.closedAt ∧
    after.requirements = before.requirements ∧ after.linkedRunIds = before.linkedRunIds ∧
    after.contracts = before.contracts ∧ after.replacements = before.replacements ∧ after.reserveUsd = before.reserveUsd

theorem Follows.refl (c : Campaign) : Follows c c :=
  ⟨List.prefix_rfl, List.prefix_rfl, List.prefix_rfl, id, fun closed => ⟨closed, rfl, rfl, rfl, rfl, rfl, rfl⟩⟩

theorem Follows.trans {e : Campaign} (first : Follows c d) (second : Follows d e) : Follows c e := by
  refine ⟨first.linked.trans second.linked, first.promotions.trans second.promotions,
    first.replacements.trans second.replacements, second.marked ∘ first.marked, fun closed => ?_⟩
  obtain ⟨still, time, requirements, linked, contracts, replacements, reserve⟩ := first.closed closed
  obtain ⟨still, time', requirements', linked', contracts', replacements', reserve'⟩ := second.closed still
  exact ⟨still, time'.trans time, requirements'.trans requirements, linked'.trans linked, contracts'.trans contracts,
    replacements'.trans replacements, reserve'.trans reserve⟩

theorem Follows.effect (effect : Effect isTimestamp c change d) : Follows c d := by
  have active {P : Prop} (active : c.closed = false) (closed : c.closed = true) : P := by simp [active] at closed
  cases effect with
  | registered act => exact { Follows.refl c with linked := List.prefix_append _ _, closed := active act }
  | replaced act => exact { Follows.refl c with replacements := List.prefix_append _ _, closed := active act }
  | promoted => exact { Follows.refl c with promotions := List.prefix_append _ _ }
  | marked => exact { Follows.refl c with marked := fun _ => rfl }
  | listed act | closed act | reserved act => exact { Follows.refl c with closed := active act }
  | known | unlisted | recorded | parked | stillPaused | paused | unparked => exact { Follows.refl c with }

theorem follows_apply : Follows c (apply isTimestamp c change) := by
  unfold apply
  split
  · rename_i success
    exact .effect (effect_of_attempt success).2
  · exact .refl c

theorem follows_later (later : List Change) : Follows c (UnlockedFile.contentOf (apply isTimestamp) c later) := by
  induction later with
  | nil => exact .refl c
  | cons change rest ih => exact ih.trans follows_apply

/-- What an operation that succeeded on a record leaves in it. -/
def Kept (before final : Campaign) : Change → Prop
  | .register runId _ => runId ∈ final.linkedRunIds
  | .promote entry => ∃ record ∈ final.promotions, record.runId = entry.runId ∧ record.sha = entry.sha
  | .replace oldPath newPath _ at' => ∃ record ∈ final.replacements,
      record.oldPath = oldPath ∧ record.newPath = newPath ∧ record.at' = at'
  | .close journal files at' => final.closed = true ∧ final.closedAt = some at' ∧ final.linkedRunIds = before.linkedRunIds ∧
      final.requirements = some (buildRequirementClosure files before.linkedRunIds) ∧
      (∃ entry ∈ journal, entry.type = "retrospective") ∧ unacknowledgedAdvisories files journal before.linkedRunIds = []
  | .markLedger => final.ledgerPreserved = true
  | .addContract _ _ _ | .park _ | .pause _ _ _ | .unpark _ _ _ | .reserve _ _ => True

theorem Effect.kept (effect : Effect isTimestamp c change d) : Kept c d change := by
  cases effect with
  | known _ linked => exact linked
  | registered => exact List.mem_append_right _ (List.mem_singleton_self _)
  | recorded member same => exact ⟨_, member, same⟩
  | promoted => exact ⟨_, List.mem_append_right _ (List.mem_singleton_self _), rfl, rfl⟩
  | replaced => exact ⟨_, List.mem_append_right _ (List.mem_singleton_self _), rfl, rfl, rfl⟩
  | closed _ retrospective answered => exact ⟨rfl, rfl, rfl, rfl, retrospective, answered⟩
  | marked => rfl
  | unlisted | listed | parked | stillPaused | paused | unparked | reserved => trivial

theorem Kept.follows {before : Campaign} (kept : Kept before c change) (follows : Follows c d) : Kept before d change := by
  cases change with
  | register => exact follows.linked.subset kept
  | promote =>
    obtain ⟨record, member, same⟩ := kept
    exact ⟨record, follows.promotions.subset member, same⟩
  | replace =>
    obtain ⟨record, member, same⟩ := kept
    exact ⟨record, follows.replacements.subset member, same⟩
  | close =>
    obtain ⟨closed, time, linked, requirements, retrospective, answered⟩ := kept
    obtain ⟨still, time', requirements', linked', -⟩ := follows.closed closed
    exact ⟨still, time'.trans time, linked'.trans linked, requirements'.trans requirements, retrospective, answered⟩
  | markLedger => exact follows.marked kept
  | addContract | park | pause | unpark | reserve => trivial

theorem kept_later {later earlier : List Change}
    (admitted : attempt isTimestamp (UnlockedFile.contentOf (apply isTimestamp) created earlier) change = .ok d) :
    Kept (UnlockedFile.contentOf (apply isTimestamp) created earlier)
      (UnlockedFile.contentOf (apply isTimestamp) created (later ++ change :: earlier)) change := by
  have changed : apply isTimestamp (UnlockedFile.contentOf (apply isTimestamp) created earlier) change = d := by
    simp only [apply, admitted]
  have follows : Follows d (UnlockedFile.contentOf (apply isTimestamp) d later) := follows_later later
  rw [UnlockedFile.contentOf_append, changed]
  exact (effect_of_attempt admitted).2.kept.follows follows

/-- Without overlaps nothing an operation recorded is lost: a registered run stays linked, a promotion and a replacement stay
on record, and after a close the record has the closing time and the closure of that close, and the runs that were linked then. -/
theorem serial_kept {f : UnlockedFile Campaign Change}
    (reach : (machine isTimestamp created).Reach UnlockedFile.Serial (fun f => f = UnlockedFile.untouched created) f)
    {later earlier : List Change} (written : f.written = later ++ change :: earlier)
    (admitted : attempt isTimestamp (UnlockedFile.contentOf (apply isTimestamp) created earlier) change = .ok d) :
    Kept (UnlockedFile.contentOf (apply isTimestamp) created earlier) f.file.content change := by
  rw [(UnlockedFile.file_sound reach).made, UnlockedFile.lineage_of_serial reach, written]
  exact kept_later admitted

theorem serial_kept_closed : ∃ f : UnlockedFile Campaign Change,
    f.written = [.markLedger] ++ firstClose "R1" :: [.register "r1" "t1"] ∧
      Kept { newRecord with linkedRunIds := ["r1"], updatedAt := "t1" } f.file.content (firstClose "R1") := by
  have start : (machine (fun _ => true) newRecord).Reach UnlockedFile.Serial (fun f => f = UnlockedFile.untouched newRecord)
      (UnlockedFile.untouched newRecord) := .start rfl
  have ran := start.replay (show Machine.replay? _ _ _ [.opens (.register "r1" "t1"), .write 0, .opens (firstClose "R1"),
    .write 0, .opens .markLedger, .write 0] = some _ from rfl)
  refine ⟨_, rfl, serial_kept (d := closedWith "R1") ran
    (show _ = [.markLedger] ++ firstClose "R1" :: [.register "r1" "t1"] from rfl) ?_⟩
  rfl

/-! ## A close of requirements that are no ids -/

/-- The record a close writes passes the check of its readers exactly when every requirement its runs declare is an id; one
that does not is there for good, and every operation after it is refused. -/
theorem close_readable_iff {journal : List JournalEntry} {files : RunFiles} {at' : String} (named : files.Named)
    (admitted : attempt isTimestamp c (.close journal files at') = .ok d) :
    (Readable isTimestamp d ↔ ∀ requirementId, Declared files c.linkedRunIds requirementId → isId requirementId = true) ∧
    (¬Readable isTimestamp d → ∀ later : List Change,
      UnlockedFile.contentOf (apply isTimestamp) d later = d ∧
        ∀ change ∈ later, ∃ refusal, attempt isTimestamp d change = .error refusal) := by
  obtain ⟨readable, effect⟩ := effect_of_attempt admitted
  refine ⟨?_, fun unreadable later => ?_⟩
  · rw [← closure_sound_iff readable.linked named]
    cases effect with
    | closed => exact ⟨fun after => after.requirements, fun sound => { readable with requirements := sound }⟩
  · have refused (change : Change) : ∃ refusal, attempt isTimestamp d change = .error refusal := by
      cases tried : attempt isTimestamp d change with
      | error refusal => exact ⟨refusal, rfl⟩
      | ok after => exact absurd (effect_of_attempt tried).1 unreadable
    refine ⟨?_, fun change _ => refused change⟩
    induction later with
    | nil => rfl
    | cons change rest ih =>
      obtain ⟨refusal, tried⟩ := refused change
      rw [UnlockedFile.contentOf, List.foldr_cons, ← UnlockedFile.contentOf, ih, apply, tried]

theorem close_readable_iff_blank : ¬Readable (fun _ => true) (closedWith "R 1") := by
  have admitted : attempt (fun _ => true) { newRecord with linkedRunIds := ["r1"] } (firstClose "R 1") =
    .ok (closedWith "R 1") := by rfl
  intro readable
  have ids := (close_readable_iff (named_oneRequirement "R 1") admitted).1.mp readable "R 1"
    ⟨"r1", List.mem_singleton_self _, _, rfl, _, List.mem_singleton_self _, by decide, List.mem_singleton_self _⟩
  exact absurd ids (by decide)

end Faberun.CampaignRecord
