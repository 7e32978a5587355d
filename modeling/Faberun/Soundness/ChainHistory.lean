import Faberun.Model.Campaign.Chain

/-! # The history of a campaign chain

What the chain did is in order: each event is permitted by the events before it, the promoted heads stay on the landing
branch, and the coordinator's memory agrees with the history for as long as the coordinator lives. One step keeps all
of this, so every run does.
-/

namespace Faberun.Chain

variable {γ : Type}

/-! ## Reading a history -/

/-- The chain acts: it launches, promotes or resumes. -/
def Event.acts : Event γ → Bool
  | launched _ | promoted _ _ | resumed _ _ => true
  | _ => false

/-- An invocation is under way that has not halted. -/
def running : List (Event γ) → Bool
  | [] => false
  | .opened :: _ => true
  | .halted _ :: _ => false
  | .parked _ :: _ => false
  | _ :: rest => running rest

/-- The campaign is parked. -/
def attended : List (Event γ) → Bool
  | [] => false
  | .parked _ :: _ => true
  | .unparked :: _ => false
  | _ :: rest => attended rest

/-- The latest resumes of a run in this invocation that found the same progress. -/
def streak (id : String) (progressAt : Option String) : List (Event γ) → Nat
  | [] => 0
  | .opened :: _ => 0
  | .resumed other found :: rest =>
      if other = id then (if found = progressAt then streak id progressAt rest + 1 else 0) else streak id progressAt rest
  | _ :: rest => streak id progressAt rest

/-- Every contract before a position succeeded and was promoted. -/
def PromotedBefore (index : Nat) (history : List (Event γ)) : Prop :=
  ∀ earlier < index, ∃ head, .succeeded earlier ∈ history ∧ .promoted earlier head ∈ history

/-- What may be recorded after a history. -/
structure Permitted (event : Event γ) (earlier : List (Event γ)) : Prop where
  acting : event.acts = true → running earlier = true ∧ attended earlier = false
  launching : ∀ index, event = .launched index →
    earlier.head? = some (.absent index) ∧ PromotedBefore index earlier

/-- Every event of a history was permitted after the ones before it. -/
def Lawful : List (Event γ) → Prop
  | [] => True
  | event :: earlier => Permitted event earlier ∧ Lawful earlier

theorem Lawful.permitted {later earlier : List (Event γ)} {event : Event γ}
    (lawful : Lawful (later ++ event :: earlier)) : Permitted event earlier := by
  induction later with
  | nil => exact lawful.1
  | cons _ _ ih => exact ih lawful.2

theorem PromotedBefore.cons {index : Nat} {history : List (Event γ)} (before : PromotedBefore index history)
    (event : Event γ) : PromotedBefore index (event :: history) := by
  intro earlier small
  obtain ⟨head, succeeded, promoted⟩ := before earlier small
  exact ⟨head, .tail _ succeeded, .tail _ promoted⟩

/-! ## The invariant -/

/-- What is on disk and recorded: the promoted heads are on the landing branch, and the budgets are kept. -/
structure Filed (campaign : Campaign γ) (history : List (Event γ)) (attention : Option String)
    (branch : Option γ) : Prop where
  lawful : Lawful history
  attention : attended history = attention.isSome
  contains : ∀ index head, .promoted index head ∈ history →
    ∃ tip, branch = some tip ∧ campaign.git.isAncestor head tip = true
  streaks : ∀ id progressAt, streak id progressAt history ≤ maxRunRecoveryAttempts

/-- What the coordinator's own memory says of the history. -/
structure Remembers (history : List (Event γ)) (coordinator : Coordinator γ) : Prop where
  promoted : PromotedBefore coordinator.index history
  spent : ∀ id progressAt, streak id progressAt history ≤ spentAttempts coordinator id progressAt

/-- An invocation that has seen the campaign free of attention. -/
structure Clear (history : List (Event γ)) (attention : Option String) : Prop where
  running : running history = true
  attention : attention = none

/-- What holds at each point of a turn. -/
def Reached (campaign : Campaign γ) (history : List (Event γ)) (attention : Option String) (index : Nat) :
    Point γ → Prop
  | .reading => running history = true
  | .promoting _ _ => Clear history attention ∧ .succeeded index ∈ history
  | .advancing _ head previousSha =>
      Clear history attention ∧ .succeeded index ∈ history ∧ campaign.git.isAncestor previousSha head = true
  | .recording _ =>
      Clear history attention ∧ .succeeded index ∈ history ∧ ∃ head, .promoted index head ∈ history
  | .verifying _ | .launching _ => Clear history attention ∧ history.head? = some (.absent index)
  | .parking _ => attention = none
  | _ => Clear history attention

/-- The invariant of every run. -/
structure Kept (campaign : Campaign γ) (s : State γ) : Prop where
  filed : Filed campaign s.history s.attention s.branch
  remembers : ∀ coordinator, s.coordinator = some coordinator → Remembers s.history coordinator
  reached : ∀ coordinator, s.coordinator = some coordinator →
    Reached campaign s.history s.attention coordinator.index coordinator.point

variable {campaign : Campaign γ} {s : State γ} {history : List (Event γ)} {attention : Option String}
  {branch : Option γ} {coordinator : Coordinator γ}

/-! ## Recording an event -/

/-- An event that is neither an attention nor the clearing of one nor a resume. -/
def Event.plain : Event γ → Bool
  | parked _ | unparked | resumed _ _ => false
  | _ => true

private theorem attended_cons {event : Event γ} (plain : event.plain = true) : attended (event :: history) = attended history := by
  cases event <;> first | rfl | cases plain

private theorem streak_cons {event : Event γ} (plain : event.plain = true) (id : String) (progressAt : Option String) :
    streak id progressAt (event :: history) ≤ streak id progressAt history := by
  cases event <;> first | exact Nat.le_refl _ | exact Nat.zero_le _ | cases plain

/-- A plain event keeps what is filed when it is permitted and promotes nothing. -/
theorem Filed.log (filed : Filed campaign history attention branch) {event : Event γ} (plain : event.plain = true)
    (permitted : Permitted event history) (other : ∀ index head, event ≠ .promoted index head) :
    Filed campaign (event :: history) attention branch where
  lawful := ⟨permitted, filed.lawful⟩
  attention := by rw [attended_cons plain, filed.attention]
  contains index head member := by
    rcases List.mem_cons.mp member with same | member
    · exact absurd same.symm (other index head)
    · exact filed.contains index head member
  streaks id progressAt := Nat.le_trans (streak_cons plain id progressAt) (filed.streaks id progressAt)

/-- A promotion is filed when the branch has moved forward to contain its head. -/
theorem Filed.promoted (filed : Filed campaign history attention branch) (clear : Clear history attention)
    (index : Nat) {head tip : γ} (contains : campaign.git.isAncestor head tip = true)
    (forwards : ∀ old, branch = some old → campaign.git.isAncestor old tip = true) :
    Filed campaign (.promoted index head :: history) attention (some tip) where
  lawful := by
    refine ⟨⟨fun _ => ⟨clear.running, ?_⟩, fun _ launched => nomatch launched⟩, filed.lawful⟩
    rw [filed.attention, clear.attention]
    rfl
  attention := filed.attention
  contains other found member := by
    rcases List.mem_cons.mp member with same | member
    · cases same
      exact ⟨tip, rfl, contains⟩
    · obtain ⟨old, here, below⟩ := filed.contains other found member
      exact ⟨tip, rfl, campaign.git.trans _ _ _ below (forwards old here)⟩
  streaks := filed.streaks

/-- A branch that moves forward still contains what was promoted. -/
theorem Filed.forward (filed : Filed campaign history attention branch) {tip : γ}
    (forwards : ∀ old, branch = some old → campaign.git.isAncestor old tip = true) :
    Filed campaign history attention (some tip) where
  lawful := filed.lawful
  attention := filed.attention
  contains index head member := by
    obtain ⟨old, here, below⟩ := filed.contains index head member
    exact ⟨tip, rfl, campaign.git.trans _ _ _ below (forwards old here)⟩
  streaks := filed.streaks

theorem Remembers.log (remembers : Remembers history coordinator) {event : Event γ} (plain : event.plain = true) :
    Remembers (event :: history) coordinator where
  promoted := remembers.promoted.cons event
  spent id progressAt := Nat.le_trans (streak_cons plain id progressAt) (remembers.spent id progressAt)

/-- The memory does not depend on the point of the turn. -/
theorem Remembers.atPoint (remembers : Remembers history coordinator) (point : Point γ) :
    Remembers history { coordinator with point := point } := ⟨remembers.promoted, remembers.spent⟩

private theorem permitted_of_idle {event : Event γ} (idle : event.acts = false) : Permitted event history where
  acting acts := absurd (idle.symm.trans acts) (by decide)
  launching index launched := by
    subst launched
    cases idle

/-! ## A turn of the loop -/

private theorem Kept.goto (filed : Filed campaign s.history s.attention s.branch)
    (remembers : Remembers s.history coordinator) {point : Point γ}
    (reached : Reached campaign s.history s.attention coordinator.index point) :
    Kept campaign (s.goto coordinator point) where
  filed := filed
  remembers := by
    rintro _ ⟨⟩
    exact remembers.atPoint point
  reached := by
    rintro _ ⟨⟩
    exact reached

private theorem Kept.halt (filed : Filed campaign s.history s.attention s.branch)
    (remembers : Remembers s.history coordinator) (unattended : s.attention = none) (code : String) :
    Kept campaign (s.halt coordinator code) :=
  Kept.goto (s := s.log (.halted code)) (filed.log rfl (permitted_of_idle rfl) nofun) (remembers.log rfl) unattended

/-- The contract just promoted is behind the next turn. -/
private theorem Kept.goNext (filed : Filed campaign s.history s.attention s.branch)
    (remembers : Remembers s.history coordinator) (clear : Clear s.history s.attention)
    (succeeded : .succeeded coordinator.index ∈ s.history)
    (promoted : ∃ head, .promoted coordinator.index head ∈ s.history) :
    Kept campaign (s.goNext coordinator) := by
  have later : Remembers s.history { coordinator with index := coordinator.index + 1 } := by
    refine ⟨fun earlier small => ?_, remembers.spent⟩
    rcases Nat.lt_succ_iff_lt_or_eq.mp small with before | rfl
    · exact remembers.promoted earlier before
    · obtain ⟨head, promoted⟩ := promoted
      exact ⟨head, succeeded, promoted⟩
  show Kept campaign (s.goto { coordinator with index := coordinator.index + 1 } .reading)
  exact Kept.goto filed later clear.running

private theorem look_kept (filed : Filed campaign s.history s.attention s.branch)
    (remembers : Remembers s.history coordinator) (clear : Clear s.history s.attention) (contract : CampaignContract) :
    Kept campaign (look s coordinator contract) := by
  unfold look
  split
  · exact Kept.goto (s := s.log (.absent coordinator.index)) (filed.log rfl (permitted_of_idle rfl) nofun)
      (remembers.log rfl) ⟨⟨clear.running, clear.attention⟩, rfl⟩
  · split_ifs
    · exact Kept.goto filed remembers clear
    · exact Kept.halt filed remembers clear.attention _

private theorem classify_kept (filed : Filed campaign s.history s.attention s.branch)
    (remembers : Remembers s.history coordinator) (clear : Clear s.history s.attention) (contract : CampaignContract)
    (baseSha : Option γ) : Kept campaign (classify s coordinator contract baseSha) := by
  unfold classify
  cases classifyRunProgress (s.runs contract.runDir).progress with
  | succeeded =>
    exact Kept.goto (s := s.log (.succeeded coordinator.index)) (filed.log rfl (permitted_of_idle rfl) nofun)
      (remembers.log rfl) ⟨⟨clear.running, clear.attention⟩, .head _⟩
  | parked => exact Kept.halt filed remembers clear.attention _
  | canceled => exact Kept.halt filed remembers clear.attention _
  | waiting => exact Kept.goto filed remembers clear.running
  | unfinished =>
    dsimp only
    split_ifs
    · exact Kept.goto filed remembers clear.running
    · exact Kept.goto filed remembers clear

/-- A promotion moves the branch to a descendant, or finds the head on it. -/
private theorem promoteRun_kept [DecidableEq γ] (filed : Filed campaign s.history s.attention s.branch)
    (remembers : Remembers s.history coordinator) (clear : Clear s.history s.attention)
    (succeeded : .succeeded coordinator.index ∈ s.history) (contract : CampaignContract) (baseSha : Option γ)
    (head : γ) : Kept campaign (promoteRun campaign s coordinator contract baseSha head) := by
  have contained : ∀ {left right : γ}, (left = right ∨ campaign.git.isAncestor left right = true) →
      campaign.git.isAncestor left right = true := by
    rintro left right (rfl | below)
    · exact campaign.git.refl _
    · exact below
  unfold promoteRun
  cases here : s.branch with
  | some current =>
    dsimp only
    split_ifs with there below
    · have below : campaign.git.isAncestor head current = true := contained (there.imp_left Eq.symm)
      have moved := filed.promoted clear coordinator.index below fun old same => by
        rw [here] at same
        cases same
        exact campaign.git.refl _
      refine Kept.goNext (s := s.log (.promoted coordinator.index head)) ?_ (remembers.log rfl)
        ⟨clear.running, clear.attention⟩ (.tail _ succeeded) ⟨head, .head _⟩
      show Filed campaign _ s.attention s.branch
      rw [here]
      exact moved
    · exact Kept.goto filed remembers ⟨clear, succeeded, below⟩
    · exact Kept.halt filed remembers clear.attention _
  | none =>
    cases baseSha with
    | none => exact Kept.halt filed remembers clear.attention _
    | some base =>
      dsimp only
      split_ifs with below
      · have made : Filed campaign s.history s.attention (some base) := filed.forward fun old same => by
          rw [here] at same
          cases same
        exact Kept.goto (s := { s with branch := some base }) made remembers ⟨clear, succeeded, contained below⟩
      · exact Kept.halt filed remembers clear.attention _

private theorem streak_resumed (run id : String) (found progressAt : Option String) :
    streak id progressAt (.resumed run found :: history) =
      if run = id then (if found = progressAt then streak id progressAt history + 1 else 0)
      else streak id progressAt history := rfl

private theorem spentAttempts_recovery {updated : Coordinator γ} {run : String} {attempts : RecoveryAttempts}
    (recovery : updated.recovery = fun other => if other = run then some attempts else coordinator.recovery other)
    (id : String) (progressAt : Option String) :
    spentAttempts updated id progressAt =
      if run = id then (if attempts.progressAt = progressAt then attempts.attempts else 0)
      else spentAttempts coordinator id progressAt := by
  unfold spentAttempts
  rw [recovery]
  dsimp only
  by_cases same : id = run
  · rw [if_pos same, if_pos same.symm]
  · rw [if_neg same, if_neg (Ne.symm same)]

/-- A resume spends one attempt of a budget that is not yet spent. -/
private theorem resumeDeadRun_kept (filed : Filed campaign s.history s.attention s.branch)
    (remembers : Remembers s.history coordinator) (clear : Clear s.history s.attention) (contract : CampaignContract) :
    Kept campaign (resumeDeadRun s coordinator contract) := by
  unfold resumeDeadRun
  dsimp only
  generalize (s.runs contract.runDir).lastProgressAt = progressAt
  split_ifs with canceled spent
  · exact Kept.halt filed remembers clear.attention _
  · exact Kept.halt filed remembers clear.attention _
  · have unattended : attended s.history = false := by
      rw [filed.attention, clear.attention]
      rfl
    have before := remembers.spent contract.id progressAt
    have recorded : Filed campaign (.resumed contract.id progressAt :: s.history) s.attention s.branch := by
      refine ⟨⟨⟨fun _ => ⟨clear.running, unattended⟩, nofun⟩, filed.lawful⟩, filed.attention, ?_, ?_⟩
      · intro index head member
        rcases List.mem_cons.mp member with same | member
        · cases same
        · exact filed.contains index head member
      · intro id other
        have kept := filed.streaks id other
        rw [streak_resumed]
        split_ifs with same progress
        · subst same progress
          omega
        · exact Nat.zero_le _
        · exact kept
    refine ⟨recorded, ?_, ?_⟩ <;> rintro _ ⟨⟩
    swap
    · exact ⟨clear.running, clear.attention⟩
    refine ⟨remembers.promoted.cons _, fun id other => ?_⟩
    have kept := remembers.spent id other
    show streak id other (.resumed contract.id progressAt :: s.history) ≤ _
    rw [streak_resumed, spentAttempts_recovery rfl]
    split_ifs with same progress
    · subst same progress
      exact Nat.succ_le_succ before
    · exact Nat.le_refl _
    · exact kept

/-- The reason kept of a failed resume spends nothing. -/
private theorem spentAttempts_keepReason (contract : CampaignContract) (reason id : String)
    (progressAt : Option String) :
    spentAttempts (keepReason coordinator contract reason) id progressAt = spentAttempts coordinator id progressAt := by
  unfold spentAttempts keepReason
  by_cases same : id = contract.id
  · simp only [if_pos same]
    cases coordinator.recovery id <;> rfl
  · simp only [if_neg same]

private theorem coordinatorStep_kept [DecidableEq γ] (filed : Filed campaign s.history s.attention s.branch)
    (remembers : Remembers s.history coordinator) {point : Point γ} {label : Label γ} {next : State γ}
    (reached : Reached campaign s.history s.attention coordinator.index point)
    (taken : coordinatorStep campaign s coordinator point label = some next) : Kept campaign next := by
  unfold coordinatorStep at taken
  split at taken
  · -- reading
    unfold nextContract at taken
    split_ifs at taken with clear
    · cases found : campaign.contracts[coordinator.index]? with
      | none =>
        rw [found] at taken
        cases taken
        exact ⟨filed, nofun, nofun⟩
      | some contract =>
        rw [found] at taken
        cases taken
        exact Kept.goto filed remembers ⟨reached, clear.2⟩
    · cases taken
      exact ⟨filed, nofun, nofun⟩
  · -- validating
    split at taken <;> cases taken
    · exact Kept.goto filed remembers reached
    · exact Kept.halt filed remembers reached.attention _
  · -- looking
    cases taken
    exact look_kept filed remembers reached _
  · -- classifying
    cases taken
    exact classify_kept filed remembers reached _ _
  · -- promoting
    obtain ⟨clear, succeeded⟩ := reached
    split at taken <;> cases taken
    · exact promoteRun_kept filed remembers clear succeeded _ _ _
    · exact Kept.halt filed remembers clear.attention _
    · exact Kept.halt filed remembers clear.attention _
  · -- advancing
    rename_i contract head previousSha
    obtain ⟨clear, succeeded, below⟩ := reached
    split_ifs at taken with here <;> cases taken
    · have moved := filed.promoted clear coordinator.index (campaign.git.refl head) fun old same => by
        rw [here] at same
        cases same
        exact below
      have recorded : Reached campaign (.promoted coordinator.index head :: s.history) s.attention coordinator.index
          (.recording contract) := ⟨⟨clear.running, clear.attention⟩, .tail _ succeeded, head, .head _⟩
      exact Kept.goto (s := { s with branch := some head }.log (.promoted coordinator.index head)) moved
        (remembers.log rfl) recorded
    · exact Kept.halt filed remembers clear.attention _
  · -- recording
    cases taken
    exact Kept.goNext filed remembers reached.1 reached.2.1 reached.2.2
  · -- recovering
    cases taken
    exact resumeDeadRun_kept filed remembers reached _
  · -- resuming
    split at taken <;> cases taken
    · exact Kept.goto filed remembers reached.running
    · rename_i contract _ reason
      have failed : Remembers s.history (keepReason coordinator contract reason) := by
        refine ⟨remembers.promoted, fun id progressAt => ?_⟩
        rw [spentAttempts_keepReason]
        exact remembers.spent id progressAt
      exact Kept.goto filed failed reached.running
  · -- verifying
    split at taken <;> cases taken
    · exact Kept.goto filed remembers reached
    · exact Kept.halt filed remembers reached.1.attention _
  · -- launching
    cases taken
    obtain ⟨clear, looked⟩ := reached
    have launched : Permitted (.launched coordinator.index) s.history := by
      refine ⟨fun _ => ⟨clear.running, ?_⟩, ?_⟩
      · rw [filed.attention, clear.attention]
        rfl
      · rintro _ ⟨⟩
        exact ⟨looked, remembers.promoted⟩
    exact Kept.goto (s := s.log (.launched coordinator.index)) (filed.log rfl launched nofun) (remembers.log rfl)
      ⟨clear.running, clear.attention⟩
  · -- bootstrapping
    split at taken <;> cases taken
    · exact Kept.goto filed remembers reached.running
    · exact Kept.halt filed remembers reached.attention _
  · -- parking
    cases taken
    refine ⟨⟨⟨permitted_of_idle rfl, filed.lawful⟩, rfl, ?_, filed.streaks⟩, nofun, nofun⟩
    intro index head member
    rcases List.mem_cons.mp member with same | member
    · cases same
    · exact filed.contains index head member
  · cases taken

/-! ## Runs -/

theorem Initial.kept (initial : Initial s) : Kept campaign s where
  filed := by
    rw [initial.history, initial.attention]
    exact ⟨trivial, rfl, nofun, fun _ _ => Nat.zero_le _⟩
  remembers := by
    rw [initial.coordinator]
    nofun
  reached := by
    rw [initial.coordinator]
    nofun

theorem Kept.step [DecidableEq γ] (kept : Kept campaign s) {label : Label γ} {next : State γ}
    (taken : Chain.step campaign s label = some next) : Kept campaign next := by
  obtain ⟨filed, remembers, reached⟩ := kept
  cases label with
  | start =>
    simp only [Chain.step] at taken
    split at taken <;> cases taken
    refine ⟨filed.log rfl (permitted_of_idle rfl) nofun, ?_, ?_⟩
    · rintro _ ⟨⟩
      exact ⟨nofun, fun _ _ => Nat.zero_le _⟩
    · rintro _ ⟨⟩
      rfl
  | crash =>
    obtain ⟨_, _, rfl⟩ := Option.map_eq_some_iff.mp taken
    exact ⟨filed, nofun, nofun⟩
  | observe runDir directory =>
    cases taken
    exact ⟨filed, remembers, reached⟩
  | integrate id head =>
    cases taken
    exact ⟨filed, remembers, reached⟩
  | close =>
    cases taken
    exact ⟨filed, remembers, reached⟩
  | unpark =>
    simp only [Chain.step] at taken
    split_ifs at taken with parked
    cases taken
    refine ⟨⟨⟨permitted_of_idle rfl, filed.lawful⟩, rfl, ?_, filed.streaks⟩, ?_, ?_⟩
    · intro index head member
      rcases List.mem_cons.mp member with same | member
      · cases same
      · exact filed.contains index head member
    · exact fun coordinator present =>
        ⟨(remembers coordinator present).promoted.cons _, (remembers coordinator present).spent⟩
    · -- only a first turn can meet an attention
      intro coordinator present
      have here := reached coordinator present
      have attended : s.attention ≠ none := Option.isSome_iff_ne_none.mp parked.2
      cases point : coordinator.point <;> rw [point] at here <;> simp only [Reached] at here ⊢
      case reading => exact here
      all_goals first
        | exact absurd here attended
        | exact absurd here.attention attended
        | exact absurd here.1.attention attended
  | _ =>
    obtain ⟨coordinator, present, taken⟩ := Option.bind_eq_some_iff.mp taken
    exact coordinatorStep_kept filed (remembers _ present) (reached _ present) taken

theorem kept_of_reach [DecidableEq γ] (reach : (machine campaign).Reach Machine.free Initial s) : Kept campaign s :=
  reach.invariant (Kept campaign) (fun _ initial => initial.kept) fun _ _ _ kept _ taken => kept.step taken

end Faberun.Chain
