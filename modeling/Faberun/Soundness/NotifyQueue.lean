import Mathlib.Data.List.Nodup
import Mathlib.Data.List.Perm.Subperm
import Mathlib.Data.List.Perm.Basic
import Faberun.Model.Engine.NotifyQueue

/-! # How often a notification is sent

A sender that claims the inbox entry before it tries the transports tries them once, whatever dies when. A sender that
writes its receipt after it tried them tries them again only if an attempt died before its receipt. In both, a write that
stops short can cost two records and with each of them one more attempt.
-/

namespace Faberun.Notify

variable {o o' : Outbox} {occasion : Occasion} {key : String} {index : Nat} {call : Call} {label : Label}

/-! ## Keys -/

theorem takeWhile_intercalate {subject : List Char} (plain : ':' ∉ subject) (details : List (List Char)) :
    ([':'].intercalate (subject :: details)).takeWhile (· ≠ ':') = subject := by
  have all : ∀ c ∈ subject, decide (c ≠ ':') = true := by
    intro c member
    exact decide_eq_true fun colon => plain (colon ▸ member)
  cases details with
  | nil => simpa [List.intercalate] using List.takeWhile_eq_self_iff.mpr all
  | cons detail details =>
    have split : [':'].intercalate (subject :: detail :: details) =
        subject ++ (':' :: [':'].intercalate (detail :: details)) := by
      simp [List.intercalate]
    rw [split, List.takeWhile_append_of_pos all]
    simp

theorem subject_of_dedupeKey (occasion : Occasion) :
    occasion.dedupeKey.toList.takeWhile (· ≠ ':') = occasion.subject.toList := by
  rw [Occasion.dedupeKey, String.toList_ofList, List.map_cons]
  refine takeWhile_intercalate ?_ _
  cases occasion <;> simp [Occasion.subject]

theorem claims_eq (occasion : Occasion) :
    occasion.claims = decide (occasion.subject ∈ ["node.advisory", "alert", "stale", "idle"]) := by
  cases occasion <;> simp [Occasion.claims, Occasion.subject]

/-- The first part of a key says whether its sender claims it. -/
theorem claims_of_dedupeKey {first second : Occasion} (same : first.dedupeKey = second.dedupeKey) :
    first.claims = second.claims := by
  have subjects : first.subject = second.subject := by
    rw [← String.toList_inj, ← subject_of_dedupeKey, ← subject_of_dedupeKey, same]
  rw [claims_eq, claims_eq, subjects]

/-! ## Calls -/

namespace Stage

def isCleared : Stage → Bool
  | cleared => true
  | looked | entered | tried _ => false

def isEntered : Stage → Bool
  | entered => true
  | looked | cleared | tried _ => false

/-- The transports were tried, and the receipt is not written. -/
def owes : Stage → Bool
  | tried (some _) => true
  | looked | cleared | entered | tried none => false

end Stage

def Call.on (key : String) (call : Call) : Bool := decide (call.occasion.dedupeKey = key)

def Call.clearedOn (key : String) (call : Call) : Bool := call.stage.isCleared && call.on key

def Call.enteredOn (key : String) (call : Call) : Bool := call.stage.isEntered && call.on key

def Attempt.on (key : String) (attempt : Attempt) : Bool := decide (attempt.occasion.dedupeKey = key)

/-- The calls with one of them apart. -/
theorem countP_calls (found : o.calls[index]? = some call) (p : Call → Bool) :
    o.calls.countP p = (o.calls.eraseIdx index).countP p + if p call then 1 else 0 := by
  obtain ⟨inside, rfl⟩ := List.getElem?_eq_some_iff.mp found
  rw [← (List.getElem_cons_eraseIdx_perm inside).countP_eq p, List.countP_cons]

theorem countP_advance {stage : Stage} (p : Call → Bool) :
    (o.advance index call stage).countP p = (o.calls.eraseIdx index).countP p + if p { call with stage := stage } then 1 else 0 :=
  List.countP_cons

/-! ## One step -/

/-- No call has the key of an occasion. -/
abbrev Free (o : Outbox) (occasion : Occasion) : Prop :=
  ∀ call ∈ o.calls, call.occasion.home = occasion.home → call.on occasion.dedupeKey = false

/-- No call is between the lookup and the write of a key. -/
abbrev Unraced (o : Outbox) (key : String) : Prop := ∀ call ∈ o.calls, call.stage.isCleared = true → call.on key = false

/-- No two calls of one key are between the lookup and the write of `appendInbox`. -/
def SearchesApart (o : Outbox) : Label → Prop
  | .search index => ∀ call ∈ o.calls[index]?, Unraced o call.occasion.dedupeKey
  | .look _ _ | .attend _ _ _ _ | .append _ _ | .deliver _ _ _ | .record _ _ | .die _ => True

instance : DecidableRel SearchesApart := fun o label =>
  match label with
  | .search index => inferInstanceAs (Decidable (∀ call ∈ o.calls[index]?, Unraced o call.occasion.dedupeKey))
  | .look _ _ | .attend _ _ _ _ | .append _ _ | .deliver _ _ _ | .record _ _ | .die _ => instDecidableTrue

/-- A sender that claims nothing has its key to itself. -/
def KeyAlone (o : Outbox) : Label → Prop
  | .look occasion _ => occasion.claims = false → Free o occasion
  | .attend runId anchor elapsedMs _ => Free o (.schedule runId anchor (attentionScheduleSlot elapsedMs))
  | .search _ | .append _ _ | .deliver _ _ _ | .record _ _ | .die _ => True

instance : DecidableRel KeyAlone := fun o label =>
  match label with
  | .look occasion _ => inferInstanceAs (Decidable (occasion.claims = false → Free o occasion))
  | .attend runId anchor elapsedMs _ =>
    inferInstanceAs (Decidable (Free o (.schedule runId anchor (attentionScheduleSlot elapsedMs))))
  | .search _ | .append _ _ | .deliver _ _ _ | .record _ _ | .die _ => instDecidableTrue

/-- What a step does: it starts a call, or moves one of those in flight; `apart` and `alone` are what its label keeps to. -/
inductive Moved (apart alone : Prop) (o : Outbox) : Outbox → Prop
  | idle : Moved apart alone o o
  | looked (occasion : Occasion) (summary : String)
      (free : alone → occasion.claims = false → Free o occasion)
      (unseen : occasion.claims = false → alreadyNotified (o.receipts occasion.home) occasion.dedupeKey = false) :
      Moved apart alone o { o with calls := ⟨occasion, summary, if occasion.entersInbox then .looked else .entered⟩ :: o.calls }
  | searched (index : Nat) (call : Call) (found : o.calls[index]? = some call) (stage : call.stage = .looked)
      (free : apart → Unraced o call.occasion.dedupeKey) :
      Moved apart alone o (o.search index call)
  | appended (index : Nat) (call : Call) (written : Written) (found : o.calls[index]? = some call)
      (stage : call.stage = .cleared) : Moved apart alone o (o.append index call written)
  | delivered (index : Nat) (call : Call) (setting : Option String) (answer : Except String (List TransportOutcome))
      (found : o.calls[index]? = some call) (stage : call.stage = .entered) :
      Moved apart alone o (o.deliver index call setting answer)
  | recorded (index : Nat) (call : Call) (result : Option (Except String DeliveryResult)) (written : Written)
      (found : o.calls[index]? = some call) (stage : call.stage = .tried result) :
      Moved apart alone o (o.record index call result written)
  | died (index : Nat) (call : Call) (found : o.calls[index]? = some call) : Moved apart alone o (o.die index call)

/-- A sender that claims nothing checks the receipts. -/
theorem checks_of_not_claims (recorded : occasion.claims = false) : occasion.checksReceipts = true := by
  cases occasion <;> first | rfl | exact absurd recorded (by simp [Occasion.claims])

theorem moved_of_look {apart alone : Prop} {summary : String} (free : alone → occasion.claims = false → Free o occasion) :
    Moved apart alone o (o.look occasion summary) := by
  rw [Outbox.look]
  by_cases notified : (occasion.checksReceipts && alreadyNotified (o.receipts occasion.home) occasion.dedupeKey) = true
  · rw [if_pos notified]
    exact .idle
  · rw [if_neg notified]
    refine .looked occasion summary free fun recorded => ?_
    rw [checks_of_not_claims recorded, Bool.true_and] at notified
    exact Bool.eq_false_iff.mpr notified

theorem moved_of_step (taken : step o label = some o') : Moved (SearchesApart o label) (KeyAlone o label) o o' := by
  cases label with
  | look occasion summary =>
    have looked : o.look occasion summary = o' := by
      cases occasion <;> first | exact Option.some.inj taken | cases taken
    rw [← looked]
    exact moved_of_look id
  | attend runId anchor elapsedMs summary =>
    simp only [step] at taken
    split_ifs at taken
    · obtain rfl := Option.some.inj taken
      exact .idle
    · obtain rfl := Option.some.inj taken
      exact moved_of_look fun alone _ => alone
  | search index =>
    obtain ⟨call, found, taken⟩ := Option.bind_eq_some_iff.mp taken
    cases stage : call.stage <;> simp only [stage, reduceCtorEq, Option.some.injEq] at taken
    subst taken
    exact .searched index call found stage fun apart => apart call found
  | append index written =>
    obtain ⟨call, found, taken⟩ := Option.bind_eq_some_iff.mp taken
    cases stage : call.stage <;> simp only [stage, reduceCtorEq, Option.some.injEq] at taken
    subst taken
    exact .appended index call written found stage
  | deliver index setting answer =>
    obtain ⟨call, found, taken⟩ := Option.bind_eq_some_iff.mp taken
    cases stage : call.stage <;> simp only [stage, reduceCtorEq, Option.some.injEq] at taken
    subst taken
    exact .delivered index call setting answer found stage
  | record index written =>
    obtain ⟨call, found, taken⟩ := Option.bind_eq_some_iff.mp taken
    cases stage : call.stage <;> simp only [stage, reduceCtorEq, Option.some.injEq] at taken
    subst taken
    exact .recorded index call _ written found stage
  | die index =>
    obtain ⟨call, found, rfl⟩ := Option.map_eq_some_iff.mp taken
    exact .died index call found

/-! ## Entries that are claimed -/

/-- At most one entry of a claimed key is there or about to be, and each attempt had an entry of its own. -/
structure Claimed (key : String) (o : Outbox) : Prop where
  once : o.inbox.committed.countP (fun entry => decide (entry.dedupeKey = key)) + o.calls.countP (Call.clearedOn key) ≤ 1
  paid : o.attempts.countP (Attempt.on key) + o.calls.countP (Call.enteredOn key) ≤
    (TornLog.records o.inbox).countP fun entry => decide (entry.dedupeKey = key)

/-- A call whose key is claimed enters the inbox. -/
theorem enters_of_claims (claimed : occasion.claims = true) : occasion.entersInbox = true := by
  cases occasion <;> first | rfl | exact absurd claimed (by simp [Occasion.claims])

@[simp] theorem clearedOn_at {stage : Stage} {summary : String} :
    Call.clearedOn key ⟨occasion, summary, stage⟩ = (stage.isCleared && decide (occasion.dedupeKey = key)) := rfl

@[simp] theorem enteredOn_at {stage : Stage} {summary : String} :
    Call.enteredOn key ⟨occasion, summary, stage⟩ = (stage.isEntered && decide (occasion.dedupeKey = key)) := rfl

theorem Claimed.moved (claimed : Claimed key o)
    (claims : ∀ occasion : Occasion, occasion.dedupeKey = key → occasion.claims = true)
    {apart alone : Prop} (searches : apart) (moved : Moved apart alone o o') : Claimed key o' := by
  obtain ⟨once, paid⟩ := claimed
  have erased (index : Nat) (call : Call) (found : o.calls[index]? = some call) :=
    And.intro (countP_calls found (Call.clearedOn key)) (countP_calls found (Call.enteredOn key))
  cases moved with
  | idle => exact ⟨once, paid⟩
  | looked occasion summary =>
    refine ⟨?_, ?_⟩
    · rw [List.countP_cons_of_neg]
      · exact once
      · cases occasion.entersInbox <;> simp [Stage.isCleared]
    · rw [List.countP_cons_of_neg]
      · exact paid
      · by_cases same : occasion.dedupeKey = key
        · simp [enters_of_claims (claims occasion same), Stage.isEntered]
        · simp [same]
  | searched index call found stage free =>
    obtain ⟨cleared, entered⟩ := erased index call found
    rw [Outbox.search]
    split_ifs with present claiming
    · exact ⟨by dsimp only; omega, by dsimp only; omega⟩
    · have other : call.occasion.dedupeKey ≠ key := fun same => claiming (claims call.occasion same)
      refine ⟨?_, ?_⟩ <;> simp [countP_advance, other] <;> omega
    · refine ⟨?_, ?_⟩
      · simp only [countP_advance, clearedOn_at, Stage.isCleared, Bool.true_and, decide_eq_true_eq]
        by_cases same : call.occasion.dedupeKey = key
        · have unread : o.inbox.committed.countP (fun entry => decide (entry.dedupeKey = key)) = 0 := by
            rw [List.countP_eq_zero, ← same]
            simpa [inInbox] using present
          have others : (o.calls.eraseIdx index).countP (Call.clearedOn key) = 0 := by
            refine List.countP_eq_zero.mpr fun other member busy => ?_
            rw [Call.clearedOn, Bool.and_eq_true, ← same] at busy
            exact Bool.false_ne_true ((free searches other (List.mem_of_mem_eraseIdx member) busy.1).symm.trans busy.2)
          rw [unread, others, if_pos same]
        · rw [if_neg same]
          omega
      · simp [countP_advance, Stage.isEntered]
        omega
  | appended index call written found stage =>
    obtain ⟨cleared, entered⟩ := erased index call found
    obtain ⟨occasion, summary, _⟩ := call
    obtain rfl := stage
    simp only [clearedOn_at, enteredOn_at, Stage.isCleared, Stage.isEntered, Bool.true_and, Bool.false_and,
      decide_eq_true_eq] at cleared entered
    refine ⟨?_, ?_⟩
    · have read := TornLog.countP_committed_cons_le (fun entry => decide (entry.dedupeKey = key))
        ⟨⟨occasion.type, occasion.dedupeKey, summary⟩, written⟩ o.inbox
      simp only [decide_eq_true_eq] at read
      simp [Outbox.append, countP_advance, Stage.isCleared]
      omega
    · simp [Outbox.append, countP_advance, Stage.isEntered, TornLog.records, List.countP_cons] at paid ⊢
      omega
  | delivered index call setting answer found stage =>
    obtain ⟨cleared, entered⟩ := erased index call found
    obtain ⟨occasion, summary, _⟩ := call
    obtain rfl := stage
    simp only [clearedOn_at, enteredOn_at, Stage.isCleared, Stage.isEntered, Bool.true_and, Bool.false_and,
      decide_eq_true_eq] at cleared entered
    rw [Outbox.deliver]
    split_ifs
    · refine ⟨?_, ?_⟩
      · simp [countP_advance, Stage.isCleared]
        omega
      · simp [countP_advance, Stage.isEntered, List.countP_cons, Attempt.on]
        omega
    · refine ⟨?_, ?_⟩
      · simp [countP_advance, Stage.isCleared]
        omega
      · simp [countP_advance, Stage.isEntered]
        omega
  | recorded index call result written found stage =>
    obtain ⟨cleared, entered⟩ := erased index call found
    exact ⟨by simp only [Outbox.record]; omega, by simp only [Outbox.record]; omega⟩
  | died index call found =>
    obtain ⟨cleared, entered⟩ := erased index call found
    rw [Outbox.die]
    split <;> exact ⟨by dsimp only; omega, by dsimp only; omega⟩

theorem Claimed.initial (initial : Initial o) : Claimed key o := by
  rw [initial]
  exact ⟨by simp [TornLog.committed], by simp⟩

/-- Over every run in which no two calls of one key are between the lookup and the write of `appendInbox`, with calls that
die anywhere and writes that stop short: the transports are tried once for a claimed key, and at most twice more for each
short write to the inbox. -/
theorem claimed_attempts_le (reach : machine.Reach SearchesApart Initial o) (claims : occasion.claims = true) :
    o.attempts.countP (Attempt.on occasion.dedupeKey) ≤ 1 + 2 * o.inbox.short := by
  have always (other : Occasion) (same : other.dedupeKey = occasion.dedupeKey) : other.claims = true :=
    (claims_of_dedupeKey same).trans claims
  obtain ⟨once, paid⟩ : Claimed occasion.dedupeKey o := by
    refine reach.invariant (Claimed occasion.dedupeKey) (fun _ => Claimed.initial) ?_
    exact fun _ _ _ claimed searches taken => claimed.moved always searches (moved_of_step taken)
  have kept := TornLog.countP_records_le (fun entry => decide (entry.dedupeKey = occasion.dedupeKey)) o.inbox
  omega

/-- A campaign before its first notification. -/
def quietOutbox : Outbox := ⟨[], fun _ => [], [], [], []⟩

def accepted : Except String (List TransportOutcome) := .ok [⟨"bin", true, none, none⟩]

/-- The tick and a settlement find the same crossing, and the settlement comes second to the inbox. -/
def racedAdvisory : List Label :=
  let crossing : Occasion := .advisory "run-1" "build" .cost "5"
  [.look crossing "over budget", .look crossing "over budget", .search 0, .append 0 .whole, .search 1,
    .deliver 0 none accepted, .record 0 .whole]

theorem claimed_attempts_le_raced : ∃ o, machine.replay? SearchesApart quietOutbox racedAdvisory = some o ∧ o.attempts.length = 1 ∧
    o.attempts.countP (Attempt.on (Occasion.advisory "run-1" "build" .cost "5").dedupeKey) ≤ 1 + 2 * o.inbox.short :=
  Machine.exists_replay (fun o => o.attempts.length = 1)
    (fun _ ran sent => ⟨sent, claimed_attempts_le (.of_replay rfl _ ran) rfl⟩) (by decide)

/-! ## Attempts that are recorded -/

def Call.isAt (home : Home) (p : String → Bool) (call : Call) : Bool :=
  decide (call.occasion.home = home) && p call.occasion.dedupeKey

def Call.owesAt (home : Home) (p : String → Bool) (call : Call) : Bool := call.stage.owes && call.isAt home p

def Attempt.isAt (home : Home) (p : String → Bool) (attempt : Attempt) : Bool :=
  decide (attempt.occasion.home = home) && p attempt.occasion.dedupeKey

def Receipt.of (p : String → Bool) (receipt : Receipt) : Bool := p receipt.dedupeKey

def only (key : String) : String → Bool := fun other => decide (other = key)

variable {home : Home} {p : String → Bool}

/-- At most one receipt of a key is there or on its way, and each attempt has one, owes one or lost its call. -/
structure Recorded (home : Home) (p : String → Bool) (o : Outbox) : Prop where
  once : ∀ key, p key = true →
    (o.receipts home).committed.countP (Receipt.of (only key)) + o.calls.countP (Call.isAt home (only key)) ≤ 1
  paid : o.attempts.countP (Attempt.isAt home p) ≤ (TornLog.records (o.receipts home)).countP (Receipt.of p) +
    o.calls.countP (Call.owesAt home p) + o.unrecorded.countP (Attempt.isAt home p)

@[simp] theorem isAt_mk {stage : Stage} {summary : String} :
    Call.isAt home p ⟨occasion, summary, stage⟩ = (decide (occasion.home = home) && p occasion.dedupeKey) := rfl

@[simp] theorem owesAt_mk {stage : Stage} {summary : String} :
    Call.owesAt home p ⟨occasion, summary, stage⟩ =
      (stage.owes && (decide (occasion.home = home) && p occasion.dedupeKey)) := rfl

/-- A call stays where it is while it moves on. -/
theorem countP_isAt_advance (found : o.calls[index]? = some call) (stage : Stage) :
    (o.advance index call stage).countP (Call.isAt home p) = o.calls.countP (Call.isAt home p) := by
  rw [countP_advance, countP_calls found]
  rfl

theorem countP_owesAt_advance (found : o.calls[index]? = some call) (waiting : call.stage.owes = false) (stage : Stage) :
    (o.advance index call stage).countP (Call.owesAt home p) =
      o.calls.countP (Call.owesAt home p) + if stage.owes && call.isAt home p then 1 else 0 := by
  have idle : Call.owesAt home p call = false := by rw [Call.owesAt, waiting, Bool.false_and]
  rw [countP_advance, countP_calls found, idle]
  rfl

theorem receiptOf_dedupeKey (occasion : Occasion) (summary : String) (result : Option (Except String DeliveryResult)) :
    (receiptOf occasion summary result).dedupeKey = occasion.dedupeKey := by
  rcases result with _ | _ | result
  · rfl
  · rfl
  · simp only [receiptOf]
    split_ifs <;> rfl

theorem Recorded.moved (recorded : Recorded home p o)
    (claims : ∀ occasion : Occasion, p occasion.dedupeKey = true → occasion.claims = false) {apart alone : Prop} (own : alone)
    (moved : Moved apart alone o o') : Recorded home p o' := by
  obtain ⟨once, paid⟩ := recorded
  have erased (index : Nat) (call : Call) (found : o.calls[index]? = some call) :=
    And.intro (fun key => countP_calls found (Call.isAt home (only key))) (countP_calls found (Call.owesAt home p))
  cases moved with
  | idle => exact ⟨once, paid⟩
  | looked occasion summary free unseen =>
    refine ⟨fun key counted => ?_, ?_⟩
    · by_cases same : Call.isAt home (only key) ⟨occasion, summary, if occasion.entersInbox then .looked else .entered⟩ = true
      · rw [List.countP_cons_of_pos same]
        simp only [isAt_mk, Bool.and_eq_true, decide_eq_true_eq, only] at same
        obtain ⟨here, rfl⟩ := same
        have unclaimed := claims occasion counted
        have unread : (o.receipts home).committed.countP (Receipt.of (only occasion.dedupeKey)) = 0 := by
          rw [List.countP_eq_zero, ← here]
          simpa [alreadyNotified, Receipt.of, only] using unseen unclaimed
        have none' : o.calls.countP (Call.isAt home (only occasion.dedupeKey)) = 0 := by
          refine List.countP_eq_zero.mpr fun call member busy => ?_
          rw [Call.isAt, Bool.and_eq_true, decide_eq_true_eq, ← here] at busy
          exact Bool.false_ne_true ((free own unclaimed call member busy.1).symm.trans busy.2)
        rw [unread, none']
      · rw [List.countP_cons_of_neg same]
        exact once key counted
    · rw [List.countP_cons_of_neg]
      · exact paid
      · cases occasion.entersInbox <;> simp [Stage.owes]
  | searched index call found stage free =>
    have waiting : call.stage.owes = false := by rw [stage, Stage.owes]
    rw [Outbox.search]
    split_ifs with present claiming
    · obtain ⟨here, owing⟩ := erased index call found
      refine ⟨fun key counted => ?_, ?_⟩
      · have counted := once key counted
        rw [here] at counted
        dsimp only
        omega
      · dsimp only
        rw [owing] at paid
        simpa [Call.owesAt, waiting] using paid
    all_goals
      refine ⟨fun key counted => ?_, ?_⟩
      · rw [countP_isAt_advance found]
        exact once key counted
      · rw [countP_owesAt_advance found waiting]
        exact paid
  | appended index call written found stage =>
    have waiting : call.stage.owes = false := by rw [stage, Stage.owes]
    refine ⟨fun key counted => ?_, ?_⟩
    · rw [Outbox.append, countP_isAt_advance found]
      exact once key counted
    · rw [Outbox.append, countP_owesAt_advance found waiting]
      exact paid
  | delivered index call setting answer found stage =>
    have waiting : call.stage.owes = false := by rw [stage, Stage.owes]
    rw [Outbox.deliver]
    split_ifs
    · refine ⟨fun key counted => ?_, ?_⟩
      · rw [countP_isAt_advance found]
        exact once key counted
      · have paying : Attempt.isAt home p ⟨call.occasion, answer.map deliverNotification⟩ = call.isAt home p := rfl
        rw [countP_owesAt_advance found waiting, List.countP_cons, paying]
        simp only [Stage.owes, Bool.true_and]
        omega
    · refine ⟨fun key counted => ?_, ?_⟩
      · rw [countP_isAt_advance found]
        exact once key counted
      · rw [countP_owesAt_advance found waiting]
        exact paid
  | recorded index call result written found stage =>
    obtain ⟨here, owing⟩ := erased index call found
    have kept : (receiptOf call.occasion call.summary result).dedupeKey = call.occasion.dedupeKey := receiptOf_dedupeKey _ _ _
    by_cases same : call.occasion.home = home
    · subst same
      refine ⟨fun key counted => ?_, ?_⟩
      · have read := TornLog.countP_committed_cons_le (Receipt.of (only key))
          ⟨receiptOf call.occasion call.summary result, written⟩ (o.receipts call.occasion.home)
        have was := once key counted
        have its : Receipt.of (only key) (receiptOf call.occasion call.summary result) =
            Call.isAt call.occasion.home (only key) call := by simp [Receipt.of, Call.isAt, kept]
        rw [here key, ← its] at was
        dsimp only at read
        simp only [Outbox.record, Function.update_self]
        omega
      · simp only [Outbox.record, Function.update_self, TornLog.records, List.map_cons, List.countP_cons, Receipt.of, kept]
        have owed : call.owesAt call.occasion.home p = true → p call.occasion.dedupeKey = true := by
          intro owed
          simp only [Call.owesAt, Call.isAt, Bool.and_eq_true] at owed
          exact owed.2.2
        simp only [TornLog.records] at paid
        split_ifs at owing ⊢ with counted <;> first | omega | exact absurd (owed ‹_›) counted
    · have apart : Call.isAt home p call = false := by simp [Call.isAt, same]
      have owed : Call.owesAt home p call = false := by simp [Call.owesAt, apart]
      rw [owed] at owing
      refine ⟨fun key counted => ?_, ?_⟩
      · have was := once key counted
        rw [here key] at was
        simp only [Outbox.record, Function.update_of_ne (Ne.symm same)]
        omega
      · simp only [Outbox.record, Function.update_of_ne (Ne.symm same)]
        rw [owing] at paid
        exact paid
  | died index call found =>
    obtain ⟨here, owing⟩ := erased index call found
    have fewer (key : String) (counted : p key = true) : (o.receipts home).committed.countP (Receipt.of (only key)) +
        (o.calls.eraseIdx index).countP (Call.isAt home (only key)) ≤ 1 := by
      have was := once key counted
      rw [here key] at was
      omega
    rw [Outbox.die]
    split
    · rename_i result stage
      refine ⟨fewer, ?_⟩
      have lost : Attempt.isAt home p ⟨call.occasion, result⟩ = call.owesAt home p := by
        rw [Call.owesAt, stage]
        rfl
      rw [List.countP_cons, lost]
      dsimp only
      omega
    all_goals
      rename_i stage
      have settled : call.owesAt home p = false := by
        rw [Call.owesAt, stage]
        rfl
      rw [settled] at owing
      rw [owing] at paid
      exact ⟨fewer, paid⟩

theorem Recorded.initial (initial : Initial o) : Recorded home p o := by
  rw [initial]
  exact ⟨fun key _ => by simp [TornLog.committed], by simp⟩

theorem owesAt_le (home : Home) (p : String → Bool) (o : Outbox) :
    o.calls.countP (Call.owesAt home p) ≤ o.calls.countP (Call.isAt home p) :=
  List.countP_mono_left fun call _ owes => by
    rw [Call.owesAt, Bool.and_eq_true] at owes
    exact owes.2

/-- Over every run in which a sender that claims nothing has its key to itself, with calls that die anywhere and writes
that stop short: the transports are tried once for its key, once more for each attempt whose call died before its
receipt, and at most twice more for each short write to the receipts. -/
theorem recorded_attempts_le (reach : machine.Reach KeyAlone Initial o) (recorded : occasion.claims = false) :
    o.attempts.countP (Attempt.isAt occasion.home (only occasion.dedupeKey)) ≤
      1 + o.unrecorded.countP (Attempt.isAt occasion.home (only occasion.dedupeKey)) + 2 * (o.receipts occasion.home).short := by
  have always (other : Occasion) (same : only occasion.dedupeKey other.dedupeKey = true) : other.claims = false :=
    (claims_of_dedupeKey (of_decide_eq_true same)).trans recorded
  obtain ⟨once, paid⟩ : Recorded occasion.home (only occasion.dedupeKey) o := by
    refine reach.invariant (Recorded occasion.home (only occasion.dedupeKey)) (fun _ => Recorded.initial) ?_
    exact fun _ _ _ recorded alone taken => recorded.moved always alone (moved_of_step taken)
  have kept := TornLog.countP_records_le (Receipt.of (only occasion.dedupeKey)) (o.receipts occasion.home)
  have owing := owesAt_le occasion.home (only occasion.dedupeKey) o
  have one := once occasion.dedupeKey (decide_eq_true rfl)
  omega

/-- A controller dies while its notification is on the way, and the one after it sends it again and writes the receipt. -/
def resentTerminal : List Label :=
  let settled : Occasion := .nodeTerminal "run-1" "build" "done" 1 0
  [.look settled "done", .deliver 0 (some "node.terminal") accepted, .die 0, .look settled "done",
    .deliver 0 (some "node.terminal") accepted, .record 0 .whole, .look settled "done"]

theorem recorded_attempts_le_resent :
    let settled : Occasion := .nodeTerminal "run-1" "build" "done" 1 0
    ∃ o, machine.replay? KeyAlone quietOutbox resentTerminal = some o ∧ (o.attempts.length = 2 ∧ o.calls.length = 0) ∧
      o.attempts.countP (Attempt.isAt settled.home (only settled.dedupeKey)) ≤
        1 + o.unrecorded.countP (Attempt.isAt settled.home (only settled.dedupeKey)) + 2 * (o.receipts settled.home).short :=
  Machine.exists_replay (fun o => o.attempts.length = 2 ∧ o.calls.length = 0)
    (fun _ ran sent => ⟨sent, recorded_attempts_le (.of_replay rfl _ ran) rfl⟩) (by decide)

/-! ## The schedule -/

/-- When a slot of the schedule begins. -/
def slotStart : Nat → Int
  | 0 => 10 * 60000
  | 1 => 60 * 60000
  | later + 2 => (later + 1) * (4 * 60 * 60000)

/-- A slot is reached when it begins. -/
theorem le_attentionScheduleSlot {slot : Nat} {elapsedMs : Int} :
    slot ≤ attentionScheduleSlot (some elapsedMs) ↔ slotStart slot ≤ elapsedMs := by
  simp only [attentionScheduleSlot, attentionScheduleMs, attentionRepeatMs]
  match slot with
  | 0 =>
    simp only [slotStart]
    split_ifs <;> omega
  | 1 =>
    simp only [slotStart]
    split_ifs <;> omega
  | later + 2 =>
    simp only [slotStart]
    split_ifs <;> omega

def slotKeys (runId anchor : String) (slots : Nat) : List String :=
  (List.range slots).map fun (slot : Nat) => (Occasion.schedule runId anchor slot).dedupeKey

/-- The key is one of the first slots of a schedule. -/
def inSlots (runId anchor : String) (slots : Nat) (key : String) : Bool := decide (key ∈ slotKeys runId anchor slots)

def Attempt.ofSchedule (runId anchor : String) (attempt : Attempt) : Bool :=
  match attempt.occasion with
  | .schedule run since _ => decide (run = runId ∧ since = anchor)
  | _ => false

/-- The supervisors of a run look at its parked interval before some time has elapsed. -/
def Before (runId anchor : String) (limit : Int) : Label → Prop
  | .attend run since elapsedMs _ => run = runId → since = anchor → ∀ elapsed ∈ elapsedMs, elapsed < limit
  | _ => True

instance {runId anchor : String} {limit : Int} : DecidablePred (Before runId anchor limit) := fun label =>
  match label with
  | .attend run since elapsedMs _ =>
    inferInstanceAs (Decidable (run = runId → since = anchor → ∀ elapsed ∈ elapsedMs, elapsed < limit))
  | .look _ _ | .search _ | .append _ _ | .deliver _ _ _ | .record _ _ | .die _ => instDecidableTrue

/-- The occasion is of an earlier slot, if it is of this schedule. -/
def Early (runId anchor : String) (slots : Nat) (occasion : Occasion) : Prop :=
  ∀ slot, occasion = .schedule runId anchor slot → 0 ≤ slot ∧ slot < slots

/-- The label starts a call for the occasion. -/
def Label.Starts (occasion : Occasion) : Label → Prop
  | .look other _ => other = occasion ∧ ∀ runId anchor slot, occasion ≠ .schedule runId anchor slot
  | .attend runId anchor elapsedMs _ =>
    occasion = .schedule runId anchor (attentionScheduleSlot elapsedMs) ∧ 0 ≤ attentionScheduleSlot elapsedMs
  | _ => False

theorem occasion_of_advance {stage : Stage} {moved : Call} (found : o.calls[index]? = some call)
    (member : moved ∈ o.advance index call stage) : ∃ old ∈ o.calls, old.occasion = moved.occasion := by
  obtain rfl | member := List.mem_cons.mp member
  · exact ⟨call, List.mem_of_getElem? found, rfl⟩
  · exact ⟨moved, List.mem_of_mem_eraseIdx member, rfl⟩

theorem occasion_of_look {summary : String} (member : call ∈ (o.look occasion summary).calls) :
    call ∈ o.calls ∨ call.occasion = occasion := by
  rw [Outbox.look] at member
  split at member
  · exact .inl member
  · obtain rfl | member := List.mem_cons.mp member
    · exact .inr rfl
    · exact .inl member

theorem attempts_of_look (o : Outbox) (occasion : Occasion) (summary : String) :
    (o.look occasion summary).attempts = o.attempts := by
  rw [Outbox.look]
  split <;> rfl

/-- A step moves calls that were there, but for those its label starts, and tries the transports for a call. -/
theorem occasions_of_step (taken : step o label = some o') :
    (∀ call ∈ o'.calls, (∃ old ∈ o.calls, old.occasion = call.occasion) ∨ label.Starts call.occasion) ∧
      ∀ attempt ∈ o'.attempts, attempt ∈ o.attempts ∨ ∃ old ∈ o.calls, old.occasion = attempt.occasion := by
  have erased (index : Nat) : ∀ call ∈ o.calls.eraseIdx index, ∃ old ∈ o.calls, old.occasion = call.occasion :=
    fun call member => ⟨call, List.mem_of_mem_eraseIdx member, rfl⟩
  cases label with
  | look occasion summary =>
    have looked : o.look occasion summary = o' ∧ ∀ runId anchor slot, occasion ≠ .schedule runId anchor slot := by
      cases occasion <;> first | exact ⟨Option.some.inj taken, by simp⟩ | cases taken
    obtain ⟨rfl, other⟩ := looked
    refine ⟨fun call member => ?_, fun attempt member => .inl (attempts_of_look o occasion summary ▸ member)⟩
    obtain old | same := occasion_of_look member
    · exact .inl ⟨call, old, rfl⟩
    · exact .inr ⟨same.symm, same ▸ other⟩
  | attend runId anchor elapsedMs summary =>
    simp only [step] at taken
    split_ifs at taken with early
    · obtain rfl := Option.some.inj taken
      exact ⟨fun call member => .inl ⟨call, member, rfl⟩, fun attempt member => .inl member⟩
    · obtain rfl := Option.some.inj taken
      refine ⟨fun call member => ?_, fun attempt member => .inl (attempts_of_look o _ summary ▸ member)⟩
      obtain old | same := occasion_of_look member
      · exact .inl ⟨call, old, rfl⟩
      · exact .inr ⟨same, Int.not_lt.mp early⟩
  | search index =>
    obtain ⟨call, found, taken⟩ := Option.bind_eq_some_iff.mp taken
    cases stage : call.stage <;> simp only [stage, reduceCtorEq, Option.some.injEq, Outbox.search] at taken
    subst taken
    split_ifs
    · exact ⟨fun call member => .inl (erased index call member), fun attempt member => .inl member⟩
    all_goals exact ⟨fun moved member => .inl (occasion_of_advance found member), fun attempt member => .inl member⟩
  | append index written =>
    obtain ⟨call, found, taken⟩ := Option.bind_eq_some_iff.mp taken
    cases stage : call.stage <;> simp only [stage, reduceCtorEq, Option.some.injEq] at taken
    subst taken
    exact ⟨fun moved member => .inl (occasion_of_advance found member), fun attempt member => .inl member⟩
  | deliver index setting answer =>
    obtain ⟨call, found, taken⟩ := Option.bind_eq_some_iff.mp taken
    cases stage : call.stage <;> simp only [stage, reduceCtorEq, Option.some.injEq, Outbox.deliver] at taken
    subst taken
    split_ifs
    · refine ⟨fun moved member => .inl (occasion_of_advance found member), fun attempt member => ?_⟩
      obtain rfl | member := List.mem_cons.mp member
      · exact .inr ⟨call, List.mem_of_getElem? found, rfl⟩
      · exact .inl member
    · exact ⟨fun moved member => .inl (occasion_of_advance found member), fun attempt member => .inl member⟩
  | record index written =>
    obtain ⟨call, found, taken⟩ := Option.bind_eq_some_iff.mp taken
    cases stage : call.stage <;> simp only [stage, reduceCtorEq, Option.some.injEq] at taken
    subst taken
    exact ⟨fun call member => .inl (erased index call member), fun attempt member => .inl member⟩
  | die index =>
    obtain ⟨call, found, rfl⟩ := Option.map_eq_some_iff.mp taken
    rw [Outbox.die]
    split <;> exact ⟨fun call member => .inl (erased index call member), fun attempt member => .inl member⟩

/-- The calls and attempts of a schedule are of earlier slots. -/
structure AllEarly (runId anchor : String) (slots : Nat) (o : Outbox) : Prop where
  calls : ∀ call ∈ o.calls, Early runId anchor slots call.occasion
  attempts : ∀ attempt ∈ o.attempts, Early runId anchor slots attempt.occasion

theorem early_of_starts {runId anchor : String} {slots : Nat} (before : Before runId anchor (slotStart slots) label)
    (starts : label.Starts occasion) : Early runId anchor slots occasion := by
  intro slot same
  cases label with
  | look other summary => exact absurd same (starts.2 runId anchor slot)
  | attend run since elapsedMs summary =>
    obtain ⟨rfl, reached⟩ := starts
    obtain ⟨rfl, rfl, rfl⟩ := Occasion.schedule.inj same
    refine ⟨reached, ?_⟩
    cases elapsedMs with
    | none => exact absurd reached (by decide)
    | some elapsed =>
      have limit := before rfl rfl elapsed rfl
      exact Int.not_le.mp fun late => Int.not_le.mpr limit (le_attentionScheduleSlot.mp late)
  | search _ | append _ _ | deliver _ _ _ | record _ _ | die _ => exact absurd starts id

theorem AllEarly.step {runId anchor : String} {slots : Nat} (early : AllEarly runId anchor slots o)
    (before : Before runId anchor (slotStart slots) label) (taken : step o label = some o') : AllEarly runId anchor slots o' := by
  obtain ⟨calls, attempts⟩ := occasions_of_step taken
  refine ⟨fun call member => ?_, fun attempt member => ?_⟩
  · obtain ⟨old, there, same⟩ | starts := calls call member
    · rw [← same]
      exact early.calls old there
    · exact early_of_starts before starts
  · obtain old | ⟨call, there, same⟩ := attempts attempt member
    · exact early.attempts attempt old
    · rw [← same]
      exact early.calls call there

/-- The keys under a predicate that have a receipt, or a call on its way to one. -/
def busyKeys (home : Home) (p : String → Bool) (o : Outbox) : List String :=
  ((o.receipts home).committed.filter (Receipt.of p)).map Receipt.dedupeKey ++
    (o.calls.filter (Call.isAt home p)).map fun call => call.occasion.dedupeKey

theorem length_busyKeys (home : Home) (p : String → Bool) (o : Outbox) : (busyKeys home p o).length =
    (o.receipts home).committed.countP (Receipt.of p) + o.calls.countP (Call.isAt home p) := by
  simp [busyKeys, List.countP_eq_length_filter]

theorem mem_busyKeys (member : key ∈ busyKeys home p o) : p key = true := by
  simp only [busyKeys, List.mem_append, List.mem_map, List.mem_filter, Receipt.of, Call.isAt, Bool.and_eq_true] at member
  obtain ⟨receipt, ⟨-, counted⟩, rfl⟩ | ⟨call, ⟨-, -, counted⟩, rfl⟩ := member <;> exact counted

theorem Recorded.nodup (recorded : Recorded home p o) : (busyKeys home p o).Nodup := by
  refine List.nodup_iff_count_le_one.mpr fun key => ?_
  by_cases counted : p key = true
  · refine le_trans ?_ (recorded.once key counted)
    rw [busyKeys, List.count_append, List.count_eq_countP, List.count_eq_countP, List.countP_map, List.countP_map,
      List.countP_filter, List.countP_filter]
    refine Nat.add_le_add (List.countP_mono_left fun receipt _ same => ?_) (List.countP_mono_left fun call _ same => ?_)
    · simp only [Function.comp_apply, Bool.and_eq_true, beq_iff_eq] at same
      exact decide_eq_true same.1
    · simp only [Function.comp_apply, Bool.and_eq_true, beq_iff_eq, Call.isAt] at same ⊢
      exact ⟨same.2.1, decide_eq_true same.1⟩
  · rw [List.count_eq_zero_of_not_mem fun member => counted (mem_busyKeys member)]
    exact Nat.zero_le 1

/-- Over every run in which a sender that claims nothing has its key to itself, and the supervisors look at a parked
interval only before a slot begins: they try the transports at most once for each slot before it, once more for each
attempt whose call died before its receipt, and at most twice more for each short write to the receipts. -/
theorem scheduled_attempts_le {runId anchor : String} {slots : Nat}
    (reach : machine.Reach (fun o label => KeyAlone o label ∧ Before runId anchor (slotStart slots) label) Initial o) :
    o.attempts.countP (Attempt.ofSchedule runId anchor) ≤
      slots + o.unrecorded.countP (Attempt.isAt (.run runId) (inSlots runId anchor slots)) +
        2 * (o.receipts (.run runId)).short := by
  have early : AllEarly runId anchor slots o :=
    reach.invariant _ (fun _ initial => by rw [initial]; exact ⟨by simp, by simp⟩)
      fun _ _ _ early guard taken => early.step guard.2 taken
  have always (occasion : Occasion) (counted : inSlots runId anchor slots occasion.dedupeKey = true) :
      occasion.claims = false := by
    obtain ⟨slot, -, same⟩ := List.mem_map.mp (of_decide_eq_true counted)
    exact (claims_of_dedupeKey same).symm
  have recorded : Recorded (.run runId) (inSlots runId anchor slots) o :=
    reach.invariant _ (fun _ => Recorded.initial) fun _ _ _ recorded guard taken =>
      recorded.moved always guard.1 (moved_of_step taken)
  have counted : o.attempts.countP (Attempt.ofSchedule runId anchor) ≤
      o.attempts.countP (Attempt.isAt (.run runId) (inSlots runId anchor slots)) := by
    refine List.countP_mono_left fun attempt member scheduled => ?_
    have early := early.attempts attempt member
    obtain ⟨occasion, result⟩ := attempt
    cases occasion <;> simp only [Attempt.ofSchedule, Bool.false_eq_true, decide_eq_true_eq] at scheduled
    rename_i run since slot
    obtain ⟨rfl, rfl⟩ := scheduled
    obtain ⟨reached, below⟩ := early slot rfl
    obtain ⟨number, rfl⟩ := Int.eq_ofNat_of_zero_le reached
    simp only [Attempt.isAt, Occasion.home, decide_true, Bool.true_and, inSlots, decide_eq_true_eq]
    exact List.mem_map.mpr ⟨number, List.mem_range.mpr (Int.ofNat_lt.mp below), rfl⟩
  have few : (busyKeys (.run runId) (inSlots runId anchor slots) o).length ≤ slots := by
    have inside := recorded.nodup.subperm fun key member => of_decide_eq_true (mem_busyKeys member)
    refine inside.length_le.trans ?_
    rw [slotKeys, List.length_map, List.length_range]
  rw [length_busyKeys] at few
  have kept := TornLog.countP_records_le (Receipt.of (inSlots runId anchor slots)) (o.receipts (.run runId))
  have owing := owesAt_le (.run runId) (inSlots runId anchor slots) o
  have paid := recorded.paid
  omega

/-- A supervisor looks after ten minutes, twenty minutes and two hours. -/
def parkedRun : List Label :=
  let sends : List Label := [.search 0, .append 0 .whole, .deliver 0 none accepted, .record 0 .whole]
  [.attend "run-1" "2026-09-21T00:00:00.000Z" (some 600000) "needs you"] ++ sends ++
    [.attend "run-1" "2026-09-21T00:00:00.000Z" (some 1200000) "needs you",
      .attend "run-1" "2026-09-21T00:00:00.000Z" (some 7200000) "needs you"] ++ sends

theorem scheduled_attempts_le_parked :
    ∃ o, machine.replay? (fun o label => KeyAlone o label ∧ Before "run-1" "2026-09-21T00:00:00.000Z" (slotStart 2) label)
      quietOutbox parkedRun = some o ∧ o.attempts.length = 2 ∧
      o.attempts.countP (Attempt.ofSchedule "run-1" "2026-09-21T00:00:00.000Z") ≤
        2 + o.unrecorded.countP (Attempt.isAt (.run "run-1") (inSlots "run-1" "2026-09-21T00:00:00.000Z" 2)) +
          2 * (o.receipts (.run "run-1")).short :=
  Machine.exists_replay (fun o => o.attempts.length = 2)
    (fun _ ran sent => ⟨sent, scheduled_attempts_le (.of_replay rfl _ ran)⟩) (by decide)

end Faberun.Notify
