import Mathlib.Data.List.Induction
import Faberun.Model.Run.Operations

/-! # The ledger of an operation is monotone

What a call leaves is what the same call would leave again, receipts are only added, and the first settlement dates the
record. A status is protected against three requested ones alone, so a settled operation needs recovery again exactly
when a later call asks for an unresolved status.
-/

namespace Faberun.Operations

open FirstByKey JsonText

variable {ν : Type} [Numerals ν] {runName : String} {calls : List (SettleCall ν)}

/-- What holds of a ledger through all calls of one operation. -/
structure Monotone (runName : String) (calls : List (SettleCall ν)) : Prop where
  /-- A resolved status is never replaced by an unresolved one. -/
  resolved : ∀ earlier later before after, earlier ++ later <+: calls → ledger runName earlier = some before →
    ledger runName (earlier ++ later) = some after → before.status ∈ resolvedOperationStatuses →
    after.status ∉ unresolvedOperationStatuses
  /-- An operation that needs no recovery never needs it again. -/
  recovered : ∀ earlier later, earlier ++ later <+: calls → operationNeedsRecovery (ledger runName earlier) = false →
    operationNeedsRecovery (ledger runName (earlier ++ later)) = false
  /-- The first date stays. -/
  dated : ∀ earlier later before after, earlier ++ later <+: calls → ledger runName earlier = some before →
    ledger runName (earlier ++ later) = some after → after.settledAt = before.settledAt
  /-- Every receipt stays, in its place. -/
  kept : ∀ earlier later before after, earlier ++ later <+: calls → ledger runName earlier = some before →
    ledger runName (earlier ++ later) = some after → before.receipts <+: after.receipts
  /-- No receipt stands twice. -/
  distinct : ∀ earlier record, earlier <+: calls → ledger runName earlier = some record → record.receipts.Nodup
  /-- The same call once more, whenever it is made, leaves the record as it is. -/
  repeated : ∀ earlier call record, earlier ++ [call] <+: calls → ledger runName (earlier ++ [call]) = some record →
    ∀ now, settleInvocation runName (some record) { call with now := now } = record

/-- No call asks for an unresolved status once the operation needs no recovery. -/
def NeverReopens (runName : String) (calls : List (SettleCall ν)) : Prop :=
  ∀ earlier call, earlier ++ [call] <+: calls → operationNeedsRecovery (ledger runName earlier) = false →
    ∀ status, call.settlement.status = some status → status ∉ unresolvedOperationStatuses

/-! ## One call -/

omit [Numerals ν] in
theorem operationNeedsRecovery_some (record : OperationRecord ν) :
    operationNeedsRecovery (some record) = unresolvedOperationStatuses.contains record.status := rfl

omit [Numerals ν] in
theorem operationNeedsRecovery_false_iff {record : OperationRecord ν} :
    operationNeedsRecovery (some record) = false ↔ record.status ∉ unresolvedOperationStatuses := by
  rw [operationNeedsRecovery_some, List.contains_eq_mem, decide_eq_false_iff_not]

theorem not_unresolved_of_resolved {status : String} (resolved : status ∈ resolvedOperationStatuses) :
    status ∉ unresolvedOperationStatuses := by
  revert status
  decide

theorem settledStatus_none (status : String) : settledStatus none (some status) = status := by
  simp only [settledStatus, Option.getD_none, Option.getD_some, ite_self]

/-- A call leaves the status it asks for, or the one it finds. -/
theorem settledStatus_some (requested previous : String) :
    settledStatus (some requested) (some previous) = requested ∨ settledStatus (some requested) (some previous) = previous := by
  simp only [settledStatus, Option.getD_some]
  split
  · exact .inr rfl
  · exact .inl rfl

/-- An unresolved status is never held back. -/
theorem settledStatus_unresolved {requested : String} (unresolved : requested ∈ unresolvedOperationStatuses)
    (previous : Option String) : settledStatus (some requested) previous = requested := by
  have free : recoveryStatuses.contains requested = false := by
    revert requested
    decide
  rw [settledStatus, Option.getD_some, free, Bool.and_false, if_neg Bool.false_ne_true]

theorem settledStatus_idem (requested previous : Option String) :
    settledStatus requested (some (settledStatus requested previous)) = settledStatus requested previous := by
  cases requested with
  | none => exact settledStatus_none _
  | some status =>
    simp only [settledStatus, Option.getD_some]
    split
    · simp_all only
    · exact ite_self _

omit [Numerals ν] in
theorem nonNull_eq_some {value found : JsValue ν} (here : nonNull value = some found) : found = value := by
  cases value <;> cases here <;> rfl

omit [Numerals ν] in
theorem merged_idem (given previous : Option (JsValue ν)) :
    merged given (some (merged given previous)) = merged given previous := by
  cases given with
  | some value => rfl
  | none =>
    cases previous with
    | none => rfl
    | some value => cases value <;> rfl

omit [Numerals ν] in
/-- The first of two values that is not null, or a last one, is found again after it was stored. -/
theorem coalesced_idem (given previous : Option (JsValue ν)) (value : JsValue ν) :
    ((given.bind nonNull).or (nonNull (((given.bind nonNull).or (previous.bind nonNull)).getD value))).getD value =
      ((given.bind nonNull).or (previous.bind nonNull)).getD value := by
  cases given.bind nonNull with
  | some outcome => rfl
  | none =>
    rw [Option.none_or, Option.none_or]
    cases second : previous.bind nonNull with
    | none =>
      rw [Option.getD_none]
      cases again : nonNull value with
      | none => rfl
      | some found => exact nonNull_eq_some again
    | some found =>
      obtain ⟨stored, -, here⟩ := Option.bind_eq_some_iff.mp second
      obtain rfl := nonNull_eq_some here
      rw [Option.getD_some, here, Option.getD_some]

/-- A flag that is set first, or found, or given, is found again. -/
private theorem flag_idem (given previous : Option Bool) (value : Bool) :
    (given.or (some ((given.or previous).getD value))).getD value = (given.or previous).getD value := by
  cases given <;> rfl

private theorem or_idem (given previous : Option String) : given.or (given.or previous) = given.or previous := by
  cases given <;> rfl

/-! ## Receipts -/

private theorem operationReceipts_eq (invocation : Option Invocation) (supplied : Option (List SuppliedReceipt)) (existing : List Receipt) :
    operationReceipts invocation supplied existing = firsts receiptKey (existing.filter (fun receipt => receipt.ref ≠ "") ++
      (offeredReceipts invocation supplied).filter fun receipt => receipt.ref ≠ "") := by
  rw [operationReceipts, List.filter_append]

/-- What is stored has references, and no key twice. -/
structure Stored (receipts : List Receipt) : Prop where
  named : ∀ receipt ∈ receipts, receipt.ref ≠ ""
  distinct : (receipts.map receiptKey).Nodup

theorem stored_operationReceipts (invocation : Option Invocation) (supplied : Option (List SuppliedReceipt)) (existing : List Receipt) :
    Stored (operationReceipts invocation supplied existing) where
  named := by
    intro receipt member
    have kept := (List.mem_filter.mp (mem_of_mem_firsts member)).2
    simpa using kept
  distinct := nodup_firsts

theorem Stored.filter_eq {receipts : List Receipt} (stored : Stored receipts) :
    receipts.filter (fun receipt => receipt.ref ≠ "") = receipts := by
  refine List.filter_eq_self.mpr fun receipt member => ?_
  simpa using stored.named receipt member

/-- Stored receipts come first in what a call leaves. -/
theorem Stored.isPrefix {receipts : List Receipt} (stored : Stored receipts) (invocation : Option Invocation)
    (supplied : Option (List SuppliedReceipt)) : receipts <+: operationReceipts invocation supplied receipts := by
  rw [operationReceipts_eq, stored.filter_eq, firsts_append, firsts_of_nodup stored.distinct]
  exact List.prefix_append _ _

/-- Offering the same receipts again adds none. -/
theorem operationReceipts_idem (invocation : Option Invocation) (supplied : Option (List SuppliedReceipt)) (existing : List Receipt) :
    operationReceipts invocation supplied (operationReceipts invocation supplied existing) =
      operationReceipts invocation supplied existing := by
  have stored := stored_operationReceipts invocation supplied existing
  rw [operationReceipts_eq invocation supplied (operationReceipts invocation supplied existing), stored.filter_eq,
    operationReceipts_eq, firsts_append_left, firsts_append]
  generalize existing.filter (fun receipt => receipt.ref ≠ "") = before
  generalize (offeredReceipts invocation supplied).filter (fun receipt => receipt.ref ≠ "") = offered
  have none : (firsts receiptKey offered).filter (fun other => receiptKey other ∉ (before ++ offered).map receiptKey) = [] := by
    refine List.filter_eq_nil_iff.mpr fun receipt member fresh => ?_
    have absent : receiptKey receipt ∉ (before ++ offered).map receiptKey := of_decide_eq_true fresh
    exact absent (List.mem_map_of_mem (List.mem_append_right _ (mem_of_mem_firsts member)))
  rw [none, List.append_nil]

/-! ## Calls in a row -/

/-- The same call once more writes the same record. -/
theorem settleInvocation_idem (runName : String) (previous : Option (OperationRecord ν)) (call : SettleCall ν) (now : String) :
    settleInvocation runName (some (settleInvocation runName previous call)) { call with now := now } =
      settleInvocation runName previous call := by
  have status := settledStatus_idem call.settlement.status (previous.map (·.status))
  simp only [settleInvocation, Option.map_some, status, merged_idem, operationReceipts_idem, Option.getD_some, Option.bind_some,
    coalesced_idem, flag_idem, or_idem]

theorem ledger_append (runName : String) (earlier : List (SettleCall ν)) (call : SettleCall ν) :
    ledger runName (earlier ++ [call]) = some (settleInvocation runName (ledger runName earlier) call) := by
  rw [ledger, List.foldl_append, List.foldl_cons, List.foldl_nil, ← ledger]

theorem stored_ledger {earlier : List (SettleCall ν)} {record : OperationRecord ν} (here : ledger runName earlier = some record) :
    Stored record.receipts := by
  cases earlier using List.reverseRecOn with
  | nil => cases here
  | append_singleton earlier call =>
    rw [ledger_append] at here
    cases here
    exact stored_operationReceipts _ _ _

/-- What later calls keep of a record. -/
theorem ledger_kept (earlier later : List (SettleCall ν)) {before : OperationRecord ν} (here : ledger runName earlier = some before) :
    ∃ after, ledger runName (earlier ++ later) = some after ∧ after.settledAt = before.settledAt ∧
      before.receipts <+: after.receipts := by
  induction later using List.reverseRecOn with
  | nil => exact ⟨before, by rw [List.append_nil, here], rfl, List.prefix_rfl⟩
  | append_singleton later call ih =>
    obtain ⟨middle, found, dated, kept⟩ := ih
    refine ⟨settleInvocation runName (some middle) call, by rw [← List.append_assoc, ledger_append, found], dated, ?_⟩
    exact kept.trans ((stored_ledger found).isPrefix _ _)

/-- A call that asks for no unresolved status leaves an operation that needed no recovery so. -/
theorem settleInvocation_recovered {before : OperationRecord ν} {call : SettleCall ν}
    (recovered : operationNeedsRecovery (some before) = false)
    (asked : ∀ status, call.settlement.status = some status → status ∉ unresolvedOperationStatuses) :
    operationNeedsRecovery (some (settleInvocation runName (some before) call)) = false := by
  rw [operationNeedsRecovery_false_iff] at recovered ⊢
  change settledStatus call.settlement.status (some before.status) ∉ unresolvedOperationStatuses
  cases requested : call.settlement.status with
  | none => rwa [settledStatus_none]
  | some status =>
    rcases settledStatus_some status before.status with same | same <;> rw [same]
    · exact asked status requested
    · exact recovered

theorem NeverReopens.recovered {earlier later : List (SettleCall ν)} (guarded : NeverReopens runName calls)
    (within : earlier ++ later <+: calls) (settled : operationNeedsRecovery (ledger runName earlier) = false) :
    operationNeedsRecovery (ledger runName (earlier ++ later)) = false := by
  induction later using List.reverseRecOn with
  | nil => rwa [List.append_nil]
  | append_singleton later call ih =>
    rw [← List.append_assoc] at within ⊢
    have sofar := ih ((List.prefix_append _ _).trans within)
    have asked := guarded (earlier ++ later) call within sofar
    rw [ledger_append]
    cases found : ledger runName (earlier ++ later) with
    | none => rw [found] at sofar; cases sofar
    | some before => exact settleInvocation_recovered (found ▸ sofar) asked

/-- A call that settles nothing but a status. -/
private def statusCall (status : String) : SettleCall Nat where
  invocation := none
  settlement :=
    { status := some status, usage := none, costUsd := none, structuredResult := none, result := none, receipts := none,
      nextState := none, terminalOutcome := none, unknownEffect := none, classification := none, reason := none,
      error := none }
  intent := none
  now := "2026-01-01T00:00:00.000Z"

/-- The close callback of a canceled invocation whose output does not parse reopens it. -/
theorem closed_after_canceled : ¬ Monotone "run" [statusCall "canceled", statusCall "closed"] := by
  intro monotone
  have settled : operationNeedsRecovery (ledger "run" [statusCall "canceled"]) = false := by decide
  have reopened : operationNeedsRecovery (ledger "run" [statusCall "canceled", statusCall "closed"]) = true := by decide
  have still := monotone.recovered [statusCall "canceled"] [statusCall "closed"] List.prefix_rfl settled
  exact Bool.false_ne_true (still.symm.trans reopened)

/-- The ledger of an operation is monotone exactly when no call asks for an unresolved status after the operation needed no
recovery. -/
theorem settleInvocation_monotone (runName : String) (calls : List (SettleCall ν)) :
    Monotone runName calls ↔ NeverReopens runName calls := by
  constructor
  · intro monotone earlier call within settled status requested unresolved
    have still := monotone.recovered earlier [call] within settled
    rw [ledger_append, operationNeedsRecovery_false_iff] at still
    refine still ?_
    change settledStatus call.settlement.status _ ∈ unresolvedOperationStatuses
    rwa [requested, settledStatus_unresolved unresolved]
  · intro guarded
    refine ⟨?_, fun earlier later within settled => guarded.recovered within settled, ?_, ?_, ?_, ?_⟩
    · intro earlier later before after within first last resolved
      have settled : operationNeedsRecovery (ledger runName earlier) = false := by
        rw [first, operationNeedsRecovery_false_iff]
        exact not_unresolved_of_resolved resolved
      have still := guarded.recovered within settled
      rwa [last, operationNeedsRecovery_false_iff] at still
    · intro earlier later before after _ first last
      obtain ⟨found, here, dated, -⟩ := ledger_kept earlier later first
      obtain rfl : found = after := Option.some.inj (here.symm.trans last)
      exact dated
    · intro earlier later before after _ first last
      obtain ⟨found, here, -, kept⟩ := ledger_kept earlier later first
      obtain rfl : found = after := Option.some.inj (here.symm.trans last)
      exact kept
    · intro earlier record _ here
      exact (stored_ledger here).distinct.of_map _
    · intro earlier call record _ here now
      rw [ledger_append] at here
      cases here
      exact settleInvocation_idem runName _ call now

end Faberun.Operations
