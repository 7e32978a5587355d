import Mathlib.Algebra.Order.Floor.Ring
import Mathlib.Tactic.Linarith
import Faberun.Model.Campaign.Reserve

/-! # The reserve never admits too much

The available balance is computed anew from the list at every call, so each admission is checked against what is held and
charged then, and rounding costs at most one unit whatever happened before. A settlement replaces the first entry of its
id, and only while that entry is held.
-/

namespace Faberun.Reserve

/-- One unit of the fourth decimal. -/
def unit : Rat := 1 / 10000

/-- A charge is against a known cost and within it. -/
def Covered (state : ReserveState) : ReserveCall → Prop
  | .reconcile id (some charge) _ => ∀ found, findReservation state id = some found → found.status = .held →
      ∃ costUsd, found.costUsd = some costUsd ∧ charge ≤ costUsd
  | _ => True

instance : DecidableRel Covered := fun state call =>
  match call with
  | .reconcile id (some charge) _ => inferInstanceAs (Decidable (∀ found ∈ findReservation state id, found.status = .held →
      ∃ costUsd ∈ found.costUsd, charge ≤ costUsd))
  | .reconcile _ none _ => instDecidableTrue
  | .reserve _ => instDecidableTrue
  | .release _ _ => instDecidableTrue

/-- What holds of the reserve of a balance between two calls. -/
structure NeverOverAdmits (configured : Rat) (state : ReserveState) : Prop where
  /-- What is held and charged fits the balance up to a unit. -/
  bounded : heldUsd state + chargedUsd state ≤ max 0 configured + unit
  /-- An admission of a known cost leaves it so. -/
  admitted : ∀ request decision after costUsd, reserveCampaignCost (some configured) state request = .ok (after, decision) →
    decision.admitted = true → request.costUsd = some costUsd → heldUsd after + chargedUsd after ≤ configured + unit
  /-- A refused request changes nothing. -/
  refused : ∀ request, (∀ after decision, reserveCampaignCost (some configured) state request = .ok (after, decision) →
    decision.admitted = false) → apply configured state (.reserve request) = state
  /-- Releasing once more returns the same reservation and changes nothing. -/
  released : ∀ id stamp later after settled, releaseCampaignReservation state id stamp = .ok (after, settled) →
    releaseCampaignReservation after id later = .ok (after, settled)
  /-- Reconciling the same charge once more returns the same reservation and changes nothing. -/
  reconciled : ∀ id charge stamp later after settled, reconcileCampaignReservation state id charge stamp = .ok (after, settled) →
    reconcileCampaignReservation after id charge later = .ok (after, settled)
  /-- A settled reservation stays as it is. -/
  settled : ∀ (calls : List ReserveCall) (index : Nat) (reservation : Reservation), state[index]? = some reservation → reservation.status ≠ .held →
    (calls.foldl (apply configured) state)[index]? = some reservation

/-! ## Rounding -/

private theorem round4_le (value : Rat) : round4 value ≤ value + unit / 2 := by
  have below : (⌊value * 10000 + 1 / 2⌋ : Rat) ≤ value * 10000 + 1 / 2 := Int.floor_le _
  rw [round4, unit]
  linarith

private theorem lt_round4 (value : Rat) : value < round4 value + unit / 2 := by
  have above : value * 10000 + 1 / 2 < (⌊value * 10000 + 1 / 2⌋ : Rat) + 1 := Int.lt_floor_add_one _
  rw [round4, unit]
  linarith

private theorem round4_round4 (value : Rat) : round4 (round4 value) = round4 value := by
  have whole (units : Int) : ⌊(units : Rat) / 10000 * 10000 + 1 / 2⌋ = units := by
    rw [div_mul_cancel₀ _ (by norm_num), Int.floor_intCast_add]
    norm_num
  rw [round4, round4, whole]

/-- An amount that fits the rounded balance fits the balance up to a unit. -/
private theorem le_of_round4 {cost available : Rat} (fits : round4 cost ≤ round4 (round4 available)) :
    cost ≤ available + unit := by
  rw [round4_round4] at fits
  have first := lt_round4 cost
  have second := round4_le available
  linarith

/-! ## Sums -/

private theorem heldUsd_append (first second : ReserveState) : heldUsd (first ++ second) = heldUsd first + heldUsd second := by
  simp only [heldUsd, List.map_append, List.sum_append]

private theorem chargedUsd_append (first second : ReserveState) :
    chargedUsd (first ++ second) = chargedUsd first + chargedUsd second := by
  simp only [chargedUsd, List.map_append, List.sum_append]

private theorem heldUsd_cons (entry : Reservation) (rest : ReserveState) : heldUsd (entry :: rest) = entry.heldUsd + heldUsd rest := by
  simp only [heldUsd, List.map_cons, List.sum_cons]

private theorem chargedUsd_cons (entry : Reservation) (rest : ReserveState) :
    chargedUsd (entry :: rest) = entry.settledUsd + chargedUsd rest := by
  simp only [chargedUsd, List.map_cons, List.sum_cons]

/-! ## The entry of an id -/

/-- Where the first entry of an id stands, and what replacing it leaves. -/
private theorem findReservation_split {state : ReserveState} {id : String} {found : Reservation}
    (here : findReservation state id = some found) : ∃ before after, state = before ++ found :: after ∧ found.id = id ∧
      (∀ entry ∈ before, entry.id ≠ id) ∧ ∀ settled, replaceReservation id settled state = before ++ settled :: after := by
  induction state with
  | nil => cases here
  | cons entry rest ih =>
    rw [findReservation, List.find?_cons] at here
    by_cases same : entry.id = id
    · simp only [same, decide_true, Option.some.injEq] at here
      subst here
      exact ⟨[], rest, rfl, same, fun _ member => absurd member List.not_mem_nil, fun settled => by rw [replaceReservation, if_pos same]; rfl⟩
    · simp only [same, decide_false] at here
      obtain ⟨before, after, rfl, named, apart, replaced⟩ := ih here
      refine ⟨entry :: before, after, rfl, named, ?_, fun settled => ?_⟩
      · exact List.forall_mem_cons.mpr ⟨same, apart⟩
      · rw [replaceReservation, if_neg same, replaced]
        rfl

private theorem findReservation_replace {state : ReserveState} {id : String} {found settled : Reservation}
    (here : findReservation state id = some found) (named : settled.id = id) :
    findReservation (replaceReservation id settled state) id = some settled := by
  obtain ⟨before, after, rfl, -, apart, replaced⟩ := findReservation_split here
  rw [replaced, findReservation, List.find?_append, List.find?_eq_none.mpr, Option.none_or, List.find?_cons_of_pos]
  · simpa using named
  · intro entry member same
    exact apart entry member (by simpa using same)

/-- Replacing a held entry leaves every settled one where it is. -/
private theorem getElem?_replace {state : ReserveState} {id : String} {found settled : Reservation}
    (here : findReservation state id = some found) (held : found.status = .held) {index : Nat} {entry : Reservation}
    (there : state[index]? = some entry) (apart : entry.status ≠ .held) :
    (replaceReservation id settled state)[index]? = some entry := by
  obtain ⟨before, after, rfl, -, -, replaced⟩ := findReservation_split here
  rw [replaced]
  rcases Nat.lt_trichotomy index before.length with less | same | more
  · rw [List.getElem?_append_left less] at there ⊢
    exact there
  · subst same
    rw [List.getElem?_append_right (Nat.le_refl _), Nat.sub_self, List.getElem?_cons_zero, Option.some.injEq] at there
    exact absurd held (there ▸ apart)
  · obtain ⟨beyond, rfl⟩ := Nat.exists_eq_add_of_lt more
    rw [List.getElem?_append_right (by omega)] at there ⊢
    have offset : before.length + beyond + 1 - before.length = beyond + 1 := by omega
    rw [offset, List.getElem?_cons_succ] at there ⊢
    exact there

/-! ## What the calls do -/

/-- A successful request is refused, or its reservation is the last entry. -/
private theorem reserveCampaignCost_cases {configured : Rat} {state after : ReserveState} {request : ReserveRequest}
    {decision : ReserveDecision} (success : reserveCampaignCost (some configured) state request = .ok (after, decision)) :
    (∀ costUsd, request.costUsd = some costUsd → 0 ≤ costUsd) ∧
      (decision.admitted = false ∧ after = state ∨
        decision.admitted = true ∧ after = state ++ [request.reservation] ∧
          ∀ costUsd, request.costUsd = some costUsd → costUsd ≤ configured - heldUsd state - chargedUsd state + unit) := by
  obtain ⟨_, checked, answered⟩ := bind_ok_iff.mp success
  constructor
  · intro costUsd known
    rw [known, checkCost, nonNegativeNumber, check_ok_iff, decide_eq_true_eq] at checked
    exact checked
  · replace answered := Except.ok.inj answered
    rw [admitCost] at answered
    split at answered
    · obtain ⟨rfl, rfl⟩ := Prod.mk.inj answered
      exact .inl ⟨rfl, rfl⟩
    · rename_i fits
      obtain ⟨rfl, rfl⟩ := Prod.mk.inj answered
      refine .inr ⟨rfl, rfl, fun costUsd known => le_of_round4 ?_⟩
      rw [known, Option.any_some, decide_eq_true_eq, not_lt] at fits
      exact fits

/-- A release leaves the list, or replaces a held entry by a released one. -/
private theorem releaseCampaignReservation_cases {state after : ReserveState} {id stamp : String} {settled : Reservation}
    (success : releaseCampaignReservation state id stamp = .ok (after, settled)) : ∃ found, findReservation state id = some found ∧
      (found.status ≠ .held ∧ after = state ∧ settled = found ∨
        found.status = .held ∧ settled = { found with status := .released, settledAt := some stamp } ∧
          after = replaceReservation id settled state) := by
  unfold releaseCampaignReservation at success
  split at success
  · cases success
  · rename_i found here
    refine ⟨found, here, ?_⟩
    split at success
    · rename_i held
      obtain ⟨rfl, rfl⟩ := Prod.mk.inj (Except.ok.inj success)
      exact .inr ⟨held, rfl, rfl⟩
    · rename_i apart
      obtain ⟨rfl, rfl⟩ := Prod.mk.inj (Except.ok.inj success)
      exact .inl ⟨apart, rfl, rfl⟩

/-- A reconciliation leaves the list, or replaces a held entry by a charged one. -/
private theorem reconcileCampaignReservation_cases {state after : ReserveState} {id stamp : String} {costUsd : Option Rat}
    {settled : Reservation} (success : reconcileCampaignReservation state id costUsd stamp = .ok (after, settled)) :
    ∃ charge found, costUsd = some charge ∧ 0 ≤ charge ∧ findReservation state id = some found ∧
      (found.status = .charged ∧ found.chargedUsd = some charge ∧ after = state ∧ settled = found ∨
        found.status = .held ∧ settled = found.charge charge stamp ∧ after = replaceReservation id settled state) := by
  unfold reconcileCampaignReservation at success
  split at success
  · cases success
  · rename_i charge
    obtain ⟨_, checked, answered⟩ := bind_ok_iff.mp success
    rw [nonNegativeNumber, check_ok_iff, decide_eq_true_eq] at checked
    split at answered
    · cases answered
    · rename_i found here
      refine ⟨charge, found, rfl, checked, here, ?_⟩
      split at answered
      · rename_i status
        split at answered
        · rename_i same
          obtain ⟨rfl, rfl⟩ := Prod.mk.inj (Except.ok.inj answered)
          exact .inl ⟨status, same, rfl, rfl⟩
        · cases answered
      · cases answered
      · rename_i status
        obtain ⟨rfl, rfl⟩ := Prod.mk.inj (Except.ok.inj answered)
        exact .inr ⟨status, rfl, rfl⟩

/-- One call replaces a held entry, adds one, or leaves the list. -/
private theorem apply_cases (configured : Rat) (state : ReserveState) (call : ReserveCall) :
    apply configured state call = state ∨
      (∃ request decision, call = .reserve request ∧
        reserveCampaignCost (some configured) state request = .ok (state ++ [request.reservation], decision) ∧
          decision.admitted = true ∧ apply configured state call = state ++ [request.reservation]) ∨
      ∃ id found settled, findReservation state id = some found ∧ found.status = .held ∧
        apply configured state call = replaceReservation id settled state ∧
          (settled.status = .released ∨ ∃ charge stamp, call = .reconcile id (some charge) stamp ∧ 0 ≤ charge ∧
            settled = found.charge charge stamp) := by
  cases call with
  | reserve request =>
    simp only [apply]
    cases answer : reserveCampaignCost (some configured) state request with
    | error refusal => exact .inl rfl
    | ok written =>
      obtain ⟨after, decision⟩ := written
      rcases (reserveCampaignCost_cases answer).2 with ⟨-, rfl⟩ | ⟨admitted, rfl, -⟩
      · exact .inl rfl
      · exact .inr (.inl ⟨request, decision, rfl, answer, admitted, rfl⟩)
  | release id stamp =>
    simp only [apply]
    cases answer : releaseCampaignReservation state id stamp with
    | error refusal => exact .inl rfl
    | ok written =>
      obtain ⟨after, settled⟩ := written
      obtain ⟨found, here, ⟨-, rfl, -⟩ | ⟨held, same, rfl⟩⟩ := releaseCampaignReservation_cases answer
      · exact .inl rfl
      · exact .inr (.inr ⟨id, found, settled, here, held, rfl, .inl (same ▸ rfl)⟩)
  | reconcile id costUsd stamp =>
    simp only [apply]
    cases answer : reconcileCampaignReservation state id costUsd stamp with
    | error refusal => exact .inl rfl
    | ok written =>
      obtain ⟨after, settled⟩ := written
      obtain ⟨charge, found, rfl, nonnegative, here, ⟨-, -, rfl, -⟩ | ⟨held, same, rfl⟩⟩ :=
        reconcileCampaignReservation_cases answer
      · exact .inl rfl
      · exact .inr (.inr ⟨id, found, settled, here, held, rfl, .inr ⟨charge, stamp, rfl, nonnegative, same⟩⟩)

/-! ## Settled reservations -/

private theorem getElem?_apply {configured : Rat} {state : ReserveState} (call : ReserveCall) {index : Nat} {entry : Reservation}
    (there : state[index]? = some entry) (apart : entry.status ≠ .held) : (apply configured state call)[index]? = some entry := by
  obtain same | ⟨_, _, -, -, -, same⟩ | ⟨_, _, _, here, held, same, -⟩ := apply_cases configured state call
  · rw [same]
    exact there
  · rw [same, List.getElem?_append_left (List.getElem?_eq_some_iff.mp there).1]
    exact there
  · rw [same]
    exact getElem?_replace here held there apart

private theorem getElem?_calls {configured : Rat} (calls : List ReserveCall) {state : ReserveState} {index : Nat}
    {entry : Reservation} (there : state[index]? = some entry) (apart : entry.status ≠ .held) :
    (calls.foldl (apply configured) state)[index]? = some entry := by
  induction calls generalizing state with
  | nil => exact there
  | cons call rest ih => exact ih (getElem?_apply call there apart)

private theorem release_again {state after : ReserveState} {id stamp : String} {settled : Reservation}
    (success : releaseCampaignReservation state id stamp = .ok (after, settled)) (later : String) :
    releaseCampaignReservation after id later = .ok (after, settled) := by
  obtain ⟨found, here, ⟨apart, rfl, rfl⟩ | ⟨-, same, rfl⟩⟩ := releaseCampaignReservation_cases success
  · rw [releaseCampaignReservation, here]
    exact if_neg apart
  · have named : settled.id = id := by
      obtain ⟨_, _, _, named, _⟩ := findReservation_split here
      rw [same]
      exact named
    rw [releaseCampaignReservation, findReservation_replace here named, same]
    rfl

private theorem reconcile_again {state after : ReserveState} {id stamp : String} {costUsd : Option Rat} {settled : Reservation}
    (success : reconcileCampaignReservation state id costUsd stamp = .ok (after, settled)) (later : String) :
    reconcileCampaignReservation after id costUsd later = .ok (after, settled) := by
  obtain ⟨charge, found, rfl, nonnegative, here, cases⟩ := reconcileCampaignReservation_cases success
  have checked : nonNegativeNumber charge "costUsd" = .ok () := by
    rw [nonNegativeNumber, check_ok_iff, decide_eq_true_eq]
    exact nonnegative
  obtain ⟨again, status, charged⟩ : findReservation after id = some settled ∧ settled.status = .charged ∧
      settled.chargedUsd = some charge := by
    obtain ⟨status, charged, rfl, rfl⟩ | ⟨-, same, rfl⟩ := cases
    · exact ⟨here, status, charged⟩
    · have named : settled.id = id := by
        obtain ⟨_, _, _, named, _⟩ := findReservation_split here
        rw [same]
        exact named
      exact ⟨findReservation_replace here named, same ▸ rfl, same ▸ rfl⟩
  rw [reconcileCampaignReservation]
  refine bind_ok_iff.mpr ⟨(), checked, ?_⟩
  simp only [again, status, charged, if_true]
  rfl

/-! ## The total -/

/-- No held cost is negative and the total fits the balance. -/
private structure Within (configured : Rat) (state : ReserveState) : Prop where
  costs : ∀ entry ∈ state, 0 ≤ entry.heldUsd
  total : heldUsd state + chargedUsd state ≤ max 0 configured + unit

private theorem total_append (state : ReserveState) (request : ReserveRequest) :
    heldUsd (state ++ [request.reservation]) + chargedUsd (state ++ [request.reservation]) =
      heldUsd state + chargedUsd state + request.costUsd.getD 0 := by
  rw [heldUsd_append, chargedUsd_append]
  have held : heldUsd [request.reservation] = request.costUsd.getD 0 := by
    simp [heldUsd, Reservation.heldUsd, ReserveRequest.reservation]
  have charged : chargedUsd [request.reservation] = 0 := by
    simp [chargedUsd, Reservation.settledUsd, ReserveRequest.reservation]
  rw [held, charged]
  ring

private theorem Within.append {configured : Rat} {state : ReserveState} {request : ReserveRequest} {decision : ReserveDecision}
    (within : Within configured state)
    (answer : reserveCampaignCost (some configured) state request = .ok (state ++ [request.reservation], decision))
    (admitted : decision.admitted = true) : Within configured (state ++ [request.reservation]) := by
  obtain ⟨nonnegative, ⟨refused, -⟩ | ⟨-, -, fits⟩⟩ := reserveCampaignCost_cases answer
  · exact absurd (refused.symm.trans admitted) (by decide)
  constructor
  · intro entry member
    rcases List.mem_append.mp member with before | last
    · exact within.costs entry before
    · obtain rfl := List.mem_singleton.mp last
      change 0 ≤ request.costUsd.getD 0
      cases known : request.costUsd with
      | none => exact le_refl _
      | some costUsd => exact nonnegative costUsd known
  · rw [total_append]
    cases known : request.costUsd with
    | none =>
      rw [Option.getD_none, add_zero]
      exact within.total
    | some costUsd =>
      have room := fits costUsd known
      have above : configured ≤ max 0 configured := le_max_right _ _
      rw [Option.getD_some]
      linarith

private theorem Within.replace {configured : Rat} {state : ReserveState} {id : String} {found settled : Reservation}
    (within : Within configured state) (here : findReservation state id = some found)
    (apart : settled.heldUsd = 0) (less : settled.settledUsd ≤ found.heldUsd) (held : found.status = .held) :
    Within configured (replaceReservation id settled state) := by
  obtain ⟨before, after, rfl, -, -, replaced⟩ := findReservation_split here
  have idle : found.settledUsd = 0 := by rw [Reservation.settledUsd, if_neg (by rw [held]; decide)]
  constructor
  · intro entry member
    rw [replaced, List.mem_append, List.mem_cons] at member
    rcases member with first | rfl | last
    · exact within.costs entry (List.mem_append_left _ first)
    · exact le_of_eq apart.symm
    · exact within.costs entry (List.mem_append_right _ (List.mem_cons_of_mem _ last))
  · have total := within.total
    rw [heldUsd_append, chargedUsd_append, heldUsd_cons, chargedUsd_cons, idle] at total
    rw [replaced, heldUsd_append, chargedUsd_append, heldUsd_cons, chargedUsd_cons, apart]
    linarith

private theorem Within.apply {configured : Rat} {state : ReserveState} {call : ReserveCall} (within : Within configured state)
    (covered : Covered state call) : Within configured (apply configured state call) := by
  obtain same | ⟨request, decision, -, answer, admitted, same⟩ | ⟨id, found, settled, here, held, same, outcome⟩ :=
    apply_cases configured state call
  · rw [same]
    exact within
  · rw [same]
    exact within.append answer admitted
  · rw [same]
    have nonnegative : 0 ≤ found.heldUsd := by
      obtain ⟨before, after, rfl, -⟩ := findReservation_split here
      exact within.costs found (by simp)
    obtain released | ⟨charge, stamp, rfl, -, charged⟩ := outcome
    · refine within.replace here ?_ ?_ held
      · rw [Reservation.heldUsd, if_neg (by rw [released]; decide)]
      · rw [Reservation.settledUsd, if_neg (by rw [released]; decide)]
        exact nonnegative
    · obtain ⟨costUsd, known, less⟩ := covered found here held
      refine within.replace here ?_ ?_ held
      · rw [charged]
        rfl
      · rw [charged, Reservation.heldUsd, if_pos held, known]
        exact less

/-! ## Every sequence of calls -/

/-- Under one balance no sequence of covered calls admits too much, loses a settlement or settles twice. -/
theorem reserve_neverOverAdmits (configured : Rat) {state : ReserveState}
    (reach : (machine configured).Reach Covered (· = []) state) : NeverOverAdmits configured state := by
  have within : Within configured state := by
    refine reach.invariant (Within configured) ?_ ?_
    · rintro _ rfl
      refine ⟨nofun, ?_⟩
      have some : (0 : Rat) ≤ max 0 configured := le_max_left _ _
      simp only [heldUsd, chargedUsd, List.map_nil, List.sum_nil, unit]
      linarith
    · intro before call after holds covered taken
      obtain rfl := Option.some.inj taken
      exact holds.apply covered
  constructor
  · exact within.total
  · intro request decision after costUsd answer admitted known
    obtain ⟨-, ⟨refused, -⟩ | ⟨-, rfl, fits⟩⟩ := reserveCampaignCost_cases answer
    · exact absurd (refused.symm.trans admitted) (by decide)
    · have room := fits costUsd known
      rw [total_append, known, Option.getD_some]
      linarith
  · intro request refused
    simp only [apply]
    cases answer : reserveCampaignCost (some configured) state request with
    | error refusal => rfl
    | ok written =>
      obtain ⟨after, decision⟩ := written
      obtain ⟨-, ⟨-, rfl⟩ | ⟨admitted, -⟩⟩ := reserveCampaignCost_cases answer
      · rfl
      · exact absurd ((refused after decision answer).symm.trans admitted) (by decide)
  · intro id stamp later after settled success
    exact release_again success later
  · intro id charge stamp later after settled success
    exact reconcile_again success later
  · intro calls index reservation there apart
    exact getElem?_calls calls there apart

/-- Two holds empty a balance of a hundred; one is charged less, a third request is refused, and the charge is repeated. -/
theorem reserve_neverOverAdmits_hundred : ∃ state, (machine 100).Reach Covered (· = []) state ∧
    heldUsd state + chargedUsd state = 95 ∧ NeverOverAdmits 100 state := by
  let request (id : String) (costUsd : Rat) : ReserveRequest := ⟨id, "2026-10-01", none, none, some costUsd⟩
  let calls : List ReserveCall := [.reserve (request "a" 30), .reserve (request "b" 70), .reconcile "a" (some 25) "2026-10-02",
    .reserve (request "c" 6), .reconcile "a" (some 25) "2026-10-03"]
  have ran : ((machine 100).replay? Covered [] calls).any
      (fun state => decide (heldUsd state + chargedUsd state = 95)) = true := by
    decide +kernel
  obtain ⟨state, success, total⟩ := (Option.any_eq_true _ _).mp ran
  have reach : (machine 100).Reach Covered (· = []) state := Machine.Reach.of_replay rfl calls success
  exact ⟨state, reach, of_decide_eq_true total, reserve_neverOverAdmits 100 reach⟩

end Faberun.Reserve
