import Mathlib.Data.Rat.Floor
import Faberun.Machine.Core
import Faberun.Model.Json

/-! # The campaign reserve

The reservations of `campaign/reserve.mjs` against the balance of a campaign. Every call runs under the reserve's lock,
reads the list, changes at most one entry of it and writes it back. Amounts are exact and rounded where the code rounds.
-/

namespace Faberun.Reserve

/-- `round4`: `Math.round` rounds halves up. -/
def round4 (value : Rat) : Rat := ⌊value * 10000 + 1 / 2⌋ / 10000

inductive ReservationStatus where
  | held
  | released
  | charged
  deriving DecidableEq

/-- One reservation; `lateChargeUsd` is absent, null or a number. -/
structure Reservation where
  id : String
  reservedAt : String
  runId : Option String
  node : Option String
  costUsd : Option Rat
  status : ReservationStatus
  chargedUsd : Option Rat
  lateChargeUsd : Option (Option Rat)
  settledAt : Option String
  deriving DecidableEq

/-- The reservations of `ReserveState`. -/
abbrev ReserveState := List Reservation

/-- What a reservation holds. -/
def Reservation.heldUsd (reservation : Reservation) : Rat :=
  if reservation.status = .held then reservation.costUsd.getD 0 else 0

/-- What a reservation has charged. -/
def Reservation.settledUsd (reservation : Reservation) : Rat :=
  if reservation.status = .charged then reservation.chargedUsd.getD 0 else 0

def heldUsd (state : ReserveState) : Rat := (state.map Reservation.heldUsd).sum

def chargedUsd (state : ReserveState) : Rat := (state.map Reservation.settledUsd).sum

def availableUsdOf (configured : Rat) (state : ReserveState) : Rat := round4 (configured - heldUsd state - chargedUsd state)

/-- `nonNegativeNumber` of a number. -/
def nonNegativeNumber (value : Rat) (label : String) : Except Refusal Unit :=
  check (decide (0 ≤ value)) s!"{label} must be a non-negative number"

structure ReserveDecision where
  admitted : Bool
  armed : Bool
  reservation : Option Reservation
  availableUsd : Option Rat
  deriving DecidableEq

/-- What a dispatch asks for; the id is the one `randomUUID` returns. -/
structure ReserveRequest where
  id : String
  reservedAt : String
  runId : Option String
  node : Option String
  costUsd : Option Rat
  deriving DecidableEq

/-- The check of a known cost. -/
def checkCost : Option Rat → Except Refusal Unit
  | some costUsd => nonNegativeNumber costUsd "costUsd"
  | none => .ok ()

/-- What a request adds to the list. -/
def ReserveRequest.reservation (request : ReserveRequest) : Reservation :=
  ⟨request.id, request.reservedAt, request.runId, request.node, request.costUsd, .held, none, none, none⟩

/-- The check and the deduction against an armed balance. -/
def admitCost (configured : Rat) (state : ReserveState) (request : ReserveRequest) : ReserveState × ReserveDecision :=
  let available := availableUsdOf configured state
  if request.costUsd.any fun costUsd => decide (round4 available < round4 costUsd) then
    (state, ⟨false, true, none, some available⟩)
  else
    (state ++ [request.reservation],
      ⟨true, true, some request.reservation, some (round4 (available - request.costUsd.getD 0))⟩)

/-- `reserveCampaignCost`: the list it writes and its decision. -/
def reserveCampaignCost (configured : Option Rat) (state : ReserveState) (request : ReserveRequest) :
    Except Refusal (ReserveState × ReserveDecision) := do
  checkCost request.costUsd
  match configured with
  | none => return (state, ⟨true, false, none, none⟩)
  | some configured => return admitCost configured state request

def findReservation (state : ReserveState) (id : String) : Option Reservation := state.find? fun entry => entry.id = id

/-- The list with the first reservation of an id replaced. -/
def replaceReservation (id : String) (settled : Reservation) : ReserveState → ReserveState
  | [] => []
  | entry :: rest => if entry.id = id then settled :: rest else entry :: replaceReservation id settled rest

def unknownReservation (id : String) : Refusal := ⟨none, s!"no reservation {id} in the campaign's reserve"⟩

/-- `releaseCampaignReservation`. -/
def releaseCampaignReservation (state : ReserveState) (id stamp : String) :
    Except Refusal (ReserveState × Reservation) :=
  match findReservation state id with
  | none => .error (unknownReservation id)
  | some reservation =>
    if reservation.status = .held then
      let settled := { reservation with status := .released, settledAt := some stamp }
      .ok (replaceReservation id settled state, settled)
    else .ok (state, reservation)

/-- What a held reservation becomes when its charge arrives. -/
def Reservation.charge (reservation : Reservation) (charge : Rat) (stamp : String) : Reservation :=
  { reservation with
    status := .charged
    chargedUsd := some charge
    lateChargeUsd := some (reservation.costUsd.map fun costUsd => round4 (max 0 (charge - costUsd)))
    settledAt := some stamp }

/-- A number in a message. -/
def shownUsd (amount : Option Rat) : String := (amount.map shownNumber).getD "undefined"

/-- `reconcileCampaignReservation`; a charge that is null is refused like a negative one. -/
def reconcileCampaignReservation (state : ReserveState) (id : String) (costUsd : Option Rat) (stamp : String) :
    Except Refusal (ReserveState × Reservation) :=
  match costUsd with
  | none => .error ⟨none, "costUsd must be a non-negative number"⟩
  | some charge => do
    nonNegativeNumber charge "costUsd"
    match findReservation state id with
    | none => .error (unknownReservation id)
    | some reservation =>
      match reservation.status with
      | .charged =>
        if reservation.chargedUsd = some charge then return (state, reservation)
        else .error ⟨none,
          s!"reservation {id} already charged {shownUsd reservation.chargedUsd} USD, refusing to recharge at {shownNumber charge} USD"⟩
      | .released => .error ⟨none, s!"reservation {id} was released without a charge; it cannot take one afterwards"⟩
      | .held =>
        let settled := reservation.charge charge stamp
        return (replaceReservation id settled state, settled)

/-! ## Sequences of calls -/

inductive ReserveCall where
  | reserve (request : ReserveRequest)
  | release (id stamp : String)
  | reconcile (id : String) (costUsd : Option Rat) (stamp : String)
  deriving DecidableEq

/-- The list after a call; one that throws leaves it. -/
def apply (configured : Rat) (state : ReserveState) : ReserveCall → ReserveState
  | .reserve request => ((reserveCampaignCost (some configured) state request).map (·.1)).toOption.getD state
  | .release id stamp => ((releaseCampaignReservation state id stamp).map (·.1)).toOption.getD state
  | .reconcile id costUsd stamp => ((reconcileCampaignReservation state id costUsd stamp).map (·.1)).toOption.getD state

/-- The calls made under one configured balance. -/
def machine (configured : Rat) : Machine ReserveState ReserveCall := ⟨fun state call => some (apply configured state call)⟩

end Faberun.Reserve
