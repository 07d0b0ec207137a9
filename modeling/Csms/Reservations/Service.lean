import Csms.Reservations.Models

/-!
# Holds (`reservations/service.py` and the decisions of `reservations/fees.py`)

Functions on one reservation are written on its row; those that read other rows are
computations on the tables. Every transaction holds the row lock of the charge point.
-/

namespace Csms.Reservations

open Tx Csms.Wallets

/-! ## 1. Target -/

def live (point : ChargePoint) (now : ℤ) : Bool :=
  !point.archived && point.online && point.last_boot_at.isSome &&
    match point.last_seen_at with
    | some seen => seen ≤ now && now - seen ≤ 2 * point.heartbeat_interval_seconds * SECOND
    | none => false

inductive CapabilityStatus where
  | unverified | supported | unsupported
  deriving DecidableEq, Repr

def capability_status (cap : Option ReservationCapability) (point : ChargePoint) : CapabilityStatus :=
  match cap with
  | none => .unverified
  | some cap =>
    if cap.boot_at ≠ point.last_boot_at ∨ cap.checked_at = none then .unverified
    else if cap.supported then .supported else .unsupported

/-- The rows `lock_target` returns. -/
structure Target where
  point : ChargePoint
  connector : Connector
  station : Station
  deriving DecidableEq, Repr

def lock_target? (env : Environment) (connector_id : Uuid) : Option Target := do
  let connector ← env.connectors.find? (·.id = connector_id)
  let point ← env.charge_points.find? (·.id = connector.charge_point_id)
  let station ← env.stations.find? (·.id = point.station_id)
  if point.archived || connector.archived || station.archived then none
  else return ⟨point, connector, station⟩

def lock_target (env : Environment) (connector_id : Uuid) : ReservationTx Target :=
  orRaise (lock_target? env connector_id) (.http 404 "resource_not_found")

def Environment.capability (env : Environment) (point : ChargePoint) : Option ReservationCapability :=
  env.capabilities.find? (·.charge_point_id = point.id)

/-- A socket whose boot was accepted. -/
def Environment.connected (env : Environment) (point : ChargePoint) : Bool :=
  (env.connections.find? (·.1 = point.id)).any (·.2)

/-- A session that occupies the connector. -/
def Environment.occupied (env : Environment) (connector_id : Uuid) : Bool :=
  env.sessions.any fun c => c.connector_id = connector_id &&
    (!c.ended || (c.billing_lifecycle_version == 1 && !c.released))

/-! ## 2. Fee decisions -/

def Reservation.event (row : Reservation) (action : EventAction) (now : ℤ) : Reservation :=
  { row with events := row.events ++ [(action, now)] }

/-- The part of `observe_expiry`'s test that is about the site: station, charger, connector and
connection. -/
def siteVerified (env : Environment) (target : Target) (row : Reservation) : Bool :=
  target.station.active && live target.point env.now &&
    capability_status (env.capability target.point) target.point == .supported &&
    (target.point.last_boot_at.any fun boot => boot ≤ row.created_at) &&
    (target.point.error_code == none || target.point.error_code == some "NoError") &&
    target.point.raw_ocpp_status != .Faulted &&
    target.connector.status != .Faulted && target.connector.status != .Unavailable &&
    env.connected target.point

/-- The reservation was confirmed by the charger before it expired. -/
def Reservation.activatedInTime (row : Reservation) : Bool :=
  row.activated_at.any fun activated => activated < row.expires_at

def observe_expiry (env : Environment) (target : Target) (row : Reservation) : Reservation :=
  if row.fee_decision ≠ .pending ∨ env.now < row.expires_at then row
  else
    let eligible := row.activatedInTime && siteVerified env target row
    match row.expiry_fee_eligible with
    | none => { row with expiry_fee_eligible := some eligible }
    | some _ => if eligible then row else { row with expiry_fee_eligible := some false }

def decide (row : Reservation) (decision : FeeDecision) (reason : FeeReason) (now : ℤ) : Reservation :=
  if row.fee_decision = decision ∧ row.fee_reason = some reason then row
  else
    Reservation.event { row with
      fee_decision := decision, fee_reason := some reason, fee_decided_at := some now } .fee_decided now

def mark_late_start (row : Reservation) (now : ℤ) : Reservation :=
  let decided :=
    if 0 < row.fee_vnd ∧ row.fee_decision ≠ .legacy_exempt ∧ ¬ row.no_show_exempt then
      decide row .review .late_start_after_fee_window now
    else row
  decided.event .late_start_observed now

/-! ## 3. Release -/

/-- The fee reason of a waiver by a release. -/
def CancelReason.feeReason : CancelReason → FeeReason
  | .expired => .expired
  | .station_unavailable => .station_unavailable
  | .driver_cancel => .driver_cancel

/-- The cancel fields of `request_release`, with the waiver of an exempt reservation. -/
def markReleased (row : Reservation) (now : ℤ) (reason : CancelReason) (request_id : Option Uuid) :
    Reservation :=
  let row := { row with
    cancel_requested_at := some now, cancel_reason := some reason, cancel_request_id := request_id
    no_show_exempt :=
      reason = .station_unavailable ∨ (reason = .driver_cancel ∧ now < row.expires_at) }
  let row := if row.no_show_exempt ∧ row.fee_decision = .pending then
      decide row .waived reason.feeReason now else row
  { row with updated_at := now }

/-- `request_release`; `new_id` is the id of the CancelReservation command. -/
def request_release (row : Reservation) (now : ℤ) (new_id : Uuid) (reason : CancelReason)
    (request_id : Option Uuid := none) : Reservation :=
  if row.status.holds = false ∨ row.cancel_requested_at ≠ none then row
  else
    let marked := markReleased row now reason request_id
    let released :=
      if row.reserve.status = .queued ∧ row.reserve.attempts = 0 then
        { marked with
          reserve := { row.reserve with status := .suppressed }
          status := if reason = CancelReason.expired then .expired else .cancelled
          outcome := some .not_sent }
      else
        { marked with
          status := if reason = CancelReason.expired then .expiry_release_pending else .cancel_pending
          cancel := some (newCommand new_id now) }
    released.event .release_requested now

/-! ## 4. Tables -/

/-- The update of a reservation. -/
def save (row : Reservation) : ReservationTx Unit :=
  write fun s => { s with reservations := Table.modify Reservation.id row.id (fun _ => row) s.reservations }

/-- `select(Reservation).where(Reservation.id == ...)`. -/
def ReservationDb.find (s : ReservationDb) (id : Uuid) : Option Reservation :=
  s.reservations.find? (·.id = id)

/-- A command with this id. -/
def Reservation.hasCommand (row : Reservation) (id : Uuid) : Bool :=
  row.reserve.id = id || row.cancel.any (·.id = id)

/-- `cancel_reservation`. -/
def cancel_reservation (env : Environment) (driver_id reservation_id request_id : Uuid) :
    ReservationTx Reservation := do
  let s ← read
  let row ← orRaise (s.find reservation_id) (.http 404 "resource_not_found")
  raiseIf (row.driver_id ≠ driver_id) (.http 403 "permission_denied")
  let _ ← lock_target env row.connector_id
  if row.cancel_request_id = some request_id ∧ row.cancel_reason = some .driver_cancel then
    return row
  else
    raiseIf (∃ r ∈ s.reservations, r.hasCommand request_id ∨ r.cancel_request_id = some request_id)
      (.http 409 "reservation_request_conflict")
    raiseIf (row.status = .consumed) (.http 409 "reservation_consumed")
    if row.status = .cancel_pending ∨ row.status = .expiry_release_pending then return row
    else
      raiseIf (row.expires_at ≤ env.now) (.http 409 "reservation_expired")
      raiseIf (row.status ≠ .active ∧ row.status ≠ .uncertain) (.http 409 "reservation_not_cancellable")
      let row := request_release row env.now env.new_id .driver_cancel (some request_id)
      save row
      return row

/-! ## 5. Booking -/

/-- What the booking reads from other modules: the start request on the connector, the driver,
the fee policy, the power state, the wallet check and the driver's charging identity. -/
structure BookingChecks where
  start_pending : Bool
  driver_ok : Bool
  fee_vnd : ℤ
  policy_version : ℤ
  power_allowed : Bool
  eligible : Bool
  balance_vnd : Option ℤ
  minimum_balance_vnd : Option ℤ
  card_id : Uuid
  identity_ok : Bool
  deriving DecidableEq, Repr

structure BookingRequest where
  driver_id : Uuid
  request_id : Uuid
  connector_id : Uuid
  arrival_at : Option ℤ
  accepted_fee_vnd : Option ℤ
  accepted_policy_version : Option ℤ
  /-- The SHA-256 of the request, and of the request without the accepted policy. -/
  digest : String
  legacy_hash : String
  deriving DecidableEq, Repr

/-- The accepted policy is not the one in force. -/
def policyChanged (request : BookingRequest) (checks : BookingChecks) : Prop :=
  (∃ f ∈ request.accepted_fee_vnd, f ≠ checks.fee_vnd) ∨
  (∃ v ∈ request.accepted_policy_version, v ≠ checks.policy_version) ∨
  (0 < checks.fee_vnd ∧ (request.accepted_fee_vnd = none ∨ request.accepted_policy_version = none))

instance (request : BookingRequest) (checks : BookingChecks) : Decidable (policyChanged request checks) :=
  inferInstanceAs (Decidable (_ ∨ _))

/-- The balance does not cover the minimum and the fee. -/
def balanceLow (checks : BookingChecks) : Prop :=
  ∃ m ∈ checks.minimum_balance_vnd, ∃ b ∈ checks.balance_vnd, b < m + checks.fee_vnd

instance (checks : BookingChecks) : Decidable (balanceLow checks) :=
  inferInstanceAs (Decidable (∃ m ∈ checks.minimum_balance_vnd, _))

/-- The reservation a booking inserts. -/
def newReservation (env : Environment) (target : Target) (request : BookingRequest)
    (checks : BookingChecks) (ocpp_id : ℕ) : Reservation where
  id := request.request_id
  ocpp_id
  driver_id := request.driver_id
  station_id := target.station.id
  charge_point_id := target.point.id
  connector_id := target.connector.id
  card_id := checks.card_id
  request_hash := request.digest
  status := .pending
  created_at := env.now
  arrival_at := env.now
  expires_at := env.now + 900 * SECOND
  updated_at := env.now
  outcome := none
  cancel_request_id := none
  cancel_requested_at := none
  cancel_reason := none
  no_show_exempt := false
  session_id := none
  fee_vnd := checks.fee_vnd
  fee_policy_version := checks.policy_version
  fee_decision := .pending
  fee_reason := none
  fee_decided_at := none
  fee_ledger_id := none
  activated_at := none
  expiry_fee_eligible := none
  reserve := newCommand request.request_id env.now
  cancel := none
  events := [(.requested, env.now)]

/-- A request that repeats an earlier one. -/
def replayed (request : BookingRequest) (previous : Reservation) : Prop :=
  previous.driver_id = request.driver_id ∧
  (previous.request_hash = request.digest ∨
    (previous.fee_decision = .legacy_exempt ∧ request.accepted_fee_vnd = none ∧
      request.accepted_policy_version = none ∧ previous.request_hash = request.legacy_hash))

instance (request : BookingRequest) (previous : Reservation) : Decidable (replayed request previous) :=
  inferInstanceAs (Decidable (_ ∧ _))

/-- The checks of a new booking that concern the site, and the connector's hold. -/
def checkSite (env : Environment) (target : Target) (s : ReservationDb) : ReservationTx Unit := do
  raiseIf (target.station.active = false ∨ live target.point env.now = false)
    (.http 409 "station_or_charger_unavailable")
  raiseIf (capability_status (env.capability target.point) target.point = .unsupported)
    (.http 409 "reservation_unsupported")
  raiseIf (capability_status (env.capability target.point) target.point = .unverified)
    (.http 409 "reservation_capability_unverified")
  raiseIf (∃ r ∈ s.reservations, r.connector_id = target.connector.id ∧ r.status.holds)
    (.http 409 "connector_reserved")
  raiseIf (target.connector.status ≠ .Available) (.http 409 "connector_unavailable")
  raiseIf (target.point.raw_ocpp_status = .Faulted ∨
      ¬ (target.point.error_code = none ∨ target.point.error_code = some "NoError"))
    (.http 409 "connector_unavailable")

/-- The checks of a new booking that concern the driver. -/
def checkDriver (request : BookingRequest) (checks : BookingChecks) (s : ReservationDb) :
    ReservationTx Unit := do
  raiseIf (checks.driver_ok = false) (.http 403 "permission_denied")
  raiseIf (policyChanged request checks) (.http 409 "reservation_policy_changed")
  raiseIf (∃ r ∈ s.reservations, r.driver_id = request.driver_id ∧ r.status.holds)
    (.http 409 "driver_already_reserved")
  raiseIf (checks.power_allowed = false) (.http 409 "power_unavailable")
  raiseIf (checks.eligible = false) (.http 409 "tariff_unavailable")

/-- `ensure_driver_wallet` on the wallet tables. -/
def ensureWallet (new_id driver_id : Uuid) : ReservationTx Unit := do
  let _ ← zoom ReservationDb.wallet (fun w s => { s with wallet := w }) ReservationFailure.wallet
    (ensure_driver_wallet new_id driver_id)
  return ()

/-- `create_reservation`. -/
def create_reservation (env : Environment) (request : BookingRequest) (checks : BookingChecks) :
    ReservationTx Reservation := do
  let s ← read
  match s.find request.request_id with
  | some previous =>
    raiseIf (¬ replayed request previous) (.http 409 "reservation_request_conflict")
    return previous
  | none =>
    raiseIf (∃ r ∈ s.reservations, r.hasCommand request.request_id)
      (.http 409 "reservation_request_conflict")
    let target ← lock_target env request.connector_id
    raiseIf (request.arrival_at ≠ none) (.http 422 "reservation_arrival_out_of_range")
    checkSite env target s
    raiseIf (env.occupied target.connector.id ∨ checks.start_pending) (.http 409 "connector_unavailable")
    checkDriver request checks s
    ensureWallet env.new_id request.driver_id
    raiseIf (balanceLow checks) (.http 409 "wallet_low")
    raiseIf (checks.identity_ok = false) (.http 409 "reservation_identity_unavailable")
    raiseIf (¬ (0 ≤ checks.fee_vnd ∧ checks.fee_vnd ≤ 1000000))
      (.integrityError "ck_reservation_fee_amount")
    let row := newReservation env target request checks s.ocpp_seq
    write fun s => { s with reservations := s.reservations ++ [row], ocpp_seq := s.ocpp_seq + 1 }
    return row

/-! ## 6. Starts -/

/-- A charging card as `validate_start` reads it. -/
structure Card where
  id : Uuid
  driver_id : Uuid
  deriving DecidableEq, Repr

/-- The start message: the id of a reservation, if any, and the charger's time stamp. -/
structure StartMessage where
  connector_id : Uuid
  card : Option Card
  reservation_id : Option ℕ
  timestamp : ℤ
  deriving DecidableEq, Repr

/-- `connector_hold`. -/
def ReservationDb.connectorHold (s : ReservationDb) (connector_id : Uuid) : Option Reservation :=
  s.reservations.find? fun r => r.connector_id = connector_id ∧ r.status.holds

/-- The card is the reservation's. -/
def Reservation.ownedBy (row : Reservation) (card : Option Card) : Bool :=
  card.any fun c => row.card_id == c.id && row.driver_id == c.driver_id

/-- A time stamp of the charger inside the hold, with 30 seconds of clock skew before it. -/
def Reservation.duringHold (row : Reservation) (source_time : ℤ) : Bool :=
  row.created_at - 30 * SECOND ≤ source_time && source_time < row.expires_at

/-- The reservation a start may refer to although another or none holds the connector. -/
def ReservationDb.previousFor (s : ReservationDb) (msg : StartMessage) : Option Reservation := do
  let ocpp_id ← msg.reservation_id
  if (s.connectorHold msg.connector_id).any (·.ocpp_id = ocpp_id) then none
  else
    let previous ← s.reservations.find? fun r => r.ocpp_id = ocpp_id ∧ r.connector_id = msg.connector_id
    if previous.ownedBy msg.card && previous.duringHold msg.timestamp &&
        previous.status != .consumed && !previous.no_show_exempt then return previous
    else none

/-- The test of a start against the hold it resolved to. -/
def validateHold (msg : StartMessage) (now : ℤ) : Option Reservation → ReservationTx (Bool × Option Reservation)
  | none => return (msg.reservation_id.isNone, none)
  | some hold =>
    if hold.ownedBy msg.card = false ∨ msg.reservation_id ≠ some hold.ocpp_id then
      return (false, some hold)
    else if hold.duringHold msg.timestamp ∧ hold.expires_at + 30 * SECOND < now ∧ ¬ hold.no_show_exempt then do
      let hold := mark_late_start hold now
      save hold
      return (false, some hold)
    else
      let timely := hold.duringHold msg.timestamp && msg.timestamp ≤ now + 30 * SECOND &&
        now ≤ hold.expires_at + 30 * SECOND
      let state_ok := hold.status = .pending ∨ hold.status = .uncertain ∨ hold.status = .active ∨
        ((hold.status = .expiry_release_pending ∨ hold.status = .expired) ∧
          hold.cancel_reason = some .expired)
      return (timely && state_ok, some hold)

/-- `validate_start`. -/
def validate_start (now : ℤ) (msg : StartMessage) : ReservationTx (Bool × Option Reservation) := do
  let s ← read
  let hold := s.connectorHold msg.connector_id
  match s.previousFor msg with
  | some previous =>
    if previous.expires_at + 30 * SECOND < now ∨ hold.isSome then
      let previous := mark_late_start previous now
      save previous
      return (false, some previous)
    else if previous.status = .expired ∧ previous.cancel_reason = some .expired then
      validateHold msg now (some previous)
    else validateHold msg now hold
  | none => validateHold msg now hold

/-- `consume`. -/
def consume (row : Reservation) (session_id : ℕ) (now : ℤ) : Reservation :=
  let row := { row with
    status := .consumed, session_id := some session_id, updated_at := now
    outcome := some .StartTransaction }
  let row := if row.fee_decision = .pending then decide row .waived .consumed now else row
  row.event .consumed now

/-- What `start_transaction` reads besides the reservation: the authorization, the station, the
power state and the id of the new session. -/
structure StartChecks where
  accepted : Bool
  wallet_failure : Bool
  station_ok : Bool
  power_allowed : Bool
  session_id : ℕ
  deriving DecidableEq, Repr

/-- The reservation part of `start_transaction`; the result tells whether a session started. -/
def start_transaction (now : ℤ) (msg : StartMessage) (checks : StartChecks) : ReservationTx Bool := do
  let (allowed, reservation) ← validate_start now msg
  if allowed = false ∨ (reservation.isSome ∧ checks.accepted = false ∧ checks.wallet_failure = false) then
    return false
  else if checks.station_ok = false ∨ checks.power_allowed = false ∨ checks.wallet_failure then
    return false
  else
    match reservation with
    | some row =>
      save (consume row checks.session_id now)
      return true
    | none => return true

end Csms.Reservations
