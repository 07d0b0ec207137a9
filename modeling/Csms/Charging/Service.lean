import Csms.Charging.Occupation
import Csms.Charging.Samples

/-!
# Transactions of a charger (`charging/service.py`, `charging/driver.py`, `wallet/eligibility.py`)

The handlers run inside the dispatcher's transaction, under the row lock of the charge point. The
notification of the driver at the end of a stop is not modelled.
-/

namespace Csms.Charging

open Tx Points Csms.Reservations Csms.Accounts
open Csms.Billing (AuthorizationStatus MeterSample)

/-! ## 1. Admission -/

/-- `ChargingEligibility`; the tariff's id is not read. -/
structure ChargingEligibility where
  allowed : Bool
  reason : Option String
  balance_vnd : Option ℤ
  minimum_balance_vnd : Option ℤ
  deriving DecidableEq, Repr

/-- The balance needed to start: `none` without a rate in the tariff. -/
def minimumBalance (env : Environment) (tariff : Option Pricing.Tariff) : Option ℤ :=
  match tariff with
  | none => some env.wallet_reserve_vnd
  | some tariff => (tariff.bands.map (·.energy_rate_vnd_per_kwh)).max?.map (env.charging_minimum_kwh * ·)

/-- `du_so_du_de_sac` at the station. -/
def du_so_du_de_sac (env : Environment) (s : Database) (driver_id : Uuid) (station : Station) :
    ChargingEligibility :=
  let tariff := Pricing.lay_bieu_gia_hieu_luc s.tariffs station.id (station.timezone.localDate env.now)
  let wallet := s.books.wallet.wallets.find? (·.driver_id = driver_id)
  let balance := wallet.map (·.balance_vnd)
  match minimumBalance env tariff, wallet with
  | none, _ => ⟨false, some "tariff_unavailable", balance, none⟩
  | some minimum, none => ⟨false, some "wallet_missing", none, some minimum⟩
  | some minimum, some wallet =>
    if wallet.status ≠ .active then ⟨false, some "wallet_locked", balance, some minimum⟩
    else if 0 ≤ wallet.balance_vnd ∧ minimum ≤ wallet.balance_vnd then ⟨true, none, balance, some minimum⟩
    else ⟨false, some "wallet_low", balance, some minimum⟩

/-- `admissible`. -/
def admissible (row : Reservation) (driver_id : Uuid) (now : ℤ) : Prop :=
  row.driver_id = driver_id ∧ (row.status = .pending ∨ row.status = .uncertain ∨ row.status = .active) ∧
  row.cancel_requested_at = none ∧ now < row.expires_at

instance (row : Reservation) (driver_id : Uuid) (now : ℤ) : Decidable (admissible row driver_id now) :=
  inferInstanceAs (Decidable (_ ∧ _))

/-- `authorize_allowed`: the card holds a reservation at the charge point, or a connector is free. -/
def authorize_allowed (s : Database) (point : ChargePoint) (card : ChargingCard) (now : ℤ) : Prop :=
  let rows := s.books.reservations.filter fun r => r.charge_point_id = point.uuid ∧ r.status.holds
  rows = [] ∨ (∃ r ∈ rows, r.card_id = card.id ∧ admissible r card.driver_id now) ∨
  ∃ k ∈ s.connectors, k.charge_point_id = point.id ∧ k.archived = false ∧
    (∀ r ∈ rows, r.connector_id ≠ k.uuid) ∧ (k.status = .Available ∨ k.status = .Preparing)

instance (s : Database) (point : ChargePoint) (card : ChargingCard) (now : ℤ) :
    Decidable (authorize_allowed s point card now) :=
  inferInstanceAs (Decidable (_ ∨ _))

/-- `registered_connectors`, in any order. -/
def registered_connectors (s : Database) (station_id : ℕ) : List (Connector × ChargePoint) :=
  s.connectors.filterMap fun k =>
    (s.charge_points.find? fun p => p.id = k.charge_point_id ∧ p.station_id = station_id ∧
      p.archived = false ∧ k.archived = false).map (k, ·)

/-- The scheduled limit leaves room for one more car. -/
def withinSchedule (env : Environment) (s : Database) (config : StationPower) : Prop :=
  ∀ limit ∈ env.scheduled_limit_w config.station_id, config.applied_limit_w ≤ limit ∧
    ((s.connector_power.filter (·.station_id = config.station_id)).map (·.reserved_w)).sum + 1380 ≤ limit

instance (env : Environment) (s : Database) (config : StationPower) : Decidable (withinSchedule env s config) :=
  inferInstanceAs (Decidable (∀ limit ∈ env.scheduled_limit_w config.station_id, _))

/-- Controlled power allows one more car. -/
def powerReady (env : Environment) (s : Database) (config : StationPower) : Prop :=
  (config.state = .ready ∨ config.state = .applying) ∧ config.issue.getD "" = "" ∧
  config.target_enabled = true ∧ withinSchedule env s config ∧
  registered_connectors s config.station_id ≠ [] ∧
  ∀ k ∈ registered_connectors s config.station_id, ∃ cap ∈ s.connector_power, cap.connector_id = k.1.id ∧
    cap.station_id = config.station_id ∧ cap.baseline_boot_at ≠ none ∧
    cap.baseline_boot_at = k.2.last_boot_at

instance (env : Environment) (s : Database) (config : StationPower) : Decidable (powerReady env s config) :=
  inferInstanceAs (Decidable (_ ∧ _))

/-- `power_start_allowed`. -/
def power_start_allowed (env : Environment) (s : Database) (station_id : ℕ) : Bool :=
  (s.station_power.find? (·.station_id = station_id)).all fun config => !config.enabled || powerReady env s config

/-! ## 2. `authorize` -/

def tagTail (tag : String) : String := String.ofList (tag.toList.drop (tag.toList.length - 4))

/-- The station may charge cars. -/
def stationOpen (env : Environment) (station_id : ℕ) : Bool :=
  (env.stations.find? (·.id = station_id)).any fun station => !station.archived && station.status == .active

/-- The result before reservations, power and wallet are looked at. -/
def cardStatus (env : Environment) (charger : ChargePoint) (card : Option ChargingCard) : AuthorizationStatus :=
  if stationOpen env charger.station_id = false then .blocked
  else
    match card with
    | none => .invalid
    | some card =>
      if card.active = false ∨ card.user_active = false ∨ card.is_driver = false then .blocked
      else if ∃ e ∈ card.expires_at, e ≤ env.now then .expired
      else .accepted

/-- The result with reservations and power. -/
def admission (env : Environment) (s : Database) (charger : ChargePoint) (card : Option ChargingCard)
    (reservation_context : Bool) : AuthorizationStatus :=
  if cardStatus env charger card ≠ .accepted then cardStatus env charger card
  else if reservation_context = false ∧ ¬ ∃ c ∈ card, authorize_allowed s charger c env.now then .blocked
  else if power_start_allowed env s charger.station_id = false then .blocked
  else .accepted

/-- `du_so_du_de_sac` for the card's driver, if the driver may not start. -/
def walletFailure (env : Environment) (s : Database) (charger : ChargePoint) (card : ChargingCard) :
    Option ChargingEligibility := do
  let station ← env.stations.find? (·.id = charger.station_id)
  let eligibility := du_so_du_de_sac env s card.driver_id station
  if eligibility.allowed then none else some eligibility

/-- `authorize`: the result, the card and the reason of a wallet denial. -/
def authorize (env : Environment) (charger : ChargePoint) (tag : String) (reservation_context : Bool) :
    ChargingTx (AuthorizationStatus × Option ChargingCard × Option ChargingEligibility) := do
  if charger.id ∈ env.resets then return (.blocked, none, none)
  else
    let s ← read
    let card := env.cards.find? (·.tag_hash = env.sha256 tag)
    let admitted := admission env s charger card reservation_context
    raiseIf (admitted = .accepted ∧ card = none)
      (.runtimeError "Accepted authorization has no matching card")
    let wallet_failure := if admitted = .accepted then card.bind (walletFailure env s charger) else none
    raiseIf (∃ e ∈ wallet_failure, e.reason = none)
      (.runtimeError "Ineligible wallet has no rejection reason")
    let result := if wallet_failure.isSome then .blocked else admitted
    write fun s => { s with
      authorization_attempts := s.authorization_attempts ++ [⟨charger.id, tagTail tag, result⟩] }
    return (result, card, wallet_failure)

/-- `pending`. -/
def pending (charger : ChargePoint) (message_id reason : String) : ChargingTx Unit :=
  write fun s => { s with pending_messages := s.pending_messages ++ [⟨charger.id, message_id, reason⟩] }

/-! ## 3. Start requests of drivers (`charging/driver.py`) -/

def StartStatus.mayStart : StartStatus → Bool
  | .Pending | .Accepted | .StartNotConfirmed | .Timeout | .Disconnected => true
  | .Rejected | .Started | .Offline | .ProtocolError => false

/-- The newest start request that a start with the card's virtual tag answers. -/
def startRequest (env : Environment) (s : Database) (connector_id : ℕ) (card : Option ChargingCard) :
    Option DriverStartRequest := do
  let card ← card
  if card.id ∈ env.virtual_tags then
    let found ← latest ((s.start_requests.filter fun r => r.driver_id = card.driver_id ∧
      r.connector_id = connector_id ∧ r.session_id = none ∧ r.status.mayStart).map fun r => (r.created_at, r))
    return found.2
  else none

/-- The update of a start request. -/
def saveRequest (r : DriverStartRequest) (s : Database) : Database :=
  { s with start_requests := Table.modify DriverStartRequest.id r.id (fun _ => r) s.start_requests }

/-- The answer to the request that a start belongs to. -/
def answerRequest (env : Environment) (connector_id : ℕ) (card : Option ChargingCard)
    (answer : DriverStartRequest → DriverStartRequest) : ChargingTx Unit :=
  write fun s =>
    match startRequest env s connector_id card with
    | some r => saveRequest { answer r with id := r.id, lease_until := env.now } s
    | none => s

def reject_remote_start (env : Environment) (connector_id : ℕ) (card : Option ChargingCard)
    (eligibility : ChargingEligibility) : ChargingTx Unit :=
  answerRequest env connector_id card fun r => { r with
    status := .Rejected, rejection_reason := eligibility.reason
    balance_vnd := eligibility.balance_vnd, minimum_balance_vnd := eligibility.minimum_balance_vnd }

def reject_unavailable_start (env : Environment) (connector_id : ℕ) (card : Option ChargingCard)
    (reason : String) : ChargingTx Unit :=
  answerRequest env connector_id card fun r => { r with status := .Rejected, rejection_reason := some reason }

def attach_remote_start (env : Environment) (transaction : Session) (card : Option ChargingCard) :
    ChargingTx Unit :=
  if transaction.authorization_status ≠ .accepted then return ()
  else
    answerRequest env transaction.connector_id card fun r =>
      { r with status := .Started, session_id := some transaction.id }

/-- `note_power_start`. -/
def note_power_start (station_id connector_id : ℕ) : ChargingTx Unit :=
  write fun s =>
    match s.station_power.find? (·.station_id = station_id) with
    | some config =>
      let unconfirmed (cap : ConnectorPower) : ConnectorPower := { cap with confirmed_w := 0 }
      if config.enabled then
        { s with connector_power := Table.modify (·.connector_id) connector_id unconfirmed s.connector_power }
      else s
    | none => s

/-! ## 4. `start_transaction` -/

/-- `Counter`: an integer of 32 bits. -/
abbrev Counter := { n : ℤ // -2147483648 ≤ n ∧ n ≤ 2147483647 }

structure StartPayload where
  idTag : String
  connectorId : ℕ
  meterStart : Counter
  timestamp : ℤ
  reservationId : Option ℤ
  deriving DecidableEq, Repr

/-- The reply to a start. -/
structure StartReply where
  transactionId : ℕ
  status : AuthorizationStatus
  deriving DecidableEq, Repr

/-- A computation on the reservations. -/
def onReservations {α : Type} (x : ReservationTx α) : ChargingTx α :=
  zoom (fun s : Database => (⟨s.books.wallet, s.books.reservations, s.books.ocpp_seq⟩ : ReservationDb))
    (fun t s => { s with books := { s.books with
      wallet := t.wallet, reservations := t.reservations, ocpp_seq := t.ocpp_seq } })
    ChargingError.reservation x

/-- The reservation id of a start. A negative one names no reservation, like the next of the sequence. -/
def startReservation (s : Database) (reservationId : Option ℤ) : Option ℕ :=
  reservationId.map fun r => if 0 ≤ r then r.toNat else s.books.ocpp_seq

/-- The connector of a charge point with this number. -/
def Database.connectorOf (s : Database) (charger_id connectorId : ℕ) : Option Connector :=
  s.connectors.find? fun k => k.charge_point_id = charger_id ∧ k.connector_number = connectorId ∧
    k.archived = false

/-- The newest session on a connector of this charge point. -/
def Database.previousSession (s : Database) (charger_id : ℕ) (connector : Connector) : Option Session :=
  (s.charging_sessions.filter fun c => c.charge_point_id = charger_id ∧ c.connector_id = connector.id).getLast?

/-- An open session ends because another one starts. -/
def replaced (now : ℤ) (old : Session) : Session :=
  { review "replaced_open_session"
      { old with ended_at := some now, stop_reason := some .ReplacedByNewTransaction } with
    abnormal_since := none }

/-- A session that ended, and whose connector was not released before the next one. -/
def replacedBeforeRelease (c : Session) : Prop :=
  c.billing_lifecycle_version = 1 ∧ c.ended_at ≠ none ∧ c.connector_released_at = none

instance (c : Session) : Decidable (replacedBeforeRelease c) := inferInstanceAs (Decidable (_ ∧ _))

/-- `result.lower()`. -/
def lower : AuthorizationStatus → String
  | .accepted => "accepted"
  | .blocked => "blocked"
  | .expired => "expired"
  | .invalid => "invalid"
  | .concurrentTx => "concurrenttx"

/-- The new session. -/
def newSession (env : Environment) (charger : ChargePoint) (connector : Connector) (payload : StartPayload)
    (result : AuthorizationStatus) (card : Option ChargingCard) (hasOld : Bool) (id : ℕ) : Session :=
  let c : Session :=
    { id, charge_point_id := charger.id, connector_id := connector.id
      driver_id := card.map (·.driver_id), tag_tail := tagTail payload.idTag
      authorization_status := result, started_at := payload.timestamp, ended_at := none, idle_since := none
      billing_lifecycle_version := 1
      release_detection := if env.billing_available_confirms_unplug then .available else .explicit
      connector_released_at := none, settlement := none, meter_start_wh := some payload.meterStart.val
      meter_stop_wh := none, energy_kwh := none, stop_reason := none, recovery_at := none
      abnormal_since := none, manual_closed_at := none, manual_close_reason := none, closed_by := none
      review_reasons := [], received_at := env.now }
  let c := if result ≠ .accepted then review ("authorization_" ++ lower result) c else c
  let c := if payload.meterStart.val < 0 then review "negative_start_meter" c else c
  if hasOld then review "replaced_open_session" c else c

/-- The open session of the connector ends, if there is one. -/
def closeOld (env : Environment) (connector : Connector) : ChargingTx Bool := do
  let s ← read
  match s.charging_sessions.find? fun c => c.connector_id = connector.id ∧ c.ended_at = none with
  | some old =>
    write (saveSession (replaced env.now old))
    return true
  | none => return false

/-- The session before is flagged if its connector was not released. It may have ended just now. -/
def flagPrevious (previous : Option Session) : ChargingTx Unit := do
  let s ← read
  match previous.bind fun p => s.charging_sessions.find? (·.id = p.id) with
  | some p =>
    if replacedBeforeRelease p then write (saveSession (review "occupation_replaced_before_release" p))
    else return ()
  | none => return ()

/-- The reservation of a start is used up. -/
def consumeHold (env : Environment) (session_id : ℕ) : Option Reservation → ChargingTx Unit
  | some row => onReservations (save (consume row session_id env.now))
  | none => return ()

/-- The insert of the new session and what follows it. -/
def beginSession (env : Environment) (charger : ChargePoint) (connector : Connector) (payload : StartPayload)
    (result : AuthorizationStatus) (card : Option ChargingCard) (reservation : Option Reservation)
    (hasOld : Bool) : ChargingTx StartReply := do
  let s ← read
  let c := newSession env charger connector payload result card hasOld s.session_seq
  write fun s => { s with charging_sessions := s.charging_sessions ++ [c], session_seq := s.session_seq + 1 }
  consumeHold env c.id reservation
  write fun s => { s with charge_points := s.charge_points.map fun p =>
    if p.id = charger.id ∧ p.code_locked_at = none then { p with code_locked_at := some env.now } else p }
  attach_remote_start env c card
  if result = .accepted then note_power_start charger.station_id connector.id
  return ⟨c.id, result⟩

/-- A start that is refused. -/
def refuseStart (env : Environment) (charger : ChargePoint) (message_id : String) (connector : Connector)
    (card : Option ChargingCard) (reason : String) : ChargingTx StartReply := do
  reject_unavailable_start env connector.id card reason
  pending charger message_id reason
  return ⟨0, .blocked⟩

/-- `start_transaction`. -/
def start_transaction (env : Environment) (charger : ChargePoint) (message_id : String)
    (payload : StartPayload) : ChargingTx StartReply := do
  let s ← read
  let connector ← orRaise (s.connectorOf charger.id payload.connectorId)
    (.valueError "Connector is not registered")
  let previous := s.previousSession charger.id connector
  let (result, card, wallet_failure) ← authorize env charger payload.idTag true
  let (allowed, reservation) ← onReservations (validate_start env.now
    ⟨connector.uuid, card.map (·.toCard), startReservation s payload.reservationId, payload.timestamp⟩)
  let s ← read
  if allowed = false ∨ (reservation.isSome ∧ result ≠ .accepted ∧ wallet_failure = none) then
    refuseStart env charger message_id connector card "reservation_unavailable"
  else if stationOpen env charger.station_id = false then
    refuseStart env charger message_id connector card "station_unavailable"
  else if power_start_allowed env s charger.station_id = false then
    refuseStart env charger message_id connector card "power_unavailable"
  else
    match wallet_failure with
    | some eligibility =>
      reject_remote_start env connector.id card eligibility
      let reason ← orRaise eligibility.reason .assertionError
      pending charger message_id reason
      return ⟨0, .blocked⟩
    | none =>
      let hasOld ← closeOld env connector
      flagPrevious previous
      beginSession env charger connector payload result card reservation hasOld

/-! ## 5. `meter_values` -/

structure MeterPayload where
  connectorId : ℕ
  transactionId : Option ℤ
  meterValue : List MeterBlock
  deriving DecidableEq, Repr

/-- The session of a report: the named one, or the open one of the connector. -/
def meterSession (s : Database) (charger_id : ℕ) (payload : MeterPayload) : Option Session :=
  s.charging_sessions.find? fun c => c.charge_point_id = charger_id ∧
    (∃ k ∈ s.connectors, k.id = c.connector_id ∧ k.connector_number = payload.connectorId) ∧
    (payload.transactionId = some (c.id : ℤ) ∨ (payload.transactionId = none ∧ c.ended_at = none))

/-- Reports are stored: the session is open, or it ended in recovery, and not by hand. -/
def takesReports (c : Session) : Prop :=
  c.manual_closed_at = none ∧ (c.ended_at = none ∨ c.recovery_at ≠ none)

instance (c : Session) : Decidable (takesReports c) := inferInstanceAs (Decidable (_ ∧ _))

/-- `meter_values`: the rows to insert with the reply. -/
def meter_values (charger : ChargePoint) (message_id : String) (payload : MeterPayload) :
    ChargingTx (List MeterSample) := do
  let s ← read
  match meterSession s charger.id payload with
  | none =>
    pending charger message_id "no_matching_open_session"
    return []
  | some c =>
    if ¬ takesReports c then
      pending charger message_id "no_matching_open_session"
      return []
    else
      let (c, rows) ← lift (storeSamples (s.samplesOf c.id) c payload.meterValue
        (payload.transactionId.isSome && c.recovery_at.isSome))
      write (saveSession c)
      return rows

/-- A MeterValues report: the dispatcher inserts the rows with its reply. -/
def meterReport (charger : ChargePoint) (message_id : String) (payload : MeterPayload) : ChargingTx Unit := do
  let rows ← meter_values charger message_id payload
  insert_meter_rows rows

/-! ## 6. `stop_transaction` -/

structure StopPayload where
  transactionId : ℤ
  meterStop : Counter
  timestamp : ℤ
  reason : StopReason
  transactionData : List MeterBlock
  deriving DecidableEq, Repr

/-- The reasons that the end of a session settles. -/
def SETTLED_BY_STOP : List String :=
  ["offline_timeout", "available_with_open_session", "remote_stop_not_confirmed"]

/-- The newest reading of the billed register up to the stop. -/
def latestMeter (samples : List MeterSample) (c : Session) (stop : ℤ) : Option ℚ :=
  (latest ((samples.filter fun m => sampleSeries m = outletRegister ∧ m.unit = "Wh" ∧
    c.started_at ≤ m.timestamp ∧ m.timestamp ≤ stop).map fun m => (m.timestamp, reading m))).map (·.2)

/-- The session with the stop, before the samples of the stop are looked at. -/
def withStop (payload : StopPayload) (c : Session) : Session :=
  { c with
    meter_stop_wh := some payload.meterStop.val
    ended_at := some payload.timestamp
    stop_reason := some payload.reason }

/-- A review under a condition. -/
def reviewIf (b : Prop) [Decidable b] (reason : String) (c : Session) : Session :=
  if b then review reason c else c

/-- The energy of the session, if the readings are in order. -/
def stopEnergy (payload : StopPayload) (c : Session) : Session :=
  if payload.meterStop.val < c.startWh ∨ payload.meterStop.val < 0 ∨ c.startWh < 0 then
    { review "stop_meter_below_start" c with energy_kwh := none }
  else if c.started_at ≤ payload.timestamp then
    { c with energy_kwh := some ((payload.meterStop.val - c.startWh) / 1000) }
  else c

/-- The session after the samples of the stop were stored. -/
def finishStop (payload : StopPayload) (latest_meter : Option ℚ) (c : Session) : Session :=
  let c := reviewIf (∃ v ∈ latest_meter, payload.meterStop.val < v) "stop_meter_below_latest" c
  let c := withoutReasons SETTLED_BY_STOP { c with abnormal_since := none }
  stopEnergy payload (reviewIf (payload.timestamp < c.started_at) "stop_before_start" c)

/-- `stop_transaction`. -/
def stop_transaction (charger : ChargePoint) (message_id : String) (payload : StopPayload) :
    ChargingTx Unit := do
  let s ← read
  match s.charging_sessions.find? fun c => (c.id : ℤ) = payload.transactionId ∧
      c.charge_point_id = charger.id with
  | none => pending charger message_id "unknown_transaction"
  | some c =>
    if c.ended_at ≠ none then pending charger message_id "already_closed_transaction"
    else
      let (stopped, rows) ← lift (storeSamples (s.samplesOf c.id) (withStop payload c)
        payload.transactionData c.recovery_at.isSome)
      insert_meter_rows rows
      let s ← read
      let stopped := finishStop payload (latestMeter (s.samplesOf c.id) c payload.timestamp) stopped
      write (saveSession stopped)
      if c.abnormal_since.isSome ∨ c.recovery_at.isSome then write (addEvent c.id .late_stop)
      note_stop stopped

end Csms.Charging
