import Csms.Charging.Service

/-!
# Contact with chargers and recovery (`ocpp/monitoring.py`, `charging/recovery.py`, `ocpp/control.py`)

Notifications that carry a time are taken in the order of their times. The server's clock tells when a
charger is out of contact; the sessions that it left open are flagged and may be closed by hand.
-/

namespace Csms.Charging

open Tx Points Csms.Reservations Csms.Accounts
open Csms.Billing (MeterSample)

/-! ## 1. Contact -/

/-- `expired`. -/
def expired (now : ℤ) (p : ChargePoint) : Prop :=
  ∀ seen ∈ p.last_seen_at, seen < now - 2 * p.heartbeat_interval_seconds * SECOND

instance (now : ℤ) (p : ChargePoint) : Decidable (expired now p) :=
  inferInstanceAs (Decidable (∀ seen ∈ p.last_seen_at, _))

/-- The connectors of some charge points become unknown. -/
def forgetConnectors (now : ℤ) (points : List ℕ) (s : Database) : Database :=
  let forget (k : Connector) : Connector :=
    if k.charge_point_id ∈ points ∧ k.archived = false then
      { k with status := .unknown, raw_ocpp_status := none, status_updated_at := now }
    else k
  { s with connectors := s.connectors.map forget }

/-- `mark_seen`, and `lock_and_mark_seen` on the locked row: the contact is recorded, and after a gap the
connectors are unknown. -/
def mark_seen (env : Environment) (charger_id : ℕ) : ChargingTx Unit := do
  let s ← read
  match s.charge_points.find? fun p => p.id = charger_id ∧ p.archived = false with
  | none => return ()
  | some p =>
    let seen (q : ChargePoint) : ChargePoint := { q with last_seen_at := some env.now }
    write fun s => { s with charge_points := Table.modify (·.id) charger_id seen s.charge_points }
    if ∀ seen ∈ p.last_seen_at, 2 * p.heartbeat_interval_seconds * SECOND < env.now - seen then
      write (forgetConnectors env.now [charger_id])
      if p.last_seen_at ≠ none then note_offline_gap charger_id

/-- The stale charge points go offline. -/
def goOffline (now : ℤ) (stale : List ℕ) (s : Database) : Database :=
  let offline (p : ChargePoint) : ChargePoint :=
    if p.id ∈ stale ∧ p.online then { p with online := false, status_updated_at := now } else p
  { s with charge_points := s.charge_points.map offline }

/-- `note_offline_gap` for each of some charge points. -/
def note_offline_gaps : List ℕ → ChargingTx Unit
  | [] => return ()
  | charger_id :: rest => do
    note_offline_gap charger_id
    note_offline_gaps rest

/-- `expire_chargers`; `busy` are the charge points whose rows are locked. -/
def expire_chargers (env : Environment) (busy : List ℕ) : ChargingTx Unit := do
  let s ← read
  let stale := (s.charge_points.filter fun p => expired env.now p ∧ p.archived = false ∧ p.id ∉ busy).map (·.id)
  note_offline_gaps stale
  write (forgetConnectors env.now stale)
  write (goOffline env.now stale)

/-! ## 2. Status notifications -/

structure StatusPayload where
  connectorId : ℕ
  status : OcppStatus
  errorCode : String
  vendorErrorCode : Option String
  timestamp : Option ℤ
  deriving DecidableEq, Repr

/-- A status of the charge point itself. -/
def pointStatus (env : Environment) (payload : StatusPayload) (p : ChargePoint) : ChargePoint :=
  { p with
    raw_ocpp_status := some payload.status
    error_code := some payload.errorCode
    vendor_error_code := payload.vendorErrorCode
    error_at := if payload.errorCode ≠ "NoError" then some env.now else none
    status_updated_at := env.now }

/-- The connector takes a status: one with a time only after all earlier ones. -/
def takesStatus (payload : StatusPayload) (k : Connector) : Prop :=
  ∀ stamp ∈ payload.timestamp, ∀ last ∈ k.last_status_notification_at, last < stamp

instance (payload : StatusPayload) (k : Connector) : Decidable (takesStatus payload k) :=
  inferInstanceAs (Decidable (∀ stamp ∈ payload.timestamp, ∀ last ∈ k.last_status_notification_at, _))

def connectorStatus (env : Environment) (payload : StatusPayload) (k : Connector) : Connector :=
  { k with
    status := payload.status
    raw_ocpp_status := some payload.status
    status_updated_at := env.now
    last_status_notification_at := payload.timestamp.orElse fun _ => k.last_status_notification_at }

/-- The idle time of an open session that is billed to its stop. -/
def idleUpdate (connector_id : ℕ) (status : OcppStatus) (stamp : ℤ) (c : Session) : Session :=
  if c.connector_id = connector_id ∧ c.ended_at = none ∧ c.started_at ≤ stamp ∧
      c.billing_lifecycle_version = 0 then
    if status = .SuspendedEV then
      if c.idle_since = none then { c with idle_since := some stamp } else c
    else { c with idle_since := none }
  else c

/-- The idle times after a status. -/
def updateIdle (connector_id : ℕ) (payload : StatusPayload) (s : Database) : Database :=
  match payload.timestamp with
  | some stamp =>
    if payload.status = .SuspendedEV ∨ payload.status = .Charging then
      { s with charging_sessions := s.charging_sessions.map (idleUpdate connector_id payload.status stamp) }
    else s
  | none => s

/-- `report_status`: whether a connector took the status. -/
def report_status (env : Environment) (charger : ChargePoint) (payload : StatusPayload) : ChargingTx Bool := do
  if payload.connectorId = 0 then
    write fun s => { s with
      charge_points := Table.modify (·.id) charger.id (pointStatus env payload) s.charge_points }
    return false
  else
    let s ← read
    match s.connectorOf charger.id payload.connectorId with
    | none => return false
    | some k =>
      if ¬ takesStatus payload k then return false
      else
        write fun s => { s with connectors := Table.modify (·.id) k.id (connectorStatus env payload) s.connectors }
        note_status k.id payload.status payload.timestamp
        write (updateIdle k.id payload)
        return true

/-! ## 3. Recovery -/

/-- `note_reconnection`. -/
def note_reconnection (env : Environment) (charger_id : ℕ) : ChargingTx Unit :=
  write fun s =>
    let open_ (c : Session) : Bool := c.charge_point_id = charger_id ∧ c.ended_at = none
    { s with
      charging_sessions :=
        s.charging_sessions.map fun c => if open_ c then { c with recovery_at := some env.now } else c
      session_events :=
        s.session_events ++ (s.charging_sessions.filter open_).map fun c => ⟨c.id, .reconnected⟩ }

/-- `note_connector_status`. -/
def note_connector_status (charger_id number : ℕ) (status : OcppStatus) : ChargingTx Unit := do
  let s ← read
  if number = 0 then return ()
  else
    match s.charging_sessions.find? fun c => c.charge_point_id = charger_id ∧ c.ended_at = none ∧
        ∃ k ∈ s.connectors, k.id = c.connector_id ∧ k.connector_number = number with
    | none => return ()
    | some c =>
      if status = .Available ∧ "available_with_open_session" ∉ c.review_reasons then
        write (saveSession (review "available_with_open_session" c))
        write (addEvent c.id .available_with_open_session)
      else if status = .Charging ∧ "available_with_open_session" ∈ c.review_reasons then
        write (saveSession (withoutReasons ["available_with_open_session"] c))
        write (addEvent c.id .charging_resumed)

/-- A StatusNotification, as the dispatcher handles it. -/
def status_notification (env : Environment) (charger : ChargePoint) (payload : StatusPayload) :
    ChargingTx Unit := do
  let taken ← report_status env charger payload
  if taken then note_connector_status charger.id payload.connectorId payload.status

/-- An open session of a charger that is out of contact for too long. -/
def isAbnormal (env : Environment) (p : ChargePoint) (c : Session) : Prop :=
  c.charge_point_id = p.id ∧ c.ended_at = none ∧ c.abnormal_since = none ∧
  env.charging_abnormal_offline_seconds * SECOND ≤
    env.now - (max (p.last_seen_at.getD c.received_at) c.received_at + 2 * p.heartbeat_interval_seconds * SECOND)

instance (env : Environment) (p : ChargePoint) (c : Session) : Decidable (isAbnormal env p c) :=
  inferInstanceAs (Decidable (_ ∧ _))

/-- The open sessions of one charger. -/
def flagAbnormal (env : Environment) (p : ChargePoint) (s : Database) : Database :=
  { s with
    charging_sessions := s.charging_sessions.map fun c =>
      if isAbnormal env p c then review "offline_timeout" { c with abnormal_since := some env.now } else c
    session_events :=
      s.session_events ++ (s.charging_sessions.filter (isAbnormal env p ·)).map fun c => ⟨c.id, .offline_timeout⟩ }

def flagAbnormals (env : Environment) : List ChargePoint → ChargingTx Unit
  | [] => return ()
  | p :: rest => do
    write (flagAbnormal env p)
    flagAbnormals env rest

/-- `flag_abnormal_sessions`; `busy` are the charge points whose rows are locked. -/
def flag_abnormal_sessions (env : Environment) (busy : List ℕ) : ChargingTx Unit := do
  let s ← read
  flagAbnormals env (s.charge_points.filter fun p => expired env.now p ∧ p.id ∉ busy)

/-- The newest sample of the billed register. -/
def latestRegister (samples : List MeterSample) : Option (ℤ × ℚ) := latest (history samples outletRegister)

/-- The session closed by hand at the reading `value`. -/
def closedManually (env : Environment) (actor_id : Uuid) (reason : String) (value : ℚ) (c : Session) : Session :=
  review "manual_closure" (withoutReasons ["offline_timeout", "available_with_open_session"]
    { c with
      meter_stop_wh := some value
      energy_kwh := some ((value - c.startWh) / 1000)
      ended_at := some env.now
      manual_closed_at := some env.now
      closed_by := some actor_id
      manual_close_reason := some reason
      stop_reason := some .ManualClosure
      abnormal_since := none })

/-- `manual_close` of a session that the router found. -/
def manual_close (env : Environment) (session_id : ℕ) (actor_id : Uuid) (reason : String) : ChargingTx Unit := do
  let s ← read
  let c ← orRaise (s.charging_sessions.find? (·.id = session_id)) (.http 404 "Không tìm thấy phiên.")
  raiseIf (c.ended_at ≠ none ∨ c.abnormal_since = none)
    (.http 409 "Chỉ được đóng tay phiên bất thường còn mở.")
  let invalid := ChargingError.http 409
    "Chưa có số đo điện năng cuối hợp lệ để đóng tay. Hãy kiểm tra trụ và số đo."
  let (timestamp, value) ← orRaise (latestRegister (s.samplesOf c.id)) invalid
  raiseIf (value < c.startWh ∨ c.startWh < 0) invalid
  raiseIf (env.now < timestamp ∨ env.now < c.started_at)
    (.http 409 "Thời gian số đo không hợp lệ. Hãy kiểm tra đồng hồ của trụ.")
  write (saveSession (closedManually env actor_id reason value c))
  write (addEvent c.id .manual_closure)

def STOP_CONFIRMATION_SECONDS : ℤ := 120

/-- An open session whose accepted remote stop was not followed by a stop in time. -/
def stopOverdue (env : Environment) (c : Session) : Prop :=
  c.ended_at = none ∧ "remote_stop_not_confirmed" ∉ c.review_reasons ∧
  ∃ r ∈ env.remote_stops, r.transaction_id = c.id ∧ r.accepted_at ≤ env.now - STOP_CONFIRMATION_SECONDS * SECOND

instance (env : Environment) (c : Session) : Decidable (stopOverdue env c) :=
  inferInstanceAs (Decidable (_ ∧ _))

/-- `scan_control_deadlines`, less the results of the commands. -/
def scan_control_deadlines (env : Environment) : ChargingTx Unit :=
  write fun s => { s with
    charging_sessions :=
      s.charging_sessions.map fun c => if stopOverdue env c then review "remote_stop_not_confirmed" c else c
    session_events := s.session_events ++
      (s.charging_sessions.filter (stopOverdue env ·)).map fun c => ⟨c.id, .remote_stop_not_confirmed⟩ }

end Csms.Charging
