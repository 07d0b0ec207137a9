import Csms.Charging.Models

/-!
# Operational alerts (`alerts/service.py`, `alerts/models.py`)

`scan_alerts` looks at every charger in service, opens an alert for one that is offline for long or reports
many errors, and rearms its rule when it has recovered. `World` holds the tables that other components write.
Instants are microseconds of UTC; the ids that `uuid4` draws are a parameter.
-/

namespace Csms.Alerts

open Csms.Wallets (RoleCode)
open Csms.Charging (StationStatus)

/-! ## 1. The tables -/

def SECOND : ℤ := 1000000

structure Station where
  id : Uuid
  status : StationStatus
  archived_at : Option ℤ
  deriving DecidableEq, Repr

/-- A charger; `online` is the status of that name. -/
structure ChargePoint where
  id : Uuid
  station_id : Uuid
  online : Bool
  last_seen_at : Option ℤ
  last_boot_at : Option ℤ
  heartbeat_interval_seconds : ℕ
  heartbeat_positive : 0 < heartbeat_interval_seconds
  archived_at : Option ℤ
  created_at : ℤ
  deriving DecidableEq

structure Connector where
  id : Uuid
  charge_point_id : Uuid
  archived_at : Option ℤ
  deriving DecidableEq, Repr

structure ConnectorError where
  connector_id : Uuid
  occurred_at : ℤ
  deriving DecidableEq, Repr

/-- The tables the alerts only read. -/
structure World where
  stations : List Station
  points : List ChargePoint
  connectors : List Connector
  errors : List ConnectorError
  points_keyed : (points.map (·.id)).Nodup

/-- The rule of one charger. -/
structure AlertRuleState where
  armed : Bool
  online_since : Option ℤ
  recovery_last_seen : Option ℤ
  recovery_observations : ℕ
  deriving DecidableEq, Repr

inductive AlertKind where
  | offline | error_burst
  deriving DecidableEq, Repr

inductive AlertStatus where
  | open_ | acknowledged | closed
  deriving DecidableEq, Repr

/-- `ACTIVE`. -/
def AlertStatus.active : AlertStatus → Bool
  | .open_ | .acknowledged => true
  | .closed => false

structure AlertDetails where
  error_count : ℕ
  error_window_seconds : ℕ
  offline_grace_seconds : ℕ
  heartbeat_interval_seconds : ℕ
  deriving DecidableEq, Repr

structure OperationalAlert where
  id : Uuid
  charge_point_id : Uuid
  kind : AlertKind
  status : AlertStatus
  opened_at : ℤ
  recovered_at : Option ℤ
  acknowledged_at : Option ℤ
  acknowledged_by : Option Uuid
  closed_at : Option ℤ
  closed_by : Option Uuid
  close_reason : Option String
  details : AlertDetails
  deriving DecidableEq, Repr

inductive EmailStatus where
  | pending | sending | retry | sent | failed
  deriving DecidableEq, Repr

structure AlertEmail where
  alert_id : Uuid
  recipient : String
  status : EmailStatus
  attempts : ℕ
  next_attempt_at : ℤ
  last_error : Option String
  deriving DecidableEq, Repr

structure AuditLog where
  actor_id : Uuid
  action : String
  object_id : Uuid
  before : AlertStatus
  after : AlertStatus
  reason : Option String
  deriving DecidableEq, Repr

/-- The database; a rule has the charger as its primary key. -/
structure AlertDb where
  world : World
  states : Uuid → Option AlertRuleState
  alerts : List OperationalAlert
  emails : List AlertEmail
  audit_logs : List AuditLog

/-- `settings`, with the bounds that are validated. -/
structure AlertSettings where
  alert_offline_grace_seconds : ℕ
  alert_error_window_seconds : ℕ
  alert_error_threshold : ℕ
  threshold_ge : 2 ≤ alert_error_threshold
  alert_email_recipients : List String
  alert_smtp_enabled : Bool
  smtp_enabled : Bool

inductive AlertError where
  | http (status_code : ℕ) (detail : String)
  | integrityError (constraint : String)
  deriving DecidableEq, Repr

/-! ## 2. What a scan observes -/

/-- Twice the heartbeat interval. -/
def ChargePoint.heartbeats (p : ChargePoint) : ℤ := 2 * p.heartbeat_interval_seconds * SECOND

/-- `live`. -/
def live (p : ChargePoint) (now : ℤ) : Bool :=
  p.online && p.last_boot_at.isSome &&
    p.last_seen_at.any fun seen => decide (seen ≤ now) && decide (now - seen ≤ p.heartbeats)

/-- `now - error_window`. -/
def AlertSettings.windowStart (settings : AlertSettings) (now : ℤ) : ℤ :=
  now - settings.alert_error_window_seconds * SECOND

/-- The errors of a charger up to `now`; `archived` tells whether archived connectors count. -/
def World.errorTimes (w : World) (archived : Bool) (point : Uuid) (now : ℤ) : List ℤ :=
  (w.errors.filter fun e => decide (e.occurred_at ≤ now) && w.connectors.any fun c =>
    c.id = e.connector_id ∧ c.charge_point_id = point ∧ (archived = true ∨ c.archived_at = none)).map (·.occurred_at)

/-- A charger in service: not archived, its station neither archived nor blocked. -/
def World.inService (w : World) (p : ChargePoint) : Bool :=
  decide (p.archived_at = none) && w.stations.any fun s =>
    s.id = p.station_id ∧ s.archived_at = none ∧ s.status ≠ .blocked

/-- The chargers a scan selects. -/
def World.scanned (w : World) : List ChargePoint := w.points.filter w.inService

/-- The rule of a charger that has none. -/
def AlertRuleState.initial : AlertRuleState := ⟨true, none, none, 0⟩

/-- A contact with the charger noted in its rule. -/
def noteContact (now : ℤ) (p : ChargePoint) (state : AlertRuleState) : AlertRuleState :=
  if live p now then
    let state := if state.online_since = none then
      { state with online_since := some now, recovery_observations := 0 } else state
    if state.recovery_last_seen ≠ p.last_seen_at then
      { state with
        recovery_observations := state.recovery_observations + 1
        recovery_last_seen := p.last_seen_at }
    else state
  else { state with online_since := none, recovery_last_seen := none, recovery_observations := 0 }

/-- What the scan finds out about one charger; `state` is its rule with the contact noted. -/
structure Observation where
  state : AlertRuleState
  error_count : ℕ
  recovered : Bool
  offline_late : Bool
  trigger : Bool
  deriving DecidableEq, Repr

/-- The turn of the loop up to `trigger`. -/
def observe (settings : AlertSettings) (now : ℤ) (before : AlertDb) (p : ChargePoint) : Observation :=
  let state := noteContact now p ((before.states p.id).getD .initial)
  let times := before.world.errorTimes false p.id now
  let count := times.countP (settings.windowStart now ≤ ·)
  let quiet := times.max?.all (· ≤ settings.windowStart now)
  let recovered := live p now && (state.online_since.any fun since => p.heartbeats ≤ now - since) &&
    decide (2 ≤ state.recovery_observations) && quiet
  let reference := p.last_seen_at.getD p.created_at
  let offline_late := !live p now &&
    decide (p.heartbeats + settings.alert_offline_grace_seconds * SECOND ≤ now - reference)
  ⟨state, count, recovered, offline_late, offline_late || decide (settings.alert_error_threshold ≤ count)⟩

/-! ## 3. The scan -/

/-- The active alert of a charger. -/
def AlertDb.active (db : AlertDb) (point : Uuid) : Option OperationalAlert :=
  db.alerts.find? fun a => a.charge_point_id = point ∧ a.status.active = true

/-- `queue_email`. -/
def queue_email (settings : AlertSettings) (alert : Uuid) (now : ℤ) (db : AlertDb) : AlertDb :=
  let recipients := settings.alert_email_recipients.dedup.insertionSort (· ≤ ·)
  { db with emails := db.emails ++ recipients.map fun r => ⟨alert, r, .pending, 0, now, none⟩ }

/-- The insertion of an alert, under the primary key and `uq_operational_alert_active_charger`. -/
def addAlert (alert : OperationalAlert) (db : AlertDb) : Except AlertError AlertDb :=
  if ∃ a ∈ db.alerts, a.id = alert.id then .error (.integrityError "operational_alerts_pkey")
  else if (db.active alert.charge_point_id).isSome then
    .error (.integrityError "uq_operational_alert_active_charger")
  else .ok { db with alerts := db.alerts ++ [alert] }

/-- The alert a scan opens. -/
def newAlert (settings : AlertSettings) (id : Uuid) (now : ℤ) (p : ChargePoint) (o : Observation) :
    OperationalAlert where
  id := id
  charge_point_id := p.id
  kind := if o.offline_late then .offline else .error_burst
  status := .open_
  opened_at := now
  recovered_at := none
  acknowledged_at := none
  acknowledged_by := none
  closed_at := none
  closed_by := none
  close_reason := none
  details := ⟨o.error_count, settings.alert_error_window_seconds, settings.alert_offline_grace_seconds,
    p.heartbeat_interval_seconds⟩

/-- `alert.recovered_at` after an observation. -/
def markRecovery (now : ℤ) (o : Observation) (alert : OperationalAlert) : OperationalAlert :=
  { alert with recovered_at := if o.recovered then alert.recovered_at.or (some now) else none }

/-- The rest of the turn: `before` is what the scan has read, `db` what it has written so far. -/
def scanPoint (settings : AlertSettings) (uuid4 : Uuid → Uuid) (now : ℤ) (before : AlertDb) (acc : AlertDb × ℕ)
    (p : ChargePoint) : Except AlertError (AlertDb × ℕ) := do
  let (db, opened) := acc
  let o := observe settings now before p
  let armed := o.recovered || o.state.armed
  let db := { db with states := Function.update db.states p.id (some { o.state with armed := armed && !o.trigger }) }
  match before.active p.id with
  | some alert =>
    .ok ({ db with alerts := Table.modify (·.id) alert.id (markRecovery now o) db.alerts }, opened)
  | none =>
    if o.trigger && armed then
      let db ← addAlert (newAlert settings (uuid4 p.id) now p o) db
      .ok (queue_email settings (uuid4 p.id) now db, opened + 1)
    else .ok (db, opened)

/-- `scan_alerts`; `locked` tells whether it gets the advisory lock. -/
def scan_alerts (settings : AlertSettings) (locked : Bool) (uuid4 : Uuid → Uuid) (now : ℤ) (db : AlertDb) :
    Except AlertError (AlertDb × ℕ) :=
  if locked then db.world.scanned.foldlM (scanPoint settings uuid4 now db) (db, 0) else .ok (db, 0)

/-! ## 4. Mutations -/

/-- The actor of a request and the roles of its evidence. -/
structure Actor where
  actor_id : Uuid
  roles : List RoleCode

inductive Action where
  | acknowledge
  | close (force : Bool) (reason : String)
  | retryEmail
  deriving DecidableEq, Repr

def Action.name : Action → String
  | .acknowledge => "acknowledge"
  | .close _ _ => "close"
  | .retryEmail => "retry-email"

/-- The alert of a request: its charger and station are not archived. -/
def AlertDb.visible (db : AlertDb) (alert_id : Uuid) : Option OperationalAlert :=
  db.alerts.find? fun a => a.id = alert_id ∧ ∃ p ∈ db.world.points, p.id = a.charge_point_id ∧
    p.archived_at = none ∧ ∃ s ∈ db.world.stations, s.id = p.station_id ∧ s.archived_at = none

def saveAlert (alert : OperationalAlert) (db : AlertDb) : AlertDb :=
  { db with alerts := Table.modify (·.id) alert.id (fun _ => alert) db.alerts }

/-- `ghi_nhat_ky`. -/
def ghi_nhat_ky (actor : Actor) (action : Action) (before alert : OperationalAlert) (db : AlertDb) : AlertDb :=
  { db with audit_logs := db.audit_logs ++
      [⟨actor.actor_id, "alert." ++ action.name, alert.id, before.status, alert.status, alert.close_reason⟩] }

/-- The check of `close` that the charger is live and quiet. -/
def recoveredNow (settings : AlertSettings) (now : ℤ) (db : AlertDb) (alert : OperationalAlert) : Bool :=
  (db.world.points.find? (·.id = alert.charge_point_id)).any (live · now) &&
    (db.world.errorTimes true alert.charge_point_id now).max?.all (· ≤ settings.windowStart now)

/-- A failed email is sent again. -/
def retried (now : ℤ) (email : AlertEmail) : AlertEmail :=
  { email with status := .pending, next_attempt_at := now, attempts := 0, last_error := none }

/-- `mutate_alert`. -/
def mutate_alert (settings : AlertSettings) (now : ℤ) (actor : Actor) (alert_id : Uuid) (action : Action)
    (db : AlertDb) : Except AlertError AlertDb :=
  match db.visible alert_id with
  | none => .error (.http 404 "resource_not_found")
  | some alert =>
    match action with
    | .acknowledge =>
      if alert.status = .closed then .error (.http 409 "alert_already_closed")
      else if alert.status = .acknowledged then .ok db
      else
        let saved := { alert with
          status := .acknowledged, acknowledged_at := some now, acknowledged_by := some actor.actor_id }
        .ok (ghi_nhat_ky actor action alert saved (saveAlert saved db))
    | .close force reason =>
      if force ∧ .admin ∉ actor.roles then .error (.http 403 "permission_denied")
      else if force ∧ Text.strip reason = "" then .error (.http 422 "alert_close_reason_required")
      else if alert.status = .closed then .ok db
      else if ¬ force ∧ alert.recovered_at = none then .error (.http 409 "alert_not_recovered")
      else if ¬ force ∧ recoveredNow settings now db alert = false then .error (.http 409 "alert_not_recovered")
      else
        let saved := { alert with
          status := .closed, closed_at := some now, closed_by := some actor.actor_id
          close_reason := some (if Text.strip reason = "" then "recovered" else Text.strip reason) }
        .ok (ghi_nhat_ky actor action alert saved (saveAlert saved db))
    | .retryEmail =>
      if settings.alert_smtp_enabled = false ∨ settings.smtp_enabled = false then
        .error (.http 409 "alert_email_not_configured")
      else
        let rows := db.emails.filter (·.alert_id = alert.id)
        if rows = [] then .ok (ghi_nhat_ky actor action alert alert (queue_email settings alert.id now db))
        else if rows.any (·.status = .failed) then
          .ok (ghi_nhat_ky actor action alert alert { db with
            emails := db.emails.map fun e => if e.alert_id = alert.id ∧ e.status = .failed then retried now e else e })
        else .ok db

/-! ## 5. Runs -/

/-- A scan, a mutation, the email worker, or a change of the other tables. -/
inductive Event where
  | scan (locked : Bool) (now : ℤ) (uuid4 : Uuid → Uuid)
  | mutate (now : ℤ) (actor : Actor) (alert_id : Uuid) (action : Action)
  | deliver (emails : List AlertEmail)
  | world (w : World)

/-- The time of a scan. -/
def Event.scanTime : Event → Option ℤ
  | .scan _ now _ => some now
  | _ => none

/-- One transaction; one that raises changes nothing. -/
def step (settings : AlertSettings) (db : AlertDb) : Event → AlertDb
  | .scan locked now uuid4 => match scan_alerts settings locked uuid4 now db with
    | .ok (db, _) => db
    | .error _ => db
  | .mutate now actor alert_id action => match mutate_alert settings now actor alert_id action db with
    | .ok db => db
    | .error _ => db
  | .deliver emails => { db with emails := emails }
  | .world w => { db with world := w }

/-- Each event of a run with the state before it. -/
def trace (settings : AlertSettings) : AlertDb → List Event → List (AlertDb × Event)
  | _, [] => []
  | db, e :: events => (db, e) :: trace settings (step settings db e) events

/-- No alert was opened and no charger scanned. -/
def AlertDb.Fresh (db : AlertDb) : Prop := db.alerts = [] ∧ ∀ c, db.states c = none

end Csms.Alerts
