import Csms.Charging.Admission

/-!
# Remote starts of drivers (`charging/driver.py`, `ocpp/control.py`)

`remote_start` is two transactions with the command to the charger between them: `admitStart`, and
`answerStart` once `send_command` has an outcome. The application's clock is read anew wherever the source
reads it, so it is a parameter of each function; `env.now` is the time of the database.

A start request leaves its lease by an update that the two partial indexes cannot reject, since no update
gives a lease to a request without one; they are checked at the insert.
-/

namespace Csms.Charging

open Tx Csms.Reservations

/-! ## 1. Commands and their results -/

def COMMAND_TIMEOUT : ℤ := 30 * SECOND
def START_CONFIRMATION_SECONDS : ℤ := 60

inductive CommandOutcome where
  | Accepted | Rejected | ProtocolError | Timeout | Disconnected | Offline
  deriving DecidableEq, Repr

/-- The outcome as the status of a start request. -/
def CommandOutcome.status : CommandOutcome → StartStatus
  | .Accepted => .Accepted
  | .Rejected => .Rejected
  | .ProtocolError => .ProtocolError
  | .Timeout => .Timeout
  | .Disconnected => .Disconnected
  | .Offline => .Offline

inductive ControlAction where
  | Reset | RemoteStopTransaction | DataTransfer | RemoteStartTransaction
  deriving DecidableEq, Repr

structure ControlRequest where
  id : Uuid
  actor_id : Uuid
  charge_point_id : ℕ
  transaction_id : Option ℕ
  action : ControlAction
  created_at : ℤ
  deriving DecidableEq, Repr

structure ControlResult where
  command_id : Uuid
  status : CommandOutcome
  received_at : ℤ
  deriving DecidableEq, Repr

/-- The tables of charging with those of commands. -/
structure DriverDb where
  db : Database
  control_requests : List ControlRequest
  control_results : List ControlResult

/-- The detail of an `HTTPException`. -/
inductive Detail where
  | text (message : String)
  | reason (reason : String)
  | balance (reason : String) (balance_vnd minimum_balance_vnd : Option ℤ)
  deriving DecidableEq, Repr

inductive DriverError where
  | http (status_code : ℕ) (detail : Detail)
  | runtimeError (message : String)
  | assertionError
  | integrityError (constraint : String)
  | wallet (failure : Wallets.WalletFailure)
  deriving DecidableEq, Repr

abbrev DriverTx := Tx DriverDb DriverError

/-- The insert of a result, on conflict do nothing. -/
def insertResult (command_id : Uuid) (status : CommandOutcome) (now : ℤ) (results : List ControlResult) :
    List ControlResult :=
  if ∃ r ∈ results, r.command_id = command_id then results else results ++ [⟨command_id, status, now⟩]

def record_result (command_id : Uuid) (status : CommandOutcome) (now : ℤ) : DriverTx Unit :=
  write fun s => { s with control_results := insertResult command_id status now s.control_results }

/-- The stored outcome: `none` stands for "Pending". -/
def command_status (s : DriverDb) (command_id : Uuid) : Option CommandOutcome :=
  (s.control_results.find? (·.command_id = command_id)).map (·.status)

/-- What `connection.call` returns or raises. -/
inductive WireReply where
  | callResult (status : Option String)
  | callError
  | timeout
  | lost
  deriving DecidableEq, Repr

/-- The outcome of `send_command`. -/
def send_command : WireReply → CommandOutcome
  | .callResult status =>
    if status = some "Accepted" then .Accepted else if status = some "Rejected" then .Rejected else .ProtocolError
  | .callError => .ProtocolError
  | .timeout => .Timeout
  | .lost => .Disconnected

/-- A command without a result after its time. -/
def overdue (s : DriverDb) (now : ℤ) (q : ControlRequest) : Prop :=
  (∀ r ∈ s.control_results, r.command_id ≠ q.id) ∧ q.created_at < now - (COMMAND_TIMEOUT + SECOND)

instance (s : DriverDb) (now : ℤ) (q : ControlRequest) : Decidable (overdue s now q) :=
  inferInstanceAs (Decidable (_ ∧ _))

/-- The results that `scan_control_deadlines` records, before it looks at the stops. -/
def scanResults (now : ℤ) : DriverTx Unit :=
  write fun s => { s with
    control_results := (s.control_requests.filter (overdue s now ·)).foldl
      (fun results q => insertResult q.id .Timeout now results) s.control_results }

/-! ## 2. `expire_start_requests` -/

def StartStatus.leases : StartStatus → Bool
  | .Pending | .Accepted => true
  | _ => false

/-- The request holds a lease that is over. -/
def lapsed (now : ℤ) (r : DriverStartRequest) : Prop := r.status.leases = true ∧ r.lease_until ≤ now

instance (now : ℤ) (r : DriverStartRequest) : Decidable (lapsed now r) := inferInstanceAs (Decidable (_ ∧ _))

def expireRequest (now : ℤ) (r : DriverStartRequest) : DriverStartRequest :=
  if r.status = .Pending then { r with status := .Timeout, reply_status := .Timeout, reply_at := some now }
  else { r with status := .StartNotConfirmed }

def expire_start_requests (now : ℤ) : DriverTx ℕ := do
  let s ← read
  let requests := s.db.start_requests.filter (lapsed now ·)
  write fun s => { s with
    db := { s.db with start_requests := s.db.start_requests.map fun r => if lapsed now r then expireRequest now r else r }
    control_results := (requests.filter (·.status = .Pending)).foldl
      (fun results r => insertResult r.id .Timeout now results) s.control_results }
  return requests.length

/-! ## 3. `remote_start` -/

structure StartOrder where
  driver_id : Uuid
  request_id : Uuid
  connector_id : ℕ
  deriving DecidableEq, Repr

structure StartResult where
  id : Uuid
  status : StartStatus
  reply_status : StartStatus
  rejection_reason : Option String
  connector_id : ℕ
  balance_vnd : Option ℤ
  minimum_balance_vnd : Option ℤ
  session_id : Option ℕ
  deadline : Option ℤ
  deriving DecidableEq, Repr

def start_result (now : ℤ) (r : DriverStartRequest) : StartResult :=
  let status := if r.status = .Accepted ∧ r.lease_until ≤ now then .StartNotConfirmed else r.status
  { id := r.id, status, reply_status := r.reply_status, rejection_reason := r.rejection_reason
    connector_id := r.connector_id, balance_vnd := r.balance_vnd, minimum_balance_vnd := r.minimum_balance_vnd
    session_id := r.session_id, deadline := if status = .Accepted then some r.lease_until else none }

/-- The user may charge. -/
def mayCharge (s : Database) (driver_id : Uuid) : Prop :=
  ∃ u ∈ s.books.wallet.users, u.id = driver_id ∧ u.active = true ∧ Wallets.RoleCode.driver ∈ u.roles

instance (s : Database) (driver_id : Uuid) : Decidable (mayCharge s driver_id) :=
  inferInstanceAs (Decidable (∃ u ∈ _, _))

/-- The charge point and the station of a connector that is in service. -/
def inService (env : Environment) (s : Database) (connector : Connector) : Option (ChargePoint × Station) := do
  let charger ← s.charge_points.find? (·.id = connector.charge_point_id)
  let station ← env.stations.find? (·.id = charger.station_id)
  if connector.archived = false ∧ charger.archived = false ∧ station.archived = false ∧ station.status = .active then
    return (charger, station)
  else none

/-- The connector or the driver has a lease. -/
def leased (s : Database) (o : StartOrder) : Prop :=
  ∃ r ∈ s.start_requests, r.status.leases = true ∧ (r.connector_id = o.connector_id ∨ r.driver_id = o.driver_id)

instance (s : Database) (o : StartOrder) : Decidable (leased s o) := inferInstanceAs (Decidable (∃ r ∈ _, _))

/-- The connector or the driver has a session that has not left the connector. -/
def occupied (s : Database) (o : StartOrder) : Prop :=
  ∃ c ∈ s.charging_sessions,
    (c.ended_at = none ∨ (c.billing_lifecycle_version = 1 ∧ c.connector_released_at = none)) ∧
    (c.connector_id = o.connector_id ∨ c.driver_id = some o.driver_id)

instance (s : Database) (o : StartOrder) : Decidable (occupied s o) := inferInstanceAs (Decidable (∃ c ∈ _, _))

/-- The charge point is connected, and was heard of in time. -/
def online (env : Environment) (connected : Bool) (charger : ChargePoint) : Prop :=
  connected = true ∧
    ∃ seen ∈ charger.last_seen_at, env.now - 2 * charger.heartbeat_interval_seconds * SECOND ≤ seen

instance (env : Environment) (connected : Bool) (charger : ChargePoint) : Decidable (online env connected charger) :=
  inferInstanceAs (Decidable (_ ∧ ∃ seen ∈ charger.last_seen_at, _))

/-- `virtual_tag`. Cards and tags are tables of the environment: a driver without a tag gets one here, with
a new card that is active. -/
def virtual_tag (env : Environment) (now : ℤ) (driver_id : Uuid) : DriverTx Unit := do
  let _ ← zoom (fun s : DriverDb => s.db.books.wallet)
    (fun t s => { s with db := { s.db with books := { s.db.books with wallet := t } } }) DriverError.wallet
    (Wallets.ensure_driver_wallet env.new_id driver_id)
  let card := env.cards.find? fun c => c.driver_id = driver_id ∧ c.id ∈ env.virtual_tags
  raiseIf (∃ c ∈ card, c.active = false ∨ ∃ e ∈ c.expires_at, e ≤ now)
    (.http 409 (.text "Thẻ sạc của bạn không còn hoạt động. Vui lòng liên hệ hỗ trợ."))

/-- The request that is inserted. -/
def newRequest (now : ℤ) (o : StartOrder) (status : StartStatus) : DriverStartRequest :=
  { id := o.request_id, driver_id := o.driver_id, connector_id := o.connector_id, created_at := now
    status, reply_status := status, rejection_reason := none, balance_vnd := none, minimum_balance_vnd := none
    reply_at := none, lease_until := now + (COMMAND_TIMEOUT + SECOND), session_id := none }

/-- The insert of a request with its command, under the partial indexes and the primary key of commands. -/
def insertRequest (charger : ChargePoint) (r : DriverStartRequest) : DriverTx Unit := do
  let s ← read
  raiseIf (r.status.leases = true ∧ ∃ x ∈ s.db.start_requests, x.status.leases = true ∧ x.connector_id = r.connector_id)
    (.integrityError "uq_driver_start_pending_connector")
  raiseIf (r.status.leases = true ∧ ∃ x ∈ s.db.start_requests, x.status.leases = true ∧ x.driver_id = r.driver_id)
    (.integrityError "uq_driver_start_pending_driver")
  raiseIf (∃ q ∈ s.control_requests, q.id = r.id) (.integrityError "ocpp_control_requests_pkey")
  write fun s => { s with
    db := { s.db with start_requests := s.db.start_requests ++ [r] }
    control_requests :=
      s.control_requests ++ [⟨r.id, r.driver_id, charger.id, none, .RemoteStartTransaction, r.created_at⟩] }

/-- `remote_start` once the lapsed leases are gone. Without a result, the command is sent. -/
def leaseStart (env : Environment) (now replied : ℤ) (connected : Bool) (o : StartOrder) (connector : Connector)
    (charger : ChargePoint) (station : Station) (reservation : Option Reservation) :
    DriverTx (Option StartResult) := do
  let s ← read
  raiseIf (power_start_allowed env s.db charger.station_id = false) (.http 409 (.reason "power_unavailable"))
  raiseIf (leased s.db o ∨ occupied s.db o) (.http 409
    (.text "Đầu nối đang bận hoặc bạn đã có phiên/yêu cầu đang chờ. Vui lòng kiểm tra phiên của bạn."))
  raiseIf (¬ (connector.status = .Available ∨ connector.status = .Preparing) ∧
      ¬ (connector.status = .Reserved ∧ reservation ≠ none))
    (.http 409 (.text "Đầu nối đang bận, được đặt chỗ hoặc chưa sẵn sàng. Vui lòng chọn đầu nối khác."))
  let eligibility := du_so_du_de_sac env s.db o.driver_id station
  if eligibility.allowed = false then
    let reason ← orRaise eligibility.reason (.runtimeError "Ineligible wallet has no rejection reason")
    raise (.http 409 (.balance reason eligibility.balance_vnd eligibility.minimum_balance_vnd))
  else if online env connected charger then
    insertRequest charger (newRequest now o .Pending)
    virtual_tag env replied o.driver_id
    return none
  else
    insertRequest charger (newRequest now o .Offline)
    record_result o.request_id .Offline now
    return some (start_result replied (newRequest now o .Offline))

/-- The first transaction of `remote_start`. -/
def admitStart (env : Environment) (now replied : ℤ) (connected : Bool) (o : StartOrder) :
    DriverTx (Option StartResult) := do
  let s ← read
  match s.db.start_requests.find? (·.id = o.request_id) with
  | some previous =>
    raiseIf (previous.driver_id ≠ o.driver_id ∨ previous.connector_id ≠ o.connector_id)
      (.http 409 (.text "Mã yêu cầu đã được dùng cho thao tác khác."))
    return some (start_result replied previous)
  | none =>
    let connector ← orRaise (s.db.connectors.find? (·.id = o.connector_id))
      (.http 404 (.text "Không tìm thấy đầu nối."))
    let charger := s.db.charge_points.find? (·.id = connector.charge_point_id)
    raiseIf (∃ p ∈ charger, p.id ∈ env.resets) (.http 409 (.text "Trụ đang khởi động lại."))
    let reservation := s.db.reservationDb.connectorHold connector.uuid
    raiseIf (∃ r ∈ reservation, ¬ (r.status = .active ∧ admissible r o.driver_id env.now))
      (.http 409 (.reason "connector_reserved"))
    raiseIf (¬ mayCharge s.db o.driver_id) (.http 403 (.text "Tài khoản không có quyền bắt đầu sạc."))
    let (charger, station) ← orRaise (inService env s.db connector)
      (.http 409 (.text "Trạm hoặc đầu nối hiện không khả dụng."))
    let _ ← expire_start_requests now
    leaseStart env now replied connected o connector charger station reservation

/-- The request after the charger's reply. -/
def answered (received : ℤ) (outcome : StartStatus) (r : DriverStartRequest) : DriverStartRequest :=
  let r := { r with reply_status := outcome, reply_at := some received }
  if r.status = .Started ∨ r.status = .Rejected then r
  else { r with
    status := outcome
    lease_until := if outcome = .Accepted then received + START_CONFIRMATION_SECONDS * SECOND else received }

/-- The second transaction of `remote_start`. -/
def answerStart (received replied : ℤ) (request_id : Uuid) (outcome : CommandOutcome) : DriverTx StartResult := do
  let s ← read
  let completed ← orRaise (s.db.start_requests.find? (·.id = request_id)) .assertionError
  -- a real StartTransaction may race and precede the CALLRESULT
  if completed.reply_status = .Pending then
    record_result request_id outcome received
    let s ← read
    let stored := ((command_status s request_id).map (·.status)).getD .Pending
    write fun s => { s with db := saveRequest (answered received stored completed) s.db }
    return start_result replied (answered received stored completed)
  else return start_result replied completed

end Csms.Charging
