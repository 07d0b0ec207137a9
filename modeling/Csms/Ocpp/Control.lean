import Csms.Charging.System
import Csms.Ocpp.Frames

/-!
# Commands to chargers (`ocpp/control.py`, `call` of `ocpp/connection_registry.py`)

`execute_command` stores the request in one transaction, sends the command outside of any, and stores its
result in another. A connection is a number, and the registry gives the current one of each charge point. A
command carries its target.

The audit log, and the columns of a request that nothing reads back, are left out.
-/

namespace Csms.Ocpp.Control

open Tx Csms.Charging

/-! ## 1. Tables -/

inductive Action where
  | Reset | RemoteStopTransaction | DataTransfer
  deriving DecidableEq, Repr

inductive Payload where
  | reset (type : String)
  | stop (transactionId : ℕ)
  | unplug (transactionId connectorId : ℕ)
  deriving DecidableEq, Repr

inductive CommandStatus where
  | Pending | Accepted | Rejected | ProtocolError | Timeout | Disconnected | Offline
  deriving DecidableEq, Repr

structure ControlRequest where
  id : Uuid
  actor_id : Uuid
  action : Action
  charge_point_id : ℕ
  transaction_id : Option ℕ
  payload : Payload
  created_at : ℤ
  deriving DecidableEq, Repr

structure ControlResult where
  command_id : Uuid
  status : CommandStatus
  received_at : ℤ
  deriving DecidableEq, Repr

structure ControlDb where
  db : Database
  requests : List ControlRequest
  results : List ControlResult

abbrev ControlTx := Tx ControlDb ChargingError

/-- What is only read: the settings, which charge points are demo chargers, the registry, and the connections
with an accepted boot. -/
structure ControlEnv extends Environment where
  demo_driver_unplug_enabled : Bool
  demo : ℕ → Bool
  registry : ℕ → Option ℕ
  boot_accepted : ℕ → Bool

def COMMAND_TIMEOUT : ℤ := 30

/-! ## 2. Results -/

/-- `record_result`: the first result stays. -/
def record_result (command_id : Uuid) (status : CommandStatus) (now : ℤ) (t : ControlDb) : ControlDb :=
  if ∃ r ∈ t.results, r.command_id = command_id then t
  else { t with results := t.results ++ [⟨command_id, status, now⟩] }

/-- `command_status`. -/
def command_status (t : ControlDb) (command_id : Uuid) : CommandStatus :=
  ((t.results.find? (·.command_id = command_id)).map (·.status)).getD .Pending

/-- The requests that have had no result for too long. -/
def overdue (now : ℤ) (t : ControlDb) (r : ControlRequest) : Prop :=
  (∀ result ∈ t.results, result.command_id ≠ r.id) ∧ r.created_at < now - (COMMAND_TIMEOUT + 1) * Reservations.SECOND

instance (now : ℤ) (t : ControlDb) (r : ControlRequest) : Decidable (overdue now t r) :=
  inferInstanceAs (Decidable (_ ∧ _))

/-- The first part of `scan_control_deadlines`. -/
def expireCommands (now : ℤ) (t : ControlDb) : ControlDb :=
  (t.requests.filter (overdue now t ·)).foldl (fun t r => record_result r.id .Timeout now t) t

/-- The accepted remote stops that the rest of `scan_control_deadlines` looks at. -/
def remoteStops (t : ControlDb) : List RemoteStop :=
  t.results.filterMap fun result => do
    let r ← t.requests.find? (·.id = result.command_id)
    let transaction_id ← r.transaction_id
    if r.action = .RemoteStopTransaction ∧ result.status = .Accepted then some ⟨transaction_id, result.received_at⟩
    else none

/-! ## 3. `execute_command` -/

/-- The action, its target, and the type of a reset. -/
inductive Command where
  | reset (charge_point_id : ℕ) (type : String)
  | remoteStop (transaction_id : ℕ)
  | unplug (transaction_id : ℕ)
  deriving DecidableEq, Repr

def Command.action : Command → Action
  | .reset _ _ => .Reset
  | .remoteStop _ => .RemoteStopTransaction
  | .unplug _ => .DataTransfer

def Command.transaction : Command → Option ℕ
  | .reset _ _ => none
  | .remoteStop transaction_id | .unplug transaction_id => some transaction_id

structure CommandCall where
  actor_id : Uuid
  command_id : Uuid
  command : Command
  driver_id : Option Uuid

/-- The session of a command. -/
def sessionOf (t : ControlDb) (command : Command) : Option Session :=
  command.transaction.bind fun id => t.db.charging_sessions.find? (·.id = id)

/-- A driver may stop and unplug their own session. -/
def checkDriver (t : ControlDb) (call : CommandCall) : ControlTx Unit :=
  match call.driver_id with
  | none => return ()
  | some driver_id => do
    raiseIf (call.command.action = .Reset) (.http 403 "permission_denied")
    let charging ← orRaise (sessionOf t call.command) (.http 404 "resource_not_found")
    raiseIf (charging.driver_id ≠ some driver_id) (.http 403 "permission_denied")

/-- The payload. An unplug needs a demo charger that confirms it with `Available`. -/
def payloadOf (e : ControlEnv) (t : ControlDb) (command : Command) : ControlTx Payload :=
  match command with
  | .reset _ type => return .reset type
  | .remoteStop transaction_id => return .stop transaction_id
  | .unplug _ => do
    let charging ← orRaise (sessionOf t command) .assertionError
    let charger := t.db.charge_points.find? (·.id = charging.charge_point_id)
    raiseIf (¬ ∃ p ∈ charger, e.demo p.id = true) (.http 404 "not_a_demo_charger")
    raiseIf (charging.release_detection ≠ .available) (.http 409 "session_requires_explicit_unplug")
    let connector ← orRaise (t.db.connectors.find? (·.id = charging.connector_id)) (.http 404 "resource_not_found")
    return .unplug charging.id connector.connector_number

/-- The charge point and the transaction of a new command. -/
def targetOf (t : ControlDb) (command : Command) : ControlTx (ℕ × Option ℕ) :=
  match command with
  | .reset charge_point_id _ => return (charge_point_id, none)
  | .remoteStop _ | .unplug _ => do
    let charging ← orRaise (sessionOf t command) (.http 404 "Không tìm thấy phiên sạc.")
    raiseIf (command.action = .RemoteStopTransaction ∧ charging.ended_at ≠ none) (.http 409 "Phiên đã kết thúc.")
    raiseIf (command.action = .DataTransfer ∧ charging.connector_released_at ≠ none)
      (.http 409 "connector_already_released")
    return (charging.charge_point_id, some charging.id)

def ControlRequest.targets (previous : ControlRequest) : Command → Bool
  | .reset charge_point_id _ => previous.charge_point_id = charge_point_id
  | .remoteStop transaction_id | .unplug transaction_id => previous.transaction_id = some transaction_id

/-- The stored request is that of the call. -/
def ControlRequest.sameAs (previous : ControlRequest) (call : CommandCall) (payload : Payload) : Prop :=
  previous.actor_id = call.actor_id ∧ previous.action = call.command.action ∧ previous.payload = payload ∧
    previous.targets call.command = true

instance (previous : ControlRequest) (call : CommandCall) (payload : Payload) :
    Decidable (previous.sameAs call payload) :=
  inferInstanceAs (Decidable (_ ∧ _ ∧ _ ∧ _))

/-- The charger was heard of in the last two heartbeat intervals. -/
def live (now : ℤ) (charger : ChargePoint) : Prop :=
  ∃ seen ∈ charger.last_seen_at, now - 2 * charger.heartbeat_interval_seconds * Reservations.SECOND ≤ seen

instance (now : ℤ) (charger : ChargePoint) : Decidable (live now charger) :=
  inferInstanceAs (Decidable (∃ seen ∈ charger.last_seen_at, _))

/-- The connection to send a command on. -/
def reachable (e : ControlEnv) (charger : ChargePoint) : Option ℕ :=
  match e.registry charger.id with
  | some connection =>
    if charger.archived = false ∧ e.boot_accepted connection = true ∧ live e.now charger then some connection else none
  | none => none

/-- The first transaction answers, or gives the command to send. -/
inductive Next where
  | answer (status : CommandStatus)
  | send (connection : ℕ) (payload : Payload)
  deriving DecidableEq, Repr

/-- The insert of a new request. -/
def insertRequest (e : ControlEnv) (t : ControlDb) (call : CommandCall) (payload : Payload) : ControlTx Next := do
  let target ← targetOf t call.command
  let charger ← orRaise (t.db.charge_points.find? (·.id = target.1)) (.http 404 "Không tìm thấy trụ sạc.")
  let station := e.stations.find? (·.id = charger.station_id)
  raiseIf (¬ ∃ st ∈ station, st.archived = false) (.http 404 "Không tìm thấy trụ sạc.")
  write fun t => { t with requests := t.requests ++
    [⟨call.command_id, call.actor_id, call.command.action, target.1, target.2, payload, e.now⟩] }
  match reachable e charger with
  | some connection => return .send connection payload
  | none =>
    write (record_result call.command_id .Offline e.now)
    return .answer .Offline

/-- The first transaction of `execute_command`. -/
def submit (e : ControlEnv) (call : CommandCall) : ControlTx Next := do
  raiseIf (∃ driver_id ∈ call.driver_id, driver_id ≠ call.actor_id) (.http 403 "permission_denied")
  raiseIf (call.command.action = .DataTransfer ∧ (call.driver_id = none ∨ e.demo_driver_unplug_enabled = false))
    (.http 404 "demo_unplug_disabled")
  let t ← read
  checkDriver t call
  let payload ← payloadOf e t call.command
  match t.requests.find? (·.id = call.command_id) with
  | some previous =>
    raiseIf (¬ previous.sameAs call payload) (.http 409 "Mã yêu cầu đã được dùng cho thao tác khác.")
    return .answer (command_status t call.command_id)
  | none => insertRequest e t call payload

/-- The transaction is undone when it raises. -/
def submitted (e : ControlEnv) (call : CommandCall) : ControlTx Next := savepoint (fun t _ => t) (submit e call)

/-! ## 4. `call` and `send_command` -/

variable {F : Type}

/-- The future of a pending call. -/
inductive Future (F : Type) where
  | waiting
  | replied (reply : Frame F)
  | cancelled

/-- Where a sender is: before `call`, in it with its frame sent or not, and after it. -/
inductive Phase (F : Type) where
  | call
  | pending (sent : Bool) (future : Future F)
  | record (outcome : CommandStatus)

/-- An `execute_command` after its first transaction. -/
structure Task (F : Type) where
  command_id : Uuid
  connection : ℕ
  payload : Payload
  phase : Phase F

/-- `str(command_id)`. -/
def messageId (command_id : Uuid) : Str := command_id.text.str

/-- `send_command` of a reply. -/
def outcomeOf (reply : Frame F) : CommandStatus :=
  match reply.kind, reply.payload.lookup "status".str with
  | .result, some (.str status) =>
    if status = "Accepted".str then .Accepted else if status = "Rejected".str then .Rejected else .ProtocolError
  | _, _ => .ProtocolError

/-- `message_id in self.pending`. -/
def Task.blocks (k other : Task F) : Bool :=
  match other.phase with
  | .pending _ _ => other.connection = k.connection ∧ other.command_id = k.command_id
  | _ => false

/-- `future.set_result(frame)` for the pending call with the message id of the frame. -/
def Task.receive (connection : ℕ) (frame : Frame F) (k : Task F) : Task F :=
  match k.phase with
  | .pending sent .waiting =>
    if k.connection = connection ∧ messageId k.command_id = frame.message_id then
      { k with phase := .pending sent (.replied frame) }
    else k
  | _ => k

/-- `cancel_pending`. -/
def Task.cancel (connection : ℕ) (k : Task F) : Task F :=
  match k.phase with
  | .pending sent .waiting => if k.connection = connection then { k with phase := .pending sent .cancelled } else k
  | _ => k

/-! ## 5. What the first transaction does -/

/-- A remote stop carries its transaction. -/
def ControlRequest.StopsItsTransaction (r : ControlRequest) : Prop :=
  r.action = .RemoteStopTransaction → ∃ transaction_id, r.transaction_id = some transaction_id ∧
    r.payload = .stop transaction_id

/-- The first transaction finds the request of the command, or inserts it. -/
inductive Submitted (e : ControlEnv) (call : CommandCall) (t : ControlDb) : Next → ControlDb → Prop
  | repeated (previous : ControlRequest) (mem : previous ∈ t.requests) (id : previous.id = call.command_id)
      (actor : previous.actor_id = call.actor_id) (action : previous.action = call.command.action) :
      Submitted e call t (.answer (command_status t call.command_id)) t
  | offline (new : ∀ q ∈ t.requests, q.id ≠ call.command_id) (r : ControlRequest) (id : r.id = call.command_id)
      (stop : r.StopsItsTransaction) : Submitted e call t (.answer .Offline)
        (record_result call.command_id .Offline e.now { t with requests := t.requests ++ [r] })
  | sent (new : ∀ q ∈ t.requests, q.id ≠ call.command_id) (r : ControlRequest) (id : r.id = call.command_id)
      (stop : r.StopsItsTransaction) (connection : ℕ) (registered : e.registry r.charge_point_id = some connection) :
      Submitted e call t (.send connection r.payload) { t with requests := t.requests ++ [r] }

namespace ControlLemmas

variable {e : ControlEnv} {call : CommandCall} {t : ControlDb}

theorem checkDriver_spec : wp (checkDriver t call) (fun _ t' => t' = t) (fun _ _ => True) t := by
  unfold checkDriver
  split
  · rfl
  · simp only [wp_bind, wp_raiseIf, wp_orRaise]
    exact ⟨fun _ => trivial, fun _ => ⟨fun _ => trivial, fun _ _ => ⟨fun _ => trivial, fun _ => trivial⟩⟩⟩

theorem payloadOf_spec (command : Command) :
    wp (payloadOf e t command)
      (fun payload t' => t' = t ∧ ∀ transaction_id, command = .remoteStop transaction_id → payload = .stop transaction_id)
      (fun _ _ => True) t := by
  unfold payloadOf
  cases command with
  | reset charge_point_id type => exact ⟨rfl, fun _ h => by cases h⟩
  | remoteStop transaction_id =>
    refine ⟨rfl, fun _ h => ?_⟩
    cases h
    rfl
  | unplug transaction_id =>
    simp only [wp_bind, wp_raiseIf, wp_orRaise]
    exact ⟨fun _ => trivial, fun _ _ => ⟨fun _ => trivial, fun _ => ⟨fun _ => trivial, fun _ =>
      ⟨fun _ => trivial, fun _ _ => ⟨rfl, fun _ h => by cases h⟩⟩⟩⟩⟩

theorem targetOf_spec (command : Command) :
    wp (targetOf t command)
      (fun target t' => t' = t ∧ ∀ transaction_id, command = .remoteStop transaction_id → target.2 = some transaction_id)
      (fun _ _ => True) t := by
  unfold targetOf
  cases command with
  | reset charge_point_id type => exact ⟨rfl, fun _ h => by cases h⟩
  | remoteStop transaction_id =>
    simp only [wp_bind, wp_raiseIf, wp_orRaise]
    refine ⟨fun _ => trivial, fun charging hcharging => ⟨fun _ => trivial, fun _ => ⟨fun _ => trivial, fun _ => ?_⟩⟩⟩
    have hid : charging.id = transaction_id := by
      unfold sessionOf at hcharging
      simpa using List.find?_some hcharging
    refine ⟨rfl, fun _ h => ?_⟩
    cases h
    exact congrArg some hid
  | unplug transaction_id =>
    simp only [wp_bind, wp_raiseIf, wp_orRaise]
    exact ⟨fun _ => trivial, fun _ _ =>
      ⟨fun _ => trivial, fun _ => ⟨fun _ => trivial, fun _ => ⟨rfl, fun _ h => by cases h⟩⟩⟩⟩

theorem reachable_registered {charger : ChargePoint} {connection : ℕ} (h : reachable e charger = some connection) :
    e.registry charger.id = some connection := by
  unfold reachable at h
  split at h
  · next c hc =>
    split at h
    · cases h
      exact hc
    · cases h
  · cases h

theorem insertRequest_spec (new : ∀ q ∈ t.requests, q.id ≠ call.command_id) {payload : Payload}
    (hpayload : ∀ transaction_id, call.command = .remoteStop transaction_id → payload = .stop transaction_id) :
    wp (insertRequest e t call payload) (Submitted e call t) (fun _ _ => True) t := by
  unfold insertRequest
  rw [wp_bind]
  refine wp_mono (targetOf_spec _) (fun target t' ht => ?_) fun _ _ _ => trivial
  obtain ⟨rfl, htarget⟩ := ht
  simp only [wp_bind, wp_orRaise, wp_raiseIf, wp_write]
  refine ⟨fun _ => trivial, fun charger hcharger => ⟨fun _ => trivial, fun _ => ?_⟩⟩
  have hid : charger.id = target.1 := by simpa using List.find?_some hcharger
  set r : ControlRequest := ⟨call.command_id, call.actor_id, call.command.action, target.1, target.2, payload, e.now⟩
  have hstop : r.StopsItsTransaction := fun haction => by
    have haction : call.command.action = .RemoteStopTransaction := haction
    cases hcommand : call.command with
    | remoteStop transaction_id => exact ⟨transaction_id, htarget _ hcommand, hpayload _ hcommand⟩
    | reset charge_point_id type =>
      rw [hcommand] at haction
      cases haction
    | unplug transaction_id =>
      rw [hcommand] at haction
      cases haction
  split
  · next connection hconnection =>
    have hregistered : e.registry target.1 = some connection := hid ▸ reachable_registered hconnection
    exact .sent new r rfl hstop connection hregistered
  · exact .offline new r rfl hstop

theorem submit_spec : wp (submit e call) (Submitted e call t) (fun _ _ => True) t := by
  unfold submit
  simp only [wp_bind, wp_raiseIf, wp_read]
  refine ⟨fun _ => trivial, fun _ => ⟨fun _ => trivial, fun _ => ?_⟩⟩
  refine wp_mono checkDriver_spec (fun _ t' ht => ?_) fun _ _ _ => trivial
  subst ht
  rw [wp_bind]
  refine wp_mono (payloadOf_spec call.command) (fun payload t'' ht => ?_) fun _ _ _ => trivial
  obtain ⟨rfl, hpayload⟩ := ht
  split
  · next previous hprevious =>
    simp only [wp_bind, wp_raiseIf]
    refine ⟨fun _ => trivial, fun hsame => ?_⟩
    obtain ⟨hactor, haction, -⟩ := not_not.mp hsame
    exact .repeated previous (List.mem_of_find?_eq_some hprevious) (by simpa using List.find?_some hprevious)
      hactor haction
  · next hnone =>
    exact insertRequest_spec (fun q hq hid => by simpa [hid] using List.find?_eq_none.mp hnone q hq) hpayload

/-- A first transaction that raises changes nothing. -/
theorem submitted_spec : wp (submitted e call) (Submitted e call t) (fun _ t' => t' = t) t := by
  unfold submitted
  rw [wp_savepoint]
  exact wp_mono submit_spec (fun _ _ h => h) fun _ _ _ => rfl

end ControlLemmas

end Csms.Ocpp.Control
