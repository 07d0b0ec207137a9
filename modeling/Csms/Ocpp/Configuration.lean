import Csms.Lib.Table
import Csms.Lib.Tx
import Csms.Lib.Uuid

/-!
# Remote configuration (`ocpp/configuration.py`, `ocpp/configuration_adapter.py`)

A worker runs `_process` for one intent: transactions, with calls to the charger between them. `Phase` is
where a worker stands, and `Worker.step` the next transaction or call. Instants are microseconds of UTC;
`Event` holds what one step reads of the clocks, the connection, the charging tables and the wire.
-/

namespace Csms.Ocpp

open Tx

/-! ## 1. The tables -/

inductive IntentState where
  | queued | sending | accepted | reboot_required | resetting | verified | needs_review | failed
  deriving DecidableEq, Repr

/-- `ACTIVE`. -/
def IntentState.active : IntentState → Bool
  | .queued | .sending | .accepted | .reboot_required | .resetting => true
  | .verified | .needs_review | .failed => false

/-- What `configuration_call` returns. -/
inductive CallOutcome where
  | Accepted | Rejected | NotSupported | RebootRequired | ProtocolError | Timeout | Disconnected
  deriving DecidableEq, Repr

/-- The outcome of an intent; `reset o` is the text "Reset" with that of `o`. -/
inductive IntentOutcome where
  | call (o : CallOutcome)
  | reset (o : CallOutcome)
  | Archived | Offline | ResetQueued | ResetSending | ChargingBlocked
  | Verified | ReadbackMismatch | ReadbackUnsupported
  deriving DecidableEq, Repr

structure ConfigurationIntent where
  id : Uuid
  charge_point_id : Uuid
  actor_id : Uuid
  key : String
  value : ℤ
  old_value : Option String
  actual_value : Option String
  state : IntentState
  outcome : Option IntentOutcome
  processing_id : Option Uuid
  reset_id : Option Uuid
  reset_actor_id : Option Uuid
  verified_at : Option ℤ
  updated_at : ℤ
  next_attempt_at : ℤ
  deriving DecidableEq, Repr

/-- A charge point; `archived` is its own mark or that of its station. -/
structure Point where
  id : Uuid
  archived : Bool
  last_seen_at : Option ℤ
  heartbeat_interval_seconds : ℤ
  deriving DecidableEq, Repr

structure AuditLog where
  actor_id : Uuid
  action : String
  charge_point_id : Uuid
  request_id : Uuid
  reset_id : Option Uuid := none
  key : Option String := none
  old_value : Option String := none
  new_value : Option ℤ := none
  actual_value : Option String := none
  state : Option IntentState := none
  result : Option IntentOutcome := none
  deriving DecidableEq, Repr

structure ConfigDb where
  points : List Point
  intents : List ConfigurationIntent
  audit_logs : List AuditLog
  deriving DecidableEq, Repr

inductive ConfigError where
  | http (status_code : ℕ) (detail : String)
  | integrityError (constraint : String)
  | assertionError
  deriving DecidableEq, Repr

abbrev ConfigTx := Tx ConfigDb ConfigError

def SECOND : ℤ := 1000000

/-- The bounds of a key that may be configured. -/
def LIMITS (key : String) : Option (ℤ × ℤ) :=
  if key = "HeartbeatInterval" then some (30, 600)
  else if key = "MeterValueSampleInterval" then some (5, 300)
  else none

def ConfigDb.intent (s : ConfigDb) (identifier : Uuid) : Option ConfigurationIntent :=
  s.intents.find? (·.id = identifier)

/-- Another active intent of the charge point: what `uq_configuration_active_charger` rejects. -/
def doubled (s : ConfigDb) (row : ConfigurationIntent) : Prop :=
  row.state.active = true ∧
    ∃ x ∈ s.intents, x.id ≠ row.id ∧ x.charge_point_id = row.charge_point_id ∧ x.state.active = true

instance (s : ConfigDb) (row : ConfigurationIntent) : Decidable (doubled s row) := inferInstanceAs (Decidable (_ ∧ _))

/-- The update of an intent, under the unique index. -/
def saveIntent (row : ConfigurationIntent) : ConfigTx Unit := do
  let s ← read
  raiseIf (doubled s row) (.integrityError "uq_configuration_active_charger")
  write fun s => { s with intents := Table.modify ConfigurationIntent.id row.id (fun _ => row) s.intents }

/-- `ghi_nhat_ky`. -/
def ghi_nhat_ky (row : AuditLog) : ConfigTx Unit :=
  write fun s => { s with audit_logs := s.audit_logs ++ [row] }

/-! ## 2. Calls to the charger -/

/-- What `connection.call` returns or raises. -/
inductive WireReply (α : Type) where
  | result (payload : α)
  | error (error_code : String)
  | timeout
  | lost
  deriving DecidableEq, Repr

structure ConfigurationKey where
  key : String
  readonly : Bool
  value : Option String
  deriving DecidableEq, Repr

structure ConfigurationReply where
  configurationKey : List ConfigurationKey
  unknownKey : List String
  deriving DecidableEq, Repr

/-- The outcome of a call that brought no result. -/
def failedCall {α : Type} : WireReply α → CallOutcome
  | .error code => if code = "NotSupported" then .NotSupported else .ProtocolError
  | .timeout => .Timeout
  | .lost => .Disconnected
  | .result _ => .ProtocolError

/-- `configuration_call` for ChangeConfiguration and Reset. -/
def configuration_call : WireReply (Option String) → CallOutcome
  | .result status =>
    if status = some "Accepted" then .Accepted
    else if status = some "Rejected" then .Rejected
    else if status = some "NotSupported" then .NotSupported
    else if status = some "RebootRequired" then .RebootRequired
    else .ProtocolError
  | reply => failedCall reply

/-- No key is reported twice, and none both with a value and as unknown. -/
def ConfigurationReply.consistent (r : ConfigurationReply) : Prop :=
  (r.configurationKey.map (·.key)).Nodup ∧ ∀ e ∈ r.configurationKey, e.key ∉ r.unknownKey

instance (r : ConfigurationReply) : Decidable r.consistent := inferInstanceAs (Decidable (_ ∧ _))

/-- A value that does not fit its column. -/
def ConfigurationKey.tooLong (e : ConfigurationKey) : Prop :=
  LIMITS e.key ≠ none ∧ ∃ v ∈ e.value, 100 < v.length

instance (e : ConfigurationKey) : Decidable e.tooLong := inferInstanceAs (Decidable (_ ∧ ∃ v ∈ e.value, _))

/-- `read`. A payload that does not parse is `none`. -/
def readKeys : WireReply (Option ConfigurationReply) → CallOutcome × Option ConfigurationReply
  | .result (some payload) =>
    if payload.consistent ∧ ∀ e ∈ payload.configurationKey, ¬ e.tooLong then (.Accepted, some payload)
    else (.ProtocolError, none)
  | .result none => (.ProtocolError, none)
  | reply => (failedCall reply, none)

/-- A message to the charger that writes. The id of a ChangeConfiguration is that of its intent. -/
inductive WireMessage where
  | ChangeConfiguration (request_id : Uuid) (key value : String)
  | Reset (request_id : Uuid)
  deriving DecidableEq, Repr

/-! ## 3. `submit` and `request_reset` -/

/-- `charger`. -/
def charger (s : ConfigDb) (identifier : Uuid) : Option Point :=
  s.points.find? fun p => p.id = identifier ∧ p.archived = false

/-- What a step reads besides the tables. `now` is the time of the database, `clock` that of the program. -/
structure Event where
  now : ℤ
  clock : ℤ
  connected : Bool
  locked : Bool
  busy : Bool
  keys : WireReply (Option ConfigurationReply)
  status : WireReply (Option String)

/-- `connection_for`: there is a connection, it booted, and the charger was heard of in time. -/
def connection_for (e : Event) (p : Point) : Prop :=
  e.connected = true ∧ ∃ seen ∈ p.last_seen_at, e.clock - 2 * p.heartbeat_interval_seconds * SECOND ≤ seen

instance (e : Event) (p : Point) : Decidable (connection_for e p) :=
  inferInstanceAs (Decidable (_ ∧ ∃ seen ∈ p.last_seen_at, _))

def submit (e : Event) (point_id identifier actor_id : Uuid) (key : String) (value : ℤ) :
    ConfigTx ConfigurationIntent := do
  raiseIf (¬ ∃ limits ∈ LIMITS key, limits.1 ≤ value ∧ value ≤ limits.2) (.http 422 "Cấu hình ngoài phạm vi cho phép.")
  let s ← read
  match s.intent identifier with
  | some previous =>
    raiseIf ((previous.charge_point_id, previous.actor_id, previous.key, previous.value) ≠
      (point_id, actor_id, key, value)) (.http 409 "Mã yêu cầu đã được dùng.")
    return previous
  | none =>
    raiseIf (∃ x ∈ s.intents, x.reset_id = some identifier) (.http 409 "Mã yêu cầu đã được dùng.")
    let point ← orRaise (charger s point_id) (.http 404 "Không tìm thấy trụ.")
    raiseIf (∃ x ∈ s.intents, x.charge_point_id = point_id ∧ x.state.active = true)
      (.http 409 "Trụ có cấu hình đang chờ xử lý.")
    raiseIf (¬ connection_for e point) (.http 409 "Trụ đang ngoại tuyến.")
    let row : ConfigurationIntent :=
      { id := identifier, charge_point_id := point_id, actor_id, key, value, old_value := none, actual_value := none
        state := .queued, outcome := none, processing_id := none, reset_id := none, reset_actor_id := none
        verified_at := none, updated_at := e.now, next_attempt_at := e.now }
    write fun s => { s with intents := s.intents ++ [row] }
    ghi_nhat_ky
      { actor_id, action := "ocpp.configuration_requested", charge_point_id := point_id, request_id := identifier
        key := some key, new_value := some value }
    return row

/-- `request_reset`. `e.busy` is `busy`, which reads the sessions, the start requests and the connectors. -/
def request_reset (e : Event) (point_id identifier reset_id actor_id : Uuid) : ConfigTx ConfigurationIntent := do
  let s ← read
  let point ← orRaise (charger s point_id) (.http 404 "Không tìm thấy trụ.")
  let row ← orRaise (s.intents.find? fun x => x.id = identifier ∧ x.charge_point_id = point_id)
    (.http 404 "Không tìm thấy yêu cầu.")
  if row.reset_id ≠ none then
    raiseIf (row.reset_id ≠ some reset_id ∨ row.reset_actor_id ≠ some actor_id)
      (.http 409 "Đã có yêu cầu khởi động lại.")
    return row
  else
    raiseIf (row.state ≠ .reboot_required) (.http 409 "Trụ không chờ khởi động lại.")
    raiseIf (¬ connection_for e point) (.http 409 "Trụ đang ngoại tuyến.")
    raiseIf (e.busy = true) (.http 409 "Trụ đang có phiên sạc. Hãy chờ phiên kết thúc.")
    raiseIf (∃ x ∈ s.intents, x.reset_id = some reset_id ∨ x.id = reset_id) (.http 409 "Mã yêu cầu đã được dùng.")
    -- without a processing id, a readback that started before finds the row no longer its own
    let row := { row with
      reset_id := some reset_id, processing_id := none, reset_actor_id := some actor_id, state := .resetting
      outcome := some .ResetQueued, updated_at := e.now, next_attempt_at := e.now }
    saveIntent row
    ghi_nhat_ky
      { actor_id, action := "ocpp.configuration_reset_requested", charge_point_id := point_id
        request_id := identifier, reset_id := some reset_id }
    return row

/-! ## 4. `finish` and `verify` -/

/-- The row after `finish`. -/
def finished (now : ℤ) (state : IntentState) (outcome : IntentOutcome) (actual : Option String)
    (row : ConfigurationIntent) : ConfigurationIntent :=
  { row with
    state, outcome := some outcome, actual_value := actual, updated_at := now
    next_attempt_at := now + (if state = .accepted then 40 else 10) * SECOND
    verified_at := if state = .verified then some now else row.verified_at }

/-- `finish`, called by the worker with this processing id. -/
def finish (now : ℤ) (processing_id identifier : Uuid) (state : IntentState) (outcome : IntentOutcome)
    (actual : Option String) : ConfigTx Unit := do
  let s ← read
  let row ← orRaise (s.intent identifier) .assertionError
  if row.processing_id ≠ some processing_id then return ()
  else
    saveIntent (finished now state outcome actual row)
    if state = .verified ∧ row.key = "HeartbeatInterval" then
      write fun s => { s with points := s.points.map fun p =>
        if p.id = row.charge_point_id then { p with heartbeat_interval_seconds := row.value } else p }
    if (row.state, row.outcome, row.actual_value) ≠ (state, some outcome, actual) then
      ghi_nhat_ky
        { actor_id := row.actor_id, action := "ocpp.configuration_result", charge_point_id := row.charge_point_id
          request_id := identifier, key := some row.key, old_value := row.old_value, new_value := some row.value
          actual_value := actual, state := some state, result := some outcome }

/-- What a readback makes `verify` write: with `askReset`, `resetting` if a reset was requested. -/
structure Readback where
  askReset : Bool
  state : IntentState
  outcome : IntentOutcome
  actual : Option String
  deriving DecidableEq, Repr

/-- `verify` after its `read`. -/
def verify (key : String) (value : ℤ) (pending_reboot : Bool) (reply : WireReply (Option ConfigurationReply)) :
    Readback :=
  match readKeys reply with
  | (outcome, none) =>
    { askReset := pending_reboot, outcome := .call outcome, actual := none
      state := if outcome = .ProtocolError then .needs_review
        else if pending_reboot then .reboot_required else .accepted }
  | (_, some payload) =>
    match payload.configurationKey.find? (·.key = key) with
    | none => { askReset := pending_reboot, state := .needs_review, outcome := .ReadbackUnsupported, actual := none }
    | some entry =>
      if key ∈ payload.unknownKey ∨ entry.readonly = true then
        { askReset := pending_reboot, state := .needs_review, outcome := .ReadbackUnsupported, actual := entry.value }
      else if entry.value = some (toString value) then
        { askReset := false, state := .verified, outcome := .Verified, actual := entry.value }
      else
        { askReset := pending_reboot, outcome := .ReadbackMismatch, actual := entry.value
          state := if pending_reboot then .reboot_required else .needs_review }

/-- `reset_was_requested`. -/
def reset_was_requested (s : ConfigDb) (identifier : Uuid) : Bool :=
  (s.intent identifier).any fun row => row.reset_id.isSome

/-! ## 5. `_process` -/

/-- Where a worker stands. -/
inductive Phase where
  | claim
  | readOld (key : String) (value : ℤ)
  | dispatch (key : String) (value : ℤ) (old : String)
  | change (key : String) (value : ℤ) (old : String)
  | changeReply (key : String) (value : ℤ) (old : String)
  | checkBusy (reset_id : Uuid)
  | blocked (reset_id : Uuid)
  | reset (reset_id : Uuid)
  | resetReply
  | verify (key : String) (value : ℤ) (pending_reboot : Bool)
  | ask (readback : Readback)
  | finish (state : IntentState) (outcome : IntentOutcome) (actual : Option String) (next : Option (String × ℤ))
  deriving DecidableEq, Repr

structure Worker where
  processing_id : Uuid
  identifier : Uuid
  phase : Phase
  deriving DecidableEq, Repr

/-- The reset of the intent is asked for, and not on its way. -/
def ConfigurationIntent.resetQueued (row : ConfigurationIntent) : Prop :=
  row.state = .resetting ∧ (row.outcome = some .ResetQueued ∨ row.outcome = some .ChargingBlocked)

instance (row : ConfigurationIntent) : Decidable row.resetQueued := inferInstanceAs (Decidable (_ ∧ _))

/-- The row of an intent whose worker gives it up. -/
def givenUp (row : ConfigurationIntent) (outcome : IntentOutcome) : AuditLog :=
  { actor_id := row.actor_id, action := "ocpp.configuration_result", charge_point_id := row.charge_point_id
    request_id := row.id, key := some row.key, new_value := some row.value, state := some row.state
    result := some outcome }

/-- The row while a worker has its lease. -/
def leasedRow (now : ℤ) (processing_id : Uuid) (row : ConfigurationIntent) : ConfigurationIntent :=
  { row with
    processing_id := some processing_id
    state := if row.state = .queued then .sending else row.state
    outcome := if row.resetQueued then some .ResetSending else row.outcome
    next_attempt_at := now + 120 * SECOND }

/-- What a worker does with the row it has leased. -/
def firstPhase (row : ConfigurationIntent) : Option Phase :=
  if row.state = .queued then some (.readOld row.key row.value)
  else if row.resetQueued then row.reset_id.map .checkBusy
  else some (.verify row.key row.value (row.state = .reboot_required ∨ row.state = .resetting))

/-- The first transaction. A worker without a phase is done. -/
def claim (e : Event) (processing_id identifier : Uuid) : ConfigTx (Option Phase) := do
  let s ← read
  match s.intent identifier with
  | none => return none
  | some row =>
    if e.locked = true ∨ row.state.active = false ∨ e.now < row.next_attempt_at then return none
    else
      match charger s row.charge_point_id with
      | none =>
        let row := { row with
          state := if row.state = .queued then .failed else .needs_review
          outcome := some .Archived, updated_at := e.now }
        saveIntent row
        ghi_nhat_ky (givenUp row .Archived)
        return none
      | some point =>
        if ¬ connection_for e point then
          let row := { row with next_attempt_at := e.now + 10 * SECOND }
          if row.state = .queued then
            let row := { row with state := .failed, outcome := some .Offline, updated_at := e.now }
            saveIntent row
            ghi_nhat_ky (givenUp row .Offline)
          else saveIntent row
          return none
        else
          saveIntent (leasedRow e.now processing_id row)
          return firstPhase row

/-- The transaction before a ChangeConfiguration. -/
def dispatch (processing_id identifier : Uuid) (key : String) (value : ℤ) (old : String) :
    ConfigTx (Option Phase) := do
  let s ← read
  let stored ← orRaise (s.intent identifier) .assertionError
  if stored.processing_id ≠ some processing_id ∨ stored.state ≠ .sending then return none
  else
    saveIntent { stored with old_value := some old }
    ghi_nhat_ky
      { actor_id := stored.actor_id, action := "ocpp.configuration_dispatch", request_id := identifier
        charge_point_id := stored.charge_point_id, key := some key, old_value := some old, new_value := some value }
    return some (.change key value old)

/-- The phase after the first readback. -/
def afterRead (key : String) (value : ℤ) (reply : WireReply (Option ConfigurationReply)) : Phase :=
  match readKeys reply with
  | (outcome, none) => .finish .failed (.call outcome) none none
  | (_, some payload) =>
    match payload.configurationKey.find? (·.key = key) with
    | some ⟨_, false, some old⟩ => .dispatch key value old
    | _ => .finish .failed (.call .NotSupported) none none

/-- The phase after the reply to a ChangeConfiguration. -/
def afterChange (key : String) (value : ℤ) (old : String) : CallOutcome → Phase
  | .Rejected => .finish .failed (.call .Rejected) none none
  | .NotSupported => .finish .failed (.call .NotSupported) none none
  | .ProtocolError => .finish .failed (.call .ProtocolError) none none
  | .RebootRequired => .finish .reboot_required (.call .RebootRequired) (some old) none
  | .Accepted => .finish .accepted (.call .Accepted) (some old) (some (key, value))
  | outcome => .finish .accepted (.call outcome) none (some (key, value))

/-- The phase after the reply to a Reset. -/
def afterReset : CallOutcome → Phase
  | .Accepted => .finish .reboot_required (.reset .Accepted) none none
  -- the reset may still arrive: starts stay closed, and the worker only reads back
  | .Timeout => .finish .resetting (.reset .Timeout) none none
  | .Disconnected => .finish .resetting (.reset .Disconnected) none none
  | .ProtocolError => .finish .resetting (.reset .ProtocolError) none none
  | .RebootRequired => .finish .resetting (.reset .RebootRequired) none none
  | outcome => .finish .needs_review (.reset outcome) none none

/-- A transaction, undone when it raises. -/
def inTransaction {α : Type} (x : ConfigTx α) : ConfigTx α := savepoint (fun s _ => s) x

/-- A transaction and the phase after it. A worker whose transaction raises is done. -/
def transaction (x : ConfigTx (Option Phase)) (s : ConfigDb) : ConfigDb × Option Phase :=
  match inTransaction x s with
  | (.ok next, s') => (s', next)
  | (.error _, s') => (s', none)

/-- The next transaction or call of a worker: the tables, the phase after it, and what it put on the wire. -/
def Worker.step (k : Worker) (e : Event) (s : ConfigDb) : ConfigDb × Option Phase × Option WireMessage :=
  match k.phase with
  | .claim => let (s, next) := transaction (Ocpp.claim e k.processing_id k.identifier) s; (s, next, none)
  | .readOld key value => (s, some (afterRead key value e.keys), none)
  | .dispatch key value old =>
    let (s, next) := transaction (Ocpp.dispatch k.processing_id k.identifier key value old) s; (s, next, none)
  | .change key value old =>
    (s, some (.changeReply key value old), some (.ChangeConfiguration k.identifier key (toString value)))
  | .changeReply key value old => (s, some (afterChange key value old (configuration_call e.status)), none)
  | .checkBusy reset_id => (s, some (if e.busy = true then .blocked reset_id else .reset reset_id), none)
  | .blocked _ =>
    let (s, next) := transaction
      ((fun _ => none) <$> Ocpp.finish e.now k.processing_id k.identifier .resetting .ChargingBlocked none) s
    (s, next, none)
  | .reset reset_id => (s, some .resetReply, some (.Reset reset_id))
  | .resetReply => (s, some (afterReset (configuration_call e.status)), none)
  | .verify key value pending_reboot => (s, some (.ask (Ocpp.verify key value pending_reboot e.keys)), none)
  | .ask r =>
    let state := if r.askReset && reset_was_requested s k.identifier then .resetting else r.state
    (s, some (.finish state r.outcome r.actual none), none)
  | .finish state outcome actual next =>
    let (s, next) := transaction ((fun _ => next.map fun t => Phase.verify t.1 t.2 false) <$>
      Ocpp.finish e.now k.processing_id k.identifier state outcome actual) s
    (s, next, none)

end Csms.Ocpp
