import Csms.Charging.System
import Csms.Lib.Raises
import Csms.Ocpp.Frames

/-!
# The dispatcher of calls (`ocpp/dispatcher.py`, `charging_call` of `charging/service.py`)

`process_call` admits a call, answers a repeated one from the stored replies, and runs the handler of a new
one. It works in one transaction, whose state is that of the database, of the stored replies and of the
connection. A reply is kept as the frame whose text `encode_frame` gives.

Validation, the hash of a request and the text of a time are a parameter.
-/

namespace Csms.Ocpp

open Tx Csms.Charging

/-! ## 1. The code -/

abbrev Fields (F : Type) := List (Str × Json F)

/-- The fields that are stored; the rest is only validated. -/
structure BootPayload where
  chargePointVendor : String
  chargePointModel : String
  firmwareVersion : Option String
  deriving DecidableEq, Repr

/-- pydantic's models, `json.dumps` and `sha256` of a request, and `isoformat`. A payload of a boot that is not
valid gives the type of its first error, any other one `none`; a request without a hash raises a ValueError. -/
structure Platform (F : Type) where
  digest : Str → Fields F → Option Str
  isoformat : ℤ → Str
  boot : Fields F → Except String BootPayload
  status : Fields F → Option StatusPayload
  authorize : Fields F → Option String
  start : Fields F → Option StartPayload
  meter : Fields F → Option MeterPayload
  stop : Fields F → Option StopPayload

/-- `OcppMessageReply`. -/
structure MessageReply (F : Type) where
  charge_point_id : ℕ
  message_id : Str
  request_hash : Str
  response : Frame F

/-- What a call reads and writes: the tables, and `boot_accepted` of its connection. -/
structure Exchange (F : Type) where
  db : Database
  replies : List (MessageReply F)
  boot_accepted : Bool

abbrev CallTx (F : Type) := Tx (Exchange F) ChargingError

variable {F : Type}

def resultFrame (message_id : Str) (payload : Fields F) : Frame F := { kind := .result, message_id, payload }

def errorFrame (message_id : Str) (code description : String) : Frame F :=
  { kind := .error, message_id, payload := [], error_code := code.str, description := description.str }

/-- A text of code points. -/
def ofCodes (s : Str) : String := String.ofList (s.map Char.ofNat)

/-- A computation on the tables. -/
def onDatabase {α : Type} (x : ChargingTx α) : CallTx F α :=
  zoom Exchange.db (fun db x => { x with db }) id x

/-- `any(value is None for value in payload.values())`. -/
def hasNull (payload : Fields F) : Bool :=
  payload.any fun field => match field.2 with
    | .null => true
    | _ => false

/-- A `try` whose handler catches every ValueError. -/
def valueErrors {α : Type} (x : CallTx F α) (fault : α) : CallTx F α :=
  attempt x fun
    | .valueError _ => some (return fault)
    | _ => none

/-- The station takes chargers. -/
def stationAdmits (env : Environment) (station_id : ℕ) : Bool :=
  (env.stations.find? (·.id = station_id)).any fun station => !station.archived && station.status != .blocked

/-- `charge_point.status = ...`. -/
def setOnline (charger_id : ℕ) (online : Bool) : ChargingTx Unit :=
  let set (p : ChargePoint) : ChargePoint := { p with online }
  write fun s => { s with charge_points := Table.modify (·.id) charger_id set s.charge_points }

/-! ### BootNotification -/

/-- The OCPP code of a validation error. -/
def bootFault (kind : String) : String :=
  if kind = "missing" then "OccurrenceConstraintViolation"
  else if kind = "string_type" then "TypeConstraintViolation"
  else "PropertyConstraintViolation"

/-- The columns that an accepted boot sets. -/
def booted (env : Environment) (boot : BootPayload) (payload : Fields F) (pending_interval : Option ℤ) (interval : ℤ)
    (p : ChargePoint) : ChargePoint :=
  { p with
    vendor := some boot.chargePointVendor
    model := some boot.chargePointModel
    firmware_version :=
      if (payload.lookup "firmwareVersion".str).isSome then boot.firmwareVersion else p.firmware_version
    last_boot_at := some env.now
    heartbeat_interval_seconds := if pending_interval = none then interval else p.heartbeat_interval_seconds
    online := true
    status_updated_at := env.now }

/-- The payload of the answer to a boot. -/
def bootAnswer (platform : Platform F) (env : Environment) (accepted : Bool) (interval : ℤ) : Fields F :=
  [("status".str, .str (if accepted then "Accepted" else "Rejected").str),
    ("currentTime".str, .str (platform.isoformat env.now)), ("interval".str, .int interval)]

def boot_notification (platform : Platform F) (env : Environment) (charger : ChargePoint) (frame : Frame F) :
    CallTx F (Frame F) :=
  let fault code := errorFrame frame.message_id code "Invalid BootNotification payload"
  match platform.boot frame.payload with
  | .error kind => return fault (bootFault kind)
  | .ok boot =>
    if hasNull frame.payload then return fault "PropertyConstraintViolation"
    else do
      let boot_was_accepted := (← read).boot_accepted
      let accepted := stationAdmits env charger.station_id
      write fun x => { x with boot_accepted := accepted }
      let interval := (env.heartbeats charger.id).1.getD env.ocpp_heartbeat_interval_seconds
      let pending_interval := (env.heartbeats charger.id).2
      if accepted then
        if boot_was_accepted = false then onDatabase (note_reconnection env charger.id)
        let set := booted env boot frame.payload pending_interval interval
        onDatabase (write fun s => { s with
          charge_points := Table.modify (·.id) charger.id set s.charge_points })
      else onDatabase (setOnline charger.id false)
      return resultFrame frame.message_id (bootAnswer platform env accepted (pending_interval.getD interval))

/-! ### The other handlers -/

/-- Heartbeat and StatusNotification. -/
def monitoring (platform : Platform F) (env : Environment) (charger : ChargePoint) (frame : Frame F) :
    CallTx F (Frame F) := do
  raiseIf (hasNull frame.payload) (.valueError "Null property")
  if frame.action = "Heartbeat".str then
    raiseIf (frame.payload.length ≠ 0) (.valueError "Extra inputs are not permitted")
    onDatabase (setOnline charger.id true)
    return resultFrame frame.message_id [("currentTime".str, .str (platform.isoformat env.now))]
  else
    let status ← orRaise (platform.status frame.payload) (.valueError "StatusPayload")
    onDatabase (status_notification env charger status)
    return resultFrame frame.message_id []

def statusText : Billing.AuthorizationStatus → String
  | .accepted => "Accepted"
  | .blocked => "Blocked"
  | .expired => "Expired"
  | .invalid => "Invalid"
  | .concurrentTx => "ConcurrentTx"

def idTagInfo (status : Billing.AuthorizationStatus) : Str × Json F :=
  ("idTagInfo".str, .object [("status".str, .str (statusText status).str)])

/-- `charging_call`: the payload of the answer, and the rows to insert with it. -/
def charging_call (platform : Platform F) (env : Environment) (charger : ChargePoint) (frame : Frame F) :
    ChargingTx (Fields F × List Billing.MeterSample) := do
  let message_id := ofCodes frame.message_id
  raiseIf (hasNull frame.payload) (.valueError "Null OCPP property")
  if frame.action = "Authorize".str then
    let tag ← orRaise (platform.authorize frame.payload) (.valueError "AuthorizePayload")
    let (result, _, _) ← authorize env charger tag false
    return ([idTagInfo result], [])
  else if frame.action = "StartTransaction".str then
    let payload ← orRaise (platform.start frame.payload) (.valueError "StartPayload")
    let reply ← start_transaction env charger message_id payload
    return ([("transactionId".str, .int reply.transactionId), idTagInfo reply.status], [])
  else if frame.action = "MeterValues".str then
    let payload ← orRaise (platform.meter frame.payload) (.valueError "MeterPayload")
    let rows ← meter_values charger message_id payload
    return ([], rows)
  else
    let payload ← orRaise (platform.stop frame.payload) (.valueError "StopPayload")
    stop_transaction charger message_id payload
    return ([], [])

/-- The handler of an action: the response, and the rows to insert with it. -/
def handle (platform : Platform F) (env : Environment) (charger : ChargePoint) (frame : Frame F) :
    CallTx F (Frame F × List Billing.MeterSample) :=
  let fault description := errorFrame frame.message_id "PropertyConstraintViolation" description
  if frame.action = "BootNotification".str then (·, []) <$> boot_notification platform env charger frame
  else if frame.action = "Heartbeat".str ∨ frame.action = "StatusNotification".str then
    valueErrors ((·, []) <$> monitoring platform env charger frame) (fault "Invalid monitoring payload", [])
  else if frame.action = "Authorize".str ∨ frame.action = "StartTransaction".str ∨
      frame.action = "StopTransaction".str ∨ frame.action = "MeterValues".str then
    valueErrors
      ((fun r => (resultFrame frame.message_id r.1, r.2)) <$> onDatabase (charging_call platform env charger frame))
      (fault "Invalid charging payload", [])
  else return (errorFrame frame.message_id "NotImplemented" "Action is not implemented", [])

/-! ### Replies and admission -/

/-- The insert of the reply, and of the rows of its report. -/
def storeReply (reply : MessageReply F) (rows : List Billing.MeterSample) : CallTx F Unit := do
  let x ← read
  raiseIf (∃ row ∈ x.replies, row.charge_point_id = reply.charge_point_id ∧ row.message_id = reply.message_id)
    (.integrityError "ocpp_message_replies_pkey")
  write fun x => { x with replies := x.replies ++ [reply] }
  onDatabase (insert_meter_rows rows)

/-- `note_power_event` of the station. -/
def note_power_event (env : Environment) (station_id : ℕ) : ChargingTx Unit :=
  let note (c : StationPower) : StationPower :=
    if c.enabled then { c with generation := c.generation + 1, dirty_at := some (c.dirty_at.getD env.now) } else c
  write fun s => { s with station_power := Table.modify (·.station_id) station_id note s.station_power }

/-- The actions after which power is planned again. -/
def powerActions : List Str :=
  ["BootNotification".str, "StatusNotification".str, "StartTransaction".str, "StopTransaction".str]

/-- The locked row of the charger, with its contact recorded. -/
def lockCharger (env : Environment) (charge_point_id : ℕ) (record_seen : Bool) : CallTx F (Option ChargePoint) := do
  if record_seen then onDatabase (mark_seen env charge_point_id)
  let x ← read
  return x.db.charge_points.find? fun p => p.id = charge_point_id ∧ p.archived = false

/-- A call is refused, has a stored reply, or is new. -/
inductive Admission (F : Type) where
  | refused (response : Frame F)
  | cached (charger : ChargePoint) (reply : MessageReply F)
  | fresh (charger : ChargePoint) (digest : Str)

/-- What `process_call` does before it looks at the action. -/
def checkCaller (platform : Platform F) (env : Environment) (charge_point_id : ℕ) (frame : Frame F) (record_seen : Bool) :
    CallTx F (Admission F) := do
  match ← lockCharger env charge_point_id record_seen with
  | none => return .refused (errorFrame frame.message_id "SecurityError" "Charger registration is unavailable")
  | some charger =>
    let x ← read
    if frame.action ≠ "BootNotification".str ∧ x.boot_accepted = false then
      return .refused (errorFrame frame.message_id "SecurityError" "BootNotification must be accepted first")
    else
      let digest ← orRaise (platform.digest frame.action frame.payload)
        (.valueError "Out of range float values are not JSON compliant")
      match x.replies.find? fun row => row.charge_point_id = charger.id ∧ row.message_id = frame.message_id with
      | some reply => return .cached charger reply
      | none => return .fresh charger digest

/-- `reply[0] == 3 and reply[2].get("status") == "Accepted"`. -/
def approves (response : Frame F) : Bool :=
  match response.kind, response.payload.lookup "status".str with
  | .result, some (.str status) => status == "Accepted".str
  | _, _ => false

/-- The answer to a call that has a stored reply: a repeated boot admits the connection anew. -/
def repeated (platform : Platform F) (env : Environment) (charger : ChargePoint) (frame : Frame F)
    (reply : MessageReply F) : CallTx F (Frame F) :=
  if frame.action ≠ "BootNotification".str then return reply.response
  else do
    let boot_was_accepted := (← read).boot_accepted
    let accepted := approves reply.response && stationAdmits env charger.station_id
    write fun x => { x with boot_accepted := accepted }
    if approves reply.response && !accepted then
      onDatabase (setOnline charger.id false)
      return resultFrame frame.message_id (bootAnswer platform env false env.ocpp_heartbeat_interval_seconds)
    else
      if accepted && !boot_was_accepted then onDatabase (note_reconnection env charger.id)
      return reply.response

/-- A new call: the handler, the insert of its reply, and the note for the power of the station. -/
def answerNew (platform : Platform F) (env : Environment) (charger : ChargePoint) (frame : Frame F) (digest : Str) :
    CallTx F (Frame F) := do
  let r ← handle platform env charger frame
  storeReply ⟨charger.id, frame.message_id, digest, r.1⟩ r.2
  if powerActions.contains frame.action ∧ r.1.kind = .result then onDatabase (note_power_event env charger.station_id)
  return r.1

/-- `process_call`. -/
def process_call (platform : Platform F) (env : Environment) (charge_point_id : ℕ) (frame : Frame F)
    (record_seen : Bool) : CallTx F (Frame F) := do
  match ← checkCaller platform env charge_point_id frame record_seen with
  | .refused response => return response
  | .cached charger reply => repeated platform env charger frame reply
  | .fresh charger digest => answerNew platform env charger frame digest

/-- A rolled back transaction; the connection is as it was. -/
def Exchange.rollback (before after : Exchange F) : Exchange F := { before with db := before.db.rollback after.db }

/-- `dispatch_call`. -/
def dispatch_call (platform : Platform F) (env : Environment) (charge_point_id : ℕ) (frame : Frame F)
    (record_seen : Bool) : CallTx F (Frame F) :=
  savepoint Exchange.rollback (process_call platform env charge_point_id frame record_seen)

end Csms.Ocpp
