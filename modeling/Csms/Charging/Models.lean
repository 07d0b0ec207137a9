import Csms.Accounts.Calls
import Csms.Billing.Invoicing

/-!
# The charging tables (`charging/models.py`, `stations/models.py`, `power/models.py`)

Rows extend those that invoicing reads. A connector and a charge point have a number, by which sessions
name them, and the UUID by which reservations do. Instants are microseconds of UTC.

`Database` holds the tables that chargers, workers and drivers write, `Environment` those that the
modelled code only reads, the settings and the clock. The environment may change between two
transactions.
-/

namespace Csms.Charging

open Tx Csms.Wallets Csms.Reservations Csms.Accounts
open Csms.Billing (ChargingSession AuthorizationStatus Measurand MeterSample OccupationInterval EndReason
  InvoiceRow)

/-! ## 1. Sessions -/

inductive ReleaseDetection where
  | explicit | available
  deriving DecidableEq, Repr

inductive StopReason where
  | EmergencyStop | EVDisconnected | HardReset | Local | Other | PowerLoss | Reboot | Remote | SoftReset
  | UnlockCommand | DeAuthorized | ReplacedByNewTransaction | ManualClosure
  deriving DecidableEq, Repr

structure Session extends ChargingSession where
  tag_tail : String
  release_detection : ReleaseDetection
  energy_kwh : Option ℚ
  stop_reason : Option StopReason
  recovery_at : Option ℤ
  abnormal_since : Option ℤ
  manual_closed_at : Option ℤ
  manual_close_reason : Option String
  closed_by : Option Uuid
  received_at : ℤ
  deriving DecidableEq, Repr

/-- The start reading, which is never absent. -/
def Session.startWh (c : Session) : ℚ := c.meter_start_wh.getD 0

/-- `review`, and `flag` of the occupation policy. -/
def review (reason : String) (c : Session) : Session :=
  if reason ∈ c.review_reasons then c else { c with review_reasons := c.review_reasons ++ [reason] }

/-- The reasons without some of them. -/
def withoutReasons (reasons : List String) (c : Session) : Session :=
  { c with review_reasons := c.review_reasons.filter (· ∉ reasons) }

structure Interval extends OccupationInterval where
  id : ℕ
  deriving DecidableEq, Repr

/-- The columns of `uq_charging_meter_sample`. -/
def sampleKey (m : MeterSample) : ℕ × (Measurand × String × String) × ℤ :=
  (m.session_id, (m.measurand, m.phase, m.location), m.timestamp)

/-- The actions of session events; their details are not read back. -/
inductive EventAction where
  | connector_released | occupation_status | late_stop | reconnected | available_with_open_session
  | charging_resumed | offline_timeout | manual_closure | remote_stop_not_confirmed
  deriving DecidableEq, Repr

structure SessionEvent where
  session_id : ℕ
  action : EventAction
  deriving DecidableEq, Repr

structure PendingMessage where
  charge_point_id : ℕ
  message_id : String
  reason : String
  deriving DecidableEq, Repr

structure AuthorizationAttempt where
  charge_point_id : ℕ
  tag_tail : String
  result : AuthorizationStatus
  deriving DecidableEq, Repr

/-! ## 2. Stations, cards, starts and power -/

inductive StationStatus where
  | inactive | active | suspended | blocked
  deriving DecidableEq, Repr

structure Station extends Billing.Station where
  status : StationStatus
  archived : Bool

structure ChargePoint extends Billing.ChargePoint where
  uuid : Uuid
  archived : Bool
  online : Bool
  vendor : Option String
  model : Option String
  firmware_version : Option String
  last_seen_at : Option ℤ
  heartbeat_interval_seconds : ℤ
  last_boot_at : Option ℤ
  raw_ocpp_status : Option OcppStatus
  error_code : Option String
  vendor_error_code : Option String
  error_at : Option ℤ
  status_updated_at : ℤ
  code_locked_at : Option ℤ
  deriving DecidableEq, Repr

structure Connector extends Billing.Connector where
  uuid : Uuid
  connector_number : ℕ
  archived : Bool
  status : OcppStatus
  raw_ocpp_status : Option OcppStatus
  last_status_notification_at : Option ℤ
  status_updated_at : ℤ
  deriving DecidableEq, Repr

/-- A card, with the status and the role of its user. -/
structure ChargingCard extends Card where
  tag_hash : String
  active : Bool
  user_active : Bool
  is_driver : Bool
  expires_at : Option ℤ
  deriving DecidableEq, Repr

inductive StartStatus where
  | Pending | Accepted | Rejected | Started | Offline | Timeout | Disconnected | ProtocolError
  | StartNotConfirmed
  deriving DecidableEq, Repr

structure DriverStartRequest where
  id : Uuid
  driver_id : Uuid
  connector_id : ℕ
  created_at : ℤ
  status : StartStatus
  reply_status : StartStatus
  rejection_reason : Option String
  balance_vnd : Option ℤ
  minimum_balance_vnd : Option ℤ
  reply_at : Option ℤ
  lease_until : ℤ
  session_id : Option ℕ
  deriving DecidableEq, Repr

inductive PowerState where
  | disabled | bootstrap | ready | applying | degraded | disable_pending
  deriving DecidableEq, Repr

structure StationPower where
  station_id : ℕ
  limit_w : ℤ
  applied_limit_w : ℤ
  generation : ℕ
  enabled : Bool
  target_enabled : Bool
  state : PowerState
  issue : Option String
  dirty_at : Option ℤ
  deriving DecidableEq, Repr

structure ConnectorPower where
  connector_id : ℕ
  station_id : ℕ
  rated_w : ℤ
  confirmed_w : ℤ
  reserved_w : ℤ
  desired_w : ℤ
  baseline_boot_at : Option ℤ
  pending_command_id : Option Uuid
  deriving DecidableEq, Repr

/-- An accepted remote stop, with the time of its result. -/
structure RemoteStop where
  transaction_id : ℕ
  accepted_at : ℤ
  deriving DecidableEq, Repr

/-! ## 3. The database -/

/-- The tables. The sequences give the next value of each identity column. -/
structure Database where
  books : Books
  charge_points : List ChargePoint
  connectors : List Connector
  charging_sessions : List Session
  session_seq : ℕ
  meter_samples : List MeterSample
  sample_seq : ℕ
  occupation_intervals : List Interval
  interval_seq : ℕ
  invoices : List InvoiceRow
  tariffs : List Pricing.Tariff
  session_events : List SessionEvent
  pending_messages : List PendingMessage
  authorization_attempts : List AuthorizationAttempt
  start_requests : List DriverStartRequest
  station_power : List StationPower
  connector_power : List ConnectorPower

/-- What is only read: `scheduled_limit_w` is `get_current_power_limit_w`, `resets` the charge points
with a pending reset, `heartbeats` the verified and the pending heartbeat intervals. -/
structure Environment where
  now : ℤ
  new_id : Uuid
  sha256 : String → String
  stations : List Station
  cards : List ChargingCard
  virtual_tags : List Uuid
  resets : List ℕ
  heartbeats : ℕ → Option ℤ × Option ℤ
  scheduled_limit_w : ℕ → Option ℤ
  remote_stops : List RemoteStop
  billing_available_confirms_unplug : Bool
  charging_minimum_kwh : ℤ
  wallet_reserve_vnd : ℤ
  charging_abnormal_offline_seconds : ℤ
  ocpp_heartbeat_interval_seconds : ℤ

inductive ChargingError where
  | valueError (message : String)
  | runtimeError (message : String)
  | assertionError
  | decimalOverflow
  | http (status_code : ℕ) (detail : String)
  | integrityError (constraint : String)
  | dataError
  | reservation (failure : ReservationFailure)
  | billing (failure : Billing.BillingError)
  | wallet (failure : WalletFailure)
  deriving DecidableEq, Repr

abbrev ChargingTx := Tx Database ChargingError

/-- The update of a session. -/
def saveSession (c : Session) (s : Database) : Database :=
  { s with charging_sessions := Table.modify (fun c : Session => c.id) c.id (fun _ => c) s.charging_sessions }

def addEvent (session_id : ℕ) (action : EventAction) (s : Database) : Database :=
  { s with session_events := s.session_events ++ [⟨session_id, action⟩] }

/-- The samples of a session. -/
def Database.samplesOf (s : Database) (session_id : ℕ) : List MeterSample :=
  s.meter_samples.filter (·.session_id = session_id)

/-- The intervals of a session, in the order of their ids. -/
def Database.intervalsOf (s : Database) (session_id : ℕ) : List Interval :=
  s.occupation_intervals.filter (·.session_id = session_id)

/-! ## 4. Lemmas of the rows -/

@[simp] theorem review_id (reason : String) (c : Session) : (review reason c).id = c.id := by
  unfold review
  split <;> rfl

/-- A review changes the reasons only. -/
theorem review_eq (reason : String) (c : Session) :
    review reason c = { c with review_reasons := (review reason c).review_reasons } := by
  unfold review
  split <;> rfl

theorem mem_review {reason r : String} {c : Session} :
    r ∈ (review reason c).review_reasons ↔ r ∈ c.review_reasons ∨ r = reason := by
  unfold review
  split
  · next h => exact ⟨.inl, fun h' => h'.elim id fun e => e ▸ h⟩
  · simp

/-- `c'` is `c` with more reasons. -/
structure Reviewed (c c' : Session) : Prop where
  same : c' = { c with review_reasons := c'.review_reasons }
  reasons : c.review_reasons ⊆ c'.review_reasons

theorem Reviewed.refl (c : Session) : Reviewed c c := ⟨rfl, fun _ h => h⟩

theorem Reviewed.trans {a b c : Session} (h : Reviewed a b) (h' : Reviewed b c) : Reviewed a c :=
  ⟨by rw [h'.same, h.same], fun _ hr => h'.reasons (h.reasons hr)⟩

theorem reviewed_review (reason : String) (c : Session) : Reviewed c (review reason c) :=
  ⟨review_eq reason c, fun _ hr => mem_review.mpr (.inl hr)⟩

/-- What does not depend on the reasons is kept. -/
theorem Reviewed.get {c c' : Session} (h : Reviewed c c') {α : Type} (f : Session → α)
    (hf : ∀ c reasons, f { c with review_reasons := reasons } = f c) : f c' = f c := by
  rw [h.same]
  exact hf c _

end Csms.Charging
