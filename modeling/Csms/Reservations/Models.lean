import Csms.Lib.Table
import Csms.Lib.Datetime
import Csms.Wallet.Postings

/-!
# Reservations and what they depend on (`reservations/models.py`)

A reservation carries its commands: the unique index on reservation and action allows one
ReserveNow, inserted with the reservation, and one CancelReservation. Instants are microseconds.

The tables of other modules that the reservation code only reads are an `Environment`. They may
change in any way between two transactions.
-/

namespace Csms.Reservations

open Csms.Wallets

def SECOND : ℤ := 1000000

inductive ReservationStatus where
  | pending | uncertain | active | cancel_pending | expiry_release_pending
  | consumed | cancelled | rejected | expired
  deriving DecidableEq, Repr

/-- `status in HOLDS`. -/
def ReservationStatus.holds : ReservationStatus → Bool
  | .pending | .uncertain | .active | .cancel_pending | .expiry_release_pending => true
  | .consumed | .cancelled | .rejected | .expired => false

inductive FeeDecision where
  | pending | legacy_exempt | waived | charged | review
  deriving DecidableEq, Repr

inductive CancelReason where
  | expired | station_unavailable | driver_cancel
  deriving DecidableEq, Repr

inductive FeeReason where
  | late_start_after_fee_window | consumed | cancelled_before_expiry | never_reserved | zero_fee
  | reservation_not_verified_at_expiry | wallet_unavailable | no_show
  | station_unavailable | driver_cancel | expired
  deriving DecidableEq, Repr

/-- The outcome of a call on the wire. -/
inductive WireOutcome where
  | Accepted | Occupied | Rejected | Unavailable | Faulted | Timeout | Disconnected | ProtocolError
  deriving DecidableEq, Repr

/-- A reply by which the charger refuses ReserveNow for good. -/
def WireOutcome.refuses : WireOutcome → Bool
  | .Occupied | .Rejected | .Unavailable | .Faulted => true
  | .Accepted | .Timeout | .Disconnected | .ProtocolError => false

inductive Outcome where
  | not_sent | capability_changed | identity_changed | charger_reboot | lease_expired
  | expiry_observed | StartTransaction | wire (outcome : WireOutcome)
  deriving DecidableEq, Repr

inductive CommandAction where
  | ReserveNow | CancelReservation
  deriving DecidableEq, Repr

inductive CommandStatus where
  | queued | sending | done | uncertain | suppressed
  deriving DecidableEq, Repr

structure ReservationCommand where
  id : Uuid
  status : CommandStatus
  attempts : ℕ
  next_attempt_at : ℤ
  locked_until : Option ℤ
  lease_token : Option Uuid
  outcome : Option Outcome
  deriving DecidableEq, Repr

/-- A command as `ReservationCommand(...)` inserts it. -/
def newCommand (id : Uuid) (now : ℤ) : ReservationCommand := ⟨id, .queued, 0, now, none, none, none⟩

/-- The actions of `ReservationEvent`; their details are not read back. -/
inductive EventAction where
  | requested | release_requested | fee_decided | late_start_observed | rejected | reserve_outcome
  | release_confirmed | uncertain | expiry_observed | consumed
  deriving DecidableEq, Repr

structure Reservation where
  id : Uuid
  ocpp_id : ℕ
  driver_id : Uuid
  station_id : Uuid
  charge_point_id : Uuid
  connector_id : Uuid
  card_id : Uuid
  request_hash : String
  status : ReservationStatus
  created_at : ℤ
  arrival_at : ℤ
  expires_at : ℤ
  updated_at : ℤ
  outcome : Option Outcome
  cancel_request_id : Option Uuid
  cancel_requested_at : Option ℤ
  cancel_reason : Option CancelReason
  no_show_exempt : Bool
  session_id : Option ℕ
  fee_vnd : ℤ
  fee_policy_version : ℤ
  fee_decision : FeeDecision
  fee_reason : Option FeeReason
  fee_decided_at : Option ℤ
  fee_ledger_id : Option ℕ
  activated_at : Option ℤ
  expiry_fee_eligible : Option Bool
  reserve : ReservationCommand
  cancel : Option ReservationCommand
  events : List (EventAction × ℤ)

/-! ## The environment -/

inductive OcppStatus where
  | Available | Preparing | Charging | SuspendedEV | SuspendedEVSE | Finishing | Reserved
  | Unavailable | Faulted | unknown
  deriving DecidableEq, Repr

structure Station where
  id : Uuid
  active : Bool
  archived : Bool
  deriving DecidableEq, Repr

structure ChargePoint where
  id : Uuid
  station_id : Uuid
  online : Bool
  archived : Bool
  last_boot_at : Option ℤ
  last_seen_at : Option ℤ
  heartbeat_interval_seconds : ℤ
  error_code : Option String
  raw_ocpp_status : OcppStatus
  deriving DecidableEq, Repr

structure Connector where
  id : Uuid
  charge_point_id : Uuid
  archived : Bool
  status : OcppStatus
  raw_ocpp_status : OcppStatus
  last_status_notification_at : Option ℤ
  status_updated_at : ℤ
  deriving DecidableEq, Repr

structure ReservationCapability where
  charge_point_id : Uuid
  boot_at : Option ℤ
  supported : Bool
  checked_at : Option ℤ
  deriving DecidableEq, Repr

/-- The columns of a charging session that say whether it occupies its connector. -/
structure Occupation where
  connector_id : Uuid
  ended : Bool
  billing_lifecycle_version : ℕ
  released : Bool
  deriving DecidableEq, Repr

/-- What a transaction reads and the reservation code does not write. `connections` lists the
charge points with a socket and whether its boot was accepted, `now` is the database time and
`new_id` the value of `uuid4()`. -/
structure Environment where
  now : ℤ
  new_id : Uuid
  stations : List Station
  charge_points : List ChargePoint
  connectors : List Connector
  capabilities : List ReservationCapability
  connections : List (Uuid × Bool)
  sessions : List Occupation
  virtual_tags : List (Uuid × Uuid)

/-- The tables the reservation code writes. `ocpp_seq` is the sequence of `ocpp_id`. -/
structure ReservationDb where
  wallet : WalletDb
  reservations : List Reservation
  ocpp_seq : ℕ

inductive ReservationFailure where
  | http (status_code : ℕ) (detail : String)
  | integrityError (constraint : String)
  | valueError (message : String)
  | wallet (failure : WalletFailure)
  deriving DecidableEq, Repr

abbrev ReservationTx := Tx ReservationDb ReservationFailure

end Csms.Reservations
