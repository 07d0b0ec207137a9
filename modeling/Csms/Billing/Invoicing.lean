import Csms.Lib.Table
import Csms.Lib.Tx
import Csms.Wallet.Service
import Csms.Billing.DailyTariffs

/-!
# Invoices of charging sessions (`billing/invoicing.py`, `billing/idle_fee.py`)

`lap_hoa_don` runs in the caller's transaction. It returns the invoice a session has, or creates it
inside a savepoint: readings, tariffs, energy lines, idle lines, total. A business rejection becomes
a review reason of the session; every other exception reaches the caller.
-/

namespace Csms.Billing

open Csms.Pricing Tx Decimal Pairs

/-! ## 1. The tables -/

inductive AuthorizationStatus where
  | accepted | blocked | expired | invalid | concurrentTx
  deriving DecidableEq, Repr

inductive SettlementReason where
  | debited | zero_invoice | legacy_exempt
  deriving DecidableEq, Repr

/-- The literals of `billing_lifecycle_version` rest on it. -/
instance twoVersions : NeZero 2 := ⟨by decide⟩

/-- A charging session. Instants are microseconds of UTC; a reading that is absent or no finite
number is `none`. The two settlement columns are set together. -/
structure ChargingSession where
  id : ℕ
  charge_point_id : ℕ
  connector_id : ℕ
  driver_id : Option Uuid
  authorization_status : AuthorizationStatus
  started_at : ℤ
  ended_at : Option ℤ
  idle_since : Option ℤ
  billing_lifecycle_version : Fin 2
  connector_released_at : Option ℤ
  settlement : Option SettlementReason
  meter_start_wh : Option ℚ
  meter_stop_wh : Option ℚ
  review_reasons : List String
  deriving DecidableEq, Repr

/-- `Energy.Active.Import.Register`, or one of the other measurands. -/
inductive Measurand where
  | energyRegister | other (name : String)
  deriving DecidableEq, Repr

structure MeterSample where
  id : ℕ
  session_id : ℕ
  timestamp : ℤ
  measurand : Measurand
  phase : String
  location : String
  value : Option ℚ
  unit : String
  deriving DecidableEq, Repr

inductive EndReason where
  | released | resumed
  deriving DecidableEq, Repr

structure OccupationInterval where
  session_id : ℕ
  started_at : ℤ
  ended_at : Option ℤ
  confirmed : Bool
  end_reason : Option EndReason
  deriving DecidableEq, Repr

structure ChargePoint where
  id : ℕ
  station_id : ℕ
  deriving DecidableEq, Repr

structure Connector where
  id : ℕ
  charge_point_id : ℕ
  deriving DecidableEq, Repr

/-- A station with the zone of its IANA key. -/
structure Station where
  id : ℕ
  timezone : Zone

/-- The tables that invoicing only reads. -/
structure StationTables where
  charge_points : List ChargePoint
  connectors : List Connector
  stations : List Station
  meter_samples : List MeterSample
  occupation_intervals : List OccupationInterval

inductive LineType where
  | energy | idle
  deriving DecidableEq, Repr

/-- An invoice line; its datetimes are stored as instants. -/
structure InvoiceLine where
  line_type : LineType
  local_date : ℤ
  started_at : ℤ
  ended_at : ℤ
  energy_wh : ℚ
  rate_vnd : ℤ
  band_label : String
  interpolated : Bool
  tariff_id : ℕ
  amount_vnd : ℤ
  deriving DecidableEq, Repr

/-- An invoice with its lines. -/
structure InvoiceRow extends Wallets.Invoice where
  station_id : ℕ
  rounding_rule : String
  lines : List InvoiceLine
  deriving DecidableEq, Repr

/-- The tables that invoicing writes. -/
structure BillingDb where
  charging_sessions : List ChargingSession
  invoices : List InvoiceRow
  tariffs : List Tariff
  deriving DecidableEq, Repr

abbrev BillingTx := Tx BillingDb BillingError

/-! ## 2. `tinh_phi_chiem_tru` -/

/-- `tinh_phi_chiem_tru`: billable minutes and their price. -/
def tinh_phi_chiem_tru (idle_since : Option ℤ) (session_end grace_minutes idle_rate_vnd_per_minute : ℤ) :
    Except BillingError (ℤ × ℤ) :=
  if grace_minutes < 0 then .error (.valueError "grace_minutes must be nonnegative")
  else if idle_rate_vnd_per_minute < 0 then
    .error (.valueError "idle_rate_vnd_per_minute must be nonnegative")
  else
    match idle_since with
    | none => .ok (0, 0)
    | some idle =>
      if session_end - idle < 0 then .error (.valueError "session_end precedes idle_since")
      else
        let excess_us := session_end - idle - grace_minutes * MINUTE
        let billable_minutes := max 0 ((excess_us + MINUTE - 1) / MINUTE)
        .ok (billable_minutes, billable_minutes * idle_rate_vnd_per_minute)

/-! ## 3. The parts of an invoice -/

def LEGACY_ROUNDING_RULE : String :=
  "Tiền điện: làm tròn nửa lên đến đồng nguyên ở từng đoạn rồi cộng tổng. " ++
  "Phí chiếm trụ: khoảng cuối đã ghi nhận đến StopTransaction; trừ ân hạn một lần " ++
  "theo biểu giá lúc bắt đầu chiếm trụ, làm tròn lên theo phút một lần; " ++
  "mỗi phút bắt đầu dùng biểu giá hiệu lực theo ngày địa phương của trạm."

def ROUNDING_RULE : String :=
  "Tiền điện: làm tròn nửa lên đến đồng nguyên ở từng đoạn rồi cộng tổng. " ++
  "Phí chiếm trụ: khoảng đã xác nhận kết thúc sạc đến lúc rút súng; " ++
  "trừ ân hạn một lần theo biểu giá lúc bắt đầu khoảng liên tục, " ++
  "làm tròn lên theo phút một lần; mỗi phút bắt đầu dùng biểu giá " ++
  "hiệu lực theo ngày địa phương của trạm. Khoảng tạm dừng rồi sạc lại không thu phí."

/-- `_valid_reading`, giving the reading. -/
def _valid_reading (value : Option ℚ) : Option ℚ := value.filter fun v => 0 ≤ v

/-- The samples of the session's register, in the order of the query. -/
def registerSamples (samples : List MeterSample) (charging : ChargingSession) (stop : ℤ) :
    List MeterSample :=
  (samples.filter fun m => m.session_id = charging.id ∧ charging.started_at ≤ m.timestamp ∧
    m.timestamp ≤ stop ∧ m.measurand = .energyRegister ∧ m.phase = "" ∧ m.location = "Outlet").insertionSort
    fun a b => a.timestamp < b.timestamp ∨ (a.timestamp = b.timestamp ∧ a.id ≤ b.id)

/-- One sample into the dictionary `readings`. -/
def addSample (readings : List MeterValue) (sample : MeterSample) :
    Except BillingError (List MeterValue) :=
  match if sample.unit = "Wh" then _valid_reading sample.value else none with
  | none => .error (.invalidInvoice "invoice_invalid_meter")
  | some value =>
    match readings.find? (·.timestamp = sample.timestamp) with
    | some reading =>
      if reading.energy_wh = value then .ok readings
      else .error (.invalidInvoice "invoice_conflicting_meter")
    | none => .ok (readings ++ [⟨sample.timestamp, value⟩])

/-- `_meter_values`. -/
def _meter_values (samples : List MeterSample) (charging : ChargingSession) (stop : ℤ) :
    Except BillingError (List MeterValue) :=
  match _valid_reading charging.meter_start_wh, _valid_reading charging.meter_stop_wh with
  | some start_wh, some stop_wh => do
    -- a session of no length has one key, with the later value
    let ends : List MeterValue := if charging.started_at = stop then [⟨stop, stop_wh⟩]
      else [⟨charging.started_at, start_wh⟩, ⟨stop, stop_wh⟩]
    let readings ← (registerSamples samples charging stop).foldlM addSample ends
    let ordered := readings.insertionSort fun a b => a.timestamp ≤ b.timestamp
    if (pairs ordered).any fun p => p.2.energy_wh < p.1.energy_wh then
      .error (.invalidInvoice "invoice_meter_decreased")
    else .ok ordered
  | _, _ => .error (.invalidInvoice "invoice_invalid_meter")

/-- The midnight that ends a local date, with fold 0. -/
def midnightAfter (tz : Zone) (day : ℤ) : ℤ := (Stamp.loc ((day + 1) * DAY)).instant tz

/-- The started minutes from `anchor` to the end of its local date. -/
def minutesToMidnight (tz : Zone) (anchor : ℤ) : ℤ :=
  (midnightAfter tz (tz.localDate anchor) - anchor + 59999999) / 60000000

/-- The loop of `_idle_lines`: `count` minutes from `anchor` on, day by day. A turn takes a minute
at least, or raises, or changes nothing and is repeated for ever; so `count` turns are enough. -/
def idleDays (tz : Zone) (daily : List DailyTariff) (stop : ℤ) :
    ℕ → ℤ → ℤ → Except BillingError (List InvoiceLine)
  | turns, anchor, count =>
    if count = 0 then .ok []
    else
      match turns with
      | 0 => .error .diverges
      | turns + 1 =>
        let day := tz.localDate anchor
        match versionOf daily day with
        | none => .error .keyError
        | some tariff => do
          let span := min count (minutesToMidnight tz anchor)
          let line_end := min stop (anchor + span * MINUTE)
          let (_, amount) ← tinh_phi_chiem_tru (some anchor) line_end 0 tariff.idle_rate_vnd_per_minute
          let rest ← idleDays tz daily stop turns (anchor + span * MINUTE) (count - span)
          return { line_type := .idle, local_date := day, started_at := anchor, ended_at := line_end
                   energy_wh := 0, rate_vnd := tariff.idle_rate_vnd_per_minute
                   band_label := "Phí chiếm trụ", interpolated := false, tariff_id := tariff.id
                   amount_vnd := amount } :: rest

/-- `_idle_lines`, for the start of the idle time if there is one. -/
def _idle_lines (tz : Zone) (started_at stop : ℤ) (daily : List DailyTariff) :
    Option ℤ → Except BillingError (List InvoiceLine)
  | none => .ok []
  | some idle =>
    if idle < started_at ∨ stop < idle then .error (.invalidInvoice "invoice_invalid_idle_interval")
    else if idle = stop then .ok []
    else
      match versionOf daily (tz.localDate idle) with
      | none => .error .keyError
      | some initial => do
        let (count, _) ← tinh_phi_chiem_tru (some idle) stop initial.grace_minutes 1
        idleDays tz daily stop count.toNat (idle + initial.grace_minutes * MINUTE) count

/-- The line of a segment. -/
def energyLine (tz : Zone) (s : Segment) : InvoiceLine where
  line_type := .energy
  local_date := s.local_date
  started_at := s.start_time.instant tz
  ended_at := s.end_time.instant tz
  energy_wh := s.energy_consumed_wh
  rate_vnd := s.price_vnd_per_kwh
  band_label := s.frame_label
  interpolated := s.start_interpolated || s.end_interpolated
  tariff_id := s.tariff_version
  amount_vnd := s.amount_vnd

/-! ## 4. `_create_invoice` -/

/-- The station of a session whose connector belongs to its charge point. -/
def sessionStation (tables : StationTables) (charging : ChargingSession) : Except BillingError Station :=
  match tables.charge_points.find? (·.id = charging.charge_point_id),
      tables.connectors.find? (·.id = charging.connector_id) with
  | some point, some connector =>
    if connector.charge_point_id ≠ charging.charge_point_id then
      .error (.invalidInvoice "invoice_session_mismatch")
    else if charging.driver_id = none then .error (.invalidInvoice "invoice_missing_driver")
    else if charging.authorization_status ≠ .accepted then
      .error (.invalidInvoice "invoice_unauthorized_session")
    else
      match tables.stations.find? (·.id = point.station_id) with
      | some station => .ok station
      | none => .error .assertionError
  | _, _ => .error (.invalidInvoice "invoice_session_mismatch")

/-- The confirmed occupation of a session that is billed to the release of its connector. -/
def confirmedIntervals (intervals : List OccupationInterval) (charging : ChargingSession) :
    Except BillingError (List OccupationInterval) :=
  if charging.billing_lifecycle_version = 1 then
    if charging.connector_released_at = none then .error .assertionError
    else
      let found := (intervals.filter fun i => i.session_id = charging.id ∧ i.confirmed).insertionSort
        fun a b => a.started_at ≤ b.started_at
      if 1 < found.length ∨ ∃ i ∈ found,
          i.ended_at ≠ charging.connector_released_at ∨ i.end_reason ≠ some .released then
        .error (.invalidInvoice "invoice_invalid_occupation_history")
      else .ok found
  else .ok []

/-- The end of the days that need a tariff. -/
def billingEnd (charging : ChargingSession) (stop : ℤ) : List OccupationInterval → ℤ
  | [] => stop
  | _ :: _ => max stop (charging.connector_released_at.getD stop)

/-- The segments, if together they have the energy between the first and the last reading. -/
def pricedSegments (tz : Zone) (started_at stop : ℤ) (readings : List MeterValue)
    (daily : List DailyTariff) : Except BillingError (List Segment) := do
  let segments ← chia_doan 50 tz started_at stop readings (framesOf daily)
  match readings.head?, readings.getLast? with
  | some first, some last =>
    if ctxSum 50 (segments.map (·.energy_consumed_wh)) ≠ ctxSub 50 last.energy_wh first.energy_wh then
      .error (.invalidInvoice "invoice_energy_mismatch")
    else .ok segments
  | _, _ => .error .indexError

/-- The idle lines of a session: from `idle_since` to the stop, or over its confirmed occupation. -/
def sessionIdleLines (tz : Zone) (charging : ChargingSession) (stop : ℤ)
    (intervals : List OccupationInterval) (daily : List DailyTariff) :
    Except BillingError (List InvoiceLine) :=
  if charging.billing_lifecycle_version = 0 then
    _idle_lines tz charging.started_at stop daily charging.idle_since
  else do
    let lines ← intervals.mapM fun i =>
      match i.ended_at with
      | some ended_at => _idle_lines tz charging.started_at ended_at daily (some i.started_at)
      | none => .error .assertionError
    return lines.flatten

/-- The lines of an invoice. -/
def invoiceLines (tz : Zone) (charging : ChargingSession) (stop : ℤ) (readings : List MeterValue)
    (intervals : List OccupationInterval) (daily : List DailyTariff) :
    Except BillingError (List InvoiceLine) := do
  let segments ← pricedSegments tz charging.started_at stop readings daily
  let idle ← sessionIdleLines tz charging stop intervals daily
  return segments.map (energyLine tz) ++ idle

/-- The check constraint a line violates. -/
def lineViolated (line : InvoiceLine) : Option String :=
  if ¬ line.started_at < line.ended_at then some "ck_invoice_lines_interval"
  else if ¬ (0 ≤ line.energy_wh ∧ 0 ≤ line.rate_vnd ∧ 0 ≤ line.amount_vnd) then
    some "ck_invoice_lines_nonnegative"
  else if line.line_type = .idle ∧ line.energy_wh ≠ 0 then some "ck_invoice_lines_idle_energy"
  else if line.band_label.toList.all (· = ' ') then some "ck_invoice_lines_label"
  else none

/-- The insert of an invoice and its lines. -/
def insertInvoice (invoice : InvoiceRow) : BillingTx Unit := do
  let s ← read
  raiseIf (∃ i ∈ s.invoices, i.session_id = invoice.session_id) (.integrityError "uq_invoices_session")
  raiseIf (∃ i ∈ s.invoices, i.id = invoice.id) (.integrityError "invoices_pkey")
  raiseIf (invoice.total_vnd < 0) (.integrityError "ck_invoices_total")
  match invoice.lines.findSome? lineViolated with
  | some name => raise (.integrityError name)
  | none => write fun s => { s with invoices := s.invoices ++ [invoice] }

/-- A pure step of a computation. -/
def ofExcept {α : Type} (x : Except BillingError α) : BillingTx α :=
  match x with
  | .ok a => pure a
  | .error e => raise e

/-- `_create_invoice`. `new_id` is the value of `uuid4()`, `now` the time of the transaction. -/
def _create_invoice (tables : StationTables) (new_id : Uuid) (now : ℤ) (charging : ChargingSession)
    (stop : ℤ) : BillingTx InvoiceRow := do
  let station ← ofExcept (sessionStation tables charging)
  let driver_id ← orRaise charging.driver_id (.invalidInvoice "invoice_missing_driver")
  raiseIf (stop ≤ charging.started_at) (.invalidInvoice "invoice_invalid_interval")
  let readings ← ofExcept (_meter_values tables.meter_samples charging stop)
  let intervals ← ofExcept (confirmedIntervals tables.occupation_intervals charging)
  let s ← read
  let daily ← ofExcept (_daily_tariffs s.tariffs station.id station.timezone charging.started_at
    (billingEnd charging stop intervals))
  write fun s => { s with tariffs := markDaily daily station.id now s.tariffs }
  let lines ← ofExcept (invoiceLines station.timezone charging stop readings intervals daily)
  let total := (lines.map (·.amount_vnd)).sum
  raiseIf (Wallets.MAX_VND < total ∨ ∃ line ∈ lines, Wallets.MAX_VND < line.amount_vnd)
    (.invalidInvoice "invoice_amount_overflow")
  let invoice : InvoiceRow :=
    { id := new_id, session_id := charging.id, driver_id, station_id := station.id, total_vnd := total
      rounding_rule := if charging.billing_lifecycle_version = 1 then ROUNDING_RULE
        else LEGACY_ROUNDING_RULE
      lines }
  insertInvoice invoice
  return invoice

/-! ## 5. `lap_hoa_don` -/

inductive InvoiceStatus where
  | ready | pending | needs_review
  deriving DecidableEq, Repr

structure InvoiceResult where
  status : InvoiceStatus
  invoice : Option InvoiceRow := none
  reason : Option String := none
  deriving DecidableEq, Repr

/-- `charging.review_reasons = [*charging.review_reasons, reason]`. -/
def addReviewReason (session_id : ℕ) (reason : String) (s : BillingDb) : BillingDb :=
  let review (c : ChargingSession) : ChargingSession :=
    { c with review_reasons := c.review_reasons ++ [reason] }
  { s with charging_sessions := Table.modify ChargingSession.id session_id review s.charging_sessions }

/-- `_create_invoice` inside its savepoint. -/
def createResult (tables : StationTables) (new_id : Uuid) (now : ℤ) (charging : ChargingSession)
    (stop : ℤ) : BillingTx InvoiceResult := do
  let invoice ← savepoint (fun before _ => before) (_create_invoice tables new_id now charging stop)
  return { status := .ready, invoice := some invoice }

/-- The handler of `_InvalidInvoice`. -/
def rejectInvoice (session_id : ℕ) : BillingError → Option (BillingTx InvoiceResult)
  | .invalidInvoice reason => some do
    write (addReviewReason session_id reason)
    return { status := .needs_review, reason := some reason }
  | _ => none

/-- `lap_hoa_don`. -/
def lap_hoa_don (tables : StationTables) (new_id : Uuid) (now : ℤ) (session_id : ℕ) :
    BillingTx InvoiceResult := do
  let s ← read
  let charging ← orRaise (s.charging_sessions.find? (·.id = session_id)) .sessionNotFound
  if charging.review_reasons ≠ [] then
    return { status := .needs_review, reason := some "invoice_session_needs_review" }
  else
    match charging.ended_at with
    | none => return { status := .pending, reason := some "invoice_session_in_progress" }
    | some stop =>
      match s.invoices.find? (·.session_id = session_id) with
      | some existing => return { status := .ready, invoice := some existing }
      | none =>
        if charging.billing_lifecycle_version = 1 ∧ charging.connector_released_at = none then
          return { status := .pending, reason := some "invoice_awaiting_unplug" }
        else
          attempt (createResult tables new_id now charging stop) (rejectInvoice session_id)

end Csms.Billing
