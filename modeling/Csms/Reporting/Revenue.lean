import Csms.Billing.Invoicing
import Csms.Lib.Accumulate
import Csms.Lib.Calendar

/-!
# The revenue report (`reporting/service.py`)

Four streams of rows, one of invoices, one of debits, one of reservation fees and one of sessions
without an invoice, are added to a summary, to one item for each charge point and to one entry for
each date of the report.
-/

namespace Csms.Reporting

open Billing Calendar Decimal Rounding

inductive ReportError where
  | overflowError | valueError | forbidden | invalidOperation
  deriving DecidableEq, Repr

/-! ## 1. The range of a report -/

/-- A `datetime.date`. -/
structure Date where
  ordinal : ℤ
  valid : 1 ≤ ordinal ∧ ordinal ≤ MAX_ORDINAL
  deriving DecidableEq, Repr

/-- The date some days away. -/
def shifted (ordinal : ℤ) : Except ReportError Date :=
  if h : 1 ≤ ordinal ∧ ordinal ≤ MAX_ORDINAL then .ok ⟨ordinal, h⟩ else .error .overflowError

/-- `date(year, month, day)`, where the month and the day are right. -/
def date (d : Ymd) : Except ReportError Date :=
  if h : 1 ≤ toordinal d ∧ toordinal d ≤ MAX_ORDINAL then .ok ⟨toordinal d, h⟩ else .error .valueError

/-- `datetime.combine(date, time.min, REPORT_TIMEZONE)`. -/
def Date.midnight (d : Date) : Stamp := .loc (d.ordinal * DAY)

inductive PeriodType where
  | day | week | month | custom
  deriving DecidableEq, Repr

/-- The start and the end of a report; `now` is an instant and `tz` the report zone. -/
def resolve_report_range (tz : Zone) (period : PeriodType) (date_from date_to : Option Date) (now : ℤ) :
    Except ReportError (Stamp × Stamp) := do
  let today ← shifted (tz.localDate now)
  match if date_from.isSome && date_to.isSome && period == .month then .custom else period with
  | .day =>
    let target_date := date_from.getD today
    let end_date ← shifted (target_date.ordinal + 1)
    return (target_date.midnight, end_date.midnight)
  | .week =>
    let ref_date := date_from.getD today
    let monday ← shifted (ref_date.ordinal - weekday ref_date.ordinal)
    let end_date ← shifted (monday.ordinal + 7)
    return (monday.midnight, end_date.midnight)
  | .month =>
    let ref_date := ymd (date_from.getD today).ordinal
    let first_day ← date ⟨ref_date.year, ref_date.month, 1⟩
    let next_month ← date
      (if ref_date.month = 12 then ⟨ref_date.year + 1, 1, 1⟩ else ⟨ref_date.year, ref_date.month + 1, 1⟩)
    return (first_day.midnight, next_month.midnight)
  | .custom =>
    let start_d := date_from.getD today
    let end_d := date_to.getD start_d
    let end_date ← shifted (end_d.ordinal + 1)
    return (start_d.midnight, end_date.midnight)

/-- The instants of a report: from its start up to its end. -/
def Covers (tz : Zone) (range : Stamp × Stamp) (t : ℤ) : Prop :=
  range.1.instant tz ≤ t ∧ t < range.2.instant tz

instance (tz : Zone) (range : Stamp × Stamp) (t : ℤ) : Decidable (Covers tz range t) :=
  inferInstanceAs (Decidable (_ ∧ _))

/-! ## 2. The rows -/

/-- The charge point of a row and the station it belongs to. -/
structure Place where
  station_id : ℕ
  station_name : String
  owner_id : ℕ
  charge_point_id : ℕ
  charge_point_code : String
  deriving DecidableEq, Repr

/-- An invoice, with the sums over its lines and the debit of its session. -/
structure InvoicedRow where
  place : Place
  invoice_created_at : ℤ
  invoice_total_vnd : ℤ
  settlement_reason : Option SettlementReason
  energy_wh : ℚ
  energy_amount_vnd : ℤ
  idle_amount_vnd : ℤ
  session_debited_vnd : ℤ
  deriving DecidableEq, Repr

structure DebitRow where
  place : Place
  ledger_created_at : ℤ
  debited_vnd : ℤ
  deriving DecidableEq, Repr

structure ReservationRow where
  place : Place
  ledger_created_at : ℤ
  reservation_fee_vnd : ℤ
  deriving DecidableEq, Repr

/-- A session that ended without an invoice. -/
structure UnbilledRow where
  place : Place
  ended_at : ℤ
  energy_kwh : Option ℚ
  deriving DecidableEq, Repr

/-- The rows of the four queries. -/
structure Rows where
  invoiced_rows : List InvoicedRow
  debit_rows : List DebitRow
  reservation_rows : List ReservationRow
  unbilled_rows : List UnbilledRow
  deriving DecidableEq, Repr

/-! ## 3. Accumulators -/

/-- The whole numbers that the summary and every item hold. -/
@[ext]
structure Amounts where
  sessions_count : ℤ := 0
  energy_amount_vnd : ℤ := 0
  idle_amount_vnd : ℤ := 0
  total_invoice_vnd : ℤ := 0
  debited_vnd : ℤ := 0
  invoice_cohort_settled_vnd : ℤ := 0
  awaiting_settlement_vnd : ℤ := 0
  awaiting_settlement_sessions : ℤ := 0
  legacy_exempt_sessions : ℤ := 0
  legacy_exempt_vnd : ℤ := 0
  free_sessions : ℤ := 0
  reservation_fee_vnd : ℤ := 0
  reservation_count : ℤ := 0
  unbilled_sessions : ℤ := 0
  unbilled_missing_meter_sessions : ℤ := 0
  deriving DecidableEq, Repr

/-- The accumulator of the summary, and the one inside the accumulator of a charge point: both are
updated by the same statements. -/
structure Figures where
  amounts : Amounts := {}
  energy_wh : ℚ := 0
  unbilled_operating_kwh : ℚ := 0
  deriving DecidableEq, Repr

structure CPAccumulator where
  place : Place
  figures : Figures := {}
  deriving DecidableEq, Repr

structure DailyAccumulator where
  date : String
  sessions_count : ℤ := 0
  kwh : ℚ := 0
  invoice_vnd : ℤ := 0
  debited_vnd : ℤ := 0
  reservation_fee_vnd : ℤ := 0
  deriving DecidableEq, Repr

/-- A sum and a quotient of decimals. -/
def decAdd (a b : ℚ) : ℚ := ctxRound 28 (a + b)

def decDiv (a b : ℚ) : ℚ := ctxRound 28 (a / b)

def Amounts.addInvoice (row : InvoicedRow) (a : Amounts) : Amounts :=
  let a := { a with
    sessions_count := a.sessions_count + 1
    energy_amount_vnd := a.energy_amount_vnd + row.energy_amount_vnd
    idle_amount_vnd := a.idle_amount_vnd + row.idle_amount_vnd
    total_invoice_vnd := a.total_invoice_vnd + row.invoice_total_vnd }
  if row.settlement_reason = some .legacy_exempt then
    { a with
      legacy_exempt_sessions := a.legacy_exempt_sessions + 1
      legacy_exempt_vnd := a.legacy_exempt_vnd + row.invoice_total_vnd }
  else if row.settlement_reason = some .zero_invoice ∨ row.invoice_total_vnd = 0 then
    { a with free_sessions := a.free_sessions + 1 }
  else
    let unpaid := max 0 (row.invoice_total_vnd - row.session_debited_vnd)
    { a with
      invoice_cohort_settled_vnd := a.invoice_cohort_settled_vnd + row.session_debited_vnd
      awaiting_settlement_vnd := a.awaiting_settlement_vnd + unpaid
      awaiting_settlement_sessions := a.awaiting_settlement_sessions +
        if 0 < unpaid ∨ row.settlement_reason ≠ some .debited then 1 else 0 }

def Figures.addInvoice (row : InvoicedRow) (f : Figures) : Figures :=
  { f with amounts := f.amounts.addInvoice row, energy_wh := decAdd f.energy_wh row.energy_wh }

def Amounts.addDebit (row : DebitRow) (a : Amounts) : Amounts :=
  { a with debited_vnd := a.debited_vnd + row.debited_vnd }

def Figures.addDebit (row : DebitRow) (f : Figures) : Figures := { f with amounts := f.amounts.addDebit row }

def Amounts.addReservation (row : ReservationRow) (a : Amounts) : Amounts :=
  { a with
    reservation_fee_vnd := a.reservation_fee_vnd + row.reservation_fee_vnd
    reservation_count := a.reservation_count + 1 }

def Figures.addReservation (row : ReservationRow) (f : Figures) : Figures :=
  { f with amounts := f.amounts.addReservation row }

def Amounts.addUnbilled (row : UnbilledRow) (a : Amounts) : Amounts :=
  { a with
    unbilled_sessions := a.unbilled_sessions + 1
    unbilled_missing_meter_sessions := a.unbilled_missing_meter_sessions + if row.energy_kwh = none then 1 else 0 }

/-- A missing meter is counted, another reading is added. -/
def Figures.addUnbilled (row : UnbilledRow) (f : Figures) : Figures :=
  { f with
    amounts := f.amounts.addUnbilled row
    unbilled_operating_kwh := match row.energy_kwh with
      | none => f.unbilled_operating_kwh
      | some kwh => decAdd f.unbilled_operating_kwh kwh }

def DailyAccumulator.addInvoice (row : InvoicedRow) (d : DailyAccumulator) : DailyAccumulator :=
  { d with
    sessions_count := d.sessions_count + 1
    kwh := decAdd d.kwh (decDiv row.energy_wh 1000)
    invoice_vnd := d.invoice_vnd + row.invoice_total_vnd }

def DailyAccumulator.addDebit (row : DebitRow) (d : DailyAccumulator) : DailyAccumulator :=
  { d with debited_vnd := d.debited_vnd + row.debited_vnd }

def DailyAccumulator.addReservation (row : ReservationRow) (d : DailyAccumulator) : DailyAccumulator :=
  { d with reservation_fee_vnd := d.reservation_fee_vnd + row.reservation_fee_vnd }

/-- The accumulators of a report. -/
structure Report where
  totals : Figures
  cp_map : List CPAccumulator
  daily_map : List DailyAccumulator
  deriving DecidableEq, Repr

/-- An update of the summary and of the item of a charge point (`_get_cp`). -/
def Report.post (place : Place) (f : Figures → Figures) (r : Report) : Report :=
  { r with
    totals := f r.totals
    cp_map := Accumulate.upsert (·.place.charge_point_id) { place := place }
      (fun item => { item with figures := f item.figures }) r.cp_map }

/-- An update of the entry of a date, if there is one. -/
def Report.plot (tz : Zone) (t : ℤ) (f : DailyAccumulator → DailyAccumulator) (r : Report) : Report :=
  { r with daily_map := Table.modify (·.date) (isoformat (tz.localDate t)) f r.daily_map }

/-! ## 4. The report -/

/-- The dates of the `while` loop, from that of the start up to that of the end. -/
def dates (tz : Zone) (range : Stamp × Stamp) : List ℤ :=
  (List.range (range.2.date tz - range.1.date tz).toNat).map fun k : ℕ => range.1.date tz + k

def Report.init (tz : Zone) (range : Stamp × Stamp) : Report :=
  ⟨{}, [], (dates tz range).map fun d => { date := isoformat d }⟩

/-- The bodies of the four `for` loops. -/
def Report.addInvoice (tz : Zone) (r : Report) (row : InvoicedRow) : Report :=
  (r.post row.place (·.addInvoice row)).plot tz row.invoice_created_at (·.addInvoice row)

def Report.addDebit (tz : Zone) (r : Report) (row : DebitRow) : Report :=
  (r.post row.place (·.addDebit row)).plot tz row.ledger_created_at (·.addDebit row)

def Report.addReservation (tz : Zone) (r : Report) (row : ReservationRow) : Report :=
  (r.post row.place (·.addReservation row)).plot tz row.ledger_created_at (·.addReservation row)

def Report.addUnbilled (r : Report) (row : UnbilledRow) : Report := r.post row.place (·.addUnbilled row)

def Report.process (tz : Zone) (rows : Rows) (r : Report) : Report :=
  let r := rows.invoiced_rows.foldl (Report.addInvoice tz) r
  let r := rows.debit_rows.foldl (Report.addDebit tz) r
  let r := rows.reservation_rows.foldl (Report.addReservation tz) r
  rows.unbilled_rows.foldl Report.addUnbilled r

/-- `round(value, 4)`, where the result has to fit the precision. -/
def round4 (q : ℚ) : Except ReportError ℚ :=
  if |roundHalfEven (q * 10 ^ 4)| < 10 ^ 28 then .ok (roundHalfEven (q * 10 ^ 4) / 10 ^ 4)
  else .error .invalidOperation

structure RevenueSummary where
  amounts : Amounts
  total_kwh : ℚ
  unbilled_operating_kwh : ℚ
  deriving DecidableEq, Repr

structure ChargePointRevenueItem where
  place : Place
  amounts : Amounts
  energy_kwh : ℚ
  unbilled_operating_kwh : ℚ
  deriving DecidableEq, Repr

/-- `DailyRevenueItem`; its fields are those of the accumulator. -/
abbrev DailyRevenueItem := DailyAccumulator

def Figures.rounded (f : Figures) : Except ReportError RevenueSummary := do
  let kwh ← round4 (decDiv f.energy_wh 1000)
  let unbilled_kwh ← round4 f.unbilled_operating_kwh
  return ⟨f.amounts, kwh, unbilled_kwh⟩

def CPAccumulator.item (item : CPAccumulator) : Except ReportError ChargePointRevenueItem := do
  let f ← item.figures.rounded
  return ⟨item.place, f.amounts, f.total_kwh, f.unbilled_operating_kwh⟩

def DailyAccumulator.item (d : DailyAccumulator) : Except ReportError DailyRevenueItem := do
  let kwh ← round4 d.kwh
  return { d with kwh := kwh }

/-- The order of the items, highest invoices first. -/
def ChargePointRevenueItem.key (item : ChargePointRevenueItem) : ℤ ×ₗ ℤ ×ₗ ℚ :=
  toLex (item.amounts.total_invoice_vnd, toLex (item.amounts.debited_vnd, item.energy_kwh))

structure RevenueData where
  start_dt : Stamp
  end_dt : Stamp
  cp_list : List ChargePointRevenueItem
  summary : RevenueSummary
  daily_timeline : List DailyRevenueItem
  deriving DecidableEq, Repr

/-- The part of `_compute_revenue_data` behind its queries. -/
def revenueData (tz : Zone) (range : Stamp × Stamp) (rows : Rows) : Except ReportError RevenueData := do
  let r := (Report.init tz range).process tz rows
  let cp_list ← r.cp_map.mapM CPAccumulator.item
  let summary ← r.totals.rounded
  let daily_timeline ← (r.daily_map.insertionSort fun a b => a.date ≤ b.date).mapM DailyAccumulator.item
  return ⟨range.1, range.2, cp_list.insertionSort fun a b => b.key ≤ a.key, summary, daily_timeline⟩

structure RevenueReportQuery where
  period : PeriodType
  date_from : Option Date
  date_to : Option Date
  station_id : Option ℕ
  charge_point_id : Option ℕ
  deriving DecidableEq, Repr

/-- The conditions on the place of a row. -/
def RevenueReportQuery.selects (query : RevenueReportQuery) (owner_id : Option ℕ) (place : Place) : Bool :=
  owner_id.all (place.owner_id == ·) && query.station_id.all (place.station_id == ·) &&
    query.charge_point_id.all (place.charge_point_id == ·)

/-- The rows of the database that the queries select. -/
def Rows.selected (tz : Zone) (range : Stamp × Stamp) (place : Place → Bool) (db : Rows) : Rows where
  invoiced_rows := db.invoiced_rows.filter fun row => place row.place && decide (Covers tz range row.invoice_created_at)
  debit_rows := db.debit_rows.filter fun row => place row.place && decide (Covers tz range row.ledger_created_at)
  reservation_rows := db.reservation_rows.filter fun row =>
    place row.place && decide (Covers tz range row.ledger_created_at)
  unbilled_rows := db.unbilled_rows.filter fun row => place row.place && decide (Covers tz range row.ended_at)

/-- `_compute_revenue_data`; `station_owner` is the owner of a station. -/
def _compute_revenue_data (tz : Zone) (now : ℤ) (station_owner : ℕ → Option ℕ) (db : Rows)
    (query : RevenueReportQuery) (owner_id : Option ℕ) : Except ReportError RevenueData := do
  let range ← resolve_report_range tz query.period query.date_from query.date_to now
  match owner_id, query.station_id.bind station_owner with
  | some owner, some station_owner =>
    if station_owner ≠ owner then throw .forbidden
  | _, _ => pure ()
  revenueData tz range (db.selected tz range (query.selects owner_id))

end Csms.Reporting
