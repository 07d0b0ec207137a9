import Csms.Charging.Recovery
import Csms.Billing.Integrity

/-!
# Closure of sessions (`billing/closure.py`, `billing/invoicing.py`)

`chot_phien` makes the invoice of a session, debits the driver and marks the session as settled, in one
transaction. It is called after a stop and again by the scan, until the session is settled.
-/

namespace Csms.Charging

open Tx Csms.Wallets
open Csms.Billing (BillingDb StationTables InvoiceResult InvoiceRow SettlementReason)

/-! ## 1. `lap_hoa_don` -/

def Database.billing (s : Database) : BillingDb where
  charging_sessions := s.charging_sessions.map (·.toChargingSession)
  invoices := s.invoices
  tariffs := s.tariffs

def Database.putBilling (b : BillingDb) (s : Database) : Database :=
  { s with
    charging_sessions :=
      List.zipWith (fun c row => { c with toChargingSession := row }) s.charging_sessions b.charging_sessions
    invoices := b.invoices
    tariffs := b.tariffs }

/-- The tables after an invoice was rejected. -/
def rejectedFor (session_id : ℕ) (reason : String) (s : Database) : Database :=
  { s with charging_sessions := s.charging_sessions.map fun c =>
      if c.id = session_id then { c with review_reasons := c.review_reasons ++ [reason] } else c }

def billingTables (env : Environment) (s : Database) : StationTables where
  charge_points := s.charge_points.map (·.toChargePoint)
  connectors := s.connectors.map (·.toConnector)
  stations := env.stations.map (·.toStation)
  meter_samples := s.meter_samples
  occupation_intervals := s.occupation_intervals.map (·.toOccupationInterval)

/-- `lap_hoa_don`. -/
def lap_hoa_don (env : Environment) (session_id : ℕ) : ChargingTx InvoiceResult := do
  let s ← read
  zoom Database.billing Database.putBilling ChargingError.billing
    (Billing.lap_hoa_don (billingTables env s) env.new_id env.now session_id)

/-! ## 2. `chot_phien` -/

/-- The ledger rows of a session. -/
def sessionEntries (w : WalletDb) (session_id : ℕ) : List WalletLedger :=
  w.wallet_ledger.filter fun row => row.reference_id = toString session_id ∧
    (row.entry_type = .charging_debit ∨ row.reference_type = "charging_session")

/-- The rows are those of the debit of the invoice. -/
def entriesMatch (w : WalletDb) (invoice : InvoiceRow) (entries : List WalletLedger) : Prop :=
  ∃ row ∈ entries.head?, entries.length = 1 ∧
    (∃ wallet ∈ w.wallets.find? (·.driver_id = invoice.driver_id), row.wallet_id = wallet.id) ∧
    row.entry_type = .charging_debit ∧ row.reference_type = "charging_session" ∧
    row.amount_vnd = -invoice.total_vnd ∧ invoice.total_vnd ≠ 0

instance (w : WalletDb) (invoice : InvoiceRow) (entries : List WalletLedger) :
    Decidable (entriesMatch w invoice entries) :=
  inferInstanceAs (Decidable (∃ row ∈ entries.head?, _))

/-- `charging.review_reasons = [*charging.review_reasons, "settlement_ledger_mismatch"]`. -/
def mismatched (c : Session) : Session :=
  { c with review_reasons := c.review_reasons ++ ["settlement_ledger_mismatch"] }

def settledAs (invoice : InvoiceRow) (c : Session) : Session :=
  { c with settlement := some (if invoice.total_vnd = 0 then .zero_invoice else .debited) }

/-- `tru_vi(db, invoice=invoice)`. `new_id` is the id of a wallet it may create. -/
def debit (hidden : List ℕ) (new_id : Uuid) (invoice : InvoiceRow) : ChargingTx Unit := do
  let s ← read
  let _ ← zoom (fun s : Database => s.books.wallet)
    (fun w s => { s with books := { s.books with wallet := w } }) ChargingError.wallet
    (tru_vi hidden new_id (s.invoices.map (·.toInvoice)) (some invoice.toInvoice) none none none)
  return ()

/-- The settlement of a session whose invoice is ready. -/
def settleInvoice (hidden : List ℕ) (new_id : Uuid) (charging : Session) (invoice : InvoiceRow)
    (outcome : InvoiceResult) : ChargingTx InvoiceResult := do
  let s ← read
  let entries := sessionEntries s.books.wallet charging.id
  if entries ≠ [] ∧ ¬ entriesMatch s.books.wallet invoice entries then
    write (saveSession (mismatched charging))
    return { status := .needs_review, reason := some "settlement_ledger_mismatch" }
  else
    if entries = [] then debit hidden new_id invoice
    write (saveSession (settledAs invoice charging))
    return outcome

/-- `_chot_phien_in_session`, and `chot_phien` in a transaction of its own. -/
def chot_phien (env : Environment) (hidden : List ℕ) (new_id : Uuid) (session_id : ℕ) (settle : Bool) :
    ChargingTx InvoiceResult := do
  let s ← read
  match s.charging_sessions.find? (·.id = session_id) with
  | none => lap_hoa_don env session_id
  | some charging =>
    if charging.settlement ≠ none then lap_hoa_don env session_id
    else
      let outcome ← lap_hoa_don env session_id
      match outcome.status, outcome.invoice with
      | .ready, some invoice =>
        if settle then settleInvoice hidden new_id charging invoice outcome else return outcome
      | _, _ => return outcome

end Csms.Charging
