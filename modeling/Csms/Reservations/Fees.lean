import Csms.Reservations.Worker

/-!
# No-show fees (`fee_one` of `reservations/fees.py`)
-/

namespace Csms.Reservations

open Tx Csms.Wallets

/-- The driver gave the hold back before it expired. -/
def Reservation.cancelledInTime (row : Reservation) : Prop :=
  row.no_show_exempt ∨ (row.cancel_reason = some .driver_cancel ∧
    ∃ at_ ∈ row.cancel_requested_at, at_ < row.expires_at)

instance (row : Reservation) : Decidable row.cancelledInTime :=
  inferInstanceAs (Decidable (_ ∨ _))

/-- The charger was not heard of since the expiry, or the hold was not verified then. -/
def unverifiedAtExpiry (target : Target) (row : Reservation) : Prop :=
  row.expiry_fee_eligible ≠ some true ∨ target.point.last_seen_at = none ∨
    ∃ seen ∈ target.point.last_seen_at, seen < row.expires_at

instance (target : Target) (row : Reservation) : Decidable (unverifiedAtExpiry target row) :=
  inferInstanceAs (Decidable (_ ∨ _))

/-- The debit of a fee and the decision with it. -/
def chargeFee (hidden : List ℕ) (now : ℤ) (row : Reservation) : ReservationTx Unit := do
  let s ← read
  match s.wallet.wallets.find? (·.driver_id = row.driver_id) with
  | none => save (decide row .review .wallet_unavailable now)
  | some wallet =>
    if wallet.status ≠ .active then save (decide row .review .wallet_unavailable now)
    else
      let ledger ← zoom ReservationDb.wallet (fun w s => { s with wallet := w })
        ReservationFailure.wallet (ghi_so_cai hidden wallet.id .reservation_fee (-row.fee_vnd)
          "reservation" row.id.text)
      save (decide { row with fee_ledger_id := some ledger.id } .charged .no_show now)

/-- The decision on a reservation whose expiry was observed. -/
def decideFee (hidden : List ℕ) (env : Environment) (target : Target) (row : Reservation) :
    ReservationTx Unit :=
  if row.status = .consumed ∨ row.session_id ≠ none then
    save (decide row .waived .consumed env.now)
  else if row.cancelledInTime then
    save (decide row .waived .cancelled_before_expiry env.now)
  else if row.status = .rejected ∨ row.outcome = some .not_sent then
    save (decide row .waived .never_reserved env.now)
  else if row.fee_vnd = 0 then
    save (decide (request_release row env.now env.new_id .expired) .waived .zero_fee env.now)
  else if unverifiedAtExpiry target row then
    save (decide (request_release row env.now env.new_id .expired) .review
      .reservation_not_verified_at_expiry env.now)
  else chargeFee hidden env.now (request_release row env.now env.new_id .expired)

/-- `fee_one`. -/
def fee_one (hidden : List ℕ) (env : Environment) (reservation_id : Uuid) : ReservationTx Unit := do
  let s ← read
  match s.find reservation_id with
  | none => return ()
  | some row =>
    let target ← lock_target env row.connector_id
    if row.fee_decision ≠ .pending ∨ env.now < row.expires_at + 30 * SECOND then return ()
    else decideFee hidden env target (observe_expiry env target row)

end Csms.Reservations
