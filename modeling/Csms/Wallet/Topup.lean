import Csms.Lib.Table
import Csms.Wallet.Postings

/-!
# Top-up webhooks (`wallet/topup_webhook_service.py`, `wallet/topup_models.py`)

Callbacks are serialized by the row lock of their order.
-/

namespace Csms.Wallets

open Tx

inductive TopupStatus where
  | pending | succeeded | failed | cancelled | needs_review
  deriving DecidableEq, Repr

structure WalletTopup where
  id : Uuid
  driver_id : Uuid
  amount_vnd : ℤ
  status : TopupStatus
  order_id : String
  gateway_transaction_id : Option String
  reason : Option String
  deriving DecidableEq, Repr

inductive PaymentStatus where
  | succeeded | failed | cancelled
  deriving DecidableEq, Repr

/-- `Identifier` with `validate_identifier`. -/
def validIdentifier (value : String) : Bool :=
  value.length != 0 && value.length ≤ 128 && Text.strip value == value &&
    value.toList.all fun c => 32 ≤ c.toNat && c.toNat != 127

/-- An authenticated event; its validators are its fields. -/
structure GatewayEvent where
  gateway_transaction_id : String
  order_id : String
  amount_vnd : ℤ
  status : PaymentStatus
  reason : Option String
  ids_ok : validIdentifier gateway_transaction_id = true ∧ validIdentifier order_id = true
  amount_ok : 0 < amount_vnd ∧ amount_vnd ≤ MAX_VND
  reason_ok : ∀ r ∈ reason, r.length ≤ 500
  deriving DecidableEq

theorem GatewayEvent.no_reason : ∀ r ∈ (none : Option String), r.length ≤ 500 := by simp

inductive WarningCode where
  | unknown_order | amount_mismatch | gateway_conflict | late_success | late_non_success
  | review_callback | settlement_conflict
  deriving DecidableEq, Repr

def WARNING_REASONS : WarningCode → String
  | .unknown_order => "Payment webhook references an unknown order"
  | .amount_mismatch => "Gateway amount does not match the order"
  | .gateway_conflict => "Order has a different gateway transaction"
  | .late_success => "Success received after failure or cancellation"
  | .late_non_success => "Failure or cancellation received after success"
  | .review_callback => "Callback received for an order awaiting review"
  | .settlement_conflict => "Wallet settlement conflict"

/-- The action of a warning's audit row. -/
def WarningCode.action : WarningCode → String
  | .unknown_order => "payment_webhook.unknown_order"
  | .amount_mismatch => "payment_webhook.amount_mismatch"
  | .gateway_conflict => "payment_webhook.gateway_conflict"
  | .late_success => "payment_webhook.late_success"
  | .late_non_success => "payment_webhook.late_non_success"
  | .review_callback => "payment_webhook.review_callback"
  | .settlement_conflict => "payment_webhook.settlement_conflict"

def TRANSITIONS : TopupStatus → PaymentStatus → TopupStatus
  | .pending, .succeeded => .succeeded
  | .pending, .failed => .failed
  | .pending, .cancelled => .cancelled
  | .succeeded, _ => .succeeded
  | .failed, .succeeded => .needs_review
  | .failed, _ => .failed
  | .cancelled, .succeeded => .needs_review
  | .cancelled, _ => .cancelled
  | .needs_review, _ => .needs_review

structure WebhookWarning where
  order_reference : String
  code : WarningCode
  deriving DecidableEq, Repr

/-- `"not_found"`, or the status of the order. -/
inductive SettlementStatus where
  | not_found | order (status : TopupStatus)
  deriving DecidableEq, Repr

structure SettlementResult where
  status_code : ℕ
  status : SettlementStatus
  warning : Option WebhookWarning
  deriving DecidableEq, Repr

/-- The wallet tables with the orders. -/
structure TopupDb where
  wallet : WalletDb
  topups : List WalletTopup
  deriving DecidableEq, Repr

abbrev TopupTx := Tx TopupDb WalletFailure

def TopupDb.rollback (before after : TopupDb) : TopupDb :=
  { before with wallet := before.wallet.rollback after.wallet }

/-- A computation on the wallet tables. -/
def onWallet {α : Type} (x : WalletTx α) : TopupTx α :=
  zoom TopupDb.wallet (fun w s => { s with wallet := w }) id x

/-- The update of an order. -/
def saveTopup (topup : WalletTopup) : TopupTx Unit :=
  write fun s => { s with topups := Table.modify WalletTopup.id topup.id (fun _ => topup) s.topups }

/-- `_warn_once`; `digest` is the hexadecimal SHA-256 of an order id. -/
def _warn_once (digest : String → String) (order_id : String) (topup : Option WalletTopup)
    (code : WarningCode) : TopupTx (Option WebhookWarning) := do
  let reference := match topup with
    | none => digest order_id
    | some t => t.id.text
  let object_type := if topup.isNone then "payment_order" else "wallet_topup"
  let actions := code.action ::
    if code = .review_callback then [WarningCode.late_success.action, WarningCode.settlement_conflict.action]
    else []
  let s ← read
  if s.wallet.audit_logs.any fun a =>
      a.action ∈ actions && a.object_type == object_type && a.object_id == reference then
    return none
  else
    onWallet (ghi_nhat_ky { action := code.action, object_type, object_id := reference
                            data := { reason := some (WARNING_REASONS code) } })
    return some ⟨reference, code⟩

/-- What `_review` makes of an order; a completed credit is never downgraded. -/
def reviewed (topup : WalletTopup) (code : WarningCode) : WalletTopup :=
  if topup.status = .succeeded ∨ topup.status = .needs_review then topup
  else { topup with status := .needs_review, reason := some (WARNING_REASONS code) }

/-- `_review`, with the order as it is afterwards. -/
def _review (digest : String → String) (topup : WalletTopup) (code : WarningCode) :
    TopupTx (WalletTopup × Option WebhookWarning) := do
  saveTopup (reviewed topup code)
  let warning ← _warn_once digest topup.order_id (some topup) code
  return (reviewed topup code, warning)

/-- The credit of a successful payment. -/
def creditTopup (hidden : List ℕ) (event : GatewayEvent) (topup : WalletTopup) : TopupTx Unit := do
  let s ← read
  let wallet ← orRaise (s.wallet.wallets.find? (·.driver_id = topup.driver_id))
    (.walletNotFound "Wallet does not exist")
  let _ ← onWallet (ghi_so_cai hidden wallet.id .gateway_topup event.amount_vnd "gateway_transaction"
    event.gateway_transaction_id)
  return ()

/-- The order after the settlement of an event. -/
def settled (event : GatewayEvent) (topup : WalletTopup) : WalletTopup :=
  { topup with
    gateway_transaction_id := some event.gateway_transaction_id
    status := TRANSITIONS topup.status event.status
    reason := match event.status with
      | .succeeded => none
      | .failed => some (if event.reason.getD "" = "" then "Gateway reported failed" else event.reason.getD "")
      | .cancelled =>
        some (if event.reason.getD "" = "" then "Gateway reported cancelled" else event.reason.getD "") }

/-- The nested transaction of a pending order: the gateway id is stored first, so that the
unique constraint arbitrates between orders, then the wallet is credited. -/
def settle (hidden : List ℕ) (event : GatewayEvent) (topup : WalletTopup) : TopupTx WalletTopup := do
  let s ← read
  raiseIf (∃ t ∈ s.topups, t.id ≠ topup.id ∧ t.gateway_transaction_id = some event.gateway_transaction_id)
    (.integrityError "uq_wallet_topups_gateway")
  saveTopup { topup with gateway_transaction_id := some event.gateway_transaction_id }
  if event.status = .succeeded then creditTopup hidden event topup
  saveTopup (settled event topup)
  return settled event topup

/-- The exceptions `process_topup_webhook` turns into a review. -/
def reviewable : WalletFailure → Bool
  | .integrityError name => name == "uq_wallet_topups_gateway"
  | e => e.isWalletError

/-- A callback for an order that is not pending. -/
def lateCallback (digest : String → String) (event : GatewayEvent) (topup : WalletTopup) :
    TopupTx SettlementResult := do
  if topup.status = .needs_review then
    let warning ← _warn_once digest topup.order_id (some topup) .review_callback
    return ⟨200, .order topup.status, warning⟩
  else if TRANSITIONS topup.status event.status = .needs_review then
    let (topup, warning) ← _review digest topup .late_success
    return ⟨200, .order topup.status, warning⟩
  else if topup.status = .succeeded ∧ event.status ≠ .succeeded then
    let warning ← _warn_once digest topup.order_id (some topup) .late_non_success
    return ⟨200, .order topup.status, warning⟩
  else
    return ⟨200, .order topup.status, none⟩

/-- The settlement of a pending order, or its review. -/
def settleOrReview (digest : String → String) (hidden : List ℕ) (event : GatewayEvent)
    (topup : WalletTopup) : TopupTx SettlementResult :=
  attempt
    (do
      let topup ← savepoint TopupDb.rollback (settle hidden event topup)
      return ⟨200, .order topup.status, none⟩)
    fun e =>
      if reviewable e then
        some do
          let (topup, warning) ← _review digest topup .settlement_conflict
          return ⟨200, .order topup.status, warning⟩
      else none

/-- `process_topup_webhook`. -/
def process_topup_webhook (digest : String → String) (hidden : List ℕ) (event : GatewayEvent) :
    TopupTx SettlementResult := do
  let s ← read
  match s.topups.find? (·.order_id = event.order_id) with
  | none =>
    let warning ← _warn_once digest event.order_id none .unknown_order
    return ⟨404, .not_found, warning⟩
  | some topup =>
    if topup.amount_vnd ≠ event.amount_vnd then
      let (topup, warning) ← _review digest topup .amount_mismatch
      return ⟨400, .order topup.status, warning⟩
    else if topup.gateway_transaction_id ≠ none ∧
        topup.gateway_transaction_id ≠ some event.gateway_transaction_id then
      let (topup, warning) ← _review digest topup .gateway_conflict
      return ⟨200, .order topup.status, warning⟩
    else if topup.status ≠ .pending then lateCallback digest event topup
    else settleOrReview digest hidden event topup

end Csms.Wallets
