import Csms.Lib.Journal
import Csms.Lib.Tx
import Csms.Lib.Uuid

/-!
# The wallet tables (`wallet/models.py`, `wallet/exceptions.py`)
-/

namespace Csms.Wallets

def MIN_VND : ℤ := -(2 ^ 63)
def MAX_VND : ℤ := 2 ^ 63 - 1

/-- The amount of the examples. -/
theorem fifty_thousand : (0 : ℤ) < 50000 ∧ (50000 : ℤ) ≤ MAX_VND := by decide

inductive RoleCode where
  | admin | driver | other (code : String)
  deriving DecidableEq, Repr

/-- The columns of an account that the wallet reads. -/
structure User where
  id : Uuid
  active : Bool
  roles : List RoleCode
  deriving DecidableEq, Repr

inductive WalletStatus where
  | active | locked
  deriving DecidableEq, Repr

structure Wallet where
  id : Uuid
  driver_id : Uuid
  balance_vnd : ℤ
  status : WalletStatus
  deriving DecidableEq, Repr

inductive EntryType where
  | gateway_topup | manual_topup | charging_debit | adjustment | reservation_fee
  deriving DecidableEq, Repr

structure WalletLedger where
  id : ℕ
  wallet_id : Uuid
  entry_type : EntryType
  amount_vnd : ℤ
  balance_after_vnd : ℤ
  reference_type : String
  reference_id : String
  actor_id : Option Uuid
  deriving DecidableEq, Repr

/-- The columns of `uq_wallet_ledger_reference`. -/
def WalletLedger.key (row : WalletLedger) : EntryType × String := (row.entry_type, row.reference_id)

inductive AuditAction where
  | cache_repaired | adjustment_authorized
  deriving DecidableEq, Repr

structure WalletAudit where
  id : Uuid
  wallet_id : Uuid
  actor_id : Uuid
  action : AuditAction
  before_balance_vnd : ℤ
  after_balance_vnd : ℤ
  amount_vnd : Option ℤ
  reason : String
  deriving DecidableEq, Repr

/-- The keys of an audit log's `data` that the program reads back. -/
structure AuditData where
  ledger_id : Option ℕ := none
  request_id : Option String := none
  external_reference : Option String := none
  payment_received : Option Bool := none
  reason : Option String := none
  deriving DecidableEq, Repr

structure AuditLog where
  action : String
  object_type : String
  object_id : String
  data : AuditData := {}
  deriving DecidableEq, Repr

/-- The wallet tables. `ledger_seq` is the next value of the ledger's identity sequence. -/
structure WalletDb where
  users : List User
  wallets : List Wallet
  wallet_ledger : List WalletLedger
  ledger_seq : ℕ
  wallet_audits : List WalletAudit
  audit_logs : List AuditLog
  deriving DecidableEq, Repr

/-- The exceptions of the wallet functions, with their messages. -/
inductive WalletFailure where
  | walletNotFound (message : String)
  | walletLocked (message : String)
  | walletOwnership (message : String)
  | walletLedgerConflict (message : String)
  | manualTopupRequestConflict (message : String)
  | walletAmount (message : String)
  | walletAdjustmentAudit (message : String)
  | walletAdminRequired (message : String)
  | walletReconciliation (checks : List String)
  | walletDriverRequired (message : String)
  | manualTopupReason (message : String)
  | valueError (message : String)
  | lookupError (message : String)
  | integrityError (constraint : String)
  | assertionError
  deriving DecidableEq, Repr

/-- The subclasses of `WalletError`. -/
def WalletFailure.isWalletError : WalletFailure → Bool
  | .manualTopupReason _ | .valueError _ | .lookupError _ | .integrityError _ | .assertionError => false
  | _ => true

/-- A computation on the wallet tables. -/
abbrev WalletTx := Tx WalletDb WalletFailure

/-- A savepoint takes back everything but the sequence. -/
def WalletDb.rollback (before after : WalletDb) : WalletDb :=
  { before with ledger_seq := after.ledger_seq }

/-- The rows of a wallet, summed. -/
def ledgerTotal (rows : List WalletLedger) (wallet_id : Uuid) : ℤ :=
  Journal.total (·.wallet_id) (·.amount_vnd) rows wallet_id

end Csms.Wallets
