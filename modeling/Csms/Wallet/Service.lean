import Csms.Wallet.Models

/-!
# Balance changes (`wallet/service.py`, `wallet/provisioning.py`)

Every function runs in the caller's transaction. A call holds the row lock of its wallet from
`_lock_wallet` on, so it sees every row of that wallet; rows that other transactions commit on
other wallets while it runs may still be missing from its first look-ups. `hidden` lists the ids
of these rows.
-/

namespace Csms.Wallets

open Tx

/-! ## 1. Checks and locks -/

def _integer_vnd (value : ℤ) : WalletTx ℤ := do
  raiseIf (¬ (MIN_VND ≤ value ∧ value ≤ MAX_VND))
    (.walletAmount "Money must be an integer within signed BIGINT range")
  return value

def _lock_wallet (wallet_id : Uuid) : WalletTx Wallet := do
  let s ← read
  orRaise (s.wallets.find? (·.id = wallet_id)) (.walletNotFound "Wallet does not exist")

def WalletDb.isAdmin (s : WalletDb) (actor_id : Option Uuid) : Bool :=
  s.users.any fun u => some u.id = actor_id ∧ u.active ∧ .admin ∈ u.roles

def _require_admin (actor_id : Option Uuid) : WalletTx Unit := do
  let s ← read
  raiseIf (s.isAdmin actor_id = false) (.walletAdminRequired "An active administrator is required")

def _matching_entry (row : WalletLedger) (wallet_id : Uuid) (amount_vnd : ℤ) :
    WalletTx WalletLedger := do
  raiseIf (row.wallet_id ≠ wallet_id ∨ row.amount_vnd ≠ amount_vnd)
    (.walletLedgerConflict "Ledger key already belongs to a different wallet or amount")
  return row

/-- `ghi_nhat_ky` of `platform/audit/service.py`: one audit row. -/
def ghi_nhat_ky (log : AuditLog) : WalletTx Unit :=
  write fun s => { s with audit_logs := s.audit_logs ++ [log] }

/-- The row of a key as a statement of a call on `wallet_id` sees it. -/
def WalletDb.lookup (s : WalletDb) (hidden : List ℕ) (wallet_id : Uuid) (entry_type : EntryType)
    (reference_id : String) : Option WalletLedger :=
  s.wallet_ledger.find? fun r =>
    r.key = (entry_type, reference_id) ∧ (r.wallet_id = wallet_id ∨ r.id ∉ hidden)

/-! ## 2. `ensure_driver_wallet` -/

/-- `ensure_driver_wallet`. `new_id` is the value of `uuid4()`. -/
def ensure_driver_wallet (new_id driver_id : Uuid) : WalletTx Wallet := do
  let s ← read
  raiseIf (¬ ∃ u ∈ s.users, u.id = driver_id ∧ .driver ∈ u.roles)
    (.walletDriverRequired "An account with the driver role is required")
  match s.wallets.find? (·.driver_id = driver_id) with
  | some wallet => return wallet
  | none =>
    raiseIf (∃ w ∈ s.wallets, w.id = new_id) (.integrityError "wallets_pkey")
    let wallet : Wallet := ⟨new_id, driver_id, 0, .active⟩
    write fun s => { s with wallets := s.wallets ++ [wallet] }
    return wallet

/-! ## 3. `ghi_so_cai` -/

/-- The sign an amount must not have. -/
def wrongSign (entry_type : EntryType) (amount_vnd : ℤ) : Prop :=
  amount_vnd = 0 ∨
  ((entry_type = .gateway_topup ∨ entry_type = .manual_topup) ∧ amount_vnd < 0) ∨
  ((entry_type = .charging_debit ∨ entry_type = .reservation_fee) ∧ 0 < amount_vnd)

instance (entry_type : EntryType) (amount_vnd : ℤ) : Decidable (wrongSign entry_type amount_vnd) :=
  inferInstanceAs (Decidable (_ ∨ _ ∨ _))

/-- A reference that is empty or too long. -/
def badReference (reference_type reference_id : String) : Prop :=
  reference_type = "" ∨ 50 < reference_type.length ∨ reference_id = "" ∨ 128 < reference_id.length

instance (reference_type reference_id : String) :
    Decidable (badReference reference_type reference_id) :=
  inferInstanceAs (Decidable (_ ∨ _))

/-- The evidence of an adjustment. The two messages for a reference that is no canonical UUID
are not told apart. -/
def adjustmentAudit (wallet_id : Uuid) (amount_vnd : ℤ) (reference_type reference_id : String)
    (actor_id : Option Uuid) : WalletTx WalletAudit := do
  _require_admin actor_id
  let audit_id ← orRaise (Uuid.ofText? reference_id)
    (.walletAdjustmentAudit "Use the canonical audit UUID as reference")
  raiseIf (reference_type ≠ "audit")
    (.walletAdjustmentAudit "Use the canonical audit UUID as reference")
  let s ← read
  let audit ← orRaise (s.wallet_audits.find? (·.id = audit_id))
    (.walletAdjustmentAudit "Adjustment audit does not match this operation")
  raiseIf (audit.action ≠ .adjustment_authorized ∨ audit.wallet_id ≠ wallet_id ∨
      some audit.actor_id ≠ actor_id ∨ audit.amount_vnd ≠ some amount_vnd)
    (.walletAdjustmentAudit "Adjustment audit does not match this operation")
  return audit

/-- Only an adjustment needs evidence. -/
def requiredAudit (wallet_id : Uuid) (entry_type : EntryType) (amount_vnd : ℤ)
    (reference_type reference_id : String) (actor_id : Option Uuid) :
    WalletTx (Option WalletAudit) :=
  if entry_type = .adjustment then
    some <$> adjustmentAudit wallet_id amount_vnd reference_type reference_id actor_id
  else pure none

/-- The check constraint a new ledger row violates. -/
def checkViolated (row : WalletLedger) : Option String :=
  if row.entry_type = .adjustment ∧ (row.actor_id = none ∨ row.reference_type ≠ "audit") then
    some "ck_wallet_ledger_adjustment_audit"
  else if row.entry_type = .reservation_fee ∧
      ¬ (row.amount_vnd < 0 ∧ row.reference_type = "reservation") then
    some "ck_wallet_reservation_fee"
  else none

/-- The balance of one wallet. -/
def WalletDb.setBalance (s : WalletDb) (wallet_id : Uuid) (balance_vnd : ℤ) : WalletDb :=
  { s with wallets := s.wallets.map fun w => if w.id = wallet_id then { w with balance_vnd } else w }

/-- The insert of `ghi_so_cai` with `ON CONFLICT DO NOTHING`, and the balance with it. Check
constraints come before the conflict, the foreign key of the actor after it; the sequence moves
in every case. -/
def insertEntry (row : WalletLedger) : WalletTx WalletLedger := do
  let s ← read
  let row := { row with id := s.ledger_seq }
  write fun s => { s with ledger_seq := s.ledger_seq + 1 }
  match checkViolated row with
  | some name => raise (.integrityError name)
  | none =>
    match s.wallet_ledger.find? (·.key = row.key) with
    | some winner => _matching_entry winner row.wallet_id row.amount_vnd
    | none =>
      raiseIf (∃ a ∈ row.actor_id, ¬ ∃ u ∈ s.users, u.id = a)
        (.integrityError "wallet_ledger_actor_id_fkey")
      write fun s => { s with wallet_ledger := s.wallet_ledger ++ [row] }
      write fun s => s.setBalance row.wallet_id row.balance_after_vnd
      return row

/-- `ghi_so_cai`. -/
def ghi_so_cai (hidden : List ℕ) (wallet_id : Uuid) (entry_type : EntryType) (amount_vnd : ℤ)
    (reference_type reference_id : String) (actor_id : Option Uuid := none) :
    WalletTx WalletLedger := do
  let _ ← _integer_vnd amount_vnd
  raiseIf (wrongSign entry_type amount_vnd) (.walletAmount
    "Amount sign does not match ledger type; zero invoices must skip the ledger")
  let reference_type := Text.strip reference_type
  let reference_id := Text.strip reference_id
  raiseIf (badReference reference_type reference_id) (.valueError "Invalid ledger reference")
  let wallet ← _lock_wallet wallet_id
  let s ← read
  let existing := s.lookup hidden wallet_id entry_type reference_id
  raiseIf (∃ row ∈ existing, row.wallet_id ≠ wallet_id ∨ row.amount_vnd ≠ amount_vnd)
    (.walletLedgerConflict "Ledger key already belongs to a different wallet or amount")
  raiseIf (wallet.status = .locked ∧ entry_type ≠ .adjustment) (.walletLocked "Wallet is locked")
  let audit ← requiredAudit wallet_id entry_type amount_vnd reference_type reference_id actor_id
  match existing with
  | some row => return row
  | none =>
    let balance_after ← _integer_vnd (wallet.balance_vnd + amount_vnd)
    raiseIf (∃ a ∈ audit, a.before_balance_vnd ≠ wallet.balance_vnd ∨
        a.after_balance_vnd ≠ balance_after)
      (.walletAdjustmentAudit "Adjustment audit balance is stale")
    savepoint WalletDb.rollback (insertEntry
      { id := 0, wallet_id, entry_type, amount_vnd, balance_after_vnd := balance_after
        reference_type, reference_id, actor_id })

/-! ## 4. `phuc_hoi_so_du_cache` and `tru_vi` -/

/-- A reason of 1 to 500 characters. -/
def badReason (reason : String) : Prop :=
  Text.strip reason = "" ∨ 500 < (Text.strip reason).length

instance (reason : String) : Decidable (badReason reason) :=
  inferInstanceAs (Decidable (_ ∨ _))

/-- `phuc_hoi_so_du_cache`. `audit_id` is the value of `uuid4()`. -/
def phuc_hoi_so_du_cache (audit_id wallet_id actor_id : Uuid) (reason : String) :
    WalletTx Wallet := do
  raiseIf (badReason reason) (.valueError "A repair reason of 1-500 characters is required")
  _require_admin (some actor_id)
  let wallet ← _lock_wallet wallet_id
  let s ← read
  let balance ← _integer_vnd (ledgerTotal s.wallet_ledger wallet_id)
  if wallet.balance_vnd = balance then return wallet
  else
    savepoint WalletDb.rollback do
      raiseIf (∃ a ∈ s.wallet_audits, a.id = audit_id) (.integrityError "wallet_audits_pkey")
      write fun s => { s with
        wallet_audits := s.wallet_audits ++ [⟨audit_id, wallet_id, actor_id, .cache_repaired,
          wallet.balance_vnd, balance, none, Text.strip reason⟩] }
      write fun s => s.setBalance wallet_id balance
      ghi_nhat_ky
        { action := "wallet.cache_repaired", object_type := "wallet_audit", object_id := audit_id.text
          data := { reason := some (Text.strip reason) } }
      return { wallet with balance_vnd := balance }

/-- The columns of an invoice that `tru_vi` reads. -/
structure Invoice where
  id : Uuid
  session_id : ℕ
  driver_id : Uuid
  total_vnd : ℤ
  deriving DecidableEq, Repr

/-- The wallet `tru_vi` debits. -/
def debitWallet (new_id : Uuid) (invoice : Invoice) : Option Uuid → WalletTx Uuid
  | none => do
    let s ← read
    match s.wallets.find? (·.driver_id = invoice.driver_id) with
    | some wallet => return wallet.id
    | none =>
      let wallet ← ensure_driver_wallet new_id invoice.driver_id
      return wallet.id
  | some wallet_id => do
    let wallet ← _lock_wallet wallet_id
    raiseIf (wallet.driver_id ≠ invoice.driver_id)
      (.walletOwnership "Ví phải thuộc tài xế trên hoá đơn")
    return wallet_id

/-- `tru_vi` with the invoice given. -/
def debitInvoice (hidden : List ℕ) (new_id : Uuid) (invoice : Invoice) (session_id : Option ℕ)
    (wallet_id actor_id : Option Uuid) : WalletTx (Option WalletLedger) := do
  raiseIf (∃ n ∈ session_id, n ≠ invoice.session_id)
    (.valueError "invoice và session_id phải thuộc cùng phiên sạc")
  let _ ← _integer_vnd invoice.total_vnd
  if invoice.total_vnd = 0 then return none
  else
    raiseIf (invoice.total_vnd < 0) (.walletAmount "Tổng tiền hoá đơn không được âm")
    let wallet_id ← debitWallet new_id invoice wallet_id
    some <$> ghi_so_cai hidden wallet_id .charging_debit (-invoice.total_vnd) "charging_session"
      (toString invoice.session_id) actor_id

/-- `tru_vi`. `invoices` is the invoice table it looks the session up in. -/
def tru_vi (hidden : List ℕ) (new_id : Uuid) (invoices : List Invoice) (invoice : Option Invoice)
    (session_id : Option ℕ) (wallet_id actor_id : Option Uuid) : WalletTx (Option WalletLedger) := do
  match invoice with
  | some invoice => debitInvoice hidden new_id invoice session_id wallet_id actor_id
  | none =>
    let n ← orRaise session_id (.valueError "Cần cung cấp invoice hoặc session_id")
    let invoice ← orRaise (invoices.find? (·.session_id = n))
      (.lookupError ("Không tìm thấy hoá đơn cho phiên sạc " ++ toString n))
    debitInvoice hidden new_id invoice session_id wallet_id actor_id

end Csms.Wallets
