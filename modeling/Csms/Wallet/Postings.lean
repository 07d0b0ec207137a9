import Csms.Wallet.Ledger

/-!
# What the wallet functions do to the ledger

One specification for each function of `wallet/service.py`: a call that returns either found its
row posted before or posted it now, a call that raises changed nothing but the sequence.

Results:
1. `ghi_so_cai_spec`, `tru_vi_spec`, `ensure_driver_wallet_spec`.
2. `phuc_hoi_so_du_cache_spec`: on a consistent ledger the repair changes nothing.
-/

namespace Csms.Wallets

open Tx LedgerLemmas

/-- A call on `wallet_id` returns `row`: posted before under the key, or posted now. -/
structure Entered (key : EntryType × String) (wallet_id : Uuid) (amount_vnd : ℤ) (row : WalletLedger)
    (s s' : WalletDb) : Prop where
  key : row.key = key
  wallet_id : row.wallet_id = wallet_id
  amount : row.amount_vnd = amount_vnd
  change : (row ∈ s.wallet_ledger ∧ Quiet s s') ∨ Post row s s'

theorem Entered.mem {key : EntryType × String} {wallet_id : Uuid} {amount : ℤ} {row : WalletLedger}
    {s s' : WalletDb} (h : Entered key wallet_id amount row s s') : row ∈ s'.wallet_ledger := by
  rcases h.change with ⟨hmem, hq⟩ | hp
  · exact hq.ledger ▸ hmem
  · exact hp.ledger ▸ List.mem_append_right _ (List.mem_singleton_self row)

namespace PostingsLemmas

theorem quiet_seq (s : WalletDb) (n : ℕ) : Quiet s { s with ledger_seq := s.ledger_seq + n } :=
  .single (.evidence s.wallet_audits s.audit_logs (Nat.le_add_right _ _))

theorem quiet_rollback {s s' : WalletDb} (h : s.ledger_seq ≤ s'.ledger_seq) :
    Quiet s (WalletDb.rollback s s') :=
  .single (.evidence s.wallet_audits s.audit_logs h)

theorem quiet_logs (s : WalletDb) (logs : List AuditLog) : Quiet s { s with audit_logs := logs } :=
  .single (.evidence s.wallet_audits logs le_rfl)

theorem mem_of_lookup {s : WalletDb} {hidden : List ℕ} {wallet_id : Uuid} {entry_type : EntryType}
    {reference_id : String} {row : WalletLedger}
    (h : s.lookup hidden wallet_id entry_type reference_id = some row) :
    row ∈ s.wallet_ledger ∧ row.key = (entry_type, reference_id) :=
  ⟨List.mem_of_find?_eq_some h, by
    have := List.find?_some h
    simp only [Bool.decide_and, Bool.and_eq_true, decide_eq_true_eq] at this
    exact this.1⟩

theorem find?_id {s : WalletDb} {wallet_id : Uuid} {w : Wallet}
    (h : s.wallets.find? (·.id = wallet_id) = some w) : w ∈ s.wallets ∧ w.id = wallet_id :=
  ⟨List.mem_of_find?_eq_some h, by simpa using List.find?_some h⟩

theorem find?_driver {s : WalletDb} {driver_id : Uuid} {w : Wallet}
    (h : s.wallets.find? (·.driver_id = driver_id) = some w) : w ∈ s.wallets ∧ w.driver_id = driver_id :=
  ⟨List.mem_of_find?_eq_some h, by simpa using List.find?_some h⟩

theorem insertEntry_spec {row : WalletLedger} {s : WalletDb} {w : Wallet} (hw : w ∈ s.wallets)
    (hid : w.id = row.wallet_id) (hafter : row.balance_after_vnd = w.balance_vnd + row.amount_vnd)
    (hamount : InRange row.amount_vnd) (hsign : ¬ wrongSign row.entry_type row.amount_vnd)
    (hrange : InRange row.balance_after_vnd) (hstrip : Text.strip row.reference_id = row.reference_id) :
    wp (insertEntry row) (fun r s' => Entered row.key row.wallet_id row.amount_vnd r s s' ∧
        (r ∉ s.wallet_ledger → r.reference_type = row.reference_type))
      (fun e s' => s.ledger_seq ≤ s'.ledger_seq ∧
        (row.entry_type = .gateway_topup → row.actor_id = none → e.isWalletError = true)) s := by
  unfold insertEntry
  simp only [wp_bind, wp_read, wp_write]
  split
  · next name hcheck =>
    simp only [wp_raise]
    exact ⟨Nat.le_succ _, fun ht _ => by simp [checkViolated, ht] at hcheck⟩
  split
  · next winner hwin =>
    simp only [_matching_entry, wp_bind, wp_raiseIf, wp_pure]
    refine ⟨fun _ => ⟨Nat.le_succ _, fun _ _ => rfl⟩, fun hne => ?_⟩
    have hmem := List.mem_of_find?_eq_some hwin
    have hkey : winner.key = row.key := by simpa [WalletLedger.key] using List.find?_some hwin
    simp only [not_or, not_not] at hne
    exact ⟨⟨hkey, hne.1, hne.2, .inl ⟨hmem, quiet_seq s 1⟩⟩, fun h => absurd hmem h⟩
  · next hnone =>
    simp only [wp_bind, wp_raiseIf, wp_write, wp_pure]
    refine ⟨fun hactor => ⟨Nat.le_succ _, fun _ hnone => ?_⟩,
      fun _ => ⟨⟨rfl, rfl, rfl, .inr ?_⟩, fun _ => trivial⟩⟩
    · simp [hnone] at hactor
    refine ⟨⟨w, hw, hid, hafter⟩, fun r hr hk => ?_, rfl, hamount, hsign, hrange, hstrip, rfl⟩
    exact List.find?_eq_none.mp hnone r hr (by simpa using hk)

/-- Looking for the evidence of an adjustment changes nothing. -/
theorem requiredAudit_spec (wallet_id : Uuid) (entry_type : EntryType) (amount_vnd : ℤ)
    (reference_type reference_id : String) (actor_id : Option Uuid) (s : WalletDb) :
    wp (requiredAudit wallet_id entry_type amount_vnd reference_type reference_id actor_id)
      (fun _ s' => s' = s) (fun e s' => s' = s ∧ e.isWalletError = true) s := by
  unfold requiredAudit
  split
  · simp only [adjustmentAudit, _require_admin, wp_map, wp_bind, wp_raiseIf, wp_orRaise, wp_read,
      wp_pure]
    simp [WalletFailure.isWalletError]
  · rfl

end PostingsLemmas

open PostingsLemmas

/-! ## 1. `ghi_so_cai` -/

/-- A call returns its row, posted before or now, on a wallet that is not locked; raising leaves
the ledger as it was. The credit of a gateway payment is refused only with a `WalletError`. -/
theorem ghi_so_cai_spec (hidden : List ℕ) (wallet_id : Uuid) (entry_type : EntryType) (amount_vnd : ℤ)
    (reference_type reference_id : String) (actor_id : Option Uuid) (s : WalletDb) :
    wp (ghi_so_cai hidden wallet_id entry_type amount_vnd reference_type reference_id actor_id)
      (fun row s' => Entered (entry_type, Text.strip reference_id) wallet_id amount_vnd row s s' ∧
        (row ∉ s.wallet_ledger → row.reference_type = Text.strip reference_type) ∧
        ∃ w, s.wallets.find? (·.id = wallet_id) = some w ∧ (w.status = .locked → entry_type = .adjustment))
      (fun e s' => Quiet s s' ∧ (entry_type = .gateway_topup → actor_id = none →
        ¬ badReference (Text.strip reference_type) (Text.strip reference_id) → e.isWalletError = true))
      s := by
  unfold ghi_so_cai
  simp only [_integer_vnd, _lock_wallet, wp_bind, wp_raiseIf, wp_pure, wp_read, wp_orRaise]
  refine ⟨fun _ => ⟨.refl s, fun _ _ _ => rfl⟩, fun hamount => ⟨fun _ => ⟨.refl s, fun _ _ _ => rfl⟩,
    fun hsign => ⟨fun hbad => ⟨.refl s, fun _ _ hgood => absurd hbad hgood⟩, fun _ =>
    ⟨fun _ => ⟨.refl s, fun _ _ _ => rfl⟩, fun wallet hfind => ⟨fun _ => ⟨.refl s, fun _ _ _ => rfl⟩,
      fun hmatch => ⟨fun _ => ⟨.refl s, fun _ _ _ => rfl⟩, fun hlock => ?_⟩⟩⟩⟩⟩⟩
  obtain ⟨hw, hid⟩ := find?_id hfind
  have hopen : wallet.status = .locked → entry_type = .adjustment := by tauto
  refine wp_mono (requiredAudit_spec _ _ _ _ _ _ s) ?_ fun _ _ h => ⟨h.1 ▸ .refl _, fun _ _ _ => h.2⟩
  rintro audit _ heq
  rw [heq]
  cases hex : s.lookup hidden wallet_id entry_type (Text.strip reference_id) with
  | some row =>
    obtain ⟨hmem, hkey⟩ := mem_of_lookup hex
    have hsame : row.wallet_id = wallet_id ∧ row.amount_vnd = amount_vnd := by
      simpa [hex] using hmatch
    exact ⟨⟨hkey, hsame.1, hsame.2, .inl ⟨hmem, .refl s⟩⟩, fun h => absurd hmem h, wallet, hfind, hopen⟩
  | none =>
    simp only [wp_bind, wp_raiseIf, wp_pure, wp_savepoint]
    refine ⟨fun _ => ⟨.refl s, fun _ _ _ => rfl⟩, fun hafter =>
      ⟨fun _ => ⟨.refl s, fun _ _ _ => rfl⟩, fun _ => ?_⟩⟩
    refine wp_mono (insertEntry_spec (w := wallet) hw hid rfl (not_not.mp hamount) hsign
      (not_not.mp hafter) (Text.strip_strip _)) (fun _ _ h => ⟨h.1, h.2, wallet, hfind, hopen⟩) ?_
    rintro e s' ⟨hseq, hkind⟩
    exact ⟨quiet_rollback hseq, fun ht ha _ => hkind ht ha⟩

/-! ## 2. `ensure_driver_wallet`, `tru_vi` and the repair -/

/-- Creating a driver's wallet is quiet; the wallet returned is the driver's. -/
theorem ensure_driver_wallet_spec (new_id driver_id : Uuid) (s : WalletDb) :
    wp (ensure_driver_wallet new_id driver_id)
      (fun w s' => Quiet s s' ∧ w ∈ s'.wallets ∧ w.driver_id = driver_id)
      (fun _ s' => s' = s) s := by
  unfold ensure_driver_wallet
  simp only [wp_bind, wp_read, wp_raiseIf]
  refine ⟨fun _ => trivial, fun _ => ?_⟩
  split
  · next w hfind =>
    obtain ⟨hw, hd⟩ := find?_driver hfind
    exact ⟨.refl s, hw, hd⟩
  · next hnone =>
    simp only [wp_bind, wp_raiseIf, wp_write, wp_pure]
    refine ⟨fun _ => trivial, fun hid => ⟨.single (.create (fun v hv => ⟨?_, ?_⟩) rfl), by simp, trivial⟩⟩
    · exact fun h => hid ⟨v, hv, h⟩
    · exact fun h => List.find?_eq_none.mp hnone v hv (by simpa using h)

/-- The wallet to debit is the invoice driver's. -/
theorem debitWallet_spec (new_id : Uuid) (invoice : Invoice) (wallet_id : Option Uuid) (s : WalletDb) :
    wp (debitWallet new_id invoice wallet_id)
      (fun id s' => Quiet s s' ∧ ∃ w ∈ s'.wallets, w.id = id ∧ w.driver_id = invoice.driver_id)
      (fun _ s' => s' = s) s := by
  cases wallet_id with
  | none =>
    simp only [debitWallet, wp_bind, wp_read]
    split
    · next w hfind =>
      obtain ⟨hw, hd⟩ := find?_driver hfind
      exact ⟨.refl s, w, hw, rfl, hd⟩
    · rw [wp_bind]
      refine wp_mono (ensure_driver_wallet_spec new_id invoice.driver_id s) ?_ fun _ _ h => h
      rintro w s' ⟨hq, hw, hd⟩
      exact ⟨hq, w, hw, rfl, hd⟩
  | some id =>
    simp only [debitWallet, _lock_wallet, wp_bind, wp_read, wp_orRaise, wp_raiseIf, wp_pure]
    refine ⟨fun _ => trivial, fun w hfind => ⟨fun _ => trivial, fun hd => ?_⟩⟩
    obtain ⟨hw, hid⟩ := find?_id hfind
    exact ⟨.refl s, w, hw, hid, not_not.mp hd⟩

/-- A debit enters the invoice's total once, on a wallet of the invoice's driver. -/
structure Debited (invoice : Invoice) (row : WalletLedger) (s s' : WalletDb) : Prop where
  entered : ∃ t, Quiet s t ∧ Entered (.charging_debit, toString invoice.session_id) row.wallet_id
    (-invoice.total_vnd) row t s'
  owner : ∃ w ∈ s'.wallets, w.id = row.wallet_id ∧ w.driver_id = invoice.driver_id
  reference : row ∉ s.wallet_ledger → row.reference_type = "charging_session"

theorem Quiet.exists_wallet {s s' : WalletDb} (h : Quiet s s') {w : Wallet} (hw : w ∈ s.wallets) :
    ∃ w' ∈ s'.wallets, w'.id = w.id ∧ w'.driver_id = w.driver_id :=
  let ⟨w', h1, h2, h3, _⟩ := h.balance hw
  ⟨w', h1, h2, h3⟩

theorem Entered.exists_wallet {key : EntryType × String} {wallet_id : Uuid} {amount : ℤ}
    {row : WalletLedger} {s s' : WalletDb} (h : Entered key wallet_id amount row s s') {w : Wallet}
    (hw : w ∈ s.wallets) : ∃ w' ∈ s'.wallets, w'.id = w.id ∧ w'.driver_id = w.driver_id := by
  rcases h.change with ⟨-, hq⟩ | hp
  · exact hq.exists_wallet hw
  · exact hp.exists_wallet hw

theorem debitInvoice_spec (hidden : List ℕ) (new_id : Uuid) (invoice : Invoice) (session_id : Option ℕ)
    (wallet_id actor_id : Option Uuid) (s : WalletDb) :
    wp (debitInvoice hidden new_id invoice session_id wallet_id actor_id)
      (fun r s' => (r = none ∧ invoice.total_vnd = 0 ∧ s' = s) ∨
        ∃ row, r = some row ∧ 0 < invoice.total_vnd ∧ Debited invoice row s s')
      (fun _ s' => Quiet s s') s := by
  unfold debitInvoice
  simp only [_integer_vnd, wp_bind, wp_raiseIf, wp_pure]
  refine ⟨fun _ => .refl s, fun _ => ⟨fun _ => .refl s, fun _ => ?_⟩⟩
  split
  · next hzero => exact .inl ⟨rfl, hzero, rfl⟩
  next hzero =>
  simp only [wp_bind, wp_raiseIf]
  refine ⟨fun _ => .refl s, fun hneg => ?_⟩
  refine wp_mono (debitWallet_spec new_id invoice wallet_id s) ?_ fun _ _ h => h ▸ .refl _
  rintro id t ⟨hq, w, hw, hid, hd⟩
  rw [wp_map]
  refine wp_mono (ghi_so_cai_spec hidden id .charging_debit (-invoice.total_vnd) "charging_session"
    (toString invoice.session_id) actor_id t) ?_ fun _ _ h => hq.trans h.1
  rintro row s' ⟨hent, href, -⟩
  rw [Text.strip_toString] at hent
  refine .inr ⟨row, rfl, by omega, ⟨⟨t, hq, hent.wallet_id ▸ hent⟩, ?_, fun hnew => ?_⟩⟩
  · obtain ⟨w', hw', hid', hd'⟩ := hent.exists_wallet hw
    exact ⟨w', hw', by rw [hid', hid, hent.wallet_id], hd'.trans hd⟩
  · exact (href (by rwa [hq.ledger])).trans (by decide)

/-- The invoice `tru_vi` debits: the one given, or that of the session. -/
def invoiceFor (invoices : List Invoice) : Option Invoice → Option ℕ → Option Invoice
  | some invoice, _ => some invoice
  | none, session_id => session_id.bind fun n => invoices.find? (·.session_id = n)

theorem tru_vi_spec (hidden : List ℕ) (new_id : Uuid) (invoices : List Invoice)
    (invoice : Option Invoice) (session_id : Option ℕ) (wallet_id actor_id : Option Uuid) (s : WalletDb) :
    wp (tru_vi hidden new_id invoices invoice session_id wallet_id actor_id)
      (fun r s' => ∃ i, invoiceFor invoices invoice session_id = some i ∧
        ((r = none ∧ i.total_vnd = 0 ∧ s' = s) ∨
          ∃ row, r = some row ∧ 0 < i.total_vnd ∧ Debited i row s s'))
      (fun _ s' => Quiet s s') s := by
  unfold tru_vi
  cases invoice with
  | some i =>
    exact wp_mono (debitInvoice_spec hidden new_id i session_id wallet_id actor_id s)
      (fun _ _ h => ⟨i, rfl, h⟩) fun _ _ h => h
  | none =>
    simp only [wp_bind, wp_orRaise]
    refine ⟨fun _ => .refl s, fun n hn => ⟨fun _ => .refl s, fun i hi => ?_⟩⟩
    exact wp_mono (debitInvoice_spec hidden new_id i session_id wallet_id actor_id s)
      (fun _ _ h => ⟨i, by rw [hn]; exact hi, h⟩) fun _ _ h => h

/-- On a consistent ledger the cached balance is right, and the repair changes nothing. -/
theorem phuc_hoi_so_du_cache_spec {s : WalletDb} (hs : Ok s) (audit_id wallet_id actor_id : Uuid)
    (reason : String) :
    wp (phuc_hoi_so_du_cache audit_id wallet_id actor_id reason) (fun _ s' => s' = s)
      (fun _ s' => s' = s) s := by
  unfold phuc_hoi_so_du_cache
  simp only [_require_admin, _lock_wallet, _integer_vnd, wp_bind, wp_raiseIf, wp_read, wp_orRaise,
    wp_pure]
  refine ⟨fun _ => trivial, fun _ => ⟨fun _ => trivial, fun _ => ⟨fun _ => trivial, fun w hfind =>
    ⟨fun _ => trivial, fun _ => ?_⟩⟩⟩⟩
  obtain ⟨hw, hid⟩ := find?_id hfind
  rw [if_pos (hid ▸ hs.balance w hw)]
  rfl

end Csms.Wallets
