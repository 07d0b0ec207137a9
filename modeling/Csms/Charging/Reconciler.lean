import Csms.Charging.Invoices

/-!
# The wallet reconciler (`wallet/reconciliation.py`)

`wallet_issues` derives from the invoices and the sessions which debits a wallet should have, and
`doi_chieu_so_du` locks the wallets where something differs.

Results:
1. `Settled`: which debits there are, kept by every move.
2. `settled_exactly_once`: a session is debited exactly once, and the reconciler finds nothing.
-/

namespace Csms.Charging

open Tx Csms.Wallets Csms.Accounts PostingsLemmas SystemLemmas InvariantLemmas CallsLemmas ReasonsLemmas
open Csms.Billing (InvoiceRow SettlementReason)

/-! ## 1. The code -/

inductive WalletIssue where
  | balance_mismatch | ledger_total_overflow | invoice_driver_mismatch | invoice_debit_count | invoice_debit_wallet
  | invoice_debit_type | invoice_debit_reference | invoice_debit_amount
  deriving DecidableEq, Repr

def WalletIssue.text : WalletIssue → String
  | .balance_mismatch => "balance_mismatch"
  | .ledger_total_overflow => "ledger_total_overflow"
  | .invoice_driver_mismatch => "invoice_driver_mismatch"
  | .invoice_debit_count => "invoice_debit_count"
  | .invoice_debit_wallet => "invoice_debit_wallet"
  | .invoice_debit_type => "invoice_debit_type"
  | .invoice_debit_reference => "invoice_debit_reference"
  | .invoice_debit_amount => "invoice_debit_amount"

/-- The disjunction in the queries for ledger rows. -/
def isCharging (row : WalletLedger) : Bool := row.entry_type = .charging_debit || row.reference_type = "charging_session"

/-- The ledger rows that refer to the session or to its invoice. -/
def related (s : Database) (invoice : InvoiceRow) (charging : Session) : List WalletLedger :=
  s.books.wallet.wallet_ledger.filter fun row =>
    (row.reference_id = toString charging.id || row.reference_id = invoice.id.text) && isCharging row

/-- The debited sessions that have to do with the wallet, with their invoices. -/
def walletInvoices (s : Database) (wallet : Wallet) : List (InvoiceRow × Session) :=
  (s.invoices.flatMap fun invoice =>
    (s.charging_sessions.filter (·.id = invoice.session_id)).map fun charging => (invoice, charging)).filter
    fun (invoice, charging) => charging.settlement = some .debited &&
      (invoice.driver_id = wallet.driver_id || charging.driver_id = some wallet.driver_id ||
        (related s invoice charging).any (·.wallet_id = wallet.id))

/-- The body of the inner `for` loop. -/
def entryIssues (s : Database) (invoice : InvoiceRow) (charging : Session) (entry : WalletLedger) : List WalletIssue :=
  let expected_wallet := (s.books.wallet.wallets.find? (·.driver_id = invoice.driver_id)).map (·.id)
  (if some entry.wallet_id ≠ expected_wallet then [.invoice_debit_wallet] else []) ++
  (if entry.entry_type ≠ .charging_debit then [.invoice_debit_type] else []) ++
  (if entry.reference_type ≠ "charging_session" ∨ entry.reference_id ≠ toString charging.id then
    [.invoice_debit_reference] else []) ++
  (if entry.amount_vnd ≠ -invoice.total_vnd ∨ invoice.total_vnd = 0 then [.invoice_debit_amount] else [])

/-- The body of the outer `for` loop. -/
def invoiceIssues (s : Database) (invoice : InvoiceRow) (charging : Session) : List WalletIssue :=
  let entries := related s invoice charging
  (if some invoice.driver_id ≠ charging.driver_id then [.invoice_driver_mismatch] else []) ++
  (if entries.length ≠ 1 then [.invoice_debit_count] else []) ++
  entries.flatMap (entryIssues s invoice charging)

/-- What is added to the set `issues`. -/
def walletIssues (s : Database) (wallet : Wallet) : List WalletIssue :=
  let total := ledgerTotal s.books.wallet.wallet_ledger wallet.id
  (if total ≠ wallet.balance_vnd then [.balance_mismatch] else []) ++
  (if ¬ (MIN_VND ≤ total ∧ total ≤ MAX_VND) then [.ledger_total_overflow] else []) ++
  (walletInvoices s wallet).flatMap fun (invoice, charging) => invoiceIssues s invoice charging

def wallet_issues (s : Database) (wallet : Wallet) : ℤ × List String :=
  (ledgerTotal s.books.wallet.wallet_ledger wallet.id,
    ((walletIssues s wallet).dedup.map (·.text)).mergeSort (· ≤ ·))

/-- The wallet is locked, with an audit row. -/
def lockWallet (wallet : Wallet) (s : Database) : Database :=
  { s with books := { s.books with wallet :=
    { s.books.wallet with
      wallets := s.books.wallet.wallets.map fun w => if w.id = wallet.id then { w with status := .locked } else w
      audit_logs := s.books.wallet.audit_logs ++
        [{ action := "wallet.reconciliation_locked", object_type := "wallet", object_id := wallet.id.text }] } } }

/-- The `for` loop of `doi_chieu_so_du`. `skip` are the wallets whose rows others hold. -/
def reconcileEach (skip : Uuid → Bool) : List Uuid → ChargingTx (List Uuid)
  | [] => return []
  | identifier :: identifiers => do
    let s ← read
    match if skip identifier then none else s.books.wallet.wallets.find? (·.id = identifier) with
    | none => reconcileEach skip identifiers
    | some wallet =>
      if (wallet_issues s wallet).2 = [] ∨ wallet.status = .locked then reconcileEach skip identifiers
      else
        write (lockWallet wallet)
        let locked ← reconcileEach skip identifiers
        return wallet.id :: locked

def doi_chieu_so_du (skip : Uuid → Bool) (wallet_id : Option Uuid) : ChargingTx (List Uuid) := do
  let s ← read
  let identifiers := (s.books.wallet.wallets.map (·.id)).filter fun id => wallet_id.all (id = ·)
  reconcileEach skip (identifiers.mergeSort fun a b => a.text ≤ b.text)

/-! ## 2. Runs -/

/-- The operations of the program on wallets besides the closure of sessions. `ghi_so_cai` and `tru_vi` are
called by these and by `chot_phien` only. -/
def Operation : Accounts.Call → Prop
  | .ghi_so_cai .. | .tru_vi .. => False
  | _ => True

/-- A transaction, kept or undone. -/
inductive Transaction (env : Environment) : Database → Database → Prop
  | call (c : Call) (s : Database) : Transaction env s (c.run env s).2
  | undone (c : Call) (s : Database) : Transaction env s (s.rollback (c.run env s).2)
  | money (c : Accounts.Call) (s : Database) (operation : Operation c) :
      Transaction env s { s with books := (c.run s.books).2 }
  | refused (c : Accounts.Call) (s : Database) (operation : Operation c) (raised : (c.run s.books).1 = .raised) :
      Transaction env s { s with books := { s.books with
        wallet := s.books.wallet.rollback (c.run s.books).2.wallet } }
  | reconciled (skip : Uuid → Bool) (wallet_id : Option Uuid) (s : Database) :
      Transaction env s (doi_chieu_so_du skip wallet_id s).2
  | rest (s s' : Database) (core : s'.core = { s.core with connectors := s'.connectors })
      (connectors : Connected s s'.connectors) : Transaction env s s'

/-- Any number of transactions, each in its own environment. -/
def Interleaving : Database → Database → Prop := Relation.ReflTransGen fun s s' => ∃ env, Transaction env s s'

/-- Nothing is settled or invoiced yet, and no ledger row is about charging. -/
structure Unsettled (s : Database) : Prop where
  sound : Sound s
  settlements : ∀ c ∈ s.charging_sessions, c.settlement = none
  invoices : s.invoices = []
  ledger : ∀ row ∈ s.books.wallet.wallet_ledger, isCharging row = false

/-! ## 3. The accounts of sessions -/

/-- What the settlement of a session depends on. -/
structure Account where
  id : ℕ
  driver_id : Option Uuid
  settlement : Option SettlementReason
  deriving DecidableEq

def Session.account (c : Session) : Account := ⟨c.id, c.driver_id, c.settlement⟩

def Core.accounts (t : Core) : List Account := t.sessions.map (·.account)

variable {A : Permits} {Z : Billing.Station → Prop} {now : ℤ} {env : Environment} {s s' : Database} {t t' : Core}

/-- What a move does to accounts, invoices and wallets. -/
inductive AccountMove (A : Permits) (t t' : Core) : Prop
  | wallet (accounts : t'.accounts = t.accounts) (invoices : t'.invoices = t.invoices)
      (change : Quiet t.wallet t'.wallet ∨ ∃ key ref, A.posting key ref ∧ Effect key ref t.wallet t'.wallet)
  | insert (a : Account) (fresh : ∀ b ∈ t.accounts, b.id ≠ a.id) (unsettled : a.settlement = none)
      (accounts : t'.accounts = t.accounts ++ [a]) (invoices : t'.invoices = t.invoices)
      (wallet : t'.wallet = t.wallet)
  | invoice (a : Account) (i : InvoiceRow) (mem : a ∈ t.accounts) (unbilled : ∀ j ∈ t.invoices, j.session_id ≠ a.id)
      (session : i.session_id = a.id) (driver : a.driver_id = some i.driver_id) (accounts : t'.accounts = t.accounts)
      (invoices : t'.invoices = t.invoices ++ [i]) (wallet : t'.wallet = t.wallet)
  | settle (a : Account) (i : InvoiceRow) (mem : a ∈ t.accounts) (billed : i ∈ t.invoices)
      (session : i.session_id = a.id) (unsettled : a.settlement = none)
      (accounts : t'.accounts = Table.modify Account.id a.id
        (fun b => { b with settlement := some (if i.total_vnd = 0 then .zero_invoice else .debited) }) t.accounts)
      (invoices : t'.invoices = t.invoices)
      (paid : (i.total_vnd = 0 ∧ t'.wallet = t.wallet) ∨
        (∃ row, 0 < i.total_vnd ∧ Debited i.toInvoice row t.wallet t'.wallet) ∨
        (∃ row ∈ t.wallet.wallet_ledger, row.key = (.charging_debit, toString a.id)))

namespace ReconcilerLemmas

/-- A session that is written keeps the accounts when it keeps its own. -/
theorem accounts_saveSession (h : CoreOk t) {c c' : Session} (hc : c ∈ t.sessions) (hsame : c'.account = c.account) :
    (t.saveSession c').accounts = t.accounts := by
  have hid : c'.id = c.id := congrArg Account.id hsame
  unfold Core.accounts Core.saveSession Table.modify
  rw [List.map_map]
  refine List.map_congr_left fun x hx => ?_
  rw [Function.comp_apply]
  split
  · next heq =>
    rw [h.eq hx hc (heq.trans hid)]
    exact hsame
  · rfl

theorem account_evolve {c c' : Session} (h : Evolve c c') : c'.account = c.account :=
  h.get Session.account fun _ _ _ _ _ _ _ _ _ _ _ _ => rfl

theorem account_reviewed {c c' : Session} (h : Reviewed c c') : c'.account = c.account :=
  h.get Session.account fun _ _ => rfl

theorem move_accounts (h : CoreOk t) (hm : Move A Z now t t') : AccountMove A t t' := by
  cases hm with
  | seqs | connectors | tariffs => exact .wallet rfl rfl (.inl (.refl _))
  | wallet w change => exact .wallet rfl rfl change
  | sessions f evolve =>
    refine .wallet ?_ rfl (.inl (.refl _))
    unfold Core.accounts
    rw [List.map_map]
    exact List.map_congr_left fun c hc => account_evolve (evolve c hc)
  | insert c fresh id =>
    refine .insert c.account (fun b hb => ?_) fresh.unsettled (List.map_append ..) rfl rfl
    obtain ⟨x, hx, rfl⟩ := List.mem_map.mp hb
    have := h.fresh x hx
    change x.id ≠ c.id
    omega
  | store seq c c' rows blocks backfill mem takes stored numeric =>
    exact .wallet (accounts_saveSession h mem (account_reviewed (storeSamples_frame stored).1)) rfl (.inl (.refl _))
  | stop seq payload c c' rows backfill latest mem opened stored numeric =>
    have hsame : (finishStop payload latest c').account = c.account :=
      (finishStop_get Session.account (fun _ _ _ _ => rfl) payload latest c').trans
        ((storeSamples_frame stored).1.get Session.account fun _ _ => rfl)
    exact .wallet (accounts_saveSession h mem hsame) rfl (.inl (.refl _))
  | status status stamp c events mem version unbilled unreleased since latest =>
    obtain ⟨l, hv⟩ := status_view h mem version unreleased latest status events
    obtain ⟨intervals, seq, -, hflush⟩ := Core.flush_eq _ t
    rw [hflush]
    exact .wallet (accounts_saveSession h mem (hv.get Session.account fun _ _ _ _ => rfl)) rfl (.inl (.refl _))
  | stopped c ended_at mem version unbilled ended =>
    have hview : View t.interval_seq none c (t.intervalsOf c.id)
        ⟨c, (t.intervalsOf c.id).getLast?, []⟩ (t.intervalsOf c.id) := .start (h.occupation c mem version) []
    obtain ⟨l, hv⟩ := stopped_view hview ended_at
    obtain ⟨intervals, seq, -, hflush⟩ := Core.flush_eq _ t
    rw [hflush]
    exact .wallet (accounts_saveSession h mem (hv.get Session.account fun _ _ _ _ => rfl)) rfl (.inl (.refl _))
  | invoice tables new_id c stop row b mem clean ended unbilled released samples intervals stations created =>
    obtain ⟨k, rfl, -, rfl⟩ := wp_ok (Billing._create_invoice_ok tables new_id now _ stop _) created
    exact .invoice c.account (k.invoice new_id) (List.mem_map_of_mem mem) (fun j hj heq => unbilled ⟨j, hj, heq⟩) rfl
      k.driver_eq rfl rfl rfl
  | settle c i w mem clean billed session unsettled paid =>
    refine .settle c.account i (List.mem_map_of_mem mem) billed session unsettled ?_ rfl ?_
    · unfold Core.accounts Core.saveSession Table.modify
      rw [List.map_map, List.map_map]
      refine List.map_congr_left fun x hx => ?_
      simp only [Function.comp_apply]
      by_cases heq : x.id = c.id
      · rw [if_pos heq, h.eq hx mem heq]
        exact (if_pos rfl).symm
      · rw [if_neg heq]
        exact (if_neg heq).symm
    · rcases paid with hzero | hdebited | ⟨-, -, row, hrow, hkey, -⟩
      · exact .inl hzero
      · exact .inr (.inl hdebited)
      · exact .inr (.inr ⟨row, hrow, hkey⟩)

theorem accounts_keyed (h : CoreOk t) : Table.Keyed Account.id t.accounts := List.pairwise_map.mpr h.keyed

end ReconcilerLemmas

/-! ## 4. Settlements -/

/-- The ledger row is the debit of the invoice. -/
structure Pays (w : WalletDb) (row : WalletLedger) (i : InvoiceRow) : Prop where
  key : row.key = (.charging_debit, toString i.session_id)
  reference : row.reference_type = "charging_session"
  amount : row.amount_vnd = -i.total_vnd
  nonzero : i.total_vnd ≠ 0
  owner : ∃ owner ∈ w.wallets, owner.id = row.wallet_id ∧ owner.driver_id = i.driver_id

/-- A debit stays one while wallets keep their drivers. -/
theorem Pays.mono {w w' : WalletDb} {row : WalletLedger} {i : InvoiceRow} (h : Pays w row i)
    (hwallets : ∀ v ∈ w.wallets, ∃ v' ∈ w'.wallets, v'.id = v.id ∧ v'.driver_id = v.driver_id) : Pays w' row i := by
  obtain ⟨owner, hmem, hid, hdriver⟩ := h.owner
  obtain ⟨owner', hmem', hid', hdriver'⟩ := hwallets owner hmem
  exact ⟨h.key, h.reference, h.amount, h.nonzero, owner', hmem', hid'.trans hid, hdriver'.trans hdriver⟩

/-- The debits are those of the debited sessions, one for each. -/
structure Settled (t : Core) : Prop where
  once : t.invoices.Pairwise fun i j => i.session_id ≠ j.session_id
  driver : ∀ i ∈ t.invoices, ∃ a ∈ t.accounts, a.id = i.session_id ∧ a.driver_id = some i.driver_id
  paid : ∀ row ∈ t.wallet.wallet_ledger, isCharging row = true → ∃ a ∈ t.accounts, a.settlement = some .debited ∧
    ∃ i ∈ t.invoices, i.session_id = a.id ∧ Pays t.wallet row i
  debited : ∀ a ∈ t.accounts, a.settlement = some .debited →
    ∃ row ∈ t.wallet.wallet_ledger, row.key = (.charging_debit, toString a.id)
  free : ∀ a ∈ t.accounts, a.settlement = some .zero_invoice → ∃ i ∈ t.invoices, i.session_id = a.id ∧ i.total_vnd = 0

/-- Postings that are not about charging. -/
def Elsewhere : Permits where
  posting key ref := key.1 ≠ .charging_debit ∧ ref ≠ "charging_session"
  stored _ _ _ := True
  priced _ _ _ _ := True

namespace ReconcilerLemmas

theorem isCharging_of_key {row : WalletLedger} {text : String} (h : row.key = (.charging_debit, text)) :
    isCharging row = true := by
  have htype : row.entry_type = .charging_debit := congrArg Prod.fst h
  simp [isCharging, htype]

/-- What a change of wallets must give for the debits to stay as they are. -/
theorem settled_of_wallet (hs : Settled t) (haccounts : t'.accounts = t.accounts) (hinvoices : t'.invoices = t.invoices)
    (hgrows : t.wallet.wallet_ledger <+: t'.wallet.wallet_ledger)
    (hold : ∀ row ∈ t'.wallet.wallet_ledger, isCharging row = true → row ∈ t.wallet.wallet_ledger)
    (hwallets : ∀ v ∈ t.wallet.wallets, ∃ v' ∈ t'.wallet.wallets, v'.id = v.id ∧ v'.driver_id = v.driver_id) :
    Settled t' where
  once := hinvoices ▸ hs.once
  driver := by
    rw [haccounts, hinvoices]
    exact hs.driver
  paid row hrow hcharging := by
    rw [haccounts, hinvoices]
    obtain ⟨a, ha, hdebited, i, hi, hid, hpays⟩ := hs.paid row (hold row hrow hcharging) hcharging
    exact ⟨a, ha, hdebited, i, hi, hid, hpays.mono hwallets⟩
  debited a ha hdebited := by
    obtain ⟨row, hrow, hkey⟩ := hs.debited a (haccounts ▸ ha) hdebited
    exact ⟨row, hgrows.subset hrow, hkey⟩
  free := by
    rw [haccounts, hinvoices]
    exact hs.free

theorem settled_insert (hs : Settled t) {a : Account} (hunsettled : a.settlement = none)
    (haccounts : t'.accounts = t.accounts ++ [a]) (hinvoices : t'.invoices = t.invoices) (hwallet : t'.wallet = t.wallet) :
    Settled t' := by
  have hmem : ∀ {b}, b ∈ t'.accounts → b ∈ t.accounts ∨ b.settlement = none := by
    intro b hb
    rw [haccounts] at hb
    refine (List.mem_append.mp hb).imp_right fun h => ?_
    rw [List.mem_singleton.mp h]
    exact hunsettled
  have hsub : ∀ {b}, b ∈ t.accounts → b ∈ t'.accounts := fun hb => haccounts ▸ List.mem_append_left _ hb
  refine ⟨hinvoices ▸ hs.once, fun i hi => ?_, fun row hrow hcharging => ?_, fun b hb hdebited => ?_,
    fun b hb hfree => ?_⟩
  · obtain ⟨b, hb, hdriver⟩ := hs.driver i (hinvoices ▸ hi)
    exact ⟨b, hsub hb, hdriver⟩
  · rw [hwallet] at hrow ⊢
    rw [hinvoices]
    obtain ⟨b, hb, hpaid⟩ := hs.paid row hrow hcharging
    exact ⟨b, hsub hb, hpaid⟩
  · rw [hwallet]
    rcases hmem hb with hb | hnone
    · exact hs.debited b hb hdebited
    · exact nomatch hnone.symm.trans hdebited
  · rw [hinvoices]
    rcases hmem hb with hb | hnone
    · exact hs.free b hb hfree
    · exact nomatch hnone.symm.trans hfree

theorem settled_invoice (hs : Settled t) {a : Account} {i : InvoiceRow} (hmem : a ∈ t.accounts)
    (hunbilled : ∀ j ∈ t.invoices, j.session_id ≠ a.id) (hsession : i.session_id = a.id)
    (hdriver : a.driver_id = some i.driver_id) (haccounts : t'.accounts = t.accounts)
    (hinvoices : t'.invoices = t.invoices ++ [i]) (hwallet : t'.wallet = t.wallet) : Settled t' := by
  have hsub : ∀ {j}, j ∈ t.invoices → j ∈ t'.invoices := fun hj => hinvoices ▸ List.mem_append_left _ hj
  refine ⟨?_, fun j hj => ?_, fun row hrow hcharging => ?_, fun b hb hdebited => ?_, fun b hb hfree => ?_⟩
  · rw [hinvoices]
    refine List.pairwise_append.mpr ⟨hs.once, List.pairwise_singleton _ _, fun j hj k hk heq => ?_⟩
    rw [List.mem_singleton.mp hk, hsession] at heq
    exact hunbilled j hj heq
  · rw [haccounts]
    rw [hinvoices] at hj
    rcases List.mem_append.mp hj with hj | hj
    · exact hs.driver j hj
    · rw [List.mem_singleton.mp hj]
      exact ⟨a, hmem, hsession.symm, hdriver⟩
  · rw [hwallet] at hrow ⊢
    rw [haccounts]
    obtain ⟨b, hb, hdebited, j, hj, hpaid⟩ := hs.paid row hrow hcharging
    exact ⟨b, hb, hdebited, j, hsub hj, hpaid⟩
  · rw [hwallet]
    exact hs.debited b (haccounts ▸ hb) hdebited
  · obtain ⟨j, hj, hzero⟩ := hs.free b (haccounts ▸ hb) hfree
    exact ⟨j, hsub hj, hzero⟩

/-- A session is settled. It has no debit before, and at most the one that is posted now. -/
theorem settled_settle (hs : Settled t) (hkeyed : Table.Keyed Account.id t.accounts) (hok : Wallets.Ok t'.wallet)
    {a : Account} {i : InvoiceRow} (hmem : a ∈ t.accounts) (hbilled : i ∈ t.invoices) (hsession : i.session_id = a.id)
    (hunsettled : a.settlement = none)
    (haccounts : t'.accounts = Table.modify Account.id a.id
      (fun b => { b with settlement := some (if i.total_vnd = 0 then .zero_invoice else .debited) }) t.accounts)
    (hinvoices : t'.invoices = t.invoices)
    (hpaid : (i.total_vnd = 0 ∧ t'.wallet = t.wallet) ∨
      (∃ row, 0 < i.total_vnd ∧ Debited i.toInvoice row t.wallet t'.wallet) ∨
      (∃ row ∈ t.wallet.wallet_ledger, row.key = (.charging_debit, toString a.id))) : Settled t' := by
  have hnew : ∀ {b}, b ∈ t'.accounts ↔
      b = { a with settlement := some (if i.total_vnd = 0 then .zero_invoice else .debited) } ∨
        (b ∈ t.accounts ∧ b.id ≠ a.id) := by
    intro b
    rw [haccounts]
    exact Table.mem_modify_of_mem hkeyed hmem rfl
  have hdriver : ∀ j ∈ t'.invoices, ∃ b ∈ t'.accounts, b.id = j.session_id ∧ b.driver_id = some j.driver_id := by
    intro j hj
    obtain ⟨b, hb, hid, hdriver⟩ := hs.driver j (hinvoices ▸ hj)
    by_cases heq : b.id = a.id
    · obtain rfl := hkeyed.eq hb hmem heq
      exact ⟨_, hnew.mpr (.inl rfl), hid, hdriver⟩
    · exact ⟨b, hnew.mpr (.inr ⟨hb, heq⟩), hid, hdriver⟩
  -- a debited session is another one
  have hother : ∀ {b}, b ∈ t.accounts → b.settlement = some .debited → b ∈ t'.accounts ∧ b.id ≠ a.id := by
    intro b hb hdebited
    have hne : b.id ≠ a.id := by
      intro heq
      obtain rfl := hkeyed.eq hb hmem heq
      exact nomatch hunsettled.symm.trans hdebited
    exact ⟨hnew.mpr (.inr ⟨hb, hne⟩), hne⟩
  have hfree : ∀ b ∈ t'.accounts, b.settlement = some .zero_invoice →
      ∃ j ∈ t'.invoices, j.session_id = b.id ∧ j.total_vnd = 0 := by
    intro b hb hzero
    rw [hinvoices]
    rcases hnew.mp hb with rfl | ⟨hb, -⟩
    · refine ⟨i, hbilled, hsession, ?_⟩
      by_contra hne
      simp only [if_neg hne] at hzero
      exact nomatch hzero
    · exact hs.free b hb hzero
  rcases hpaid with ⟨hzero, hwallet⟩ | ⟨row, hpos, hdeb⟩ | ⟨row, hrow, hkey⟩
  · refine ⟨hinvoices ▸ hs.once, hdriver, fun row hrow hcharging => ?_, fun b hb hdebited => ?_, hfree⟩
    · rw [hwallet] at hrow ⊢
      rw [hinvoices]
      obtain ⟨b, hb, hdebited, hrest⟩ := hs.paid row hrow hcharging
      exact ⟨b, (hother hb hdebited).1, hdebited, hrest⟩
    · rw [hwallet]
      rcases hnew.mp hb with rfl | ⟨hb, -⟩
      · simp only [if_pos hzero] at hdebited
        exact nomatch hdebited
      · exact hs.debited b hb hdebited
  · have heffect := debited_effect hdeb
    obtain ⟨u, hquiet, hentered⟩ := hdeb.entered
    have hrow := hentered.mem
    have hkey : row.key = (.charging_debit, toString i.session_id) := hentered.key
    have hdebit : ({ a with settlement := some (if i.total_vnd = 0 then .zero_invoice else .debited) } : Account).settlement =
        some .debited := by
      rw [if_neg hpos.ne']
    refine ⟨hinvoices ▸ hs.once, hdriver, fun x hx hcharging => ?_, fun b hb hdebited => ?_, hfree⟩
    · rw [hinvoices]
      rcases heffect.mem hx with hold | ⟨hxkey, href⟩
      · obtain ⟨b, hb, hdebited, j, hj, hid, hpays⟩ := hs.paid x hold hcharging
        exact ⟨b, (hother hb hdebited).1, hdebited, j, hj, hid, hpays.mono fun _ hv => heffect.exists_wallet hv⟩
      · obtain rfl : x = row := hok.key_inj hx hrow (hxkey.trans hkey.symm)
        exact ⟨_, hnew.mpr (.inl rfl), hdebit, i, hbilled, hsession, hkey, href, hentered.amount, hpos.ne', hdeb.owner⟩
    · rcases hnew.mp hb with rfl | ⟨hb, -⟩
      · exact ⟨row, hrow, hkey.trans (congrArg (fun n : ℕ => (EntryType.charging_debit, toString n)) hsession)⟩
      · obtain ⟨x, hx, hxkey⟩ := hs.debited b hb hdebited
        exact ⟨x, heffect.ledger.subset hx, hxkey⟩
  · obtain ⟨b, hb, hdebited, j, -, hid, hpays⟩ := hs.paid row hrow (isCharging_of_key hkey)
    have hname : toString j.session_id = toString a.id := congrArg Prod.snd (hpays.key.symm.trans hkey)
    exact absurd (hid.symm.trans (Text.toString_inj.mp hname)) (hother hb hdebited).2

theorem move_settled (h : CoreOk t) (hw : Wallets.Ok t.wallet) (hs : Settled t) (hm : Move Elsewhere Z now t t') :
    Settled t' := by
  cases move_accounts h hm with
  | wallet haccounts hinvoices change =>
    rcases change with hq | ⟨key, ref, ⟨hkey, href⟩, he⟩
    · exact settled_of_wallet hs haccounts hinvoices (hq.ledger ▸ List.prefix_rfl) (fun row hrow _ => hq.ledger ▸ hrow)
        fun _ hv => hq.exists_wallet hv
    · refine settled_of_wallet hs haccounts hinvoices he.ledger (fun row hrow hcharging => ?_) fun _ hv => he.exists_wallet hv
      refine (he.mem hrow).resolve_right fun ⟨hrkey, hrref⟩ => ?_
      have htype : row.entry_type = key.1 := congrArg Prod.fst hrkey
      simp [isCharging, htype, hrref, hkey, href] at hcharging
  | insert a fresh unsettled accounts invoices wallet => exact settled_insert hs unsettled accounts invoices wallet
  | invoice a i mem unbilled session driver accounts invoices wallet =>
    exact settled_invoice hs mem unbilled session driver accounts invoices wallet
  | settle a i mem billed session unsettled accounts invoices paid =>
    exact settled_settle hs (accounts_keyed h) (move_wallet_ok hm hw) mem billed session unsettled accounts invoices paid

theorem moves_settled (h : CoreOk t) (hw : Wallets.Ok t.wallet) (hs : Settled t) (hm : Moves Elsewhere Z now t t') :
    Settled t' := by
  induction hm with
  | refl => exact hs
  | tail hms hm ih => exact move_settled (Moves.ok h hms) (moves_wallet_ok hms hw) ih hm

theorem elsewhere_of_operation {c : Accounts.Call} (h : Operation c) :
    (∀ k ∈ c.key, k.1 ≠ .charging_debit) ∧ c.reference ≠ "charging_session" := by
  cases c with
  | ghi_so_cai => exact h.elim
  | tru_vi => exact h.elim
  | _ => exact ⟨by rintro k ⟨⟩ <;> nofun, by simp [Accounts.Call.reference]⟩

/-- Wallets and evidence changed at most. -/
def OnlyQuiet (s s' : Database) : Prop :=
  ∃ w, Quiet s.books.wallet w ∧ s' = { s with books := { s.books with wallet := w } }

theorem OnlyQuiet.refl (s : Database) : OnlyQuiet s s := ⟨s.books.wallet, .refl _, rfl⟩

theorem lockWallet_quiet (wallet : Wallet) (s : Database) : OnlyQuiet s (lockWallet wallet s) :=
  ⟨_, (Quiet.single (.status wallet.id .locked)).trans (quiet_logs _ _), rfl⟩

theorem OnlyQuiet.trans {s s' s'' : Database} (h : OnlyQuiet s s') (h' : OnlyQuiet s' s'') : OnlyQuiet s s'' := by
  obtain ⟨w, hq, rfl⟩ := h
  obtain ⟨w', hq', rfl⟩ := h'
  exact ⟨w', hq.trans hq', rfl⟩

theorem reconcileEach_quiet (skip : Uuid → Bool) (identifiers : List Uuid) (s : Database) :
    wp (reconcileEach skip identifiers) (fun _ => OnlyQuiet s) (fun _ => OnlyQuiet s) s := by
  induction identifiers generalizing s with
  | nil => exact .refl s
  | cons identifier identifiers ih =>
    simp only [reconcileEach, wp_bind, wp_read]
    split
    · exact ih s
    split
    · exact ih s
    next wallet _ _ =>
    rw [wp_bind, wp_write, wp_bind]
    have hlock := lockWallet_quiet wallet s
    exact wp_mono (ih (lockWallet wallet s)) (fun _ _ h => hlock.trans h) fun _ _ h => hlock.trans h

theorem transaction_moves (h : Transaction env s s') (hs : Sound s) :
    Moves Elsewhere (fun _ => True) env.now s.core s'.core := by
  have hcall : ∀ c : Call, Moves Elsewhere (fun _ => True) env.now s.core (c.run env s).2.core := fun c =>
    wp_state (c.moves hs.core (fun _ _ => trivial)
      (permitted_of_all (fun _ _ _ => trivial) (fun _ _ _ _ => trivial) c env.now s))
  cases h with
  | call c => exact hcall c
  | undone c => exact rollback_moves (moves_advanced (hcall c))
  | money c _ operation =>
    obtain ⟨hkey, href⟩ := elsewhere_of_operation operation
    refine single (.wallet s.core _ ?_)
    rcases (run_spec c hs.wallet).effect with hq | ⟨k, hk, he⟩
    · exact .inl hq
    · exact .inr ⟨k, c.reference, ⟨hkey k hk, href⟩, he⟩
  | refused c _ operation raised =>
    exact single (.wallet s.core _ (.inl (quiet_rollback ((run_spec c hs.wallet).raised raised).seq)))
  | reconciled skip wallet_id =>
    obtain ⟨w, hq, hs'⟩ := wp_state (x := doi_chieu_so_du skip wallet_id) (P := OnlyQuiet s)
      (reconcileEach_quiet skip _ s)
    rw [hs']
    exact single (.wallet s.core w (.inl hq))
  | rest _ _ core connectors =>
    rw [core]
    exact single (.connectors s.core _ connectors.keyed connectors.later)

theorem interleaving_settled {s₀ : Database} (h₀ : Unsettled s₀) (h : Interleaving s₀ s) : Sound s ∧ Settled s.core := by
  induction h with
  | refl =>
    have hnone : ∀ a ∈ s₀.core.accounts, a.settlement = none := by
      intro a ha
      obtain ⟨c, hc, rfl⟩ := List.mem_map.mp ha
      exact h₀.settlements c hc
    have hinvoices : s₀.core.invoices = [] := h₀.invoices
    refine ⟨h₀.sound, ⟨hinvoices ▸ .nil, hinvoices ▸ nofun, fun row hrow hcharging => ?_,
      fun a ha hdebited => absurd ((hnone a ha).symm.trans hdebited) nofun,
      fun a ha hfree => absurd ((hnone a ha).symm.trans hfree) nofun⟩⟩
    exact absurd ((h₀.ledger row hrow).symm.trans hcharging) nofun
  | tail _ step ih =>
    obtain ⟨env, hstep⟩ := step
    obtain ⟨hsound, hsettled⟩ := ih
    have hm := transaction_moves hstep hsound
    exact ⟨⟨Moves.ok hsound.core hm, moves_wallet_ok hm hsound.wallet⟩,
      moves_settled hsound.core hsound.wallet hsettled hm⟩

/-! ## 5. The reconciler finds nothing -/

/-- The ledger rows of a debited session are one row, which pays its invoice. -/
theorem related_eq (hs : Sound s) (hsettled : Settled s.core) {i : InvoiceRow} {c : Session} (hc : c ∈ s.charging_sessions)
    (hi : i ∈ s.invoices) (hid : c.id = i.session_id) (hdebited : c.settlement = some .debited) :
    ∃ row, related s i c = [row] ∧ Pays s.books.wallet row i := by
  obtain ⟨row, hrow, hkey⟩ := hsettled.debited c.account (List.mem_map_of_mem hc) hdebited
  have hcharging := isCharging_of_key hkey
  have hrelated : related s i c = s.books.wallet.wallet_ledger.filter (·.key = row.key) := by
    refine List.filter_congr fun x hx => ?_
    by_cases hxc : isCharging x = true
    · obtain ⟨-, -, -, j, -, -, hpays⟩ := hsettled.paid x hx hxc
      have hreference : x.reference_id = toString j.session_id := congrArg Prod.snd hpays.key
      have hinvoice : x.reference_id ≠ i.id.text := fun h => Uuid.text_ne_toString i.id _ (h.symm.trans hreference)
      have htype : x.entry_type = .charging_debit := congrArg Prod.fst hpays.key
      have hsame : x.key = row.key ↔ x.reference_id = toString c.id := by
        rw [hkey, WalletLedger.key, htype]
        exact ⟨fun h => congrArg Prod.snd h, fun h => congrArg (Prod.mk _) h⟩
      simp [hxc, hinvoice, hsame]
    · have hne : x.key ≠ row.key := fun h => hxc (isCharging_of_key (h.trans hkey))
      simp [hxc, hne]
  refine ⟨row, hrelated.trans (hs.wallet.filter_key hrow), ?_⟩
  obtain ⟨-, -, -, j, hj, -, hpays⟩ := hsettled.paid row hrow hcharging
  have hname : toString j.session_id = toString c.id := congrArg Prod.snd (hpays.key.symm.trans hkey)
  have honce : Table.Keyed (fun i : InvoiceRow => i.session_id) s.invoices := hsettled.once
  have heq : j = i := honce.eq hj hi ((Text.toString_inj.mp hname).trans hid)
  exact heq ▸ hpays

theorem invoiceIssues_eq_nil (hs : Sound s) (hsettled : Settled s.core) {i : InvoiceRow} {c : Session}
    (hc : c ∈ s.charging_sessions) (hi : i ∈ s.invoices) (hid : c.id = i.session_id)
    (hdebited : c.settlement = some .debited) : invoiceIssues s i c = [] := by
  obtain ⟨row, hrelated, hpays⟩ := related_eq hs hsettled hc hi hid hdebited
  obtain ⟨a, ha, haid, hdriver⟩ := hsettled.driver i hi
  have hsame : a = c.account :=
    (accounts_keyed hs.core).eq ha (List.mem_map_of_mem hc) (haid.trans hid.symm)
  rw [hsame] at hdriver
  have hdriver : c.driver_id = some i.driver_id := hdriver
  obtain ⟨owner, howner, hownerid, hownerdriver⟩ := hpays.owner
  have hexpected : (s.books.wallet.wallets.find? (·.driver_id = i.driver_id)).map (·.id) = some row.wallet_id := by
    obtain ⟨w, hw⟩ : ∃ w, s.books.wallet.wallets.find? (·.driver_id = i.driver_id) = some w :=
      Option.isSome_iff_exists.mp (List.find?_isSome.mpr ⟨owner, howner, decide_eq_true hownerdriver⟩)
    obtain ⟨hmem, hwdriver⟩ := find?_driver hw
    rw [hw, Option.map_some, hs.wallet.wallet_inj hmem howner (.inr (hwdriver.trans hownerdriver.symm)), hownerid]
  have htype : row.entry_type = .charging_debit := congrArg Prod.fst hpays.key
  have hreference : row.reference_id = toString c.id :=
    (congrArg Prod.snd hpays.key).trans (congrArg (fun n : ℕ => toString n) hid.symm)
  simp [invoiceIssues, hrelated, hdriver, entryIssues, hexpected, htype, hpays.reference, hreference, hpays.amount,
    hpays.nonzero]

theorem wallet_issues_eq_nil (hs : Sound s) (hsettled : Settled s.core) {wallet : Wallet}
    (hwallet : wallet ∈ s.books.wallet.wallets) : (wallet_issues s wallet).2 = [] := by
  have htotal := hs.wallet.balance wallet hwallet
  have hrange := hs.wallet.range wallet hwallet
  have hissues : walletIssues s wallet = [] := by
    have hinvoices : (walletInvoices s wallet).flatMap (fun (invoice, charging) => invoiceIssues s invoice charging) = [] := by
      refine List.flatMap_eq_nil_iff.mpr fun p hp => ?_
      obtain ⟨hjoin, hdebited⟩ := List.mem_filter.mp hp
      obtain ⟨i, hi, hp⟩ := List.mem_flatMap.mp hjoin
      obtain ⟨c, hc, rfl⟩ := List.mem_map.mp hp
      obtain ⟨hc, hid⟩ := List.mem_filter.mp hc
      simp only [Bool.and_eq_true, decide_eq_true_eq] at hdebited
      exact invoiceIssues_eq_nil hs hsettled hc hi (of_decide_eq_true hid) hdebited.1
    simp only [walletIssues, hinvoices, ← htotal, List.append_nil, ne_eq, not_true_eq_false, if_false]
    exact if_neg (not_not.mpr hrange)
  simp [wallet_issues, hissues]

theorem reconcileEach_eq (h : ∀ wallet ∈ s.books.wallet.wallets, (wallet_issues s wallet).2 = []) (skip : Uuid → Bool)
    (identifiers : List Uuid) : reconcileEach skip identifiers s = (.ok [], s) := by
  induction identifiers with
  | nil => rfl
  | cons identifier identifiers ih =>
    rw [reconcileEach]
    refine (bind_run (x := read) rfl).trans ?_
    cases hfound : (if skip identifier = true then none else s.books.wallet.wallets.find? (·.id = identifier)) with
    | none => exact ih
    | some wallet =>
      have hmem : wallet ∈ s.books.wallet.wallets := by
        split at hfound
        · cases hfound
        · exact (find?_id hfound).1
      exact (congrFun (if_pos (.inl (h wallet hmem))) s).trans ih

end ReconcilerLemmas

/-- The debits that refer to a session. -/
def debitsOf (s : Database) (c : Session) : List WalletLedger :=
  s.books.wallet.wallet_ledger.filter fun row => row.entry_type = .charging_debit ∧ row.reference_id = toString c.id

namespace ReconcilerLemmas

theorem mem_debitsOf {c : Session} {row : WalletLedger} :
    row ∈ debitsOf s c ↔ row ∈ s.books.wallet.wallet_ledger ∧ row.key = (.charging_debit, toString c.id) := by
  simp [debitsOf, WalletLedger.key]

/-- A debit is the only one. -/
theorem debitsOf_eq (hs : Wallets.Ok s.books.wallet) {c : Session} {row : WalletLedger} (h : row ∈ debitsOf s c) :
    debitsOf s c = [row] := by
  obtain ⟨hrow, hkey⟩ := mem_debitsOf.mp h
  refine Eq.trans (List.filter_congr fun x _ => ?_) (hs.filter_key hrow)
  rw [hkey]
  simp [WalletLedger.key]

/-- A debit is that of the session's invoice, and the session is debited. -/
theorem debit_pays (hs : Sound s) (hsettled : Settled s.core) {c : Session} (hc : c ∈ s.charging_sessions)
    {row : WalletLedger} (h : row ∈ debitsOf s c) :
    c.settlement = some .debited ∧ ∃ i ∈ s.invoices, i.session_id = c.id ∧ Pays s.books.wallet row i := by
  obtain ⟨hrow, hkey⟩ := mem_debitsOf.mp h
  obtain ⟨a, ha, hdebited, i, hi, hid, hpays⟩ := hsettled.paid row hrow (isCharging_of_key hkey)
  have hname : toString i.session_id = toString c.id := congrArg Prod.snd (hpays.key.symm.trans hkey)
  have hsession := Text.toString_inj.mp hname
  have hsame : a = c.account := (accounts_keyed hs.core).eq ha (List.mem_map_of_mem hc) (hid.symm.trans hsession)
  rw [hsame] at hdebited
  exact ⟨hdebited, i, hi, hsession, hpays⟩

end ReconcilerLemmas

open ReconcilerLemmas

/-- In every reachable state a session is debited exactly when one debit refers to it, which is on the wallet of the
driver of its invoice and of its total; no session has two debits. The reconciler then has no issue with any wallet
and locks none. -/
theorem settled_exactly_once {s₀ s : Database} (opening : Unsettled s₀) (run : Interleaving s₀ s) :
    (∀ c ∈ s.charging_sessions,
      (debitsOf s c).length ≤ 1 ∧
      (c.settlement = some .debited ↔ (debitsOf s c).length = 1) ∧
      (∀ row ∈ debitsOf s c, ∃ i ∈ s.invoices, i.session_id = c.id ∧ row.amount_vnd = -i.total_vnd ∧ i.total_vnd ≠ 0 ∧
        ∃ wallet ∈ s.books.wallet.wallets, wallet.id = row.wallet_id ∧ wallet.driver_id = i.driver_id) ∧
      (c.settlement = some .zero_invoice →
        (∃ i ∈ s.invoices, i.session_id = c.id ∧ i.total_vnd = 0) ∧ debitsOf s c = [])) ∧
    (∀ wallet ∈ s.books.wallet.wallets, (wallet_issues s wallet).2 = []) ∧
    ∀ skip wallet_id, doi_chieu_so_du skip wallet_id s = (.ok [], s) := by
  obtain ⟨hs, hsettled⟩ := interleaving_settled opening run
  have hissues : ∀ wallet ∈ s.books.wallet.wallets, (wallet_issues s wallet).2 = [] :=
    fun wallet hwallet => wallet_issues_eq_nil hs hsettled hwallet
  refine ⟨fun c hc => ⟨?_, ⟨fun hdebited => ?_, fun hone => ?_⟩, fun row hrow => ?_, fun hfree => ⟨?_, ?_⟩⟩, hissues,
    fun skip wallet_id => reconcileEach_eq hissues skip _⟩
  · rcases hdebits : debitsOf s c with _ | ⟨row, rows⟩
    · exact Nat.zero_le 1
    · have hrow : row ∈ debitsOf s c := hdebits ▸ List.mem_cons_self
      rw [← hdebits, debitsOf_eq hs.wallet hrow]
      exact le_rfl
  · obtain ⟨row, hrow, hkey⟩ := hsettled.debited c.account (List.mem_map_of_mem hc) hdebited
    rw [debitsOf_eq hs.wallet (mem_debitsOf.mpr ⟨hrow, hkey⟩)]
    rfl
  · obtain ⟨row, hrow⟩ := List.exists_mem_of_length_pos (hone ▸ Nat.one_pos)
    exact (debit_pays hs hsettled hc hrow).1
  · obtain ⟨-, i, hi, hid, hpays⟩ := debit_pays hs hsettled hc hrow
    exact ⟨i, hi, hid, hpays.amount, hpays.nonzero, hpays.owner⟩
  · exact hsettled.free c.account (List.mem_map_of_mem hc) hfree
  · refine List.eq_nil_iff_forall_not_mem.mpr fun row hrow => ?_
    exact absurd (hfree.symm.trans (debit_pays hs hsettled hc hrow).1) nofun

namespace OneInvoice

open OneSession

/-- The stopped session is settled. -/
def paid : Database := ((Call.chot_phien [] admin 0 true).run (town 3600000001) unplugged).2

theorem priced_unsettled : Unsettled priced where
  sound := priced_sound
  settlements c hc := by
    rw [List.mem_singleton.mp hc]
    rfl
  invoices := rfl
  ledger := nofun

theorem interleaving_paid : Interleaving priced paid :=
  (Relation.ReflTransGen.single ⟨_, .call _ priced⟩).tail ⟨_, .call _ unplugged⟩

end OneInvoice

open OneInvoice

theorem settled_exactly_once_one_hour : paid.charging_sessions.map (·.settlement) = [some .debited] ∧
    (∀ c ∈ paid.charging_sessions, c.settlement = some .debited ↔ (debitsOf paid c).length = 1) ∧
    ∀ wallet ∈ paid.books.wallet.wallets, (wallet_issues paid wallet).2 = [] := by
  obtain ⟨hsessions, hissues, -⟩ := settled_exactly_once priced_unsettled interleaving_paid
  exact ⟨by decide +kernel, fun c hc => (hsessions c hc).2.1, hissues⟩

end Csms.Charging
