import Csms.Wallet.Replays

/-!
# Manual top-ups and their receipts (`wallet/manual_topup.py`)

A supplied receipt is validated without the White_Space at its ends and looked up like that; the ledger takes
away what `str.strip` takes away, which is more. A receipt that changes there passes the check of the reserved
prefix and the look-up, and is then posted, or found, under another reference.

Result: `topups_credited_once`: without such receipts every reference is credited once, with one audit row.
-/

namespace Csms.Wallets

open Tx PostingsLemmas AdministrationLemmas ReplaysLemmas

/-! ## 1. Calls and runs -/

structure TopupCall where
  hidden : List ℕ
  hidden' : List ℕ
  driver_id : Uuid
  actor_id : Uuid
  request : ManualTopupRequest

namespace TopupCall

def run (max_vnd : ℤ) (c : TopupCall) : WalletTx ManualTopupResponse :=
  nap_tay c.hidden c.hidden' max_vnd c.driver_id c.actor_id c.request

/-- The reference the call posts under. -/
def reference (c : TopupCall) : String := Text.strip c.request.code

/-- The call repeats another one. -/
def Repeats (c d : TopupCall) : Prop :=
  c.driver_id = d.driver_id ∧ c.actor_id = d.actor_id ∧ c.request = d.request

end TopupCall

/-- The reference of a generated receipt. -/
def generated (request_id : Uuid) : String := "PT-AUTO-" ++ request_id.hex

/-- Each call of a run with the state before it. -/
def topupTrace (max_vnd : ℤ) : WalletDb → List TopupCall → List (WalletDb × TopupCall)
  | _, [] => []
  | s, c :: calls => (s, c) :: topupTrace max_vnd (c.run max_vnd s).2 calls

/-- What the call of `t` returns. -/
def Returns (max_vnd : ℤ) (t : WalletDb × TopupCall) (r : ManualTopupResponse) : Prop :=
  (t.2.run max_vnd t.1).1 = .ok r

/-- The state after `t`. -/
def After (max_vnd : ℤ) (t : WalletDb × TopupCall) : WalletDb := (t.2.run max_vnd t.1).2

/-- The audit row of a manual top-up. -/
def isTopupLog (a : AuditLog) : Bool := a.action = "wallet.manual_topup"

/-- Each manual credit has one audit row, and each such row a credit. -/
structure Audited (s : WalletDb) : Prop where
  one : ∀ row ∈ s.wallet_ledger, row.entry_type = .manual_topup →
    s.audit_logs.countP (fun a => isTopupLog a ∧ a.data.ledger_id = some row.id) = 1
  credit : ∀ a ∈ s.audit_logs, isTopupLog a = true →
    ∃ row ∈ s.wallet_ledger, row.entry_type = .manual_topup ∧ a.data.ledger_id = some row.id

/-- Manual top-ups are credited once with one audit row. -/
structure CreditedOnce (max_vnd : ℤ) (run : List (WalletDb × TopupCall)) : Prop where
  once : ∀ t ∈ run, ∀ ref, (After max_vnd t).wallet_ledger.countP (·.key = (.manual_topup, ref)) ≤ 1
  supplied : ∀ t ∈ run, t.2.request.request_id = none → ∀ q, t.2.reference ≠ generated q
  distinct : ∀ t ∈ run, ∀ u ∈ run, t.2.request.request_id ≠ none → u.2.request.request_id ≠ none →
    t.2.reference = u.2.reference → t.2.request.request_id = u.2.request.request_id
  audited : ∀ t ∈ run, Audited (After max_vnd t)
  first : ∀ t ∈ run, ∀ r, Returns max_vnd t r → (∀ row ∈ t.1.wallet_ledger, row.key ≠ (.manual_topup, t.2.reference)) →
    ∃ row log, row.key = (.manual_topup, t.2.reference) ∧ row.amount_vnd = t.2.request.amount_vnd ∧
      r.ledger_id = row.id ∧ isTopupLog log = true ∧ log.data.ledger_id = some row.id ∧
      (After max_vnd t).wallet_ledger = t.1.wallet_ledger ++ [row] ∧
      (After max_vnd t).audit_logs = t.1.audit_logs ++ [log]
  repeated : ∀ l₁ t l₂ u l₃, run = l₁ ++ t :: (l₂ ++ u :: l₃) → u.2.Repeats t.2 → t.2.request.request_id ≠ none →
    ∀ r, Returns max_vnd t r → Returns max_vnd u r ∧ After max_vnd u = u.1
  other : ∀ l₁ u l₂, run = l₁ ++ u :: l₂ → (∃ row ∈ u.1.wallet_ledger, row.key = (.manual_topup, u.2.reference)) →
    ∀ r, Returns max_vnd u r → u.2.request.request_id ≠ none ∧ ∃ t ∈ l₁, (∃ r, Returns max_vnd t r) ∧ u.2.Repeats t.2
  raised : ∀ t ∈ run, ∀ e, (t.2.run max_vnd t.1).1 = .error e → ∃ n, After max_vnd t = { t.1 with ledger_seq := n }

/-- A supplied receipt that changes when it is stripped, and then is a generated one or one that was already
credited to the driver's wallet with the same amount. -/
def Aliased (t : WalletDb × TopupCall) : Prop :=
  ∃ code ∈ t.2.request.receipt_code, Text.strip code ≠ code ∧ ((∃ q, Text.strip code = generated q) ∨
    ∃ row ∈ t.1.wallet_ledger, row.key = (.manual_topup, Text.strip code) ∧
      row.amount_vnd = t.2.request.amount_vnd ∧ ∃ w ∈ t.1.wallets, w.id = row.wallet_id ∧ w.driver_id = t.2.driver_id)

/-- No manual top-up yet. -/
def NoTopups (s : WalletDb) : Prop :=
  Ok s ∧ (∀ row ∈ s.wallet_ledger, row.entry_type ≠ .manual_topup) ∧ ∀ a ∈ s.audit_logs, isTopupLog a = false

namespace ReceiptsLemmas

variable {s s' : WalletDb} {c d : TopupCall} {max_vnd : ℤ}

/-! ## 2. What one call does -/

/-- Nothing but the sequence has changed. -/
def Kept (s s' : WalletDb) : Prop := ∃ n, s' = { s with ledger_seq := n }

theorem kept_refl (s : WalletDb) : Kept s s := ⟨s.ledger_seq, rfl⟩

theorem kept_rollback (s s' : WalletDb) : Kept s (WalletDb.rollback s s') := ⟨s'.ledger_seq, rfl⟩

theorem insertEntry_kept (row : WalletLedger) (s : WalletDb) :
    wp (insertEntry row) (fun r s' => s'.audit_logs = s.audit_logs ∧ s'.users = s.users ∧
      (r ∈ s.wallet_ledger → Kept s s') ∧ (r ∉ s.wallet_ledger → r.actor_id = row.actor_id))
      (fun _ _ => True) s := by
  unfold insertEntry
  simp only [wp_bind, wp_read, wp_write]
  split
  · trivial
  split
  · next winner hwin =>
    simp only [_matching_entry, wp_bind, wp_raiseIf, wp_pure]
    refine ⟨fun _ => trivial, fun _ => ⟨trivial, trivial, fun _ => ⟨_, rfl⟩, fun hnot => ?_⟩⟩
    exact absurd (List.mem_of_find?_eq_some hwin) hnot
  · next hnone =>
    simp only [wp_bind, wp_raiseIf, wp_write, wp_pure]
    refine ⟨fun _ => trivial, fun _ => ⟨rfl, rfl, fun hmem => ?_, fun _ => trivial⟩⟩
    exact absurd (decide_eq_true rfl) (List.find?_eq_none.mp hnone _ hmem)

theorem ghi_so_cai_kept (hidden : List ℕ) (wallet_id : Uuid) (amount_vnd : ℤ) (reference_type reference_id : String)
    (actor_id : Option Uuid) (s : WalletDb) :
    wp (ghi_so_cai hidden wallet_id .manual_topup amount_vnd reference_type reference_id actor_id)
      (fun r s' => s'.audit_logs = s.audit_logs ∧ s'.users = s.users ∧ (r ∈ s.wallet_ledger → Kept s s') ∧
        (r ∉ s.wallet_ledger → r.actor_id = actor_id)) (fun _ _ => True) s := by
  unfold ghi_so_cai
  simp only [_integer_vnd, _lock_wallet, wp_bind, wp_raiseIf, wp_pure, wp_read, wp_orRaise]
  refine ⟨fun _ => trivial, fun _ => ⟨fun _ => trivial, fun _ => ⟨fun _ => trivial, fun _ => ⟨fun _ => trivial,
    fun w _ => ⟨fun _ => trivial, fun _ => ⟨fun _ => trivial, fun _ => ?_⟩⟩⟩⟩⟩⟩
  refine wp_mono (requiredAudit_spec _ _ _ _ _ _ s) ?_ fun _ _ _ => trivial
  rintro audit t rfl
  cases hex : t.lookup hidden wallet_id .manual_topup (Text.strip reference_id) with
  | some row => exact ⟨rfl, rfl, fun _ => kept_refl t, fun hnot => absurd (mem_of_lookup hex).1 hnot⟩
  | none =>
    simp only [wp_bind, wp_raiseIf, wp_pure, wp_savepoint]
    refine ⟨fun _ => trivial, fun _ => ⟨fun _ => trivial, fun _ => ?_⟩⟩
    exact wp_mono (insertEntry_kept _ t) (fun _ _ h => h) fun _ _ _ => trivial

/-- The response for a row. -/
def answer (row : WalletLedger) (actor_id driver_id : Uuid) (request : ManualTopupRequest) : ManualTopupResponse where
  ledger_id := row.id
  wallet_id := row.wallet_id
  driver_id := driver_id
  amount_vnd := row.amount_vnd
  balance_after_vnd := row.balance_after_vnd
  receipt_code := row.reference_id
  actor_id := actor_id
  request_id := request.request_id
  payment_received := request.payment_received
  external_reference := request.external_reference

theorem _response_answer (row : WalletLedger) (driver_id : Uuid) (request : ManualTopupRequest) (s : WalletDb) :
    wp (_response row driver_id request)
      (fun r s' => s' = s ∧ ∃ a, row.actor_id = some a ∧ r = answer row a driver_id request) (fun _ s' => s' = s) s := by
  simp only [_response, wp_bind, wp_orRaise, wp_pure]
  exact ⟨fun _ => trivial, fun a ha => ⟨trivial, a, ha, rfl⟩⟩

/-- What a call that returns has done on the wallet `w`, with the row `row`. -/
inductive Topped (c : TopupCall) (w : Wallet) (row : WalletLedger) (s : WalletDb) : WalletDb → Prop
  | repeated (mem : row ∈ s.wallet_ledger) (key : row.key = (.manual_topup, c.request.code))
    (generated : c.request.request_id ≠ none) (same : s.sameTopup w.id c.actor_id c.request row) : Topped c w row s s
  | credited {t : WalletDb} (post : Post row s t) (logs : t.audit_logs = s.audit_logs) (users : t.users = s.users)
    (key : row.key = (.manual_topup, c.reference)) (wallet : row.wallet_id = w.id)
    (amount : row.amount_vnd = c.request.amount_vnd) (actor : row.actor_id = some c.actor_id) :
    Topped c w row s { t with audit_logs := t.audit_logs ++ [topupLog w.id row c.request] }
  | aliased {t : WalletDb} (kept : Kept s t) (mem : row ∈ s.wallet_ledger)
    (key : row.key = (.manual_topup, c.reference)) (wallet : row.wallet_id = w.id)
    (amount : row.amount_vnd = c.request.amount_vnd) (changed : c.reference ≠ c.request.code) :
    Topped c w row s { t with audit_logs := t.audit_logs ++ [topupLog w.id row c.request] }

/-- A call returns the answer for its row, or changes nothing. -/
theorem run_spec (hs : Ok s) : wp (c.run max_vnd)
    (fun r s' => s.isAdmin (some c.actor_id) = true ∧ c.request.amount_vnd ≤ max_vnd ∧
      ∃ w, s.wallets.find? (·.driver_id = c.driver_id) = some w ∧ ∃ row a, row.actor_id = some a ∧
        r = answer row a c.driver_id c.request ∧ Topped c w row s s')
    (fun _ s' => Kept s s') s := by
  unfold TopupCall.run nap_tay
  simp only [_require_admin, wp_bind, wp_read, wp_raiseIf, wp_orRaise]
  refine ⟨fun _ => kept_refl s, fun hadmin => ⟨fun _ => kept_refl s, fun hmax => ⟨fun _ => kept_refl s,
    fun w hw => ?_⟩⟩⟩
  have hadmin' : s.isAdmin (some c.actor_id) = true := by simpa using hadmin
  split
  · next existing hex =>
    obtain ⟨hmem, hkey⟩ := mem_of_lookup hex
    simp only [wp_bind, wp_raiseIf]
    refine ⟨fun _ => kept_refl s, fun hgen => ⟨fun _ => kept_refl s, fun hsame => ?_⟩⟩
    refine wp_mono (_response_answer existing c.driver_id c.request s) ?_ fun _ _ h => h ▸ kept_refl s
    rintro r _ ⟨rfl, a, ha, rfl⟩
    exact ⟨hadmin', not_lt.mp hmax, w, hw, existing, a, ha, rfl, .repeated hmem hkey hgen (not_not.mp hsame)⟩
  · next hnone =>
    simp only [wp_bind, wp_raiseIf, wp_savepoint]
    refine ⟨fun _ => kept_refl s, fun _ => ?_⟩
    refine wp_mono (wp_and (ghi_so_cai_spec c.hidden' w.id .manual_topup c.request.amount_vnd "manual_topup"
      c.request.code (some c.actor_id) s) (ghi_so_cai_kept c.hidden' w.id c.request.amount_vnd "manual_topup"
      c.request.code (some c.actor_id) s)) ?_ fun _ s' _ => kept_rollback s s'
    rintro row t ⟨⟨hent, -, -⟩, hlogs, husers, hkept, hactor⟩
    rw [wp_bind, ghi_nhat_ky, wp_write]
    refine wp_mono (_response_answer row c.driver_id c.request _) ?_ fun _ s' _ => kept_rollback s s'
    rintro r _ ⟨rfl, a, ha, rfl⟩
    refine ⟨hadmin', not_lt.mp hmax, w, hw, row, a, ha, rfl, ?_⟩
    rcases hent.change with ⟨hmem, -⟩ | hpost
    · refine .aliased (hkept hmem) hmem hent.key hent.wallet_id hent.amount fun heq => ?_
      -- the look-up sees the rows of its own wallet
      have hsee := List.find?_eq_none.mp hnone row hmem
      have hkey : row.key = (.manual_topup, c.request.code) := by
        rw [← heq]
        exact hent.key
      simp [hkey, hent.wallet_id] at hsee
    · have hnot : row ∉ s.wallet_ledger := fun hmem => hpost.fresh row hmem rfl
      exact .credited hpost hlogs husers hent.key hent.wallet_id hent.amount (hactor hnot)

/-! ## 3. What later calls keep -/

/-- The ledger and the audit rows only grow. -/
structure Grows (s s' : WalletDb) : Prop where
  users : s'.users = s.users
  ledger : s.wallet_ledger <+: s'.wallet_ledger
  logs : s.audit_logs <+: s'.audit_logs
  wallets : ∀ w ∈ s.wallets, ∃ w' ∈ s'.wallets, w'.id = w.id ∧ w'.driver_id = w.driver_id

theorem Kept.grows (h : Kept s s') : Grows s s' := by
  obtain ⟨n, rfl⟩ := h
  exact ⟨rfl, List.prefix_rfl, List.prefix_rfl, fun w hw => ⟨w, hw, rfl, rfl⟩⟩

theorem Topped.grows {w : Wallet} {row : WalletLedger} (h : Topped c w row s s') : Grows s s' := by
  cases h with
  | repeated => exact (kept_refl s).grows
  | credited post logs users =>
    refine ⟨users, ?_, ?_, fun v hv => post.exists_wallet hv⟩
    · rw [post.ledger]
      exact List.prefix_append _ _
    · rw [logs]
      exact List.prefix_append _ _
  | aliased kept =>
    have hgrows := kept.grows
    exact ⟨hgrows.users, hgrows.ledger, hgrows.logs.trans (List.prefix_append _ _), hgrows.wallets⟩

theorem topupAudit_grows (h : Grows s s') {wallet_id : Uuid} {row : WalletLedger} {a : AuditLog}
    (ha : s.topupAudit wallet_id row = some a) : s'.topupAudit wallet_id row = some a := by
  obtain ⟨more, hmore⟩ := h.logs
  unfold WalletDb.topupAudit at ha ⊢
  rw [← hmore, List.find?_append, ha]
  rfl

theorem sameTopup_grows (h : Grows s s') {wallet_id actor_id : Uuid} {request : ManualTopupRequest} {row : WalletLedger}
    (hsame : s.sameTopup wallet_id actor_id request row) : s'.sameTopup wallet_id actor_id request row := by
  obtain ⟨hwallet, hactor, hamount, audit, haudit, hdata⟩ := hsame
  exact ⟨hwallet, hactor, hamount, audit, topupAudit_grows h haudit, hdata⟩

/-- The call has been answered with `r` and is on record. -/
structure Recorded (max_vnd : ℤ) (s : WalletDb) (c : TopupCall) (r : ManualTopupResponse) : Prop where
  admin : s.isAdmin (some c.actor_id) = true
  limit : c.request.amount_vnd ≤ max_vnd
  row : ∃ w ∈ s.wallets, w.driver_id = c.driver_id ∧ ∃ row ∈ s.wallet_ledger,
    row.key = (.manual_topup, c.request.code) ∧ s.sameTopup w.id c.actor_id c.request row ∧
    r = answer row c.actor_id c.driver_id c.request

theorem Recorded.grows {r : ManualTopupResponse} (h : Recorded max_vnd s c r) (hg : Grows s s') :
    Recorded max_vnd s' c r := by
  obtain ⟨w, hw, hdriver, row, hrow, hkey, hsame, hr⟩ := h.row
  obtain ⟨w', hw', hid, hd⟩ := hg.wallets w hw
  refine ⟨?_, h.limit, w', hw', hd.trans hdriver, row, hg.ledger.subset hrow, hkey, ?_, hr⟩
  · unfold WalletDb.isAdmin
    rw [hg.users]
    exact h.admin
  · rw [hid]
    exact sameTopup_grows hg hsame

/-- The row was credited by the call. -/
structure Origin (s : WalletDb) (row : WalletLedger) (c : TopupCall) : Prop where
  key : row.key = (.manual_topup, c.reference)
  actor : row.actor_id = some c.actor_id
  amount : row.amount_vnd = c.request.amount_vnd
  wallet : ∃ w ∈ s.wallets, w.id = row.wallet_id ∧ w.driver_id = c.driver_id
  audit : s.topupAudit row.wallet_id row = some (topupLog row.wallet_id row c.request)

theorem Origin.grows {row : WalletLedger} (h : Origin s row c) (hg : Grows s s') : Origin s' row c := by
  obtain ⟨w, hw, hid, hdriver⟩ := h.wallet
  obtain ⟨w', hw', hid', hd'⟩ := hg.wallets w hw
  exact ⟨h.key, h.actor, h.amount, ⟨w', hw', hid'.trans hid, hd'.trans hdriver⟩, topupAudit_grows hg h.audit⟩

/-! ## 4. Requests -/

theorem mode_generated {request : ManualTopupRequest} (h : request.request_id ≠ none) :
    request.receipt_code = none ∧ request.payment_received = some true := by
  have hmode := request.mode_ok
  unfold receiptMode at hmode
  cases hid : request.request_id with
  | none => exact absurd hid h
  | some id =>
    cases hcode : request.receipt_code with
    | some code => simp [hcode, hid] at hmode
    | none => simpa [hcode, hid] using hmode

theorem mode_supplied {request : ManualTopupRequest} (h : request.request_id = none) :
    ∃ code, request.receipt_code = some code ∧ request.code = code ∧
      (code.toList.map Char.toUpper).take 8 ≠ "PT-AUTO-".toList := by
  have hmode := request.mode_ok
  unfold receiptMode at hmode
  cases hcode : request.receipt_code with
  | none => simp [hcode, h] at hmode
  | some code =>
    refine ⟨code, rfl, by simp [ManualTopupRequest.code, h, hcode], ?_⟩
    simp only [hcode, h, Bool.and_eq_true, bne_iff_ne] at hmode
    exact hmode.1.1.1

theorem request_ext {p q : ManualTopupRequest} (h1 : p.amount_vnd = q.amount_vnd) (h2 : p.reason = q.reason)
    (h3 : p.receipt_code = q.receipt_code) (h4 : p.request_id = q.request_id)
    (h5 : p.payment_received = q.payment_received) (h6 : p.external_reference = q.external_reference) : p = q := by
  cases p
  cases q
  simp only at h1 h2 h3 h4 h5 h6
  subst h1 h2 h3 h4 h5 h6
  rfl

/-- Distinct requests have distinct generated receipts. -/
theorem request_id_inj {p q : ManualTopupRequest} (hp : p.request_id ≠ none) (hq : q.request_id ≠ none)
    (h : Text.strip p.code = Text.strip q.code) : p.request_id = q.request_id := by
  rw [strip_code_of_generated hp, strip_code_of_generated hq] at h
  obtain ⟨i, hi⟩ := Option.ne_none_iff_exists'.mp hp
  obtain ⟨j, hj⟩ := Option.ne_none_iff_exists'.mp hq
  simp only [ManualTopupRequest.code, hi, hj] at h
  rw [hi, hj, Uuid.hex_inj ((String.append_right_inj _).mp h)]

/-- A supplied receipt that stays as it is is no generated one. -/
theorem reference_ne_generated {t : WalletDb × TopupCall} (hclean : ¬ Aliased t)
    (h : t.2.request.request_id = none) (q : Uuid) : t.2.reference ≠ generated q := by
  obtain ⟨code, hcode, heq, hprefix⟩ := mode_supplied h
  intro hq
  unfold TopupCall.reference at hq
  rw [heq] at hq
  by_cases hstrip : Text.strip code = code
  · rw [hstrip] at hq
    refine hprefix ?_
    rw [hq, generated, String.toList_append, List.map_append, List.take_left' (by decide)]
    decide
  · exact hclean ⟨code, hcode, hstrip, .inl ⟨q, hq⟩⟩

/-- A call that would reuse a row under a changed reference is an aliased one. -/
theorem not_aliased {w : Wallet} {row : WalletLedger} (hclean : ¬ Aliased (s, c))
    (hw : s.wallets.find? (·.driver_id = c.driver_id) = some w) (mem : row ∈ s.wallet_ledger)
    (key : row.key = (.manual_topup, c.reference)) (wallet : row.wallet_id = w.id)
    (amount : row.amount_vnd = c.request.amount_vnd) : c.reference = c.request.code := by
  by_contra hne
  by_cases hgen : c.request.request_id = none
  · obtain ⟨code, hcode, heq, -⟩ := mode_supplied hgen
    obtain ⟨hwmem, hdriver⟩ := find?_driver hw
    unfold TopupCall.reference at key hne
    rw [heq] at key hne
    exact hclean ⟨code, hcode, hne, .inr ⟨row, mem, key, amount, w, hwmem, wallet.symm, hdriver⟩⟩
  · exact hne (strip_code_of_generated hgen)

/-- A recorded call is answered again as before. -/
theorem run_repeated {r : ManualTopupResponse} (hs : Ok s) (h : Recorded max_vnd s c r)
    (hgen : c.request.request_id ≠ none) (hsame : d.Repeats c) : d.run max_vnd s = (.ok r, s) := by
  obtain ⟨w, hw, hdriver, row, hrow, hkey, htopup, hr⟩ := h.row
  obtain ⟨hd, ha, hq⟩ := hsame
  have hstrip := strip_code_of_generated hgen
  have hrefused := nap_tay_refused hs hrow d.hidden d.hidden' max_vnd d.driver_id d.actor_id d.request
    (by rw [hq, hstrip]; exact hkey)
  rcases wp_run (wp_and (run_spec hs) hrefused) with
    ⟨r', s', hrun, ⟨-, -, v, hv, row', a, hactor, hanswer, htopped⟩, -⟩ | ⟨e, s', -, -, hno⟩
  · have hcode : d.request.code = c.request.code := by rw [hq]
    have hreference : d.reference = c.request.code := by rw [TopupCall.reference, hcode, hstrip]
    cases htopped with
    | repeated mem key generated same =>
      obtain rfl := hs.key_inj mem hrow (key.trans (by rw [hcode, hkey]))
      obtain rfl : a = c.actor_id := Option.some.inj (hactor.symm.trans htopup.2.1)
      have hrr : r' = r := by rw [hanswer, hr, hd, hq]
      rw [← hrr]
      exact hrun
    | credited post logs users key => exact absurd (hkey.trans (by rw [key, hreference])) (post.fresh row hrow)
    | aliased kept mem key wallet amount changed => exact absurd (hreference.trans hcode.symm) changed
  · exfalso
    have hwallet : row.wallet_id = w.id := htopup.1
    rcases hno with h1 | h2 | h3 | h4 | h5
    · rw [ha, h.admin] at h1
      cases h1
    · exact absurd (hq ▸ h2) (not_lt.mpr h.limit)
    · exact h3 w hw (hdriver.trans hd.symm) hwallet.symm
    · exact hgen (hq ▸ h4)
    · refine h5 ?_
      rw [ha, hq, hwallet]
      exact htopup

/-! ## 5. Runs -/

/-- What holds after the calls `h`. -/
structure Inv (max_vnd : ℤ) (s : WalletDb) (h : List (WalletDb × TopupCall)) : Prop where
  ok : Ok s
  audited : Audited s
  origin : ∀ row ∈ s.wallet_ledger, row.entry_type = .manual_topup →
    ∃ t ∈ h, (∃ r, Returns max_vnd t r) ∧ Origin s row t.2
  recorded : ∀ t ∈ h, t.2.request.request_id ≠ none → ∀ r, Returns max_vnd t r → Recorded max_vnd s t.2 r

theorem audited_kept (h : Audited s) (hk : Kept s s') : Audited s' := by
  obtain ⟨n, rfl⟩ := hk
  exact ⟨h.one, h.credit⟩

/-- A posting with its audit row. -/
theorem audited_credited {w : Wallet} {row : WalletLedger} {t : WalletDb} (hs : Ok s) (h : Audited s)
    (post : Post row s t) (logs : t.audit_logs = s.audit_logs) (key : row.key = (.manual_topup, c.reference)) :
    Audited { t with audit_logs := t.audit_logs ++ [topupLog w.id row c.request] } ∧
      ∀ a ∈ s.audit_logs, isTopupLog a = true → a.data.ledger_id ≠ some row.id := by
  have hfresh : ∀ r ∈ s.wallet_ledger, r.id ≠ row.id := fun r hr => by
    have := hs.seq r hr
    have := post.id
    omega
  have hold : ∀ a ∈ s.audit_logs, isTopupLog a = true → a.data.ledger_id ≠ some row.id := by
    intro a ha hlog heq
    obtain ⟨r, hr, -, hid⟩ := h.credit a ha hlog
    exact hfresh r hr (Option.some.inj (hid.symm.trans heq))
  refine ⟨⟨fun r hr htype => ?_, fun a ha hlog => ?_⟩, hold⟩
  · dsimp only at hr ⊢
    rw [logs, List.countP_append]
    rw [post.ledger] at hr
    rcases List.mem_append.mp hr with hr | hr
    · have hnew : [topupLog w.id row c.request].countP
          (fun a => isTopupLog a ∧ a.data.ledger_id = some r.id) = 0 := by
        simp [topupLog, (hfresh r hr).symm]
      rw [hnew, add_zero]
      exact h.one r hr htype
    · rw [List.mem_singleton.mp hr]
      have hzero : s.audit_logs.countP (fun a => isTopupLog a ∧ a.data.ledger_id = some row.id) = 0 := by
        rw [List.countP_eq_zero]
        intro a ha hcount
        obtain ⟨hlog, hid⟩ := of_decide_eq_true hcount
        exact hold a ha hlog hid
      rw [hzero]
      simp [topupLog, isTopupLog]
  · dsimp only at ha ⊢
    rw [logs] at ha
    rw [post.ledger]
    rcases List.mem_append.mp ha with ha | ha
    · obtain ⟨r, hr, htype, hid⟩ := h.credit a ha hlog
      exact ⟨r, List.mem_append_left _ hr, htype, hid⟩
    · rw [List.mem_singleton.mp ha]
      exact ⟨row, List.mem_append_right _ (List.mem_singleton_self row), congrArg Prod.fst key, rfl⟩

/-- The audit row of a posting is the one that is found for it. -/
theorem topupAudit_credited {row : WalletLedger} {t : WalletDb} {log : AuditLog}
    (hold : ∀ a ∈ s.audit_logs, isTopupLog a = true → a.data.ledger_id ≠ some row.id)
    (logs : t.audit_logs = s.audit_logs) {wallet_id : Uuid} (hlog : log = topupLog wallet_id row c.request) :
    WalletDb.topupAudit { t with audit_logs := t.audit_logs ++ [log] } wallet_id row = some log := by
  have hnone : s.audit_logs.find? (fun a => a.action = "wallet.manual_topup" ∧ a.object_id = wallet_id.text ∧
      a.data.ledger_id = some row.id) = none := by
    rw [List.find?_eq_none]
    intro a ha hfound
    obtain ⟨haction, -, hid⟩ := of_decide_eq_true hfound
    exact hold a ha (decide_eq_true haction) hid
  unfold WalletDb.topupAudit
  dsimp only
  rw [logs, List.find?_append, hnone, Option.none_or, hlog]
  simp [topupLog]

theorem Inv.step {h : List (WalletDb × TopupCall)} (hinv : Inv max_vnd s h) (hclean : ¬ Aliased (s, c)) :
    Inv max_vnd (After max_vnd (s, c)) (h ++ [(s, c)]) := by
  have hspec := wp_run (wp_and (nap_tay_spec c.hidden c.hidden' max_vnd c.driver_id c.actor_id c.request hinv.ok)
    (@run_spec s c max_vnd hinv.ok))
  rcases hspec with ⟨r, s', hrun, ⟨heffect, -⟩, hadmin, hlimit, w, hw, row, a, hactor, hr, htopped⟩ |
    ⟨e, s', hrun, hquiet, hkept⟩
  · have hafter : After max_vnd (s, c) = s' := congrArg Prod.snd hrun
    have hreturns : ∀ r', Returns max_vnd (s, c) r' → r' = r := fun r' hr' => by
      have hfst : (c.run max_vnd s).1 = .ok r := congrArg Prod.fst hrun
      exact (Except.ok.inj (hfst.symm.trans hr')).symm
    obtain ⟨hwmem, hdriver⟩ := find?_driver hw
    have hgrows := htopped.grows
    rw [hafter]
    have hok := heffect.ok hinv.ok
    -- what was on record stays so, and the call joins it
    have hold : ∀ t ∈ h, t.2.request.request_id ≠ none → ∀ r, Returns max_vnd t r → Recorded max_vnd s' t.2 r :=
      fun t ht hgen r hr => (hinv.recorded t ht hgen r hr).grows hgrows
    have hjoin : (c.request.request_id ≠ none → Recorded max_vnd s c r ∨ Recorded max_vnd s' c r) →
        ∀ t ∈ h ++ [(s, c)], t.2.request.request_id ≠ none → ∀ r, Returns max_vnd t r → Recorded max_vnd s' t.2 r := by
      intro hnew t ht hgen r' hr'
      rcases List.mem_append.mp ht with ht | ht
      · exact hold t ht hgen r' hr'
      · obtain rfl := List.mem_singleton.mp ht
        rw [hreturns r' hr']
        exact (hnew hgen).elim (fun hrec => hrec.grows hgrows) id
    have horigin : ∀ row ∈ s.wallet_ledger, row.entry_type = .manual_topup →
        ∃ t ∈ h ++ [(s, c)], (∃ r, Returns max_vnd t r) ∧ Origin s' row t.2 := fun row hrow htype => by
      obtain ⟨t, ht, hret, ho⟩ := hinv.origin row hrow htype
      exact ⟨t, List.mem_append_left _ ht, hret, ho.grows hgrows⟩
    cases htopped with
    | repeated mem key generated same =>
      obtain rfl : a = c.actor_id := Option.some.inj (hactor.symm.trans same.2.1)
      have hrec : Recorded max_vnd s c r := ⟨hadmin, hlimit, w, hwmem, hdriver, row, mem, key, same, hr⟩
      exact ⟨hok, hinv.audited, horigin, hjoin fun _ => .inl hrec⟩
    | @credited t post logs users key wallet amount actor =>
      obtain ⟨haudited, hfresh⟩ := audited_credited (w := w) hinv.ok hinv.audited post logs key
      obtain rfl : a = c.actor_id := Option.some.inj (hactor.symm.trans actor)
      have hfound : WalletDb.topupAudit { t with audit_logs := t.audit_logs ++ [topupLog w.id row c.request] } w.id row =
          some (topupLog w.id row c.request) := topupAudit_credited hfresh logs rfl
      have hmem : row ∈ t.wallet_ledger := by
        rw [post.ledger]
        exact List.mem_append_right _ (List.mem_singleton_self row)
      obtain ⟨w', hw', hid, hd'⟩ := hgrows.wallets w hwmem
      refine ⟨hok, haudited, fun r hr' htype => ?_, hjoin fun hgen => .inr ?_⟩
      · dsimp only at hr'
        rw [post.ledger] at hr'
        rcases List.mem_append.mp hr' with hr' | hr'
        · exact horigin r hr' htype
        · rw [List.mem_singleton.mp hr']
          refine ⟨(s, c), List.mem_append_right _ (List.mem_singleton_self _), ⟨_, congrArg Prod.fst hrun⟩, key, actor,
            amount, ⟨w', hw', hid.trans wallet.symm, hd'.trans hdriver⟩, ?_⟩
          rw [wallet]
          exact hfound
      · obtain ⟨-, hpayment⟩ := mode_generated hgen
        have hstrip : c.reference = c.request.code := strip_code_of_generated hgen
        obtain ⟨id, hid'⟩ := Option.ne_none_iff_exists'.mp hgen
        refine ⟨?_, hlimit, w', hw', hd'.trans hdriver, row, hmem, key.trans (by rw [hstrip]), ?_, hr⟩
        · unfold WalletDb.isAdmin
          rw [hgrows.users]
          exact hadmin
        · rw [hid]
          refine ⟨wallet, actor, amount, _, hfound, rfl, ?_, ?_, rfl⟩ <;> simp [topupLog, hid']
    | aliased kept mem key wallet amount changed =>
      exact absurd (not_aliased hclean hw mem key wallet amount) changed
  · have hafter : After max_vnd (s, c) = s' := congrArg Prod.snd hrun
    have hgrows := hkept.grows
    have hledger : s'.wallet_ledger = s.wallet_ledger := hquiet.ledger
    rw [hafter]
    refine ⟨hquiet.ok hinv.ok, audited_kept hinv.audited hkept, fun row hrow htype => ?_, fun t ht hgen r hr => ?_⟩
    · obtain ⟨t, ht, hret, ho⟩ := hinv.origin row (hledger ▸ hrow) htype
      exact ⟨t, List.mem_append_left _ ht, hret, ho.grows hgrows⟩
    · rcases List.mem_append.mp ht with ht | ht
      · exact (hinv.recorded t ht hgen r hr).grows hgrows
      · obtain rfl := List.mem_singleton.mp ht
        have hfst : (c.run max_vnd s).1 = .error e := congrArg Prod.fst hrun
        have hret : (c.run max_vnd s).1 = .ok r := hr
        rw [hfst] at hret
        cases hret

/-- The invariant holds before each call of a run. -/
theorem Inv.trace : ∀ {calls : List TopupCall} {s : WalletDb} {h l₁ l₂ : List (WalletDb × TopupCall)}
    {u : WalletDb × TopupCall}, Inv max_vnd s h → (∀ t ∈ topupTrace max_vnd s calls, ¬ Aliased t) →
    topupTrace max_vnd s calls = l₁ ++ u :: l₂ → Inv max_vnd u.1 (h ++ l₁)
  | [], s, h, l₁, l₂, u, _, _, heq => by
    have := congrArg List.length heq
    simp [topupTrace] at this
  | c :: calls, s, h, l₁, l₂, u, hinv, hclean, heq => by
    cases l₁ with
    | nil =>
      rw [topupTrace, List.nil_append, List.cons.injEq] at heq
      rw [List.append_nil, ← heq.1]
      exact hinv
    | cons t l₁ =>
      rw [topupTrace, List.cons_append, List.cons.injEq] at heq
      have hnext := hinv.step (hclean (s, c) List.mem_cons_self)
      have htail := Inv.trace hnext (fun t ht => hclean t (List.mem_cons_of_mem _ ht)) heq.2
      rw [← heq.1, ← List.singleton_append, ← List.append_assoc]
      exact htail

theorem Inv.of_noTopups (h : NoTopups s) : Inv max_vnd s [] := by
  obtain ⟨hok, hrows, hlogs⟩ := h
  refine ⟨hok, ⟨fun row hrow htype => absurd htype (hrows row hrow), fun a ha hlog => ?_⟩,
    fun row hrow htype => absurd htype (hrows row hrow), fun t ht => (by cases ht)⟩
  rw [hlogs a ha] at hlog
  cases hlog

/-- A call that returns on a posted reference repeats the call that posted it. -/
theorem repeats_of_posted {h : List (WalletDb × TopupCall)} (hinv : Inv max_vnd s h) (hclean : ¬ Aliased (s, c))
    {row : WalletLedger} (hrow : row ∈ s.wallet_ledger) (hkey : row.key = (.manual_topup, c.reference))
    {r : ManualTopupResponse} (hr : Returns max_vnd (s, c) r) :
    c.request.request_id ≠ none ∧ ∃ t ∈ h, (∃ r, Returns max_vnd t r) ∧ c.Repeats t.2 := by
  rcases wp_run (@run_spec s c max_vnd hinv.ok) with ⟨r', s', hrun, -, -, w, hw, row', a, hactor, -, htopped⟩ |
    ⟨e, s', hrun, -⟩
  · cases htopped with
    | repeated mem key generated same =>
      refine ⟨generated, ?_⟩
      obtain ⟨t, ht, hret, ho⟩ := hinv.origin row' mem (congrArg Prod.fst key)
      obtain ⟨hwallet, hactor', hamount, audit, haudit, hid, hexternal, -, hreason⟩ := same
      have hlog : audit = topupLog w.id row' t.2.request := by
        have hfound := ho.audit
        rw [hwallet] at hfound
        exact Option.some.inj (haudit.symm.trans hfound)
      rw [hlog] at hid hexternal hreason
      have hsome : t.2.request.request_id = c.request.request_id :=
        Option.map_injective (fun u v => Uuid.ext) hid
      have hgen' : t.2.request.request_id ≠ none := hsome ▸ generated
      obtain ⟨v, hv, hvid, hvdriver⟩ := ho.wallet
      obtain ⟨hwmem, hdriver⟩ := find?_driver hw
      have hvw : v = w := hinv.ok.wallet_inj hv hwmem (.inl (hvid.trans hwallet))
      refine ⟨t, ht, hret, ?_, Option.some.inj (hactor'.symm.trans ho.actor), request_ext ?_ ?_ ?_ hsome.symm ?_ ?_⟩
      · rw [← hvdriver, hvw, hdriver]
      · exact hamount.symm.trans ho.amount
      · exact hreason.symm
      · rw [(mode_generated generated).1, (mode_generated hgen').1]
      · rw [(mode_generated generated).2, (mode_generated hgen').2]
      · obtain ⟨id, hid'⟩ := Option.ne_none_iff_exists'.mp hgen'
        simpa [topupLog, hid'] using hexternal.symm
    | credited post logs users key => exact absurd (hkey.trans key.symm) (post.fresh row hrow)
    | aliased kept mem key wallet amount changed =>
      exact absurd (not_aliased hclean hw mem key wallet amount) changed
  · have hfst : (c.run max_vnd s).1 = .error e := congrArg Prod.fst hrun
    have hret : (c.run max_vnd s).1 = .ok r := hr
    rw [hfst] at hret
    cases hret

/-- A first call that returns adds a row and its audit row. -/
theorem first_credited (hs : Ok s) {r : ManualTopupResponse} (hr : Returns max_vnd (s, c) r)
    (hfirst : ∀ row ∈ s.wallet_ledger, row.key ≠ (.manual_topup, c.reference)) :
    ∃ row log, row.key = (.manual_topup, c.reference) ∧ row.amount_vnd = c.request.amount_vnd ∧
      r.ledger_id = row.id ∧ isTopupLog log = true ∧ log.data.ledger_id = some row.id ∧
      (After max_vnd (s, c)).wallet_ledger = s.wallet_ledger ++ [row] ∧
      (After max_vnd (s, c)).audit_logs = s.audit_logs ++ [log] := by
  rcases wp_run (@run_spec s c max_vnd hs) with ⟨r', s', hrun, -, -, w, hw, row', a, -, hanswer, htopped⟩ |
    ⟨e, s', hrun, -⟩
  · have hfst : (c.run max_vnd s).1 = .ok r' := congrArg Prod.fst hrun
    have hafter : After max_vnd (s, c) = s' := congrArg Prod.snd hrun
    have hrr : r = r' := Except.ok.inj (hr.symm.trans hfst)
    rw [hafter, hrr, hanswer]
    cases htopped with
    | repeated mem key generated same =>
      refine absurd (key.trans ?_) (hfirst row' mem)
      rw [TopupCall.reference, strip_code_of_generated generated]
    | credited post logs users key wallet amount actor =>
      exact ⟨row', _, key, amount, rfl, rfl, rfl, post.ledger, by rw [logs]⟩
    | aliased kept mem key => exact absurd key (hfirst row' mem)
  · have hfst : (c.run max_vnd s).1 = .error e := congrArg Prod.fst hrun
    have hret : (c.run max_vnd s).1 = .ok r := hr
    rw [hfst] at hret
    cases hret

end ReceiptsLemmas

open ReceiptsLemmas

/-- In a run none of whose calls carries an aliased receipt, manual top-ups are credited once with one audit
row. -/
theorem topups_credited_once (max_vnd : ℤ) {s : WalletDb} (start : NoTopups s) (calls : List TopupCall)
    (clean : ∀ t ∈ topupTrace max_vnd s calls, ¬ Aliased t) : CreditedOnce max_vnd (topupTrace max_vnd s calls) := by
  have hinv : ∀ l₁ u l₂, topupTrace max_vnd s calls = l₁ ++ u :: l₂ → Inv max_vnd u.1 l₁ :=
    fun l₁ u l₂ heq => (Inv.of_noTopups start).trace clean heq
  have hmem : ∀ t ∈ topupTrace max_vnd s calls, ∃ h, Inv max_vnd t.1 h := fun t ht => by
    obtain ⟨l₁, l₂, heq⟩ := List.append_of_mem ht
    exact ⟨l₁, hinv l₁ t l₂ heq⟩
  refine ⟨fun t ht ref => ?_, fun t ht hsupplied q => reference_ne_generated (clean t ht) hsupplied q,
    fun t _ u _ ht hu heq => request_id_inj ht hu heq, fun t ht => ?_, fun t ht r hr hfirst => ?_, ?_, ?_, fun t ht e he => ?_⟩
  · obtain ⟨h, hi⟩ := hmem t ht
    have hok := (hi.step (clean t ht)).ok
    by_cases hposted : ∃ row ∈ (After max_vnd t).wallet_ledger, row.key = (.manual_topup, ref)
    · obtain ⟨row, hrow, hkey⟩ := hposted
      rw [List.countP_eq_length_filter, ← hkey, hok.filter_key hrow]
      exact le_rfl
    · have hzero : (After max_vnd t).wallet_ledger.countP (·.key = (.manual_topup, ref)) = 0 := by
        rw [List.countP_eq_zero]
        exact fun row hrow hkey => hposted ⟨row, hrow, of_decide_eq_true hkey⟩
      rw [hzero]
      exact Nat.zero_le _
  · obtain ⟨h, hi⟩ := hmem t ht
    exact (hi.step (clean t ht)).audited
  · obtain ⟨h, hi⟩ := hmem t ht
    exact first_credited hi.ok hr hfirst
  · intro l₁ t l₂ u l₃ heq hrepeats hgen r hr
    have hu : topupTrace max_vnd s calls = (l₁ ++ t :: l₂) ++ u :: l₃ := by
      rw [heq, List.append_assoc, List.cons_append]
    have hi := hinv _ u l₃ hu
    have hrec := hi.recorded t (by simp) hgen r hr
    have hrun := run_repeated hi.ok hrec hgen hrepeats
    exact ⟨congrArg Prod.fst hrun, congrArg Prod.snd hrun⟩
  · rintro l₁ u l₂ heq ⟨row, hrow, hkey⟩ r hr
    have hu : u ∈ topupTrace max_vnd s calls := by
      rw [heq]
      simp
    exact repeats_of_posted (hinv l₁ u l₂ heq) (clean u hu) hrow hkey hr
  · obtain ⟨h, hi⟩ := hmem t ht
    rcases wp_run (@run_spec t.1 t.2 max_vnd hi.ok) with ⟨r, s', hrun, -⟩ | ⟨e', s', hrun, n, hn⟩
    · have hfst : (t.2.run max_vnd t.1).1 = .ok r := congrArg Prod.fst hrun
      rw [hfst] at he
      cases he
    · exact ⟨n, (congrArg Prod.snd hrun).trans hn⟩

/-! ## 6. A receipt behind a separator -/

namespace Separator

def admin : Uuid := .sample 1
def driver : Uuid := .sample 2
def purse : Uuid := .sample 3
def request_id : Uuid := .sample 4

/-- An administrator and a driver with an empty wallet. -/
def database : WalletDb where
  users := [⟨admin, true, [.admin]⟩, ⟨driver, true, [.driver]⟩]
  wallets := [⟨purse, driver, 0, .active⟩]
  wallet_ledger := []
  ledger_seq := 1
  wallet_audits := []
  audit_logs := []

theorem database_noTopups : NoTopups database :=
  ⟨Ok.of_empty rfl (List.pairwise_singleton _ _) (by simp [database]), fun row hrow => (by cases hrow),
    fun a ha => (by cases ha)⟩

/-- A credit of 50 000 on a generated receipt. -/
def first : TopupCall where
  hidden := []
  hidden' := []
  driver_id := driver
  actor_id := admin
  request :=
    { amount_vnd := 50000, reason := some "cash", receipt_code := none, request_id := some request_id
      payment_received := some true, external_reference := none, amount_ok := by decide
      texts_ok := ⟨by simp only [stripped]; decide +kernel, fun _ h => (by cases h), fun _ h => (by cases h)⟩
      mode_ok := by decide }

/-- The same amount on a supplied receipt: the generated one behind the separator U+001C. -/
def second : TopupCall where
  hidden := []
  hidden' := []
  driver_id := driver
  actor_id := admin
  request :=
    { amount_vnd := 50000, reason := some "cash", receipt_code := some ("\u001c" ++ generated request_id)
      request_id := none, payment_received := none, external_reference := none, amount_ok := by decide
      texts_ok := ⟨by simp only [stripped]; decide +kernel, by simp only [stripped]; decide +kernel,
        fun _ h => (by cases h)⟩
      mode_ok := by decide +kernel }

/-- The second call and the state before it. -/
def again : WalletDb × TopupCall := ((first.run 1000000 database).2, second)

end Separator

open Separator in
/-- The same generated request twice is one credit. -/
theorem topups_credited_once_repeated : CreditedOnce 1000000 (topupTrace 1000000 database [first, first]) :=
  topups_credited_once 1000000 database_noTopups [first, first] fun t ht haliased => by
    obtain ⟨code, hcode, -⟩ := haliased
    have hfirst : t.2 = first := by
      simp only [topupTrace, List.mem_cons, List.not_mem_nil, or_false] at ht
      rcases ht with rfl | rfl <;> rfl
    rw [hfirst] at hcode
    cases hcode

open Separator in
/-- The supplied receipt is found under the generated reference: the credit is reported again and has a second
audit row. -/
theorem topups_audited_twice : ¬ ∀ (max_vnd : ℤ) (s : WalletDb) (calls : List TopupCall), NoTopups s →
    CreditedOnce max_vnd (topupTrace max_vnd s calls) := by
  intro hall
  have hrun := hall 1000000 database [first, second] database_noTopups
  have hmem : again ∈ topupTrace 1000000 database [first, second] := List.mem_cons_of_mem _ List.mem_cons_self
  have hrow : ∃ row ∈ (After 1000000 again).wallet_ledger, row.entry_type = .manual_topup ∧
      (After 1000000 again).audit_logs.countP (fun a => isTopupLog a ∧ a.data.ledger_id = some row.id) = 2 := by
    decide +kernel
  obtain ⟨row, hmemrow, htype, htwo⟩ := hrow
  have hone := (hrun.audited again hmem).one row hmemrow htype
  rw [htwo] at hone
  cases hone

end Csms.Wallets
