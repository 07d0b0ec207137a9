import Csms.Wallet.Postings

/-!
# Administrative credits and adjustments (`wallet/manual_topup.py`, `wallet/administration.py`)

Results:
1. `Effect.ok`, `Effect.ledger`: a call that posts at most one row keeps the ledger consistent.
2. `nap_tay_spec`, `dieu_chinh_vi_spec`: at most one posting, under the call's own key.
-/

namespace Csms.Wallets

open Tx PostingsLemmas

/-! ## 1. `nap_tay` -/

/-- `receipt_mode`: a supplied receipt, or a request for a generated one, never both. -/
def receiptMode (receipt_code : Option String) (request_id : Option Uuid)
    (payment_received : Option Bool) (external_reference : Option String) : Bool :=
  match receipt_code with
  | some code => (code.toList.map Char.toUpper).take 8 != "PT-AUTO-".toList &&
      request_id.isNone && payment_received.isNone && external_reference.isNone
  | none => request_id.isSome && payment_received == some true

/-- A text of the request: without whitespace at its ends, not empty, of bounded length. -/
def stripped (maximum : ℕ) (text : Option String) : Prop :=
  ∀ t ∈ text, Text.trim t = t ∧ t ≠ "" ∧ t.length ≤ maximum

structure ManualTopupRequest where
  amount_vnd : ℤ
  reason : Option String
  receipt_code : Option String
  request_id : Option Uuid
  payment_received : Option Bool
  external_reference : Option String
  amount_ok : 0 < amount_vnd ∧ amount_vnd ≤ MAX_VND
  texts_ok : stripped 500 reason ∧ stripped 128 receipt_code ∧ stripped 128 external_reference
  mode_ok : receiptMode receipt_code request_id payment_received external_reference = true

structure ManualTopupResponse where
  ledger_id : ℕ
  wallet_id : Uuid
  driver_id : Uuid
  amount_vnd : ℤ
  balance_after_vnd : ℤ
  receipt_code : String
  actor_id : Uuid
  request_id : Option Uuid
  payment_received : Option Bool
  external_reference : Option String
  deriving DecidableEq, Repr

/-- The receipt of a request, generated from its id when it has one. -/
def ManualTopupRequest.code (request : ManualTopupRequest) : String :=
  match request.request_id with
  | some id => "PT-AUTO-" ++ id.hex
  | none => request.receipt_code.getD ""

def _response (entry : WalletLedger) (driver_id : Uuid) (request : ManualTopupRequest) :
    WalletTx ManualTopupResponse := do
  let actor_id ← orRaise entry.actor_id .assertionError
  return { ledger_id := entry.id, wallet_id := entry.wallet_id, driver_id
           amount_vnd := entry.amount_vnd, balance_after_vnd := entry.balance_after_vnd
           receipt_code := entry.reference_id, actor_id, request_id := request.request_id
           payment_received := request.payment_received
           external_reference := request.external_reference }

/-- The audit row of a manual top-up. -/
def topupLog (wallet_id : Uuid) (entry : WalletLedger) (request : ManualTopupRequest) : AuditLog where
  action := "wallet.manual_topup"
  object_type := "wallet"
  object_id := wallet_id.text
  data :=
    { ledger_id := some entry.id, reason := request.reason
      request_id := request.request_id.map (·.text)
      payment_received := request.request_id.map fun _ => true
      external_reference := request.request_id.bind fun _ => request.external_reference }

/-- The evidence of the posting a request repeats. -/
def WalletDb.topupAudit (s : WalletDb) (wallet_id : Uuid) (entry : WalletLedger) : Option AuditLog :=
  s.audit_logs.find? fun a => a.action = "wallet.manual_topup" ∧ a.object_id = wallet_id.text ∧
    a.data.ledger_id = some entry.id

/-- Whether a request repeats the posting `entry` of the wallet. -/
def WalletDb.sameTopup (s : WalletDb) (wallet_id actor_id : Uuid) (request : ManualTopupRequest)
    (entry : WalletLedger) : Prop :=
  entry.wallet_id = wallet_id ∧ entry.actor_id = some actor_id ∧
  entry.amount_vnd = request.amount_vnd ∧
  ∃ audit ∈ s.topupAudit wallet_id entry,
    audit.data.request_id = request.request_id.map (·.text) ∧
    audit.data.external_reference = request.external_reference ∧
    audit.data.payment_received = some true ∧ audit.data.reason = request.reason

instance (s : WalletDb) (wallet_id actor_id : Uuid) (request : ManualTopupRequest)
    (entry : WalletLedger) : Decidable (s.sameTopup wallet_id actor_id request entry) :=
  inferInstanceAs (Decidable (_ ∧ _))

/-- `nap_tay`; `max_vnd` is `settings.wallet_manual_topup_max_vnd`. -/
def nap_tay (hidden hidden' : List ℕ) (max_vnd : ℤ) (driver_id actor_id : Uuid)
    (request : ManualTopupRequest) : WalletTx ManualTopupResponse := do
  _require_admin (some actor_id)
  raiseIf (max_vnd < request.amount_vnd) (.walletAmount "Amount exceeds manual topup limit")
  let s ← read
  let wallet ← orRaise (s.wallets.find? (·.driver_id = driver_id))
    (.walletNotFound "Driver wallet does not exist")
  match s.lookup hidden wallet.id .manual_topup request.code with
  | some existing =>
    raiseIf (request.request_id = none) (.walletLedgerConflict "Receipt already used")
    raiseIf (¬ s.sameTopup wallet.id actor_id request existing)
      (.manualTopupRequestConflict "Generated receipt request conflicts with original")
    _response existing driver_id request
  | none =>
    raiseIf (request.reason = none) (.manualTopupReason "A reason of 1-500 characters is required")
    savepoint WalletDb.rollback do
      let entry ← ghi_so_cai hidden' wallet.id .manual_topup request.amount_vnd "manual_topup"
        request.code (some actor_id)
      ghi_nhat_ky (topupLog wallet.id entry request)
      _response entry driver_id request

/-! ## 2. `dieu_chinh_vi` -/

/-- Whether an audit belongs to another adjustment. -/
def otherAdjustment (wallet_id actor_id : Uuid) (amount_vnd : ℤ) (reason : String)
    (previous : WalletAudit) : Prop :=
  previous.wallet_id ≠ wallet_id ∨ previous.actor_id ≠ actor_id ∨
  previous.amount_vnd ≠ some amount_vnd ∨ previous.reason ≠ Text.strip reason ∨
  previous.action ≠ .adjustment_authorized

instance (wallet_id actor_id : Uuid) (amount_vnd : ℤ) (reason : String) (previous : WalletAudit) :
    Decidable (otherAdjustment wallet_id actor_id amount_vnd reason previous) :=
  inferInstanceAs (Decidable (_ ∨ _))

/-- `session.add(previous)` for an adjustment without an audit row. -/
def addAudit (previous : Option WalletAudit) (audit : WalletAudit) : WalletTx Unit :=
  match previous with
  | some _ => pure ()
  | none => write fun s => { s with wallet_audits := s.wallet_audits ++ [audit] }

/-- The nested transaction of `dieu_chinh_vi`. -/
def postAdjustment (hidden : List ℕ) (previous : Option WalletAudit) (audit : WalletAudit)
    (amount_vnd : ℤ) : WalletTx WalletLedger := do
  addAudit previous audit
  let entry ← ghi_so_cai hidden audit.wallet_id .adjustment amount_vnd "audit" audit.id.text
    (some audit.actor_id)
  ghi_nhat_ky
    { action := "wallet.adjusted", object_type := "wallet_audit", object_id := audit.id.text
      data := { ledger_id := some entry.id, reason := some audit.reason } }
  return entry

/-- `dieu_chinh_vi`. Of `wallet_issues` only the total of the ledger is used. -/
def dieu_chinh_vi (hidden hidden' : List ℕ) (wallet_id actor_id : Uuid) (amount_vnd : ℤ)
    (reason : String) (audit_id : Uuid) : WalletTx WalletLedger := do
  _require_admin (some actor_id)
  let _ ← _integer_vnd amount_vnd
  raiseIf (amount_vnd = 0) (.walletAmount "Adjustment must be nonzero")
  raiseIf (badReason reason) (.valueError "A reason of 1-500 characters is required")
  let wallet ← _lock_wallet wallet_id
  let s ← read
  let previous := s.wallet_audits.find? (·.id = audit_id)
  raiseIf (∃ p ∈ previous, otherAdjustment wallet_id actor_id amount_vnd reason p)
    (.walletAdjustmentAudit "Audit ID already belongs to a different adjustment")
  match s.lookup hidden wallet_id .adjustment audit_id.text with
  | some _ =>
    raiseIf (previous = none) (.walletAdjustmentAudit "Adjustment evidence is missing")
    ghi_so_cai hidden' wallet_id .adjustment amount_vnd "audit" audit_id.text (some actor_id)
  | none =>
    raiseIf (ledgerTotal s.wallet_ledger wallet_id ≠ wallet.balance_vnd)
      (.walletReconciliation ["balance_mismatch"])
    let after ← _integer_vnd (wallet.balance_vnd + amount_vnd)
    savepoint WalletDb.rollback (postAdjustment hidden' previous ⟨audit_id, wallet_id, actor_id,
      .adjustment_authorized, wallet.balance_vnd, after, some amount_vnd, Text.strip reason⟩ amount_vnd)

/-! ## 3. Their effect on the ledger -/

/-- At most one posting, under `key` and with the reference type `ref`. -/
def Effect (key : EntryType × String) (ref : String) (s s' : WalletDb) : Prop :=
  Quiet s s' ∨ ∃ row t t', row.key = key ∧ row.reference_type = ref ∧ Quiet s t ∧ Post row t t' ∧ Quiet t' s'

theorem Entered.effect {key : EntryType × String} {ref : String} {wallet_id : Uuid} {amount : ℤ}
    {row : WalletLedger} {s t s' : WalletDb} (hq : Quiet s t) (h : Entered key wallet_id amount row t s')
    (href : row ∉ t.wallet_ledger → row.reference_type = ref) : Effect key ref s s' := by
  rcases h.change with ⟨-, hq'⟩ | hp
  · exact .inl (hq.trans hq')
  · exact .inr ⟨row, t, s', h.key, href fun hmem => hp.fresh row hmem rfl, hq, hp, .refl _⟩

namespace Effect

variable {key : EntryType × String} {ref : String} {s s' : WalletDb}

theorem quiet {t : WalletDb} (h : Effect key ref s t) (hq : Quiet t s') : Effect key ref s s' := by
  rcases h with h | ⟨row, u, v, hk, hr, h1, h2, h3⟩
  · exact .inl (h.trans hq)
  · exact .inr ⟨row, u, v, hk, hr, h1, h2, h3.trans hq⟩

theorem ok (h : Effect key ref s s') (ho : Ok s) : Ok s' := by
  rcases h with h | ⟨row, t, t', -, -, h1, h2, h3⟩
  · exact h.ok ho
  · exact h3.ok (h2.ok (h1.ok ho))

/-- The ledger only grows. -/
theorem ledger (h : Effect key ref s s') : s.wallet_ledger <+: s'.wallet_ledger := by
  rcases h with h | ⟨row, t, t', -, -, h1, h2, h3⟩
  · rw [h.ledger]
  · rw [h3.ledger, h2.ledger, h1.ledger]
    exact List.prefix_append _ _

/-- A new row has the key and the reference type. -/
theorem mem (h : Effect key ref s s') {r : WalletLedger} (hr : r ∈ s'.wallet_ledger) :
    r ∈ s.wallet_ledger ∨ (r.key = key ∧ r.reference_type = ref) := by
  rcases h with h | ⟨row, t, t', hk, href, h1, h2, h3⟩
  · exact .inl (h.ledger ▸ hr)
  · rw [h3.ledger, h2.ledger, h1.ledger] at hr
    rcases List.mem_append.mp hr with hr | hr
    · exact .inl hr
    · exact .inr (List.mem_singleton.mp hr ▸ ⟨hk, href⟩)

theorem seq (h : Effect key ref s s') : s.ledger_seq ≤ s'.ledger_seq := by
  rcases h with h | ⟨row, t, t', -, -, h1, h2, h3⟩
  · exact h.seq
  · have h4 : t'.ledger_seq = t.ledger_seq + 1 := by rw [h2.state]; rfl
    have := h1.seq
    have := h3.seq
    omega

/-- Under a key that is posted already, nothing is posted. -/
theorem of_posted (h : Effect key ref s s') {r : WalletLedger} (hr : r ∈ s.wallet_ledger)
    (hk : r.key = key) : Quiet s s' := by
  rcases h with h | ⟨row, t, t', hrow, -, h1, h2, -⟩
  · exact h
  · exact absurd (hk.trans hrow.symm) (h2.fresh r (h1.ledger ▸ hr))

/-- No wallet goes away or changes hands. -/
theorem exists_wallet (h : Effect key ref s s') {w : Wallet} (hw : w ∈ s.wallets) :
    ∃ w' ∈ s'.wallets, w'.id = w.id ∧ w'.driver_id = w.driver_id := by
  rcases h with h | ⟨row, t, t', -, -, h1, h2, h3⟩
  · exact h.exists_wallet hw
  · obtain ⟨w1, hw1, hid1, hd1⟩ := h1.exists_wallet hw
    obtain ⟨w2, hw2, hid2, hd2⟩ := h2.exists_wallet hw1
    obtain ⟨w3, hw3, hid3, hd3⟩ := h3.exists_wallet hw2
    exact ⟨w3, hw3, (hid3.trans hid2).trans hid1, (hd3.trans hd2).trans hd1⟩

end Effect

namespace AdministrationLemmas

/-- A generated receipt has no whitespace to strip. -/
theorem strip_generated (id : Uuid) : Text.strip ("PT-AUTO-" ++ id.hex) = "PT-AUTO-" ++ id.hex := by
  refine Text.strip_of_plain fun c hc => ?_
  rw [String.toList_append, List.mem_append] at hc
  rcases hc with hc | hc
  · have hplain : ("PT-AUTO-".toList.all fun c => !Text.isSpace c) = true := by decide
    simpa using List.all_eq_true.mp hplain c hc
  · exact Uuid.isSpace_hex hc

theorem strip_code_of_generated {request : ManualTopupRequest} (h : request.request_id ≠ none) :
    Text.strip request.code = request.code := by
  unfold ManualTopupRequest.code
  cases hid : request.request_id with
  | some id => exact strip_generated id
  | none => exact absurd hid h

theorem _response_spec (entry : WalletLedger) (driver_id : Uuid) (request : ManualTopupRequest)
    (s : WalletDb) :
    wp (_response entry driver_id request)
      (fun r s' => s' = s ∧ r.ledger_id = entry.id ∧ r.wallet_id = entry.wallet_id ∧
        r.amount_vnd = entry.amount_vnd ∧ r.balance_after_vnd = entry.balance_after_vnd ∧
        r.receipt_code = entry.reference_id)
      (fun _ s' => s' = s) s := by
  simp only [_response, wp_bind, wp_orRaise, wp_pure]
  simp

/-- The ledger call of an adjustment, after quiet changes. -/
theorem adjust_spec (hidden : List ℕ) (wallet_id : Uuid) (amount_vnd : ℤ) (audit_id : Uuid)
    (actor_id : Option Uuid) {s t : WalletDb} (hq : Quiet s t) :
    wp (ghi_so_cai hidden wallet_id .adjustment amount_vnd "audit" audit_id.text actor_id)
      (fun row s' => Effect (.adjustment, audit_id.text) "audit" s s' ∧ row.key = (.adjustment, audit_id.text) ∧
        row ∈ s'.wallet_ledger)
      (fun _ s' => Quiet s s') t := by
  refine wp_mono (ghi_so_cai_spec _ _ _ _ _ _ _ t) ?_ fun _ _ h => hq.trans h.1
  rintro row s' ⟨hent, href, -⟩
  rw [Uuid.strip_text] at hent
  exact ⟨hent.effect hq href, hent.key, hent.mem⟩

theorem postAdjustment_spec (hidden : List ℕ) (previous : Option WalletAudit) (audit : WalletAudit)
    (amount_vnd : ℤ) (s : WalletDb) :
    wp (postAdjustment hidden previous audit amount_vnd)
      (fun row s' => Effect (.adjustment, audit.id.text) "audit" s s' ∧ row.key = (.adjustment, audit.id.text) ∧
        row ∈ s'.wallet_ledger)
      (fun _ s' => Quiet s s') s := by
  unfold postAdjustment
  rw [wp_bind]
  have hadd : wp (addAudit previous audit) (fun _ t => Quiet s t) (fun _ t => Quiet s t) s := by
    unfold addAudit
    split
    · exact .refl s
    · exact .single (.evidence _ _ le_rfl)
  refine wp_mono hadd (fun _ t hq => ?_) fun _ _ h => h
  rw [wp_bind]
  refine wp_mono (adjust_spec hidden audit.wallet_id amount_vnd audit.id (some audit.actor_id) hq) ?_
    fun _ _ h => h
  rintro row s' ⟨heff, hkey, hmem⟩
  exact ⟨heff.quiet (quiet_logs _ _), hkey, hmem⟩

end AdministrationLemmas

open AdministrationLemmas

/-- A manual top-up posts at most one row, under its receipt without the whitespace that is left. -/
theorem nap_tay_spec (hidden hidden' : List ℕ) (max_vnd : ℤ) (driver_id actor_id : Uuid)
    (request : ManualTopupRequest) {s : WalletDb} (hs : Ok s) :
    wp (nap_tay hidden hidden' max_vnd driver_id actor_id request)
      (fun r s' => Effect (.manual_topup, Text.strip request.code) "manual_topup" s s' ∧
        ∃ row ∈ s'.wallet_ledger, row.key = (.manual_topup, Text.strip request.code) ∧ r.ledger_id = row.id)
      (fun _ s' => Quiet s s') s := by
  unfold nap_tay
  simp only [_require_admin, wp_bind, wp_read, wp_raiseIf, wp_orRaise]
  refine ⟨fun _ => .refl s, fun _ => ⟨fun _ => .refl s, fun _ => ⟨fun _ => .refl s, fun w _ => ?_⟩⟩⟩
  split
  · next existing hex =>
    simp only [wp_bind, wp_raiseIf]
    refine ⟨fun _ => .refl s, fun _ => ⟨fun _ => .refl s, fun _ => ?_⟩⟩
    refine wp_mono (_response_spec existing driver_id request s) ?_ (fun _ _ h => h ▸ .refl s)
    rintro r s' ⟨rfl, hid, -⟩
    obtain ⟨hmem, hkey⟩ := mem_of_lookup hex
    have hcode : existing.reference_id = request.code := congrArg Prod.snd hkey
    have hstrip := hs.trimmed existing hmem
    rw [hcode] at hstrip
    refine ⟨.inl (.refl _), existing, hmem, ?_, hid⟩
    rw [hstrip]
    exact hkey
  · simp only [wp_bind, wp_raiseIf, wp_savepoint]
    refine ⟨fun _ => .refl s, fun _ => ?_⟩
    refine wp_mono (ghi_so_cai_spec hidden' w.id .manual_topup request.amount_vnd "manual_topup"
      request.code (some actor_id) s) ?_ fun _ s' h => quiet_rollback h.1.seq
    rintro row t ⟨hent, href, -⟩
    have heffect := hent.effect (.refl s) href
    rw [wp_bind, ghi_nhat_ky, wp_write]
    refine wp_mono (_response_spec row driver_id request _) ?_ ?_
    · rintro r s' ⟨rfl, hid, -⟩
      exact ⟨heffect.quiet (quiet_logs _ _), row, hent.mem, hent.key, hid⟩
    · rintro _ s' rfl
      exact quiet_rollback heffect.seq

/-- An adjustment posts at most one row, under its audit id. -/
theorem dieu_chinh_vi_spec (hidden hidden' : List ℕ) (wallet_id actor_id : Uuid) (amount_vnd : ℤ)
    (reason : String) (audit_id : Uuid) (s : WalletDb) :
    wp (dieu_chinh_vi hidden hidden' wallet_id actor_id amount_vnd reason audit_id)
      (fun row s' => Effect (.adjustment, audit_id.text) "audit" s s' ∧ row.key = (.adjustment, audit_id.text) ∧
        row ∈ s'.wallet_ledger)
      (fun _ s' => Quiet s s') s := by
  unfold dieu_chinh_vi
  simp only [_require_admin, _integer_vnd, _lock_wallet, wp_bind, wp_read, wp_raiseIf, wp_orRaise,
    wp_pure]
  refine ⟨fun _ => .refl s, fun _ => ⟨fun _ => .refl s, fun _ => ⟨fun _ => .refl s, fun _ =>
    ⟨fun _ => .refl s, fun _ => ⟨fun _ => .refl s, fun w _ => ⟨fun _ => .refl s, fun _ => ?_⟩⟩⟩⟩⟩⟩
  split
  · rw [wp_bind, wp_raiseIf]
    exact ⟨fun _ => .refl s, fun _ => adjust_spec _ _ _ _ _ (.refl s)⟩
  · simp only [wp_bind, wp_raiseIf, wp_pure, wp_savepoint]
    refine ⟨fun _ => .refl s, fun _ => ⟨fun _ => .refl s, fun _ => ?_⟩⟩
    exact wp_mono (postAdjustment_spec _ _ _ _ s) (fun _ _ h => h) fun _ _ h => quiet_rollback h.seq

end Csms.Wallets
