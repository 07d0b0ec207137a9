import Csms.Wallet.Administration

/-!
# Repeated calls

A call whose key is posted already posts nothing: it returns the row that is there, or raises. Each
`Refused` below is what such a call raises for. A manual top-up with a receipt of the caller's own may be
refused although nothing differs; the others are refused when the wallet, the amount or the authorisation differ,
when their arguments are malformed, or when the wallet is locked.

Results: `ghi_so_cai_replay`, `tru_vi_replay`, `nap_tay_replay`, `dieu_chinh_vi_replay`.
-/

namespace Csms.Wallets

open Tx PostingsLemmas AdministrationLemmas

/-- An administrator acts on the evidence of this very adjustment. -/
def Authorised (s : WalletDb) (wallet_id : Uuid) (amount_vnd : ℤ) (reference_type reference_id : String)
    (actor_id : Option Uuid) : Prop :=
  ∃ audit, (adjustmentAudit wallet_id amount_vnd reference_type reference_id actor_id s).1 = .ok audit

/-- The wallet is locked. -/
def WalletDb.Locked (s : WalletDb) (wallet_id : Uuid) : Prop :=
  ∃ w ∈ s.wallets, w.id = wallet_id ∧ w.status = .locked

/-- What `ghi_so_cai` refuses although, or because, `row` has its key. -/
def EntryRefused (s : WalletDb) (row : WalletLedger) (wallet_id : Uuid) (entry_type : EntryType)
    (amount_vnd : ℤ) (reference_type reference_id : String) (actor_id : Option Uuid) : Prop :=
  row.wallet_id ≠ wallet_id ∨ row.amount_vnd ≠ amount_vnd ∨
  badReference (Text.strip reference_type) (Text.strip reference_id) ∨
  (entry_type ≠ .adjustment ∧ s.Locked wallet_id) ∨
  (entry_type = .adjustment ∧ ¬ Authorised s wallet_id amount_vnd (Text.strip reference_type)
    (Text.strip reference_id) actor_id)

namespace ReplaysLemmas

variable {s : WalletDb} {row : WalletLedger}

/-- A call on the wallet of a row sees the row. -/
theorem lookup_posted (hs : Ok s) (hrow : row ∈ s.wallet_ledger) {entry_type : EntryType}
    {reference_id : String} (hkey : row.key = (entry_type, reference_id)) (hidden : List ℕ) :
    s.lookup hidden row.wallet_id entry_type reference_id = some row := by
  cases hl : s.lookup hidden row.wallet_id entry_type reference_id with
  | none =>
    have := List.find?_eq_none.mp hl row hrow
    simp [hkey] at this
  | some r =>
    obtain ⟨hr, hk⟩ := mem_of_lookup hl
    rw [hs.key_inj hr hrow (hk.trans hkey.symm)]

/-- A row entered under a posted key is the posted row. -/
theorem Entered.eq_posted {key : EntryType × String} {wallet_id : Uuid} {amount_vnd : ℤ} {r : WalletLedger}
    {s' : WalletDb} (hs : Ok s) (hrow : row ∈ s.wallet_ledger) (hkey : row.key = key)
    (h : Entered key wallet_id amount_vnd r s s') : r = row ∧ Quiet s s' := by
  rcases h.change with ⟨hr, hq⟩ | hp
  · exact ⟨hs.key_inj hr hrow (h.key.trans hkey.symm), hq⟩
  · exact absurd (hkey.trans h.key.symm) (hp.fresh row hrow)

theorem requiredAudit_refused (wallet_id : Uuid) (entry_type : EntryType) (amount_vnd : ℤ)
    (reference_type reference_id : String) (actor_id : Option Uuid) (s : WalletDb) :
    wp (requiredAudit wallet_id entry_type amount_vnd reference_type reference_id actor_id)
      (fun _ _ => True) (fun _ _ => entry_type = .adjustment ∧
        ¬ Authorised s wallet_id amount_vnd reference_type reference_id actor_id) s := by
  unfold requiredAudit
  split
  · next hadj =>
    rw [wp_map]
    unfold wp
    split
    · trivial
    · next e s' hx =>
      refine ⟨hadj, fun ⟨audit, haudit⟩ => ?_⟩
      rw [hx] at haudit
      cases haudit
  · trivial

theorem ghi_so_cai_refused (hs : Ok s) (hrow : row ∈ s.wallet_ledger) (hidden : List ℕ)
    (wallet_id : Uuid) (entry_type : EntryType) (amount_vnd : ℤ) (reference_type reference_id : String)
    (actor_id : Option Uuid) (hkey : row.key = (entry_type, Text.strip reference_id)) :
    wp (ghi_so_cai hidden wallet_id entry_type amount_vnd reference_type reference_id actor_id)
      (fun _ _ => True)
      (fun _ _ => EntryRefused s row wallet_id entry_type amount_vnd reference_type reference_id actor_id)
      s := by
  have hspec := ghi_so_cai_spec hidden wallet_id entry_type amount_vnd reference_type reference_id actor_id s
  by_cases hw : row.wallet_id = wallet_id
  · by_cases ha : row.amount_vnd = amount_vnd
    · subst hw ha
      obtain ⟨htype, href⟩ := Prod.mk.inj hkey
      obtain ⟨w, hw, hid⟩ := hs.owner row hrow
      unfold ghi_so_cai
      simp only [_integer_vnd, _lock_wallet, wp_bind, wp_raiseIf, wp_pure, wp_read, wp_orRaise]
      refine ⟨fun h => absurd (hs.amounts row hrow).1 h, fun _ => ⟨fun h => ?_, fun _ =>
        ⟨fun h => .inr (.inr (.inl h)), fun _ => ⟨fun h => ?_, fun v hv => ⟨fun h => ?_, fun _ =>
        ⟨fun h => ?_, fun _ => ?_⟩⟩⟩⟩⟩⟩
      · exact absurd (htype ▸ h) (hs.signs row hrow)
      · exact absurd hid (by simpa using List.find?_eq_none.mp h w hw)
      · rw [lookup_posted hs hrow hkey] at h
        simp at h
      · obtain ⟨hv, hvid⟩ := find?_id hv
        exact .inr (.inr (.inr (.inl ⟨h.2, v, hv, hvid, h.1⟩)))
      · refine wp_mono (requiredAudit_refused _ _ _ _ _ _ s) (fun audit s' _ => ?_)
          fun _ _ h => .inr (.inr (.inr (.inr h)))
        rw [lookup_posted hs hrow hkey]
        trivial
    · exact wp_mono hspec (fun _ _ _ => trivial) fun _ _ _ => .inr (.inl ha)
  · exact wp_mono hspec (fun _ _ _ => trivial) fun _ _ _ => .inl hw

end ReplaysLemmas

open ReplaysLemmas

/-! ## 1. `ghi_so_cai` and `tru_vi` -/

/-- A repeated entry returns the row posted before and posts nothing. -/
theorem ghi_so_cai_replay {s : WalletDb} {row : WalletLedger} (hs : Ok s) (hrow : row ∈ s.wallet_ledger)
    (hidden : List ℕ) (wallet_id : Uuid) (entry_type : EntryType) (amount_vnd : ℤ)
    (reference_type reference_id : String) (actor_id : Option Uuid)
    (hkey : row.key = (entry_type, Text.strip reference_id)) :
    wp (ghi_so_cai hidden wallet_id entry_type amount_vnd reference_type reference_id actor_id)
      (fun r s' => r = row ∧ Quiet s s')
      (fun _ s' => Quiet s s' ∧
        EntryRefused s row wallet_id entry_type amount_vnd reference_type reference_id actor_id) s := by
  refine wp_mono (wp_and (ghi_so_cai_spec hidden wallet_id entry_type amount_vnd reference_type reference_id
    actor_id s) (ghi_so_cai_refused hs hrow hidden wallet_id entry_type amount_vnd reference_type
    reference_id actor_id hkey)) ?_ ?_
  · rintro r s' ⟨⟨hent, -⟩, -⟩
    exact Entered.eq_posted hs hrow hkey hent
  · rintro e s' ⟨⟨hq, -⟩, href⟩
    exact ⟨hq, href⟩

/-- What a repeated debit is refused for. -/
def DebitRefused (s : WalletDb) (row : WalletLedger) (invoice : Invoice) (session_id : Option ℕ)
    (wallet_id : Option Uuid) : Prop :=
  (∃ n ∈ session_id, n ≠ invoice.session_id) ∨ ¬ InRange invoice.total_vnd ∨
  badReference "charging_session" (toString invoice.session_id) ∨
  row.amount_vnd ≠ -invoice.total_vnd ∨ (∃ id ∈ wallet_id, id ≠ row.wallet_id) ∨
  (∀ w ∈ s.wallets, w.id = row.wallet_id → w.driver_id ≠ invoice.driver_id) ∨ s.Locked row.wallet_id

namespace ReplaysLemmas

variable {s : WalletDb} {row : WalletLedger}

/-- The wallet of the posted row is the one to debit. -/
theorem debitWallet_refused (hs : Ok s) {w : Wallet} (hw : w ∈ s.wallets) {invoice : Invoice}
    (hdriver : w.driver_id = invoice.driver_id) (new_id : Uuid) {wallet_id : Option Uuid}
    (hid : ∀ id ∈ wallet_id, id = w.id) :
    wp (debitWallet new_id invoice wallet_id) (fun id s' => id = w.id ∧ s' = s) (fun _ _ => False) s := by
  cases wallet_id with
  | none =>
    simp only [debitWallet, wp_bind, wp_read]
    split
    · next v hfind =>
      obtain ⟨hv, hd⟩ := find?_driver hfind
      rw [hs.wallet_inj hv hw (.inr (hd.trans hdriver.symm))]
      exact ⟨rfl, rfl⟩
    · next hnone => exact absurd hdriver (by simpa using List.find?_eq_none.mp hnone w hw)
  | some id =>
    obtain rfl := hid id rfl
    simp only [debitWallet, _lock_wallet, wp_bind, wp_read, wp_orRaise, wp_raiseIf, wp_pure]
    refine ⟨fun hnone => ?_, fun v hfind => ⟨fun hd => ?_, fun _ => ⟨trivial, trivial⟩⟩⟩
    · simpa using List.find?_eq_none.mp hnone w hw
    · obtain ⟨hv, hvid⟩ := find?_id hfind
      exact hd (hs.wallet_inj hv hw (.inl hvid) ▸ hdriver)

theorem debitInvoice_refused (hs : Ok s) (hrow : row ∈ s.wallet_ledger) (hidden : List ℕ) (new_id : Uuid)
    (invoice : Invoice) (session_id : Option ℕ) (wallet_id actor_id : Option Uuid)
    (hkey : row.key = (.charging_debit, toString invoice.session_id)) :
    wp (debitInvoice hidden new_id invoice session_id wallet_id actor_id) (fun _ _ => True)
      (fun _ _ => DebitRefused s row invoice session_id wallet_id) s := by
  by_cases hno : DebitRefused s row invoice session_id wallet_id
  · exact wp_mono (debitInvoice_spec hidden new_id invoice session_id wallet_id actor_id s)
      (fun _ _ _ => trivial) fun _ _ _ => hno
  -- otherwise nothing is left to raise for
  have hall := hno
  simp only [DebitRefused, not_or, not_not, not_forall] at hno
  obtain ⟨hsession, hrange, hbad, hamount, hwid, ⟨w, hw, hid, hdriver⟩, hlocked⟩ := hno
  have hsign := hs.signs row hrow
  have htype : row.entry_type = .charging_debit := congrArg Prod.fst hkey
  simp only [wrongSign, htype, not_or] at hsign
  unfold debitInvoice
  simp only [_integer_vnd, wp_bind, wp_raiseIf, wp_pure]
  refine ⟨fun h => absurd h hsession, fun _ => ⟨fun h => absurd hrange h, fun _ => ?_⟩⟩
  split
  · trivial
  simp only [wp_bind, wp_raiseIf]
  refine ⟨fun hneg => ?_, fun _ => ?_⟩
  · exact absurd ⟨.inl trivial, by omega⟩ hsign.2.2
  refine wp_mono (debitWallet_refused hs hw hdriver new_id fun id h => ?_) ?_ fun _ _ h => h.elim
  · by_contra hne
    exact hwid ⟨id, h, fun heq => hne (heq.trans hid.symm)⟩
  rintro _ _ ⟨rfl, rfl⟩
  rw [wp_map]
  refine wp_mono (ghi_so_cai_refused hs hrow hidden w.id .charging_debit (-invoice.total_vnd)
    "charging_session" (toString invoice.session_id) actor_id (by rwa [Text.strip_toString]))
    (fun _ _ _ => trivial) fun _ _ h => ?_
  rw [EntryRefused, Text.strip_toString] at h
  rcases h with h | h | h | ⟨-, h⟩ | ⟨h, -⟩
  · exact absurd hid.symm h
  · exact absurd hamount h
  · exact absurd h hbad
  · exact absurd (hid ▸ h) hlocked
  · cases h

end ReplaysLemmas

/-- A repeated debit returns the row posted before and posts nothing. -/
theorem tru_vi_replay {s : WalletDb} {row : WalletLedger} (hs : Ok s) (hrow : row ∈ s.wallet_ledger)
    (hidden : List ℕ) (new_id : Uuid) (invoices : List Invoice) (invoice : Option Invoice)
    (session_id : Option ℕ) (wallet_id actor_id : Option Uuid) {i : Invoice}
    (hi : invoiceFor invoices invoice session_id = some i)
    (hkey : row.key = (.charging_debit, toString i.session_id)) :
    wp (tru_vi hidden new_id invoices invoice session_id wallet_id actor_id)
      (fun r s' => Quiet s s' ∧ (r = some row ∨ r = none ∧ i.total_vnd = 0))
      (fun _ s' => Quiet s s' ∧ DebitRefused s row i session_id wallet_id) s := by
  have hdebit : wp (debitInvoice hidden new_id i session_id wallet_id actor_id)
      (fun r s' => Quiet s s' ∧ (r = some row ∨ r = none ∧ i.total_vnd = 0))
      (fun _ s' => Quiet s s' ∧ DebitRefused s row i session_id wallet_id) s := by
    refine wp_mono (wp_and (debitInvoice_spec hidden new_id i session_id wallet_id actor_id s)
      (debitInvoice_refused hs hrow hidden new_id i session_id wallet_id actor_id hkey)) ?_ fun _ _ h => h
    rintro r s' ⟨⟨rfl, hzero, rfl⟩ | ⟨row', rfl, -, hdeb⟩, -⟩
    · exact ⟨.refl _, .inr ⟨rfl, hzero⟩⟩
    · obtain ⟨t, hq, hent⟩ := hdeb.entered
      obtain ⟨rfl, hq'⟩ := Entered.eq_posted (hq.ok hs) (hq.ledger ▸ hrow) hkey hent
      exact ⟨hq.trans hq', .inl rfl⟩
  unfold tru_vi
  cases invoice with
  | some invoice =>
    obtain rfl := Option.some.inj hi
    exact hdebit
  | none =>
    obtain ⟨n, rfl, hfind⟩ := Option.bind_eq_some_iff.mp hi
    simp only [wp_bind, wp_orRaise]
    refine ⟨fun h => (by cases h), fun a ha => ?_⟩
    obtain rfl := Option.some.inj ha
    rw [hfind]
    refine ⟨fun h => (by cases h), fun b hb => ?_⟩
    obtain rfl := Option.some.inj hb
    exact hdebit

/-! ## 2. `nap_tay` and `dieu_chinh_vi` -/

/-- What a repeated manual top-up is refused for. -/
def TopupRefused (s : WalletDb) (row : WalletLedger) (max_vnd : ℤ) (driver_id actor_id : Uuid)
    (request : ManualTopupRequest) : Prop :=
  s.isAdmin (some actor_id) = false ∨ max_vnd < request.amount_vnd ∨
  (∀ w ∈ s.wallets, w.driver_id = driver_id → w.id ≠ row.wallet_id) ∨ request.request_id = none ∨
  ¬ s.sameTopup row.wallet_id actor_id request row

namespace ReplaysLemmas

variable {s : WalletDb} {row : WalletLedger}

theorem nap_tay_refused (hs : Ok s) (hrow : row ∈ s.wallet_ledger) (hidden hidden' : List ℕ) (max_vnd : ℤ)
    (driver_id actor_id : Uuid) (request : ManualTopupRequest)
    (hkey : row.key = (.manual_topup, Text.strip request.code)) :
    wp (nap_tay hidden hidden' max_vnd driver_id actor_id request) (fun _ _ => True)
      (fun _ _ => TopupRefused s row max_vnd driver_id actor_id request) s := by
  by_cases hsupplied : request.request_id = none
  · exact wp_mono (nap_tay_spec hidden hidden' max_vnd driver_id actor_id request hs)
      (fun _ _ _ => trivial) fun _ _ _ => .inr (.inr (.inr (.inl hsupplied)))
  by_cases hwallet : ∀ w ∈ s.wallets, w.driver_id = driver_id → w.id ≠ row.wallet_id
  · exact wp_mono (nap_tay_spec hidden hidden' max_vnd driver_id actor_id request hs)
      (fun _ _ _ => trivial) fun _ _ _ => .inr (.inr (.inl hwallet))
  simp only [not_forall, not_not] at hwallet
  obtain ⟨w, hw, hdriver, hid⟩ := hwallet
  rw [strip_code_of_generated hsupplied] at hkey
  unfold nap_tay
  simp only [_require_admin, wp_bind, wp_read, wp_raiseIf, wp_orRaise]
  refine ⟨fun h => .inl h, fun _ => ⟨fun h => .inr (.inl h), fun _ => ⟨fun h => ?_, fun v hv => ?_⟩⟩⟩
  · exact absurd hdriver (by simpa using List.find?_eq_none.mp h w hw)
  obtain ⟨hvmem, hvd⟩ := find?_driver hv
  have hvid : v.id = row.wallet_id := by rw [hs.wallet_inj hvmem hw (.inr (hvd.trans hdriver.symm)), hid]
  rw [hvid, lookup_posted hs hrow hkey]
  simp only [wp_bind, wp_raiseIf]
  refine ⟨fun h => absurd h hsupplied, fun _ => ⟨fun h => .inr (.inr (.inr (.inr h))), fun h => ?_⟩⟩
  rw [not_not] at h
  simp [_response, h.2.1]

end ReplaysLemmas

/-- A repeated manual top-up returns the row posted before and posts nothing. -/
theorem nap_tay_replay {s : WalletDb} {row : WalletLedger} (hs : Ok s) (hrow : row ∈ s.wallet_ledger)
    (hidden hidden' : List ℕ) (max_vnd : ℤ) (driver_id actor_id : Uuid) (request : ManualTopupRequest)
    (hkey : row.key = (.manual_topup, Text.strip request.code)) :
    wp (nap_tay hidden hidden' max_vnd driver_id actor_id request)
      (fun r s' => r.ledger_id = row.id ∧ Quiet s s')
      (fun _ s' => Quiet s s' ∧ TopupRefused s row max_vnd driver_id actor_id request) s := by
  refine wp_mono (wp_and (nap_tay_spec hidden hidden' max_vnd driver_id actor_id request hs)
    (nap_tay_refused hs hrow hidden hidden' max_vnd driver_id actor_id request hkey)) ?_ fun _ _ h => h
  rintro r s' ⟨⟨heffect, row', hrow', hkey', hid⟩, -⟩
  have hq := heffect.of_posted hrow hkey
  rw [hq.ledger] at hrow'
  rw [hid, hs.key_inj hrow' hrow (hkey'.trans hkey.symm)]
  exact ⟨rfl, hq⟩

/-- What a repeated adjustment is refused for. -/
def AdjustmentRefused (s : WalletDb) (row : WalletLedger) (wallet_id actor_id : Uuid) (amount_vnd : ℤ)
    (reason : String) (audit_id : Uuid) : Prop :=
  s.isAdmin (some actor_id) = false ∨ badReason reason ∨ row.wallet_id ≠ wallet_id ∨
  row.amount_vnd ≠ amount_vnd ∨ s.wallet_audits.find? (·.id = audit_id) = none ∨
  (∃ p ∈ s.wallet_audits.find? (·.id = audit_id), otherAdjustment wallet_id actor_id amount_vnd reason p) ∨
  ¬ Authorised s wallet_id amount_vnd "audit" audit_id.text (some actor_id)

namespace ReplaysLemmas

variable {s : WalletDb} {row : WalletLedger}

theorem audit_reference (u : Uuid) : ¬ badReference (Text.strip "audit") u.text := by
  have hstrip : Text.strip "audit" = "audit" := by decide
  rw [hstrip]
  rintro (h | h | h | h)
  · exact absurd h (by decide)
  · exact absurd h (by decide)
  · have := Uuid.length_text u
    rw [h] at this
    cases this
  · have := Uuid.length_text u
    omega

theorem dieu_chinh_vi_refused (hs : Ok s) (hrow : row ∈ s.wallet_ledger) (hidden hidden' : List ℕ)
    (wallet_id actor_id : Uuid) (amount_vnd : ℤ) (reason : String) (audit_id : Uuid)
    (hkey : row.key = (.adjustment, audit_id.text)) :
    wp (dieu_chinh_vi hidden hidden' wallet_id actor_id amount_vnd reason audit_id) (fun _ _ => True)
      (fun _ _ => AdjustmentRefused s row wallet_id actor_id amount_vnd reason audit_id) s := by
  by_cases hsame : row.wallet_id = wallet_id ∧ row.amount_vnd = amount_vnd
  · obtain ⟨rfl, rfl⟩ := hsame
    obtain ⟨w, hw, hid⟩ := hs.owner row hrow
    have hsign := hs.signs row hrow
    unfold dieu_chinh_vi
    simp only [_require_admin, _integer_vnd, _lock_wallet, wp_bind, wp_read, wp_raiseIf, wp_orRaise,
      wp_pure]
    refine ⟨fun h => .inl h, fun _ => ⟨fun h => absurd (hs.amounts row hrow).1 h, fun _ =>
      ⟨fun h => absurd (.inl h) hsign, fun _ => ⟨fun h => .inr (.inl h), fun _ => ⟨fun h => ?_, fun v _ =>
      ⟨fun h => .inr (.inr (.inr (.inr (.inr (.inl h))))), fun _ => ?_⟩⟩⟩⟩⟩⟩
    · exact absurd hid (by simpa using List.find?_eq_none.mp h w hw)
    rw [lookup_posted hs hrow hkey]
    rw [wp_bind, wp_raiseIf]
    refine ⟨fun h => .inr (.inr (.inr (.inr (.inl h)))), fun _ => ?_⟩
    refine wp_mono (ghi_so_cai_refused hs hrow hidden' row.wallet_id .adjustment row.amount_vnd "audit"
      audit_id.text (some actor_id) (by rwa [Uuid.strip_text])) (fun _ _ _ => trivial) fun _ _ h => ?_
    rw [EntryRefused, Uuid.strip_text] at h
    rcases h with h | h | h | ⟨h, -⟩ | ⟨-, h⟩
    · exact absurd rfl h
    · exact absurd rfl h
    · exact absurd h (audit_reference audit_id)
    · exact absurd rfl h
    · exact .inr (.inr (.inr (.inr (.inr (.inr h)))))
  · refine wp_mono (dieu_chinh_vi_spec hidden hidden' wallet_id actor_id amount_vnd reason audit_id s)
      (fun _ _ _ => trivial) fun _ _ _ => ?_
    rw [not_and_or] at hsame
    rcases hsame with h | h
    · exact .inr (.inr (.inl h))
    · exact .inr (.inr (.inr (.inl h)))

end ReplaysLemmas

/-- A repeated adjustment returns the row posted before and posts nothing. -/
theorem dieu_chinh_vi_replay {s : WalletDb} {row : WalletLedger} (hs : Ok s) (hrow : row ∈ s.wallet_ledger)
    (hidden hidden' : List ℕ) (wallet_id actor_id : Uuid) (amount_vnd : ℤ) (reason : String) (audit_id : Uuid)
    (hkey : row.key = (.adjustment, audit_id.text)) :
    wp (dieu_chinh_vi hidden hidden' wallet_id actor_id amount_vnd reason audit_id)
      (fun r s' => r = row ∧ Quiet s s')
      (fun _ s' => Quiet s s' ∧ AdjustmentRefused s row wallet_id actor_id amount_vnd reason audit_id) s := by
  refine wp_mono (wp_and (dieu_chinh_vi_spec hidden hidden' wallet_id actor_id amount_vnd reason audit_id s)
    (dieu_chinh_vi_refused hs hrow hidden hidden' wallet_id actor_id amount_vnd reason audit_id hkey)) ?_
    fun _ _ h => h
  rintro r s' ⟨⟨heffect, hkey', hmem⟩, -⟩
  have hq := heffect.of_posted hrow hkey
  exact ⟨hs.key_inj (hq.ledger ▸ hmem) hrow (hkey'.trans hkey.symm), hq⟩

end Csms.Wallets
