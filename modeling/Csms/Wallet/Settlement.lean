import Csms.Wallet.Topup

/-!
# The top-up state machine

`Callback` lists what one webhook event can do. `Settled` is the invariant over the orders and
the ledger: a succeeded order has its credit, and a gateway credit has its order.

Results:
1. `process_topup_webhook_callback`: every event does one of the listed things and never raises.
2. `Callback.settled`: each of them keeps the invariant.
3. `topups_settled`: the state machine over whole runs of events.
-/

namespace Csms.Wallets

open Tx PostingsLemmas

/-! ## 1. One event -/

/-- The order `o` moves to review. -/
def underReview (o : WalletTopup) (reason : String) : WalletTopup :=
  { o with status := .needs_review, reason := some reason }

/-- What an event may do to the orders and the wallets. -/
inductive Callback (event : GatewayEvent) (s s' : TopupDb) : Prop
  /-- Nothing but a warning, for an order that is unknown or no longer pending. -/
  | idle (order : ∀ o ∈ s.topups, o.order_id = event.order_id → o.status ≠ .pending)
      (topups : s'.topups = s.topups) (wallet : Quiet s.wallet s'.wallet)
  /-- The order is put under review; no money moves. -/
  | review (o : WalletTopup) (reason : String) (mem : o ∈ s.topups) (order : o.order_id = event.order_id)
      (status : o.status ≠ .succeeded ∧ o.status ≠ .needs_review)
      (topups : s'.topups = Table.modify WalletTopup.id o.id (fun _ => underReview o reason) s.topups)
      (wallet : Quiet s.wallet s'.wallet)
  /-- A pending order fails or is cancelled; no money moves. -/
  | closed (o : WalletTopup) (mem : o ∈ s.topups) (order : o.order_id = event.order_id)
      (status : o.status = .pending) (event_status : event.status ≠ .succeeded)
      (unused : ∀ t ∈ s.topups, t.id ≠ o.id → t.gateway_transaction_id ≠ some event.gateway_transaction_id)
      (topups : s'.topups = Table.modify WalletTopup.id o.id (fun _ => settled event o) s.topups)
      (wallet : Quiet s.wallet s'.wallet)
  /-- A pending order is paid: its amount is posted on its driver's unlocked wallet. -/
  | paid (o : WalletTopup) (w : Wallet) (row : WalletLedger) (mem : o ∈ s.topups)
      (order : o.order_id = event.order_id) (status : o.status = .pending)
      (event_status : event.status = .succeeded) (amount : o.amount_vnd = event.amount_vnd)
      (unused : ∀ t ∈ s.topups, t.id ≠ o.id → t.gateway_transaction_id ≠ some event.gateway_transaction_id)
      (owner : s.wallet.wallets.find? (·.driver_id = o.driver_id) = some w) (unlocked : w.status = .active)
      (key : row.key = (.gateway_topup, event.gateway_transaction_id)) (wallet_id : row.wallet_id = w.id)
      (row_amount : row.amount_vnd = event.amount_vnd)
      (topups : s'.topups = Table.modify WalletTopup.id o.id (fun _ => settled event o) s.topups)
      (wallet : Post row s.wallet s'.wallet)

/-- The invariant of the orders. -/
structure Settled (s : TopupDb) : Prop where
  ledger : Ok s.wallet
  ids : Table.Keyed WalletTopup.id s.topups
  orders : Table.Keyed WalletTopup.order_id s.topups
  gateways : ∀ a ∈ s.topups, ∀ b ∈ s.topups, ∀ g, a.gateway_transaction_id = some g →
    b.gateway_transaction_id = some g → a = b
  pending : ∀ o ∈ s.topups, o.status = .pending → o.gateway_transaction_id = none
  paid : ∀ o ∈ s.topups, o.status = .succeeded → ∃ g, o.gateway_transaction_id = some g ∧
    ∃ r ∈ s.wallet.wallet_ledger, r.key = (.gateway_topup, g) ∧ r.amount_vnd = o.amount_vnd ∧
      ∃ w ∈ s.wallet.wallets, w.id = r.wallet_id ∧ w.driver_id = o.driver_id
  credits : ∀ r ∈ s.wallet.wallet_ledger, r.entry_type = .gateway_topup →
    ∃ o ∈ s.topups, o.status = .succeeded ∧ o.gateway_transaction_id = some r.reference_id

namespace SettlementLemmas

theorem strip_gateway (event : GatewayEvent) :
    Text.strip event.gateway_transaction_id = event.gateway_transaction_id := by
  have h := event.ids_ok.1
  simp only [validIdentifier, Bool.and_eq_true, beq_iff_eq] at h
  exact h.1.2

theorem gateway_reference (event : GatewayEvent) :
    ¬ badReference (Text.strip "gateway_transaction") (Text.strip event.gateway_transaction_id) := by
  have h := event.ids_ok.1
  simp only [validIdentifier, Bool.and_eq_true, decide_eq_true_eq, bne_iff_ne] at h
  rw [strip_gateway, show Text.strip "gateway_transaction" = "gateway_transaction" by decide]
  rintro (hb | hb | hb | hb)
  · exact absurd hb (by decide)
  · exact absurd hb (by decide)
  · exact h.1.1.1 (by simp [hb])
  · omega

variable {s : TopupDb} {event : GatewayEvent}

theorem _warn_once_spec (digest : String → String) (order_id : String) (topup : Option WalletTopup)
    (code : WarningCode) (s : TopupDb) :
    wp (_warn_once digest order_id topup code)
      (fun _ s' => s'.topups = s.topups ∧ Quiet s.wallet s'.wallet) (fun _ _ => False) s := by
  unfold _warn_once
  simp only [wp_bind, wp_read]
  rw [wp_ite]
  refine ⟨fun _ => ⟨rfl, .refl _⟩, fun _ => ?_⟩
  simp only [wp_bind, onWallet, wp_zoom, ghi_nhat_ky, wp_write, wp_pure]
  exact ⟨trivial, quiet_logs _ _⟩

/-- A review of an order leaves the wallets alone. -/
theorem _review_spec (digest : String → String) (topup : WalletTopup) (code : WarningCode) (s : TopupDb) :
    wp (_review digest topup code)
      (fun _ s' => s'.topups = Table.modify WalletTopup.id topup.id (fun _ => reviewed topup code) s.topups ∧
        Quiet s.wallet s'.wallet) (fun _ _ => False) s := by
  unfold _review
  have hid : (reviewed topup code).id = topup.id := by
    unfold reviewed
    split <;> rfl
  simp only [wp_bind, saveTopup, wp_write, hid]
  exact wp_mono (_warn_once_spec digest _ _ _ _) (fun _ _ h => h) fun _ _ h => h

/-- The order under review, or an order that a review does not touch. -/
theorem callback_of_reviewed (hs : Settled s) {o : WalletTopup} (ho : o ∈ s.topups)
    (horder : o.order_id = event.order_id) (code : WarningCode) {s' : TopupDb}
    (h : s'.topups = Table.modify WalletTopup.id o.id (fun _ => reviewed o code) s.topups ∧
      Quiet s.wallet s'.wallet) : Callback event s s' := by
  by_cases hst : o.status = .succeeded ∨ o.status = .needs_review
  · have hsame : reviewed o code = o := if_pos hst
    refine .idle (fun t ht htorder => ?_) ?_ h.2
    · rw [hs.orders.eq ht ho (htorder.trans horder.symm)]
      rcases hst with h | h <;> simp [h]
    · rw [h.1, hsame, Table.modify_self hs.ids ho rfl]
  · have hrev : reviewed o code = underReview o (WARNING_REASONS code) := if_neg hst
    exact .review o (WARNING_REASONS code) ho horder (not_or.mp hst) (hrev ▸ h.1) h.2

/-- The credit of a payment whose gateway id no order holds is a new posting. -/
theorem creditTopup_spec (hs : Settled s) (hidden : List ℕ) (event : GatewayEvent) (topup : WalletTopup)
    (hunused : ∀ t ∈ s.topups, t.gateway_transaction_id ≠ some event.gateway_transaction_id)
    {t : TopupDb} (ht : t.wallet = s.wallet) :
    wp (creditTopup hidden event topup)
      (fun _ s' => s'.topups = t.topups ∧ ∃ w row,
        s.wallet.wallets.find? (·.driver_id = topup.driver_id) = some w ∧ w.status = .active ∧
        row.key = (.gateway_topup, event.gateway_transaction_id) ∧ row.wallet_id = w.id ∧
        row.amount_vnd = event.amount_vnd ∧ Post row s.wallet s'.wallet)
      (fun e s' => e.isWalletError = true ∧ s.wallet.ledger_seq ≤ s'.wallet.ledger_seq) t := by
  unfold creditTopup
  simp only [wp_bind, wp_read, wp_orRaise, onWallet, wp_zoom, wp_pure, ht]
  refine ⟨fun _ => ⟨rfl, le_rfl⟩, fun w hw => ?_⟩
  refine wp_mono (ghi_so_cai_spec hidden w.id .gateway_topup event.amount_vnd "gateway_transaction"
    event.gateway_transaction_id none s.wallet) ?_
    fun e s' h => ⟨h.2 rfl rfl (gateway_reference event), h.1.seq⟩
  rintro row s' ⟨hent, -, v, hv, hopen⟩
  rw [strip_gateway] at hent
  refine ⟨trivial, w, row, hw, ?_, hent.key, hent.wallet_id, hent.amount, ?_⟩
  · obtain ⟨hmem, hid⟩ := find?_id hv
    rw [hs.ledger.wallet_inj (find?_driver hw).1 hmem (.inl hid.symm)]
    cases hst : v.status with
    | active => rfl
    | locked => exact absurd (hopen hst) (by decide)
  · rcases hent.change with ⟨hmem, -⟩ | hp
    · -- a row posted before belongs to an order that holds the gateway id
      have hkey := hent.key
      simp only [WalletLedger.key, Prod.mk.injEq] at hkey
      obtain ⟨o, ho, -, hg⟩ := hs.credits row hmem hkey.1
      exact absurd (hkey.2 ▸ hg) (hunused o ho)
    · exact hp

/-- The nested transaction settles a pending order, or raises what is turned into a review. -/
theorem settle_spec (hs : Settled s) (hidden : List ℕ) {o : WalletTopup} (ho : o ∈ s.topups)
    (horder : o.order_id = event.order_id) (hpend : o.status = .pending)
    (hamount : o.amount_vnd = event.amount_vnd) :
    wp (settle hidden event o) (fun _ s' => Callback event s s')
      (fun e s' => reviewable e = true ∧ s.wallet.ledger_seq ≤ s'.wallet.ledger_seq) s := by
  unfold settle
  simp only [wp_bind, wp_read, wp_raiseIf]
  refine ⟨fun _ => ⟨rfl, le_rfl⟩, fun hfree => ?_⟩
  have hunused : ∀ t ∈ s.topups, t.id ≠ o.id →
      t.gateway_transaction_id ≠ some event.gateway_transaction_id :=
    fun t ht hne heq => hfree ⟨t, ht, hne, heq⟩
  rw [saveTopup, wp_write]
  split
  · next hsucc =>
    rw [wp_bind]
    have hall : ∀ t ∈ s.topups, t.gateway_transaction_id ≠ some event.gateway_transaction_id := by
      intro t ht
      by_cases hid : t.id = o.id
      · rw [hs.ids.eq ht ho hid, hs.pending o ho hpend]
        simp
      · exact hunused t ht hid
    refine wp_mono (creditTopup_spec hs hidden event o hall rfl) ?_ fun e s' h => ⟨?_, h.2⟩
    · rintro _ s' ⟨htop, w, row, hw, hst, hkey, hid, hrow, hpost⟩
      simp only [wp_bind, saveTopup, wp_write, wp_pure]
      refine .paid o w row ho horder hpend hsucc hamount hunused hw hst hkey hid hrow ?_ hpost
      simp only [htop]
      exact Table.modify_modify rfl
    · cases e <;> simp_all [reviewable, WalletFailure.isWalletError]
  · next hother =>
    simp only [wp_bind, wp_pure, saveTopup, wp_write]
    refine .closed o ho horder hpend hother hunused ?_ (.refl _)
    exact Table.modify_modify rfl

end SettlementLemmas

open SettlementLemmas

/-- Every event does one of the things of `Callback`, and none raises. -/
theorem process_topup_webhook_callback {s : TopupDb} (hs : Settled s) (digest : String → String)
    (hidden : List ℕ) (event : GatewayEvent) :
    wp (process_topup_webhook digest hidden event) (fun _ s' => Callback event s s')
      (fun _ _ => False) s := by
  unfold process_topup_webhook
  simp only [wp_bind, wp_read]
  split
  · next hnone =>
    rw [wp_bind]
    refine wp_mono (_warn_once_spec digest _ _ _ s) ?_ fun _ _ h => h
    rintro _ s' ⟨htop, hq⟩
    refine .idle (fun o ho horder => ?_) htop hq
    exact absurd (by simpa using horder) (List.find?_eq_none.mp hnone o ho)
  next o hfind =>
  have ho := List.mem_of_find?_eq_some hfind
  have horder : o.order_id = event.order_id := by simpa using List.find?_some hfind
  have hreview : ∀ code (f : WalletTopup × Option WebhookWarning → TopupTx SettlementResult) t,
      t.topups = s.topups → Quiet s.wallet t.wallet → (∀ p, ∃ a, f p = pure a) →
      wp (_review digest o code >>= f) (fun _ s' => Callback event s s') (fun _ _ => False) t := by
    intro code f t htop hq hf
    rw [wp_bind]
    refine wp_mono (_review_spec digest o code t) ?_ fun _ _ h => h
    rintro p s' ⟨h1, h2⟩
    obtain ⟨a, ha⟩ := hf p
    rw [ha]
    exact callback_of_reviewed hs ho horder code ⟨htop ▸ h1, hq.trans h2⟩
  split
  · exact hreview _ _ s rfl (.refl _) fun p => ⟨_, rfl⟩
  next hamount =>
  split
  · exact hreview _ _ s rfl (.refl _) fun p => ⟨_, rfl⟩
  split
  · next hst =>
    have hidle : ∀ t ∈ s.topups, t.order_id = event.order_id → t.status ≠ .pending := by
      intro t ht htorder
      rwa [hs.orders.eq ht ho (htorder.trans horder.symm)]
    unfold lateCallback
    split
    · rw [wp_bind]
      refine wp_mono (_warn_once_spec digest _ _ _ s) ?_ fun _ _ h => h
      rintro _ s' ⟨htop, hq⟩
      exact .idle hidle htop hq
    split
    · exact hreview _ _ s rfl (.refl _) fun p => ⟨_, rfl⟩
    split
    · rw [wp_bind]
      refine wp_mono (_warn_once_spec digest _ _ _ s) ?_ fun _ _ h => h
      rintro _ s' ⟨htop, hq⟩
      exact .idle hidle htop hq
    · exact .idle hidle rfl (.refl _)
  · next hst =>
    unfold settleOrReview
    rw [wp_attempt, wp_bind, wp_savepoint]
    refine wp_mono (settle_spec hs hidden ho horder (not_not.mp hst) (not_not.mp hamount))
      (fun _ _ h => h) ?_
    rintro e s' ⟨hrev, hseq⟩
    rw [if_pos hrev]
    refine ⟨fun h => (by cases h), ?_⟩
    rintro y hy
    cases hy
    exact hreview _ _ _ rfl (quiet_rollback hseq) fun p => ⟨_, rfl⟩

/-! ## 2. The invariant -/

namespace SettlementLemmas

/-- The credit of a succeeded order. -/
def HasCredit (wallet : WalletDb) (o : WalletTopup) : Prop :=
  ∃ g, o.gateway_transaction_id = some g ∧ ∃ r ∈ wallet.wallet_ledger, r.key = (.gateway_topup, g) ∧
    r.amount_vnd = o.amount_vnd ∧ ∃ w ∈ wallet.wallets, w.id = r.wallet_id ∧ w.driver_id = o.driver_id

theorem HasCredit.mono {s t : WalletDb} (hl : ∀ r ∈ s.wallet_ledger, r ∈ t.wallet_ledger)
    (hw : ∀ w ∈ s.wallets, ∃ w' ∈ t.wallets, w'.id = w.id ∧ w'.driver_id = w.driver_id)
    {o : WalletTopup} (h : HasCredit s o) : HasCredit t o := by
  obtain ⟨g, hg, r, hr, hkey, hamount, w, hwm, hid, hd⟩ := h
  obtain ⟨w', hw', hid', hd'⟩ := hw w hwm
  exact ⟨g, hg, r, hl r hr, hkey, hamount, w', hw', hid'.trans hid, hd'.trans hd⟩

/-- An order that is not succeeded changes, and the ledger gets at most its credit. -/
theorem settled_replace {s s' : TopupDb} (hs : Settled s) {o o' : WalletTopup} (ho : o ∈ s.topups)
    (htop : s'.topups = Table.modify WalletTopup.id o.id (fun _ => o') s.topups)
    (hold : o.status ≠ .succeeded) (hid : o'.id = o.id) (horder : o'.order_id = o.order_id)
    (hgw : ∀ g, o'.gateway_transaction_id = some g →
      ∀ t ∈ s.topups, t.id ≠ o.id → t.gateway_transaction_id ≠ some g)
    (hpending : o'.status ≠ .pending) (hok : Ok s'.wallet)
    (hl : ∀ r ∈ s.wallet.wallet_ledger, r ∈ s'.wallet.wallet_ledger)
    (hw : ∀ w ∈ s.wallet.wallets, ∃ w' ∈ s'.wallet.wallets, w'.id = w.id ∧ w'.driver_id = w.driver_id)
    (hpaid : o'.status = .succeeded → HasCredit s'.wallet o')
    (hnew : ∀ r ∈ s'.wallet.wallet_ledger, r ∈ s.wallet.wallet_ledger ∨
      (o'.status = .succeeded ∧ o'.gateway_transaction_id = some r.reference_id)) : Settled s' := by
  have hmem : ∀ t, t ∈ s'.topups ↔ t = o' ∨ (t ∈ s.topups ∧ t.id ≠ o.id) := by
    intro t
    rw [htop]
    exact Table.mem_modify_of_mem hs.ids ho rfl
  refine ⟨hok, ?_, ?_, ?_, ?_, ?_, ?_⟩
  · -- replacing a row by one with the same keys keeps both constraints
    rw [htop]
    refine List.pairwise_map.mpr (List.Pairwise.imp (fun {a b} hab => ?_) hs.ids)
    split <;> split <;> simp_all
  · rw [htop]
    have hboth := List.Pairwise.and_mem.mp hs.orders
    refine List.pairwise_map.mpr (hboth.imp fun {a b} ⟨ha, hb, hab⟩ => ?_)
    have heq : ∀ c ∈ s.topups, c.id = o.id → o'.order_id = c.order_id := by
      intro c hc hci
      rw [hs.ids.eq hc ho hci, horder]
    split
    · next h1 =>
      split
      · next h2 => exact absurd (by rw [← heq a ha h1, heq b hb h2]) hab
      · rw [heq a ha h1]; exact hab
    · split
      · next h2 => rw [heq b hb h2]; exact hab
      · exact hab
  · intro a ha b hb g hag hbg
    rcases (hmem a).mp ha with rfl | ⟨ha, hai⟩
    · rcases (hmem b).mp hb with rfl | ⟨hb, hbi⟩
      · rfl
      · exact absurd hbg (hgw g hag b hb hbi)
    · rcases (hmem b).mp hb with rfl | ⟨hb, hbi⟩
      · exact absurd hag (hgw g hbg a ha hai)
      · exact hs.gateways a ha b hb g hag hbg
  · intro t ht hst
    rcases (hmem t).mp ht with rfl | ⟨ht, -⟩
    · exact absurd hst hpending
    · exact hs.pending t ht hst
  · intro t ht hst
    rcases (hmem t).mp ht with rfl | ⟨ht, -⟩
    · exact hpaid hst
    · exact HasCredit.mono hl hw (hs.paid t ht hst)
  · intro r hr htype
    rcases hnew r hr with hr | ⟨hst, hg⟩
    · obtain ⟨t, ht, hst, hg⟩ := hs.credits r hr htype
      refine ⟨t, (hmem t).mpr (.inr ⟨ht, fun hti => hold ?_⟩), hst, hg⟩
      rw [← hs.ids.eq ht ho hti]
      exact hst
    · exact ⟨o', (hmem o').mpr (.inl rfl), hst, hg⟩

theorem settled_status (event : GatewayEvent) {o : WalletTopup} (hpend : o.status = .pending) :
    (settled event o).status ≠ .pending ∧
      ((settled event o).status = .succeeded ↔ event.status = .succeeded) := by
  simp only [settled, hpend]
  cases event.status <;> simp [TRANSITIONS]

end SettlementLemmas

/-- Every event keeps the invariant. -/
theorem Callback.settled {event : GatewayEvent} {s s' : TopupDb} (h : Callback event s s')
    (hs : Settled s) : Settled s' := by
  cases h with
  | idle _ htop hq =>
    refine ⟨hq.ok hs.ledger, htop ▸ hs.ids, htop ▸ hs.orders, htop ▸ hs.gateways, htop ▸ hs.pending,
      ?_, ?_⟩
    · intro o ho hst
      exact HasCredit.mono (fun r hr => hq.ledger ▸ hr) (fun w hw => hq.exists_wallet hw)
        (hs.paid o (htop ▸ ho) hst)
    · rw [hq.ledger, htop]
      exact hs.credits
  | review o reason ho _ hst htop hq =>
    refine settled_replace hs ho htop hst.1 rfl rfl (fun g hg t ht hne htg => ?_) nofun (hq.ok hs.ledger)
      (fun r hr => hq.ledger ▸ hr) (fun w hw => hq.exists_wallet hw) nofun
      fun r hr => .inl (hq.ledger ▸ hr)
    exact hne (congrArg WalletTopup.id (hs.gateways t ht o ho g htg hg))
  | closed o ho _ hpend hev hunused htop hq =>
    obtain ⟨hnp, hiff⟩ := settled_status event hpend
    refine settled_replace hs ho htop (by simp [hpend]) rfl rfl (fun g hg t ht hne => ?_) hnp
      (hq.ok hs.ledger) (fun r hr => hq.ledger ▸ hr) (fun w hw => hq.exists_wallet hw)
      (fun h => absurd (hiff.mp h) hev) fun r hr => .inl (hq.ledger ▸ hr)
    cases hg
    exact hunused t ht hne
  | paid o w row ho _ hpend hev hamount hunused howner hst hkey hwid hrow htop hpost =>
    obtain ⟨hnp, hiff⟩ := settled_status event hpend
    have hmem : row ∈ s'.wallet.wallet_ledger :=
      hpost.ledger ▸ List.mem_append_right _ (List.mem_singleton_self row)
    refine settled_replace hs ho htop (by simp [hpend]) rfl rfl (fun g hg t ht hne => ?_) hnp
      (hpost.ok hs.ledger) (fun r hr => hpost.ledger ▸ List.mem_append_left _ hr)
      (fun w hw => hpost.exists_wallet hw) (fun _ => ?_) fun r hr => ?_
    · cases hg
      exact hunused t ht hne
    · obtain ⟨hw, hd⟩ := find?_driver howner
      obtain ⟨w', hw', hid', hd'⟩ := hpost.exists_wallet hw
      exact ⟨_, rfl, row, hmem, hkey, hrow.trans hamount.symm, w', hw', by rw [hid', hwid],
        hd'.trans hd⟩
    · rw [hpost.ledger] at hr
      rcases List.mem_append.mp hr with hr | hr
      · exact .inl hr
      · rw [List.mem_singleton.mp hr]
        simp only [WalletLedger.key, Prod.mk.injEq] at hkey
        exact .inr ⟨hiff.mpr hev, by rw [hkey.2]; rfl⟩

/-! ## 3. Runs -/

/-- One delivery of an event, with whatever rows of other wallets its look-ups miss. -/
def Delivery (digest : String → String) (s s' : TopupDb) : Prop :=
  ∃ (hidden : List ℕ) (event : GatewayEvent), s' = (process_topup_webhook digest hidden event s).2

/-- Any finite sequence of deliveries. -/
def Deliveries (digest : String → String) : TopupDb → TopupDb → Prop :=
  Relation.ReflTransGen (Delivery digest)

/-- A start of the state machine: pending orders without a gateway id, a consistent ledger, and no
gateway credit yet. -/
structure PendingOrders (s : TopupDb) : Prop where
  ledger : Ok s.wallet
  ids : Table.Keyed WalletTopup.id s.topups
  orders : Table.Keyed WalletTopup.order_id s.topups
  pending : ∀ o ∈ s.topups, o.status = .pending ∧ o.gateway_transaction_id = none
  credits : ∀ r ∈ s.wallet.wallet_ledger, r.entry_type ≠ .gateway_topup

theorem PendingOrders.settled {s : TopupDb} (h : PendingOrders s) : Settled s where
  ledger := h.ledger
  ids := h.ids
  orders := h.orders
  gateways := fun a ha b _ g hag _ => by rw [(h.pending a ha).2] at hag; cases hag
  pending := fun o ho _ => (h.pending o ho).2
  paid := fun o ho hst => by rw [(h.pending o ho).1] at hst; cases hst
  credits := fun r hr ht => absurd ht (h.credits r hr)

theorem Delivery.settled {digest : String → String} {s s' : TopupDb} (h : Delivery digest s s')
    (hs : Settled s) : Settled s' := by
  obtain ⟨hidden, event, rfl⟩ := h
  exact wp_state (wp_mono (process_topup_webhook_callback hs digest hidden event)
    (fun _ _ h => h.settled hs) fun _ _ h => h.elim)

theorem Deliveries.settled {digest : String → String} {s s' : TopupDb} (h : Deliveries digest s s')
    (hs : Settled s) : Settled s' := by
  induction h with
  | refl => exact hs
  | tail _ hd ih => exact hd.settled ih

/-- The settlement of an event on the order `o` fails. -/
def SettlementFails (s : TopupDb) (event : GatewayEvent) (o : WalletTopup) : Prop :=
  (∃ t ∈ s.topups, t.id ≠ o.id ∧ t.gateway_transaction_id = some event.gateway_transaction_id) ∨
  (event.status = .succeeded ∧ ∀ w ∈ s.wallet.wallets, w.driver_id = o.driver_id →
    w.status = .locked ∨ ¬ InRange (w.balance_vnd + event.amount_vnd))

/-- What holds in every state of the state machine. -/
structure TopupStates (digest : String → String) (s : TopupDb) : Prop where
  /-- Succeeded orders are those with exactly one credit, of the right wallet and amount. -/
  succeeded : ∀ o ∈ s.topups, o.status = .succeeded ↔
    ∃ r, s.wallet.wallet_ledger.filter (fun r => r.entry_type = .gateway_topup ∧
        some r.reference_id = o.gateway_transaction_id) = [r] ∧
      r.amount_vnd = o.amount_vnd ∧ ∃ w ∈ s.wallet.wallets, w.id = r.wallet_id ∧ w.driver_id = o.driver_id
  /-- Every credit belongs to exactly one order. -/
  credits : ∀ r ∈ s.wallet.wallet_ledger, r.entry_type = .gateway_topup →
    ∃! o, o ∈ s.topups ∧ o.gateway_transaction_id = some r.reference_id
  /-- A gateway transaction is credited once. -/
  once : ∀ r ∈ s.wallet.wallet_ledger, ∀ t ∈ s.wallet.wallet_ledger, r.entry_type = .gateway_topup →
    t.entry_type = .gateway_topup → r.reference_id = t.reference_id → r = t
  absorbing : ∀ s', Deliveries digest s s' → ∀ o ∈ s.topups,
    o.status = .succeeded ∨ o.status = .needs_review → o ∈ s'.topups
  returns : ∀ hidden event, ∃ r s', process_topup_webhook digest hidden event s = (.ok r, s')
  failed : ∀ hidden event, ∀ o ∈ s.topups, o.order_id = event.order_id → o.status = .pending →
    SettlementFails s event o →
    Unmoved s.wallet (process_topup_webhook digest hidden event s).2.wallet ∧
      ∃ o' ∈ (process_topup_webhook digest hidden event s).2.topups,
        o'.id = o.id ∧ o'.status = .needs_review ∧ o'.gateway_transaction_id = none

namespace SettlementLemmas

variable {digest : String → String} {s s' : TopupDb}

theorem succeeded_iff (hs : Settled s) {o : WalletTopup} (ho : o ∈ s.topups) :
    o.status = .succeeded ↔
    ∃ r, s.wallet.wallet_ledger.filter (fun r => r.entry_type = .gateway_topup ∧
        some r.reference_id = o.gateway_transaction_id) = [r] ∧
      r.amount_vnd = o.amount_vnd ∧ ∃ w ∈ s.wallet.wallets, w.id = r.wallet_id ∧ w.driver_id = o.driver_id := by
  constructor
  · intro hst
    obtain ⟨g, hg, r, hr, hkey, hamount, hw⟩ := hs.paid o ho hst
    refine ⟨r, ?_, hamount, hw⟩
    rw [← hs.ledger.filter_key hr, hkey, hg]
    refine List.filter_congr fun t _ => ?_
    simp [WalletLedger.key]
  · rintro ⟨r, hr, -⟩
    have hmem : r ∈ s.wallet.wallet_ledger ∧ r.entry_type = .gateway_topup ∧
        some r.reference_id = o.gateway_transaction_id := by
      have := hr ▸ List.mem_singleton_self r
      simpa using this
    obtain ⟨o', ho', hst, hg⟩ := hs.credits r hmem.1 hmem.2.1
    rw [hs.gateways o ho o' ho' r.reference_id hmem.2.2.symm hg]
    exact hst

theorem absorbing_step (hs : Settled s) (h : Delivery digest s s') {o : WalletTopup} (ho : o ∈ s.topups)
    (hst : o.status = .succeeded ∨ o.status = .needs_review) : o ∈ s'.topups := by
  obtain ⟨hidden, event, rfl⟩ := h
  have hkeep : ∀ {t t' : WalletTopup} {u : TopupDb}, t ∈ s.topups →
      (t.status ≠ .succeeded ∧ t.status ≠ .needs_review) →
      u.topups = Table.modify WalletTopup.id t.id (fun _ => t') s.topups → o ∈ u.topups := by
    intro t t' u ht hnot htop
    rw [htop]
    refine (Table.mem_modify_of_mem hs.ids ht rfl).mpr (.inr ⟨ho, fun hid => ?_⟩)
    rw [hs.ids.eq ho ht hid] at hst
    exact hst.elim hnot.1 hnot.2
  refine wp_state (P := fun u => o ∈ u.topups) (wp_mono
    (process_topup_webhook_callback hs digest hidden event) (fun _ u h => ?_) fun _ _ h => h.elim)
  cases h with
  | idle _ htop _ => exact htop ▸ ho
  | review t _ ht _ hnot htop _ => exact hkeep ht hnot htop
  | closed t ht _ hpend _ _ htop _ => exact hkeep ht (by simp [hpend]) htop
  | paid t _ _ ht _ hpend _ _ _ _ _ _ _ _ htop _ => exact hkeep ht (by simp [hpend]) htop

/-- A failed settlement moves no money and leaves the order under review. -/
theorem failed_step (hs : Settled s) {event : GatewayEvent} {o : WalletTopup} (ho : o ∈ s.topups)
    (horder : o.order_id = event.order_id) (hpend : o.status = .pending)
    (hfail : SettlementFails s event o) (h : Callback event s s') :
    Unmoved s.wallet s'.wallet ∧ ∃ o' ∈ s'.topups,
      o'.id = o.id ∧ o'.status = .needs_review ∧ o'.gateway_transaction_id = none := by
  have hsame : ∀ {t : WalletTopup}, t ∈ s.topups → t.order_id = event.order_id → t = o :=
    fun ht htorder => hs.orders.eq ht ho (htorder.trans horder.symm)
  cases h with
  | idle hidle _ _ => exact absurd hpend (hidle o ho horder)
  | review t reason ht htorder _ htop hq =>
    obtain rfl := hsame ht htorder
    refine ⟨hq.unmoved, underReview t reason, ?_, rfl, rfl, hs.pending t ht hpend⟩
    rw [htop]
    exact (Table.mem_modify_of_mem hs.ids ht rfl).mpr (.inl rfl)
  | closed t ht htorder _ hev hunused _ _ =>
    obtain rfl := hsame ht htorder
    rcases hfail with ⟨u, hu, hne, hg⟩ | ⟨hsucc, -⟩
    · exact absurd hg (hunused u hu hne)
    · exact absurd hsucc hev
  | paid t w row ht htorder _ _ _ hunused howner hst hkey hwid hrow _ hpost =>
    obtain rfl := hsame ht htorder
    rcases hfail with ⟨u, hu, hne, hg⟩ | ⟨-, hwallet⟩
    · exact absurd hg (hunused u hu hne)
    · obtain ⟨hw, hd⟩ := find?_driver howner
      rcases hwallet w hw hd with hlocked | hrange
      · rw [hst] at hlocked
        cases hlocked
      · obtain ⟨v, hv, hvid, hafter⟩ := hpost.wallet
        obtain rfl := hs.ledger.wallet_inj hv hw (.inl (hvid.trans hwid))
        exact absurd (hrow ▸ hafter ▸ hpost.after) hrange

end SettlementLemmas

/-- The top-up state machine, over every finite sequence of events in any order. -/
theorem topups_settled {digest : String → String} {s₀ s : TopupDb} (h₀ : PendingOrders s₀)
    (h : Deliveries digest s₀ s) : TopupStates digest s := by
  have hs : Settled s := h.settled h₀.settled
  refine ⟨fun o ho => succeeded_iff hs ho, fun r hr ht => ?_, fun r hr t ht htr htt href => ?_,
    fun s' hrun o ho hst => ?_, fun hidden event => ?_, fun hidden event o ho horder hpend hfail => ?_⟩
  · obtain ⟨o, ho, -, hg⟩ := hs.credits r hr ht
    exact ⟨o, ⟨ho, hg⟩, fun o' ⟨ho', hg'⟩ => hs.gateways o' ho' o ho _ hg' hg⟩
  · exact hs.ledger.key_inj hr ht (by simp [WalletLedger.key, htr, htt, href])
  · induction hrun with
    | refl => exact ho
    | tail hprev hd ih =>
      exact absorbing_step (Deliveries.settled hprev hs) hd ih hst
  · rcases wp_run (process_topup_webhook_callback hs digest hidden event) with
      ⟨r, s', hrun, -⟩ | ⟨_, _, _, hfalse⟩
    · exact ⟨r, s', hrun⟩
    · exact hfalse.elim
  · exact wp_state (P := fun u => Unmoved s.wallet u.wallet ∧ ∃ o' ∈ u.topups,
        o'.id = o.id ∧ o'.status = .needs_review ∧ o'.gateway_transaction_id = none)
      (wp_mono (process_topup_webhook_callback hs digest hidden event)
        (fun _ _ h => failed_step hs ho horder hpend hfail h) fun _ _ h => h.elim)

/-- One driver with an empty wallet and one pending order of 50 000. -/
def oneOrder : TopupDb where
  wallet :=
    { users := [⟨.sample 1, true, [.driver]⟩]
      wallets := [⟨.sample 2, .sample 1, 0, .active⟩]
      wallet_ledger := [], ledger_seq := 1, wallet_audits := [], audit_logs := [] }
  topups := [⟨.sample 3, .sample 1, 50000, .pending, "topup-1", none, none⟩]

/-- The payment of that order. -/
def onePayment : GatewayEvent where
  gateway_transaction_id := "vnp-1"
  order_id := "topup-1"
  amount_vnd := 50000
  status := .succeeded
  reason := none
  ids_ok := by decide
  amount_ok := fifty_thousand
  reason_ok := GatewayEvent.no_reason

theorem topups_settled_one_order :
    PendingOrders oneOrder ∧
      TopupStates id (process_topup_webhook id [] onePayment oneOrder).2 ∧
      (process_topup_webhook id [] onePayment oneOrder).2.topups.map (·.status) = [.succeeded] := by
  have h₀ : PendingOrders oneOrder :=
    ⟨Ok.of_empty rfl (by simp [oneOrder]) (by simp [oneOrder]), by simp [Table.Keyed, oneOrder],
      by simp [Table.Keyed, oneOrder], by simp [oneOrder], by simp [oneOrder]⟩
  exact ⟨h₀, topups_settled h₀ (Relation.ReflTransGen.single ⟨[], onePayment, rfl⟩), by decide +kernel⟩

end Csms.Wallets
