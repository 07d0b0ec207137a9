import Csms.Wallet.Settlement
import Csms.Payments.Vnpay

/-!
# One payment on two channels

A payment that VNPAY reports through an IPN and through QueryDR reaches `process_topup_webhook` as
two events, each any number of times.

Results:
1. `samePayment_events`: both channels build events of one order, amount, reference and outcome.
2. `deliver_money`: however often and in whichever order such events are delivered, the wallets and
   the ledger are those after one of them.
3. `channels_agree`: the two together.
-/

namespace Csms.Payments

open Tx Csms.Wallets VnpayLemmas PostingsLemmas SettlementLemmas

/-! ## 1. Events of one payment -/

/-- Two events of one payment. -/
structure SameEvent (e e' : GatewayEvent) : Prop where
  order_id : e.order_id = e'.order_id
  amount_vnd : e.amount_vnd = e'.amount_vnd
  reference : e.gateway_transaction_id = e'.gateway_transaction_id
  success : e.status = .succeeded ↔ e'.status = .succeeded

theorem SameEvent.symm {e e' : GatewayEvent} (h : SameEvent e e') : SameEvent e' e :=
  ⟨h.order_id.symm, h.amount_vnd.symm, h.reference.symm, h.success.symm⟩

theorem SameEvent.refl (e : GatewayEvent) : SameEvent e e := ⟨rfl, rfl, rfl, Iff.rfl⟩

/-- An IPN and an answer report the same merchant, order, amount, transaction and outcome; numbers may
have different leading zeros. -/
structure SamePayment (items data : List (String × String)) : Prop where
  merchant : items.lookup "vnp_TmnCode" = data.lookup "vnp_TmnCode"
  order : items.lookup "vnp_TxnRef" = data.lookup "vnp_TxnRef"
  amount : (items.lookup "vnp_Amount").map int = (data.lookup "vnp_Amount").map int
  transaction : (items.lookup "vnp_TransactionNo").map int = (data.lookup "vnp_TransactionNo").map int
  success : items.lookup "vnp_TransactionStatus" = some "00" ↔ data.lookup "vnp_TransactionStatus" = some "00"

/-- Both channels build the same event, up to the wording of a failure. -/
theorem samePayment_events {adapter : VnpayGateway} {items : List (String × String)} {e e' : GatewayEvent}
    {request_id order : String} {body : QueryBody} {data : List (String × String)} {result : QueryResult}
    (hipn : adapter.verify_query items = .ok e)
    (hquery : query_transaction adapter request_id order body = .ok result) (hevent : result.event = some e')
    (hdata : body.data = .ok data) (hsame : SamePayment items data) : SameEvent e e' := by
  obtain ⟨ref, amount, transaction, state, href, hamount, htransaction, hstate, he⟩ := verify_query_event hipn
  obtain ⟨data', hdata', horder, he'⟩ := query_transaction_event hquery hevent
  rw [hdata] at hdata'
  cases hdata'
  have hint : ∀ {v : String} {name : String}, (some v).map int = (data.lookup name).map int →
      int v = int (field data name) := by
    intro v name h
    obtain ⟨v', hv', hint⟩ := Option.map_eq_some_iff.mp h.symm
    rw [field, hv', Option.getD_some, hint]
  have hamt := hint (hamount ▸ hsame.amount)
  have htrans := hint (htransaction ▸ hsame.transaction)
  obtain rfl : ref = order := Option.some.inj (href.symm.trans (hsame.order.trans horder))
  refine ⟨he.order_id.trans he'.order_id.symm, ?_, ?_, ?_⟩
  · rw [he.amount, he'.amount, hamt]
  · rw [he.reference, he'.reference, transactionReference, transactionReference, htrans]
  · rw [he.success, he'.success]
    have hsucc := hsame.success
    rw [hstate, Option.some.injEq] at hsucc
    rw [hsucc, field]
    cases data.lookup "vnp_TransactionStatus" with
    | none => exact ⟨nofun, fun h => absurd h (by decide)⟩
    | some v => simp

/-! ## 2. What an event does to the money -/

/-- The wallets, and the keys of the ledger. -/
def money (w : WalletDb) : List Wallet × List (EntryType × String) :=
  (w.wallets, w.wallet_ledger.map (·.key))

/-- Wallets and ledger are the same. -/
structure Still (w w' : WalletDb) : Prop where
  wallets : w'.wallets = w.wallets
  ledger : w'.wallet_ledger = w.wallet_ledger

theorem Still.money {w w' : WalletDb} (h : Still w w') : money w' = money w := by
  rw [Payments.money, h.wallets, h.ledger]
  rfl

/-- No order of that id is pending. -/
def Closed (order_id : String) (s : TopupDb) : Prop :=
  ∀ o ∈ s.topups, o.order_id = order_id → o.status ≠ .pending

/-- The unique columns of the orders. -/
structure Orders (s : TopupDb) : Prop where
  ids : Table.Keyed WalletTopup.id s.topups
  orders : Table.Keyed WalletTopup.order_id s.topups

namespace ChannelsLemmas

theorem _warn_once_still (digest : String → String) (order_id : String) (topup : Option WalletTopup)
    (code : WarningCode) (s : TopupDb) :
    wp (_warn_once digest order_id topup code)
      (fun _ s' => s'.topups = s.topups ∧ Still s.wallet s'.wallet) (fun _ _ => False) s := by
  unfold _warn_once
  simp only [wp_bind, wp_read]
  rw [wp_ite]
  refine ⟨fun _ => ⟨rfl, rfl, rfl⟩, fun _ => ?_⟩
  simp only [wp_bind, onWallet, wp_zoom, ghi_nhat_ky, wp_write, wp_pure]
  exact ⟨trivial, rfl, rfl⟩

theorem _review_still (digest : String → String) (topup : WalletTopup) (code : WarningCode) (s : TopupDb) :
    wp (_review digest topup code)
      (fun _ s' => s'.topups = Table.modify WalletTopup.id topup.id (fun _ => reviewed topup code) s.topups ∧
        Still s.wallet s'.wallet) (fun _ _ => False) s := by
  have hid : (reviewed topup code).id = topup.id := by
    unfold reviewed
    split <;> rfl
  unfold _review
  simp only [wp_bind, saveTopup, wp_write, hid]
  exact wp_mono (_warn_once_still digest _ _ _ _) (fun _ _ h => h) fun _ _ h => h

theorem reviewed_status (topup : WalletTopup) (code : WarningCode) : (reviewed topup code).status ≠ .pending := by
  unfold reviewed
  split
  · next h => rcases h with h | h <;> simp [h]
  · simp

theorem reviewed_order (topup : WalletTopup) (code : WarningCode) :
    (reviewed topup code).order_id = topup.order_id := by
  unfold reviewed
  split <;> rfl

theorem settled_status {event : GatewayEvent} {topup : WalletTopup} (h : topup.status = .pending) :
    (settled event topup).status ≠ .pending := by
  cases hev : event.status <;> simp [settled, h, hev, TRANSITIONS]

/-- Writing an order that is no longer pending closes it. -/
theorem closed_of_modify {s s' : TopupDb} (hs : Orders s) {o o' : WalletTopup} (ho : o ∈ s.topups)
    (hstatus : o'.status ≠ .pending)
    (h : s'.topups = Table.modify WalletTopup.id o.id (fun _ => o') s.topups) : Closed o.order_id s' := by
  intro t ht horder
  rw [h] at ht
  rcases (Table.mem_modify_of_mem hs.ids ho rfl).mp ht with rfl | ⟨ht, hne⟩
  · exact hstatus
  · exact absurd (congrArg WalletTopup.id (hs.orders.eq ht ho horder)) hne

/-- A key that is in the ledger is not posted again. -/
theorem ghi_so_cai_still {s : WalletDb} {reference_id : String} {row : WalletLedger}
    (hrow : row ∈ s.wallet_ledger) (hkey : row.key = (.gateway_topup, Text.strip reference_id))
    (hidden : List ℕ) (wallet_id : Uuid) (amount_vnd : ℤ) (reference_type : String) :
    wp (ghi_so_cai hidden wallet_id .gateway_topup amount_vnd reference_type reference_id)
      (fun _ s' => Still s s') (fun _ _ => True) s := by
  unfold ghi_so_cai requiredAudit
  simp only [_integer_vnd, _lock_wallet, wp_bind, wp_raiseIf, wp_pure, wp_read, wp_orRaise, reduceCtorEq,
    if_false, implies_true, true_and]
  intro _ _ _ wallet _ _ _
  split
  · exact ⟨rfl, rfl⟩
  simp only [wp_bind, wp_raiseIf, wp_pure, wp_savepoint, implies_true, true_and]
  intro _ _
  unfold insertEntry
  simp only [wp_bind, wp_read, wp_write]
  split
  · trivial
  split
  · simp only [_matching_entry, wp_bind, wp_raiseIf, wp_pure, implies_true, true_and]
    exact fun _ => ⟨rfl, rfl⟩
  · next hnone => exact absurd (decide_eq_true hkey) (List.find?_eq_none.mp hnone row hrow)

theorem creditTopup_still {s : TopupDb} {event : GatewayEvent} {row : WalletLedger}
    (hrow : row ∈ s.wallet.wallet_ledger) (hkey : row.key = (.gateway_topup, event.gateway_transaction_id))
    (hidden : List ℕ) (topup : WalletTopup) :
    wp (creditTopup hidden event topup) (fun _ s' => Still s.wallet s'.wallet) (fun _ _ => True) s := by
  unfold creditTopup
  simp only [wp_bind, wp_read, wp_orRaise, onWallet, wp_zoom, wp_pure, implies_true, true_and]
  intro w _
  exact ghi_so_cai_still hrow (by rw [strip_gateway]; exact hkey) hidden w.id event.amount_vnd
    "gateway_transaction"

/-- As long as the key is free, no look-up depends on the rows that are hidden from it. -/
theorem creditTopup_congr {s : TopupDb} {e e' : GatewayEvent} (h : SameEvent e e')
    (hfree : ∀ r ∈ s.wallet.wallet_ledger, r.key ≠ (.gateway_topup, e.gateway_transaction_id))
    (hidden hidden' : List ℕ) (topup : WalletTopup) :
    creditTopup hidden e topup s = creditTopup hidden' e' topup s := by
  have hlookup : ∀ (hidden : List ℕ) (wallet_id : Uuid),
      s.wallet.lookup hidden wallet_id .gateway_topup (Text.strip e.gateway_transaction_id) = none := by
    intro hidden wallet_id
    rw [strip_gateway]
    refine List.find?_eq_none.mpr fun r hr => ?_
    simp [hfree r hr]
  have hentry : ∀ wallet_id : Uuid,
      ghi_so_cai hidden wallet_id .gateway_topup e.amount_vnd "gateway_transaction" e.gateway_transaction_id
        none s.wallet =
      ghi_so_cai hidden' wallet_id .gateway_topup e.amount_vnd "gateway_transaction" e.gateway_transaction_id
        none s.wallet := by
    intro wallet_id
    unfold ghi_so_cai
    -- the checks before the look-up leave the state as it is
    have hsame : ∀ {α : Type} {x : WalletTx α} {a : α} {w : WalletDb},
        wp x (fun _ w => w = s.wallet) (fun _ _ => True) s.wallet → x s.wallet = (.ok a, w) → w = s.wallet :=
      fun hx h => wp_ok hx h
    refine bind_congr fun _ w hw => ?_
    obtain rfl := hsame (by simp [_integer_vnd]) hw
    refine bind_congr fun _ w hw => ?_
    obtain rfl := hsame (by simp) hw
    refine bind_congr fun _ w hw => ?_
    obtain rfl := hsame (by simp) hw
    refine bind_congr fun wallet w hw => ?_
    obtain rfl := hsame (by simp [_lock_wallet]) hw
    refine bind_congr fun t w hw => ?_
    cases hw
    rw [hlookup hidden, hlookup hidden']
  unfold creditTopup
  rw [← h.amount_vnd, ← h.reference]
  refine bind_congr fun t u hu => ?_
  cases hu
  refine bind_congr fun w u hu => ?_
  obtain rfl : u = s := wp_ok (Q := fun _ u => u = s) (E := fun _ _ => True) (by simp) hu
  simp only [onWallet, zoom, hentry, bind]

/-- What an event does: it closes its order, and moves no money unless the order was pending and the
payment is a success. -/
structure Handled (event : GatewayEvent) (s s' : TopupDb) : Prop where
  orders : Orders s'
  closed : Closed event.order_id s'
  still : Closed event.order_id s → Still s.wallet s'.wallet
  ledger : money s'.wallet = money s.wallet ∨
    (money s'.wallet).2 = (money s.wallet).2 ++ [(.gateway_topup, event.gateway_transaction_id)]

variable {s s' : TopupDb} {event : GatewayEvent} {o : WalletTopup}

theorem Orders.modify (hs : Orders s) {o o' : WalletTopup} (ho : o ∈ s.topups) (hid : o'.id = o.id)
    (horder : o'.order_id = o.order_id)
    (h : s'.topups = Table.modify WalletTopup.id o.id (fun _ => o') s.topups) : Orders s' := by
  rw [Table.modify] at h
  have hkeep : ∀ t ∈ s.topups, (if t.id = o.id then o' else t).order_id = t.order_id := by
    intro t ht
    split
    · next heq => rw [horder, hs.ids.eq ht ho heq]
    · rfl
  refine ⟨h ▸ hs.ids.modify fun _ _ => hid, ?_⟩
  rw [Table.Keyed, h]
  refine List.pairwise_map.mpr (hs.orders.imp_of_mem fun {a b} ha hb hab => ?_)
  rwa [hkeep a ha, hkeep b hb]

theorem handled_of_review (hs : Orders s) (hfind : s.topups.find? (·.order_id = event.order_id) = some o)
    (digest : String → String) (code : WarningCode) {t : TopupDb} (htop : t.topups = s.topups)
    (hstill : Still s.wallet t.wallet) (f : WalletTopup × Option WebhookWarning → SettlementResult) :
    wp (_review digest o code >>= fun p => pure (f p)) (fun _ s' => Handled event s s') (fun _ _ => False) t := by
  have ho := List.mem_of_find?_eq_some hfind
  have horder : o.order_id = event.order_id := by simpa using List.find?_some hfind
  rw [wp_bind]
  refine wp_mono (_review_still digest o code t) ?_ fun _ _ h => h
  rintro p s' ⟨h1, h2⟩
  rw [htop] at h1
  have hid : (reviewed o code).id = o.id := by
    unfold reviewed
    split <;> rfl
  have hmoney : Still s.wallet s'.wallet := ⟨h2.wallets.trans hstill.wallets, h2.ledger.trans hstill.ledger⟩
  exact ⟨Orders.modify hs ho hid (reviewed_order o code) h1,
    horder ▸ closed_of_modify hs ho (reviewed_status o code) h1, fun _ => hmoney, .inl hmoney.money⟩

theorem handled_of_warning (hs : Orders s) (hclosed : Closed event.order_id s) (digest : String → String)
    (order_id : String) (topup : Option WalletTopup) (code : WarningCode)
    (f : Option WebhookWarning → SettlementResult) :
    wp (_warn_once digest order_id topup code >>= fun p => pure (f p)) (fun _ s' => Handled event s s')
      (fun _ _ => False) s := by
  rw [wp_bind]
  refine wp_mono (_warn_once_still digest order_id topup code s) ?_ fun _ _ h => h
  rintro p s' ⟨h1, h2⟩
  exact ⟨⟨h1 ▸ hs.ids, h1 ▸ hs.orders⟩, fun o ho => hclosed o (h1 ▸ ho), fun _ => h2, .inl h2.money⟩

theorem settle_handled (hs : Orders s) (hfind : s.topups.find? (·.order_id = event.order_id) = some o)
    (hpend : o.status = .pending) (hidden : List ℕ) :
    wp (settle hidden event o) (fun _ s' => Handled event s s') (fun e _ => reviewable e = true) s := by
  have ho := List.mem_of_find?_eq_some hfind
  have horder : o.order_id = event.order_id := by simpa using List.find?_some hfind
  have hnot : ¬ Closed event.order_id s := fun h => h o ho horder hpend
  unfold settle
  simp only [wp_bind, wp_read, wp_raiseIf]
  refine ⟨fun _ => rfl, fun _ => ?_⟩
  rw [saveTopup, wp_write]
  have hdone : ∀ {u : TopupDb}, u.topups = Table.modify WalletTopup.id o.id
        (fun _ => { o with gateway_transaction_id := some event.gateway_transaction_id }) s.topups →
      (money u.wallet = money s.wallet ∨
        (money u.wallet).2 = (money s.wallet).2 ++ [(.gateway_topup, event.gateway_transaction_id)]) →
      wp (do saveTopup (settled event o); pure (settled event o)) (fun _ s' => Handled event s s')
        (fun e _ => reviewable e = true) u := by
    intro u htop hmoney
    have hafter : Table.modify WalletTopup.id o.id (fun _ => settled event o) u.topups =
        Table.modify WalletTopup.id o.id (fun _ => settled event o) s.topups := by
      rw [htop]
      exact Table.modify_modify rfl
    simp only [wp_bind, saveTopup, wp_write, wp_pure]
    have hid : (settled event o).id = o.id := rfl
    exact ⟨Orders.modify hs ho hid rfl hafter,
      horder ▸ closed_of_modify hs ho (settled_status hpend) hafter, fun h => absurd h hnot, hmoney⟩
  split
  · rw [wp_bind]
    refine wp_mono (Q := fun _ u => u.topups = _ ∧ _) ?_ (fun _ u h => hdone h.1 h.2) fun _ _ h => h
    unfold creditTopup
    simp only [wp_bind, wp_read, wp_orRaise, onWallet, wp_zoom, wp_pure]
    refine ⟨fun _ => rfl, fun w hw => ?_⟩
    have hspec := ghi_so_cai_spec hidden w.id .gateway_topup event.amount_vnd "gateway_transaction"
      event.gateway_transaction_id none s.wallet
    have hreviewable : ∀ e : WalletFailure, e.isWalletError = true → reviewable e = true := by
      intro e he
      cases e <;> simp_all [reviewable, WalletFailure.isWalletError]
    by_cases hposted : ∃ r ∈ s.wallet.wallet_ledger, r.key = (.gateway_topup, event.gateway_transaction_id)
    · obtain ⟨r, hr, hkey⟩ := hposted
      refine wp_mono (wp_and hspec (ghi_so_cai_still hr (by rw [strip_gateway]; exact hkey) hidden w.id
        event.amount_vnd "gateway_transaction")) ?_ ?_
      · rintro row t ⟨-, hstill⟩
        exact ⟨trivial, .inl hstill.money⟩
      · rintro e t ⟨⟨-, he⟩, -⟩
        exact hreviewable e (he rfl rfl (gateway_reference event))
    · refine wp_mono hspec ?_ fun e t h => hreviewable e (h.2 rfl rfl (gateway_reference event))
      rintro row t ⟨hent, -⟩
      rw [strip_gateway] at hent
      rcases hent.change with ⟨hmem, -⟩ | hpost
      · exact absurd ⟨row, hmem, hent.key⟩ hposted
      · refine ⟨trivial, .inr ?_⟩
        simp only [money, hpost.ledger, List.map_append, List.map_cons, List.map_nil, hent.key]
  · exact hdone rfl (.inl rfl)

theorem process_topup_webhook_handled (hs : Orders s) (digest : String → String) (hidden : List ℕ)
    (event : GatewayEvent) :
    wp (process_topup_webhook digest hidden event) (fun _ s' => Handled event s s') (fun _ _ => False) s := by
  unfold process_topup_webhook
  simp only [wp_bind, wp_read]
  split
  · next hnone =>
    refine handled_of_warning hs (fun o ho horder => ?_) digest _ _ _ _
    exact absurd (by simpa using horder) (List.find?_eq_none.mp hnone o ho)
  next o hfind =>
  have ho := List.mem_of_find?_eq_some hfind
  have horder : o.order_id = event.order_id := by simpa using List.find?_some hfind
  have hreview : ∀ (code : WarningCode) (f : WalletTopup × Option WebhookWarning → SettlementResult),
      wp (_review digest o code >>= fun p => pure (f p)) (fun _ s' => Handled event s s') (fun _ _ => False) s :=
    fun code f => handled_of_review hs hfind digest code rfl ⟨rfl, rfl⟩ f
  split
  · exact hreview _ _
  split
  · exact hreview _ _
  split
  · next hnot =>
    have hclosed : Closed event.order_id s := fun t ht hto => by
      rwa [hs.orders.eq ht ho (hto.trans horder.symm)]
    unfold lateCallback
    split
    · exact handled_of_warning hs hclosed digest _ _ _ _
    split
    · exact hreview _ _
    split
    · exact handled_of_warning hs hclosed digest _ _ _ _
    · exact ⟨hs, hclosed, fun _ => ⟨rfl, rfl⟩, .inl rfl⟩
  · next hpend =>
    unfold settleOrReview
    rw [wp_attempt, wp_bind, wp_savepoint]
    refine wp_mono (settle_handled hs hfind (not_not.mp hpend) hidden) (fun _ _ h => h) fun e s' he => ?_
    rw [if_pos he]
    refine ⟨fun h => (by cases h), ?_⟩
    rintro y hy
    cases hy
    exact handled_of_review hs hfind digest .settlement_conflict (t := s.rollback s') rfl ⟨rfl, rfl⟩
      fun p => ⟨200, .order p.1.status, p.2⟩

/-- The event pays the order. -/
def Pays (s : TopupDb) (event : GatewayEvent) (o : WalletTopup) : Prop :=
  o.amount_vnd = event.amount_vnd ∧
  ¬ (o.gateway_transaction_id ≠ none ∧ o.gateway_transaction_id ≠ some event.gateway_transaction_id) ∧
  o.status = .pending ∧ event.status = .succeeded ∧
  ¬ ∃ t ∈ s.topups, t.id ≠ o.id ∧ t.gateway_transaction_id = some event.gateway_transaction_id

/-- The order with the reference of the payment, as the credit finds it. -/
def referred (s : TopupDb) (event : GatewayEvent) (o : WalletTopup) : TopupDb :=
  let marked := { o with gateway_transaction_id := some event.gateway_transaction_id }
  { s with topups := Table.modify WalletTopup.id o.id (fun _ => marked) s.topups }

/-- The money after the credit, or as it was when the credit is refused. -/
def credited (hidden : List ℕ) (event : GatewayEvent) (o : WalletTopup) (s : TopupDb) :
    List Wallet × List (EntryType × String) :=
  match creditTopup hidden event o (referred s event o) with
  | (.ok _, u) => money u.wallet
  | (.error _, _) => money s.wallet

open Classical in
/-- The money after an event. -/
noncomputable def moneyAfter (hidden : List ℕ) (event : GatewayEvent) (s : TopupDb) :
    List Wallet × List (EntryType × String) :=
  match s.topups.find? (·.order_id = event.order_id) with
  | none => money s.wallet
  | some o => if Pays s event o then credited hidden event o s else money s.wallet

theorem settleOrReview_money (digest : String → String) (hidden : List ℕ) (hpend : o.status = .pending)
    (hamount : o.amount_vnd = event.amount_vnd)
    (hgateway : ¬ (o.gateway_transaction_id ≠ none ∧
      o.gateway_transaction_id ≠ some event.gateway_transaction_id)) {m : List Wallet × List (EntryType × String)}
    (hpays : Pays s event o → m = credited hidden event o s) (hnot : ¬ Pays s event o → m = money s.wallet) :
    wp (settleOrReview digest hidden event o) (fun _ s' => money s'.wallet = m)
      (fun _ s' => money s'.wallet = m) s := by
  have hfail : m = money s.wallet → ∀ (e : WalletFailure) (s' : TopupDb),
      ((if reviewable e then some (do
          let p ← _review digest o .settlement_conflict
          return ⟨200, .order p.1.status, p.2⟩ : TopupTx SettlementResult) else none) = none →
        money (s.rollback s').wallet = m) ∧
      ∀ y, (if reviewable e then some (do
          let p ← _review digest o .settlement_conflict
          return ⟨200, .order p.1.status, p.2⟩ : TopupTx SettlementResult) else none) = some y →
        wp y (fun _ s' => money s'.wallet = m) (fun _ s' => money s'.wallet = m) (s.rollback s') := by
    intro hm e s'
    refine ⟨fun _ => hm.symm, fun y hy => ?_⟩
    split at hy
    · cases hy
      rw [wp_bind]
      refine wp_mono (_review_still digest o .settlement_conflict _) ?_ fun _ _ h => h.elim
      rintro p u ⟨-, hstill⟩
      exact hstill.money.trans hm.symm
    · cases hy
  unfold settleOrReview
  rw [wp_attempt, wp_bind, wp_savepoint]
  unfold settle
  simp only [wp_bind, wp_read, wp_raiseIf]
  refine ⟨fun htaken => hfail (hnot fun h => h.2.2.2.2 htaken) _ _, fun hfree => ?_⟩
  rw [saveTopup, wp_write]
  split
  · next hsucc =>
    have hm := hpays ⟨hamount, hgateway, hpend, hsucc, hfree⟩
    rw [wp_bind, wp]
    split
    · next a u hc =>
      replace hc : creditTopup hidden event o (referred s event o) = (.ok a, u) := hc
      rw [credited, hc] at hm
      exact hm.symm
    · next e u hc =>
      replace hc : creditTopup hidden event o (referred s event o) = (.error e, u) := hc
      rw [credited, hc] at hm
      exact hfail hm e u
  · next hother => exact (hnot fun h => hother h.2.2.2.1).symm

theorem process_topup_webhook_moneyAfter (digest : String → String) (hidden : List ℕ) (event : GatewayEvent)
    (s : TopupDb) :
    money (process_topup_webhook digest hidden event s).2.wallet = moneyAfter hidden event s := by
  refine wp_state (P := fun u : TopupDb => money u.wallet = moneyAfter hidden event s) ?_
  have hwarn : ∀ (order_id : String) (topup : Option WalletTopup) (code : WarningCode)
      (f : Option WebhookWarning → SettlementResult), moneyAfter hidden event s = money s.wallet →
      wp (_warn_once digest order_id topup code >>= fun p => pure (f p))
        (fun _ u => money u.wallet = moneyAfter hidden event s)
        (fun _ u => money u.wallet = moneyAfter hidden event s) s := by
    intro order_id topup code f hm
    rw [wp_bind]
    refine wp_mono (_warn_once_still digest order_id topup code s) ?_ fun _ _ h => h.elim
    rintro p u ⟨-, hstill⟩
    exact hstill.money.trans hm.symm
  have hreview : ∀ (o : WalletTopup) (code : WarningCode)
      (f : WalletTopup × Option WebhookWarning → SettlementResult), moneyAfter hidden event s = money s.wallet →
      wp (_review digest o code >>= fun p => pure (f p))
        (fun _ u => money u.wallet = moneyAfter hidden event s)
        (fun _ u => money u.wallet = moneyAfter hidden event s) s := by
    intro o code f hm
    rw [wp_bind]
    refine wp_mono (_review_still digest o code s) ?_ fun _ _ h => h.elim
    rintro p u ⟨-, hstill⟩
    exact hstill.money.trans hm.symm
  unfold process_topup_webhook
  simp only [wp_bind, wp_read]
  split
  · next hnone => exact hwarn _ _ _ _ (by rw [moneyAfter, hnone])
  next o hfind =>
  have hpays : Pays s event o → moneyAfter hidden event s = credited hidden event o s := fun h => by
    simp only [moneyAfter, hfind, if_pos h]
  have hnot : ¬ Pays s event o → moneyAfter hidden event s = money s.wallet := fun h => by
    simp only [moneyAfter, hfind, if_neg h]
  split
  · next h => exact hreview _ _ _ (hnot fun hp => h hp.1)
  next hamount =>
  split
  · next h => exact hreview _ _ _ (hnot fun hp => hp.2.1 h)
  next hgateway =>
  split
  · next h =>
    have hm := hnot fun hp => h hp.2.2.1
    unfold lateCallback
    split
    · exact hwarn _ _ _ _ hm
    split
    · exact hreview _ _ _ hm
    split
    · exact hwarn _ _ _ _ hm
    · exact hm.symm
  · next hpend =>
    exact settleOrReview_money digest hidden (not_not.mp hpend) (not_not.mp hamount) hgateway hpays hnot

/-- The first of two events of one payment moves the same money, whichever it is. -/
theorem moneyAfter_congr {e e' : GatewayEvent} (hsame : SameEvent e e') (hidden hidden' : List ℕ)
    (s : TopupDb) : moneyAfter hidden e s = moneyAfter hidden' e' s := by
  unfold moneyAfter
  rw [hsame.order_id]
  split
  · rfl
  next o _ =>
  have hpays : Pays s e o ↔ Pays s e' o := by
    unfold Pays
    rw [hsame.amount_vnd, hsame.reference, hsame.success]
  have href : referred s e o = referred s e' o := by rw [referred, referred, hsame.reference]
  by_cases hp : Pays s e o
  · rw [if_pos hp, if_pos (hpays.mp hp)]
    unfold credited
    rw [← href]
    by_cases hposted : ∃ r ∈ s.wallet.wallet_ledger, r.key = (.gateway_topup, e.gateway_transaction_id)
    · have hkeep : ∀ (f : GatewayEvent), f.gateway_transaction_id = e.gateway_transaction_id → ∀ hidden,
          (match creditTopup hidden f o (referred s e o) with
            | (.ok _, u) => money u.wallet
            | (.error _, _) => money s.wallet) = money s.wallet := by
        intro f hf hidden
        obtain ⟨r, hr, hkey⟩ := hposted
        have := @creditTopup_still (referred s e o) f r hr (hf ▸ hkey) hidden o
        unfold wp at this
        split
        · next hc => rw [hc] at this; exact this.money
        · rfl
      rw [hkeep e rfl, hkeep e' hsame.reference.symm]
    · rw [creditTopup_congr (s := referred s e o) hsame (fun r hr hkey => hposted ⟨r, hr, hkey⟩) hidden hidden']
  · rw [if_neg hp, if_neg fun h => hp (hpays.mpr h)]

end ChannelsLemmas

open ChannelsLemmas

/-! ## 3. Deliveries -/

/-- Deliveries of events one after the other, each with the rows that are hidden from it. -/
def deliver (digest : String → String) (deliveries : List (List ℕ × GatewayEvent)) (s : TopupDb) : TopupDb :=
  deliveries.foldl (fun s d => (process_topup_webhook digest d.1 d.2 s).2) s

/-- Further events of a closed order move nothing. -/
theorem deliver_closed (digest : String → String) {order_id : String} :
    ∀ {deliveries : List (List ℕ × GatewayEvent)} {s : TopupDb}, Orders s → Closed order_id s →
      (∀ d ∈ deliveries, d.2.order_id = order_id) →
      money (deliver digest deliveries s).wallet = money s.wallet
  | [], _, _, _, _ => rfl
  | d :: deliveries, s, hs, hclosed, hall => by
    have horder := hall d List.mem_cons_self
    have hd : Handled d.2 s (process_topup_webhook digest d.1 d.2 s).2 :=
      wp_state (wp_mono (process_topup_webhook_handled hs digest d.1 d.2) (fun _ _ h => h) fun _ _ h => h.elim)
    calc money (deliver digest (d :: deliveries) s).wallet
        = money (process_topup_webhook digest d.1 d.2 s).2.wallet :=
          deliver_closed digest hd.orders (horder ▸ hd.closed) fun x hx => hall x (List.mem_cons_of_mem _ hx)
      _ = money s.wallet := (hd.still (horder.symm ▸ hclosed)).money

/-- However often and in whichever order the events of a payment are delivered, the money is that after
one of them, delivered once. -/
theorem deliver_money {s : TopupDb} (hs : Orders s) (digest : String → String) {e : GatewayEvent}
    {deliveries : List (List ℕ × GatewayEvent)} (hne : deliveries ≠ [])
    (hall : ∀ d ∈ deliveries, SameEvent e d.2) (hidden : List ℕ) :
    money (deliver digest deliveries s).wallet = money (process_topup_webhook digest hidden e s).2.wallet := by
  cases deliveries with
  | nil => exact absurd rfl hne
  | cons d deliveries =>
    have hsame := hall d List.mem_cons_self
    have hd : Handled d.2 s (process_topup_webhook digest d.1 d.2 s).2 :=
      wp_state (wp_mono (process_topup_webhook_handled hs digest d.1 d.2) (fun _ _ h => h) fun _ _ h => h.elim)
    have hrest : ∀ x ∈ deliveries, x.2.order_id = d.2.order_id := fun x hx =>
      (hall x (List.mem_cons_of_mem _ hx)).order_id.symm.trans hsame.order_id
    calc money (deliver digest (d :: deliveries) s).wallet
        = money (process_topup_webhook digest d.1 d.2 s).2.wallet :=
          deliver_closed digest hd.orders hd.closed hrest
      _ = moneyAfter d.1 d.2 s := process_topup_webhook_moneyAfter digest d.1 d.2 s
      _ = moneyAfter hidden e s := moneyAfter_congr hsame.symm d.1 hidden s
      _ = money (process_topup_webhook digest hidden e s).2.wallet :=
          (process_topup_webhook_moneyAfter digest hidden e s).symm

/-- A payment reported through both channels gives events of one order, amount, reference and outcome.
Delivered in any order and any number of times, they leave the wallets and the keys of the ledger that
one of them leaves, with at most one credit. -/
theorem channels_agree {adapter : VnpayGateway} {items : List (String × String)} {e e' : GatewayEvent}
    {request_id order : String} {body : QueryBody} {data : List (String × String)} {result : QueryResult}
    (hipn : adapter.verify_query items = .ok e)
    (hquery : query_transaction adapter request_id order body = .ok result) (hevent : result.event = some e')
    (hdata : body.data = .ok data) (hsame : SamePayment items data) :
    SameEvent e e' ∧ ∀ (digest : String → String) (s : TopupDb), Orders s →
      ∀ deliveries : List (List ℕ × GatewayEvent), deliveries ≠ [] →
        (∀ d ∈ deliveries, d.2 = e ∨ d.2 = e') → ∀ (hidden : List ℕ) (once : GatewayEvent),
        once = e ∨ once = e' →
        money (deliver digest deliveries s).wallet =
          money (process_topup_webhook digest hidden once s).2.wallet ∧
        ((money (deliver digest deliveries s).wallet).2 = (money s.wallet).2 ∨
          (money (deliver digest deliveries s).wallet).2 =
            (money s.wallet).2 ++ [(.gateway_topup, once.gateway_transaction_id)]) := by
  have hev := samePayment_events hipn hquery hevent hdata hsame
  refine ⟨hev, fun digest s hs deliveries hne hall hidden once honce => ?_⟩
  have hagree : ∀ d ∈ deliveries, SameEvent once d.2 := by
    intro d hd
    rcases honce with rfl | rfl <;> rcases hall d hd with h | h <;> rw [h]
    · exact .refl _
    · exact hev
    · exact hev.symm
    · exact .refl _
  have hmoney := deliver_money hs digest hne hagree hidden
  refine ⟨hmoney, ?_⟩
  rw [hmoney]
  have hone : Handled once s (process_topup_webhook digest hidden once s).2 :=
    wp_state (wp_mono (process_topup_webhook_handled hs digest hidden once) (fun _ _ h => h) fun _ _ h => h.elim)
  rcases hone.ledger with h | h
  · exact .inl (by rw [h])
  · exact .inr h

namespace OnePayment

/-- The signature of the IPN below, and that of the answer. -/
def ipnHash : String :=
  "9427938dda396f84b93769483fd84673d141d23a2f8022a047545e90574cf6e5" ++
  "c8811c62f7075ea6db6a2ae9e162926542f4dfbe35a9bdf7879db4dc5c77acb7"
def answerHash : String :=
  "6ee8a65f4cf1a91e915f707645cc7a6587ce301ebf51b061c3aaf5ae40bcee0a" ++
  "43db47912bb0d9697bfaf5009b09e63d709732256504d743cc0051cce579021d"

/-- HMAC-SHA512 under a secret, at the two texts. -/
def adapter : VnpayGateway where
  tmn_code := "CSMS0001"
  hmac := fun text =>
    if text = "vnp_Amount=005000000&vnp_ResponseCode=00&vnp_TmnCode=CSMS0001" ++
      "&vnp_TransactionNo=0014422574&vnp_TransactionStatus=00&vnp_TxnRef=topup1" then
      ipnHash
    else if text = "a1b2|querydr|00||CSMS0001|topup1|5000000|||14422574|01|00|||" then answerHash
    else ""

/-- A payment of 50 000, with leading zeros in the IPN. -/
def items : List (String × String) :=
  [("vnp_TmnCode", "CSMS0001"), ("vnp_Amount", "005000000"), ("vnp_ResponseCode", "00"),
    ("vnp_TransactionStatus", "00"), ("vnp_TransactionNo", "0014422574"), ("vnp_TxnRef", "topup1"),
    ("vnp_SecureHash", ipnHash)]

def data : List (String × String) :=
  [("vnp_ResponseId", "a1b2"), ("vnp_Command", "querydr"), ("vnp_ResponseCode", "00"),
    ("vnp_TmnCode", "CSMS0001"), ("vnp_TxnRef", "topup1"), ("vnp_Amount", "5000000"),
    ("vnp_TransactionNo", "14422574"), ("vnp_TransactionType", "01"), ("vnp_TransactionStatus", "00"),
    ("vnp_SecureHash", answerHash)]

def answer : QueryBody := .object (data.map fun f => (f.1, some f.2))

def payment : GatewayEvent where
  gateway_transaction_id := "vnpay:14422574"
  order_id := "topup1"
  amount_vnd := 50000
  status := .succeeded
  reason := none
  ids_ok := VnpayLemmas.sample_ids
  amount_ok := fifty_thousand
  reason_ok := GatewayEvent.no_reason

/-- The driver of `oneOrder` with a pending order of 50 000. -/
def pending : TopupDb :=
  { oneOrder with topups := oneOrder.topups.map fun o => { o with order_id := "topup1" } }

theorem verified : adapter.verify_query items = .ok payment := by decide +kernel

theorem queried : query_transaction adapter "1" "topup1" answer =
    .ok ⟨"1", "00", some "00", some payment⟩ := by decide +kernel

end OnePayment

open OnePayment

theorem channels_agree_one_payment :
    money (deliver id [([], payment), ([], payment), ([], payment)] pending).wallet =
      money (process_topup_webhook id [] payment pending).2.wallet ∧
    (money (process_topup_webhook id [] payment pending).2.wallet).2 = [(.gateway_topup, "vnpay:14422574")] := by
  have hsame : SamePayment items data :=
    ⟨by decide +kernel, by decide +kernel, by decide +kernel, by decide +kernel, by decide +kernel⟩
  have hdata : answer.data = .ok data := by decide +kernel
  have h := channels_agree verified queried rfl hdata hsame
  have horders : Orders pending :=
    ⟨by simp [Table.Keyed, pending, oneOrder], by simp [Table.Keyed, pending, oneOrder]⟩
  exact ⟨(h.2 id pending horders _ (by simp) (by simp) [] payment (.inl rfl)).1, by decide +kernel⟩

end Csms.Payments
