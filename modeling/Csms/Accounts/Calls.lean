import Csms.Reservations.System
import Csms.Wallet.Replays
import Csms.Wallet.Settlement

/-!
# All calls that move money

`Call` lists the calls that may post to the ledger, with everything they read from outside; `Books`
holds the tables they write. `Step` runs a call, undone or not when it raises; the rest of the
program may change orders, reservations, audits and the status of wallets at any time.

Results:
1. `run_spec`: a call posts at most one row, under its own key, and none when it raises.
2. `run_replay`: a call whose key is posted already.
3. `ledger_consistent`: the ledger in every reachable state.
-/

namespace Csms.Accounts

open Tx Csms.Wallets Csms.Reservations PostingsLemmas

/-! ## 1. Calls -/

structure Books where
  wallet : WalletDb
  topups : List WalletTopup
  reservations : List Reservation
  ocpp_seq : ℕ

inductive Call where
  | ensure_driver_wallet (new_id driver_id : Uuid)
  | ghi_so_cai (hidden : List ℕ) (wallet_id : Uuid) (entry_type : EntryType) (amount_vnd : ℤ)
      (reference_type reference_id : String) (actor_id : Option Uuid)
  | tru_vi (hidden : List ℕ) (new_id : Uuid) (invoices : List Invoice) (invoice : Option Invoice)
      (session_id : Option ℕ) (wallet_id actor_id : Option Uuid)
  | nap_tay (hidden hidden' : List ℕ) (max_vnd : ℤ) (driver_id actor_id : Uuid) (request : ManualTopupRequest)
  | dieu_chinh_vi (hidden hidden' : List ℕ) (wallet_id actor_id : Uuid) (amount_vnd : ℤ) (reason : String)
      (audit_id : Uuid)
  | phuc_hoi_so_du_cache (audit_id wallet_id actor_id : Uuid) (reason : String)
  | process_topup_webhook (digest : String → String) (hidden : List ℕ) (event : GatewayEvent)
  | fee_one (hidden : List ℕ) (env : Environment) (reservation_id : Uuid)

/-- What a call gives back: the id of a ledger row, something else, or an exception. -/
inductive Reply where
  | row (id : ℕ) | done | raised
  deriving DecidableEq, Repr

/-- A computation on a part of the books. -/
def perform {σ ε α : Type} (get : Books → σ) (put : σ → Books → Books) (reply : α → Reply) (x : Tx σ ε α)
    (s : Books) : Reply × Books :=
  match x (get s) with
  | (.ok a, t) => (reply a, put t s)
  | (.error _, t) => (.raised, put t s)

def onWallets {α : Type} (reply : α → Reply) (x : WalletTx α) : Books → Reply × Books :=
  perform Books.wallet (fun w s => { s with wallet := w }) reply x

def Call.run : Call → Books → Reply × Books
  | .ensure_driver_wallet new_id driver_id =>
    onWallets (fun _ => .done) (Wallets.ensure_driver_wallet new_id driver_id)
  | .ghi_so_cai hidden wallet_id entry_type amount_vnd reference_type reference_id actor_id =>
    onWallets (fun r => .row r.id)
      (Wallets.ghi_so_cai hidden wallet_id entry_type amount_vnd reference_type reference_id actor_id)
  | .tru_vi hidden new_id invoices invoice session_id wallet_id actor_id =>
    onWallets (fun r => r.elim .done fun r => .row r.id)
      (Wallets.tru_vi hidden new_id invoices invoice session_id wallet_id actor_id)
  | .nap_tay hidden hidden' max_vnd driver_id actor_id request =>
    onWallets (fun r => .row r.ledger_id)
      (Wallets.nap_tay hidden hidden' max_vnd driver_id actor_id request)
  | .dieu_chinh_vi hidden hidden' wallet_id actor_id amount_vnd reason audit_id =>
    onWallets (fun r => .row r.id)
      (Wallets.dieu_chinh_vi hidden hidden' wallet_id actor_id amount_vnd reason audit_id)
  | .phuc_hoi_so_du_cache audit_id wallet_id actor_id reason =>
    onWallets (fun _ => .done) (Wallets.phuc_hoi_so_du_cache audit_id wallet_id actor_id reason)
  | .process_topup_webhook digest hidden event =>
    perform (fun s => (⟨s.wallet, s.topups⟩ : TopupDb))
      (fun t s => { s with wallet := t.wallet, topups := t.topups }) (fun _ => .done)
      (Wallets.process_topup_webhook digest hidden event)
  | .fee_one hidden env reservation_id =>
    perform (fun s => (⟨s.wallet, s.reservations, s.ocpp_seq⟩ : ReservationDb))
      (fun t s => { s with wallet := t.wallet, reservations := t.reservations, ocpp_seq := t.ocpp_seq })
      (fun _ => .done) (Reservations.fee_one hidden env reservation_id)

/-- The key under which a call posts. -/
def Call.key : Call → Option (EntryType × String)
  | .ensure_driver_wallet _ _ | .phuc_hoi_so_du_cache _ _ _ _ => none
  | .ghi_so_cai _ _ entry_type _ _ reference_id _ => some (entry_type, Text.strip reference_id)
  | .tru_vi _ _ invoices invoice session_id _ _ =>
    (invoiceFor invoices invoice session_id).map fun i => (.charging_debit, toString i.session_id)
  | .nap_tay _ _ _ _ _ request => some (.manual_topup, Text.strip request.code)
  | .dieu_chinh_vi _ _ _ _ _ _ audit_id => some (.adjustment, audit_id.text)
  | .process_topup_webhook _ _ event => some (.gateway_topup, event.gateway_transaction_id)
  | .fee_one _ _ reservation_id => some (.reservation_fee, reservation_id.text)

/-- The reference type of the row it posts. -/
def Call.reference : Call → String
  | .ensure_driver_wallet _ _ | .phuc_hoi_so_du_cache _ _ _ _ => ""
  | .ghi_so_cai _ _ _ _ reference_type _ _ => Text.strip reference_type
  | .tru_vi _ _ _ _ _ _ _ => "charging_session"
  | .nap_tay _ _ _ _ _ _ => "manual_topup"
  | .dieu_chinh_vi _ _ _ _ _ _ _ => "audit"
  | .process_topup_webhook _ _ _ => "gateway_transaction"
  | .fee_one _ _ _ => "reservation"

/-- What a call is refused for when `row` has its key. -/
def Call.Refused (s : Books) (row : WalletLedger) : Call → Prop
  | .ensure_driver_wallet _ _ | .phuc_hoi_so_du_cache _ _ _ _ => True
  | .ghi_so_cai _ wallet_id entry_type amount_vnd reference_type reference_id actor_id =>
    EntryRefused s.wallet row wallet_id entry_type amount_vnd reference_type reference_id actor_id
  | .tru_vi _ _ invoices invoice session_id wallet_id _ =>
    ∃ i, invoiceFor invoices invoice session_id = some i ∧ DebitRefused s.wallet row i session_id wallet_id
  | .nap_tay _ _ max_vnd driver_id actor_id request =>
    TopupRefused s.wallet row max_vnd driver_id actor_id request
  | .dieu_chinh_vi _ _ wallet_id actor_id amount_vnd reason audit_id =>
    AdjustmentRefused s.wallet row wallet_id actor_id amount_vnd reason audit_id
  | .process_topup_webhook _ _ _ => False
  | .fee_one _ env reservation_id => ∃ r ∈ s.reservations, r.id = reservation_id ∧
      (lock_target? env r.connector_id = none ∨ ∃ w ∈ s.wallet.wallets, w.driver_id = r.driver_id ∧
        EntryRefused s.wallet row w.id .reservation_fee (-r.fee_vnd) "reservation" r.id.text none)

/-- One call, or a change by the rest of the program. -/
inductive Step : Books → Books → Prop
  | call (c : Call) (s : Books) : Step s (c.run s).2
  | undone (c : Call) (s : Books) (raised : (c.run s).1 = .raised) :
      Step s { s with wallet := s.wallet.rollback (c.run s).2.wallet }
  | rest (s s' : Books) (quiet : Quiet s.wallet s'.wallet) : Step s s'

def Reach : Books → Books → Prop := Relation.ReflTransGen Step

/-! ## 2. What a call posts -/

namespace CallsLemmas

open SettlementLemmas ReplaysLemmas

theorem perform_of_wp {σ ε α : Type} {get : Books → σ} (put : σ → Books → Books) (reply : α → Reply)
    {x : Tx σ ε α} {s : Books} {Q : α → σ → Prop} {E : ε → σ → Prop} (h : wp x Q E (get s)) :
    (∃ a t, perform get put reply x s = (reply a, put t s) ∧ Q a t) ∨
    ∃ e t, perform get put reply x s = (.raised, put t s) ∧ E e t := by
  unfold perform
  rcases wp_run h with ⟨a, t, hx, hQ⟩ | ⟨e, t, hx, hE⟩
  · exact .inl ⟨a, t, by rw [hx], hQ⟩
  · exact .inr ⟨e, t, by rw [hx], hE⟩

/-- The credit of a payment, whatever the orders are. -/
theorem creditTopup_effect (hidden : List ℕ) (event : GatewayEvent) (topup : WalletTopup) (s : TopupDb) :
    wp (creditTopup hidden event topup)
      (fun _ s' => Effect (.gateway_topup, event.gateway_transaction_id) "gateway_transaction" s.wallet s'.wallet)
      (fun e s' => reviewable e = true ∧ s.wallet.ledger_seq ≤ s'.wallet.ledger_seq) s := by
  unfold creditTopup
  simp only [wp_bind, wp_read, wp_orRaise, onWallet, wp_zoom, wp_pure]
  refine ⟨fun _ => ⟨rfl, le_rfl⟩, fun w hw => ?_⟩
  refine wp_mono (ghi_so_cai_spec hidden w.id .gateway_topup event.amount_vnd "gateway_transaction"
    event.gateway_transaction_id none s.wallet) ?_ fun e s' h => ⟨?_, h.1.seq⟩
  · rintro row s' ⟨hent, href, -⟩
    rw [strip_gateway] at hent
    exact hent.effect (.refl _) href
  · have hkind := h.2 rfl rfl (gateway_reference event)
    cases e <;> simp_all [reviewable, WalletFailure.isWalletError]

theorem process_topup_webhook_effect (digest : String → String) (hidden : List ℕ) (event : GatewayEvent)
    (s : TopupDb) :
    wp (process_topup_webhook digest hidden event)
      (fun _ s' => Effect (.gateway_topup, event.gateway_transaction_id) "gateway_transaction" s.wallet s'.wallet)
      (fun _ _ => False) s := by
  have hreview : ∀ o code (f : WalletTopup × Option WebhookWarning → TopupTx SettlementResult) t,
      Quiet s.wallet t.wallet → (∀ p, ∃ a, f p = pure a) →
      wp (_review digest o code >>= f)
        (fun _ s' => Effect (.gateway_topup, event.gateway_transaction_id) "gateway_transaction" s.wallet s'.wallet)
        (fun _ _ => False) t := by
    intro o code f t hq hf
    rw [wp_bind]
    refine wp_mono (_review_spec digest o code t) ?_ fun _ _ h => h
    rintro p s' ⟨-, h2⟩
    obtain ⟨a, ha⟩ := hf p
    rw [ha]
    exact .inl (hq.trans h2)
  have hwarn : ∀ id o code (f : Option WebhookWarning → TopupTx SettlementResult), (∀ p, ∃ a, f p = pure a) →
      wp (_warn_once digest id o code >>= f)
        (fun _ s' => Effect (.gateway_topup, event.gateway_transaction_id) "gateway_transaction" s.wallet s'.wallet)
        (fun _ _ => False) s := by
    intro id o code f hf
    rw [wp_bind]
    refine wp_mono (_warn_once_spec digest id o code s) ?_ fun _ _ h => h
    rintro p s' ⟨-, h2⟩
    obtain ⟨a, ha⟩ := hf p
    rw [ha]
    exact .inl h2
  unfold process_topup_webhook
  simp only [wp_bind, wp_read]
  split
  · exact hwarn _ _ _ _ fun p => ⟨_, rfl⟩
  next o _ =>
  split
  · exact hreview _ _ _ s (.refl _) fun p => ⟨_, rfl⟩
  split
  · exact hreview _ _ _ s (.refl _) fun p => ⟨_, rfl⟩
  split
  · unfold lateCallback
    split
    · exact hwarn _ _ _ _ fun p => ⟨_, rfl⟩
    split
    · exact hreview _ _ _ s (.refl _) fun p => ⟨_, rfl⟩
    split
    · exact hwarn _ _ _ _ fun p => ⟨_, rfl⟩
    · exact .inl (.refl _)
  · unfold settleOrReview
    rw [wp_attempt, wp_bind, wp_savepoint]
    have hsettle : wp (settle hidden event o)
        (fun _ s' => Effect (.gateway_topup, event.gateway_transaction_id) "gateway_transaction" s.wallet s'.wallet)
        (fun e s' => reviewable e = true ∧ s.wallet.ledger_seq ≤ s'.wallet.ledger_seq) s := by
      unfold settle
      simp only [wp_bind, wp_read, wp_raiseIf]
      refine ⟨fun _ => ⟨rfl, le_rfl⟩, fun _ => ?_⟩
      rw [saveTopup, wp_write]
      split
      · rw [wp_bind]
        exact wp_mono (creditTopup_effect hidden event o _) (fun _ _ h => h) fun _ _ h => h
      · exact .inl (.refl _)
    refine wp_mono hsettle (fun _ _ h => h) ?_
    rintro e s' ⟨hrev, hseq⟩
    rw [if_pos hrev]
    refine ⟨nofun, ?_⟩
    rintro y hy
    cases hy
    exact hreview _ _ _ _ (quiet_rollback hseq) fun p => ⟨_, rfl⟩

/-- `fee_one` posts at most the fee of its reservation. What it raises for, `E`, comes from the lock of
the charge point or from `ghi_so_cai`. -/
theorem fee_one_effect {E : ReservationFailure → ReservationDb → Prop} (hidden : List ℕ) (env : Environment)
    (reservation_id : Uuid) (s : ReservationDb)
    (hlock : ∀ r ∈ s.reservations, r.id = reservation_id → lock_target? env r.connector_id = none →
      E (.http 404 "resource_not_found") s)
    (hentry : ∀ r ∈ s.reservations, r.id = reservation_id → ∀ w ∈ s.wallet.wallets,
      w.driver_id = r.driver_id → wp (ghi_so_cai hidden w.id .reservation_fee (-r.fee_vnd) "reservation" r.id.text)
        (fun _ t => Effect (.reservation_fee, reservation_id.text) "reservation" s.wallet t)
        (fun e t => E (.wallet e) { s with wallet := t }) s.wallet) :
    wp (fee_one hidden env reservation_id)
      (fun _ s' => Effect (.reservation_fee, reservation_id.text) "reservation" s.wallet s'.wallet) E s := by
  unfold fee_one lock_target
  simp only [wp_bind, wp_read]
  split
  · exact .inl (.refl _)
  next r hr =>
  obtain ⟨hmem, hid⟩ := SystemLemmas.mem_of_find hr
  simp only [wp_bind, wp_orRaise]
  refine ⟨hlock r hmem hid, fun target _ => ?_⟩
  split
  · exact .inl (.refl _)
  have hkeep : ∀ x : Reservation, wp (save x)
      (fun _ s' => Effect (.reservation_fee, reservation_id.text) "reservation" s.wallet s'.wallet) E s :=
    fun _ => .inl (.refl _)
  unfold decideFee
  split
  · exact hkeep _
  split
  · exact hkeep _
  split
  · exact hkeep _
  split
  · exact hkeep _
  split
  · exact hkeep _
  have hm := (moves_observe_expiry env target r).trans
    (moves_request_release _ env.now env.new_id .expired none)
  unfold chargeFee
  simp only [wp_bind, wp_read]
  split
  · exact hkeep _
  next w hw =>
  split
  · exact hkeep _
  obtain ⟨hwmem, hwd⟩ := find?_driver hw
  rw [wp_bind, wp_zoom, hm.id, hm.fee_vnd]
  exact wp_mono (hentry r hmem hid w hwmem (hwd.trans hm.driver_id)) (fun _ _ h => h) fun _ _ h => h

end CallsLemmas

open CallsLemmas

/-- What a call does to the wallets: nothing, or a posting under its key. -/
structure Posts (key : Option (EntryType × String)) (ref : String) (reply : Reply) (s s' : WalletDb) :
    Prop where
  effect : Quiet s s' ∨ ∃ k ∈ key, Effect k ref s s'
  raised : reply = .raised → Quiet s s'

namespace CallsLemmas

theorem posts_of_wp {σ ε α : Type} {get : Books → σ} {put : σ → Books → Books} {reply : α → Reply}
    {x : Tx σ ε α} {s : Books} {key : Option (EntryType × String)} {ref : String} (wallet : σ → WalletDb)
    (hput : ∀ t, (put t s).wallet = wallet t) (hreply : ∀ a, reply a ≠ .raised)
    (h : wp x (fun _ t => Quiet s.wallet (wallet t) ∨ ∃ k ∈ key, Effect k ref s.wallet (wallet t))
      (fun _ t => Quiet s.wallet (wallet t)) (get s)) :
    Posts key ref (perform get put reply x s).1 s.wallet (perform get put reply x s).2.wallet := by
  rcases perform_of_wp put reply h with ⟨a, t, hx, hQ⟩ | ⟨e, t, hx, hE⟩ <;> rw [hx] <;>
    refine ⟨?_, fun hr => ?_⟩
  · rwa [hput]
  · exact absurd hr (hreply a)
  · exact .inl (by rwa [hput])
  · rwa [hput]

end CallsLemmas

/-- A call posts at most one row, under its own key, and none when it raises. -/
theorem run_spec (c : Call) {s : Books} (hs : Ok s.wallet) :
    Posts c.key c.reference (c.run s).1 s.wallet (c.run s).2.wallet := by
  cases c with
  | ensure_driver_wallet new_id driver_id =>
    refine posts_of_wp id (fun _ => rfl) (fun _ => nofun) ?_
    exact wp_mono (ensure_driver_wallet_spec new_id driver_id s.wallet) (fun _ _ h => .inl h.1)
      fun _ _ h => h ▸ .refl _
  | ghi_so_cai hidden wallet_id entry_type amount_vnd reference_type reference_id actor_id =>
    refine posts_of_wp id (fun _ => rfl) (fun _ => nofun) ?_
    exact wp_mono (ghi_so_cai_spec hidden wallet_id entry_type amount_vnd reference_type reference_id actor_id
      s.wallet) (fun _ _ h => .inr ⟨_, rfl, h.1.effect (.refl _) h.2.1⟩) fun _ _ h => h.1
  | tru_vi hidden new_id invoices invoice session_id wallet_id actor_id =>
    refine posts_of_wp id (fun _ => rfl) ?_ ?_
    · rintro (_ | row) <;> nofun
    refine wp_mono (tru_vi_spec hidden new_id invoices invoice session_id wallet_id actor_id s.wallet)
      ?_ fun _ _ h => h
    rintro r w ⟨i, hi, ⟨-, -, rfl⟩ | ⟨row, -, -, hdeb⟩⟩
    · exact .inl (.refl _)
    · obtain ⟨t, hq, hent⟩ := hdeb.entered
      exact .inr ⟨_, by rw [Call.key, hi]; rfl, hent.effect hq fun hnew => hdeb.reference (hq.ledger ▸ hnew)⟩
  | nap_tay hidden hidden' max_vnd driver_id actor_id request =>
    refine posts_of_wp id (fun _ => rfl) (fun _ => nofun) ?_
    exact wp_mono (nap_tay_spec hidden hidden' max_vnd driver_id actor_id request hs)
      (fun _ _ h => .inr ⟨_, rfl, h.1⟩) fun _ _ h => h
  | dieu_chinh_vi hidden hidden' wallet_id actor_id amount_vnd reason audit_id =>
    refine posts_of_wp id (fun _ => rfl) (fun _ => nofun) ?_
    exact wp_mono (dieu_chinh_vi_spec hidden hidden' wallet_id actor_id amount_vnd reason audit_id s.wallet)
      (fun _ _ h => .inr ⟨_, rfl, h.1⟩) fun _ _ h => h
  | phuc_hoi_so_du_cache audit_id wallet_id actor_id reason =>
    refine posts_of_wp id (fun _ => rfl) (fun _ => nofun) ?_
    exact wp_mono (phuc_hoi_so_du_cache_spec hs audit_id wallet_id actor_id reason)
      (fun _ _ h => .inl (h ▸ .refl _)) fun _ _ h => h ▸ .refl _
  | process_topup_webhook digest hidden event =>
    refine posts_of_wp TopupDb.wallet (fun _ => rfl) (fun _ => nofun) ?_
    exact wp_mono (process_topup_webhook_effect digest hidden event _)
      (fun _ _ h => .inr ⟨_, rfl, h⟩) fun _ _ h => h.elim
  | fee_one hidden env reservation_id =>
    refine posts_of_wp ReservationDb.wallet (fun _ => rfl) (fun _ => nofun) ?_
    refine wp_mono (fee_one_effect (E := fun _ t => Quiet s.wallet t.wallet) hidden env reservation_id _
      (fun _ _ _ _ => .refl _) fun r _ hid w _ _ => ?_) (fun _ _ h => .inr ⟨_, rfl, h⟩) fun _ _ h => h
    refine wp_mono (ghi_so_cai_spec hidden w.id .reservation_fee (-r.fee_vnd) "reservation" r.id.text none
      s.wallet) (fun _ _ h => ?_) fun _ _ h => h.1
    obtain ⟨hent, href, -⟩ := h
    rw [Uuid.strip_text, hid] at hent
    exact hent.effect (.refl _) href

/-! ## 3. A repeated call -/

namespace CallsLemmas

/-- A call under a posted key: it returns the row, or raises for a reason. -/
structure Replays (c : Call) (row : WalletLedger) (s : Books) (reply : Reply) (s' : WalletDb) : Prop where
  quiet : Quiet s.wallet s'
  returned : ∀ n, reply = .row n → n = row.id
  refused : reply = .raised → c.Refused s row

theorem replays_of_wp {σ ε α : Type} {get : Books → σ} {put : σ → Books → Books} {reply : α → Reply}
    {x : Tx σ ε α} {s : Books} {c : Call} {row : WalletLedger} (wallet : σ → WalletDb)
    (hput : ∀ t, (put t s).wallet = wallet t) (hreply : ∀ a, reply a ≠ .raised)
    (h : wp x (fun a t => Quiet s.wallet (wallet t) ∧ ∀ n, reply a = .row n → n = row.id)
      (fun _ t => Quiet s.wallet (wallet t) ∧ c.Refused s row) (get s)) :
    Replays c row s (perform get put reply x s).1 (perform get put reply x s).2.wallet := by
  rcases perform_of_wp put reply h with ⟨a, t, hx, hQ⟩ | ⟨e, t, hx, hE⟩ <;> rw [hx] <;>
    refine ⟨?_, ?_, ?_⟩
  · rw [hput]
    exact hQ.1
  · exact hQ.2
  · exact fun hr => absurd hr (hreply a)
  · rw [hput]
    exact hE.1
  · exact nofun
  · exact fun _ => hE.2

end CallsLemmas

/-- A call whose key is posted already posts nothing; it gives back the row that is there, or is
refused. -/
theorem run_replay (c : Call) {s : Books} {row : WalletLedger} (hs : Ok s.wallet)
    (hrow : row ∈ s.wallet.wallet_ledger) (hkey : c.key = some row.key) :
    Replays c row s (c.run s).1 (c.run s).2.wallet := by
  cases c with
  | ensure_driver_wallet => cases hkey
  | ghi_so_cai hidden wallet_id entry_type amount_vnd reference_type reference_id actor_id =>
    refine replays_of_wp id (fun _ => rfl) (fun _ => nofun) ?_
    exact wp_mono (ghi_so_cai_replay hs hrow hidden wallet_id entry_type amount_vnd reference_type
      reference_id actor_id (Option.some.inj hkey).symm) (fun r _ h => ⟨h.2, fun n hn => by
        cases hn
        rw [h.1]⟩) fun _ _ h => h
  | tru_vi hidden new_id invoices invoice session_id wallet_id actor_id =>
    refine replays_of_wp id (fun _ => rfl) ?_ ?_
    · rintro (_ | row) <;> nofun
    obtain ⟨i, hi, hk⟩ := Option.map_eq_some_iff.mp hkey
    refine wp_mono (tru_vi_replay hs hrow hidden new_id invoices invoice session_id wallet_id actor_id hi
      hk.symm) ?_ fun _ _ h => ⟨h.1, i, hi, h.2⟩
    rintro r w ⟨hq, rfl | ⟨rfl, -⟩⟩
    · exact ⟨hq, fun n hn => by cases hn; rfl⟩
    · exact ⟨hq, nofun⟩
  | nap_tay hidden hidden' max_vnd driver_id actor_id request =>
    refine replays_of_wp id (fun _ => rfl) (fun _ => nofun) ?_
    exact wp_mono (nap_tay_replay hs hrow hidden hidden' max_vnd driver_id actor_id request
      (Option.some.inj hkey).symm) (fun r _ h => ⟨h.2, fun n hn => by
        cases hn
        exact h.1⟩) fun _ _ h => h
  | dieu_chinh_vi hidden hidden' wallet_id actor_id amount_vnd reason audit_id =>
    refine replays_of_wp id (fun _ => rfl) (fun _ => nofun) ?_
    exact wp_mono (dieu_chinh_vi_replay hs hrow hidden hidden' wallet_id actor_id amount_vnd reason audit_id
      (Option.some.inj hkey).symm) (fun r _ h => ⟨h.2, fun n hn => by
        cases hn
        rw [h.1]⟩) fun _ _ h => h
  | phuc_hoi_so_du_cache => cases hkey
  | process_topup_webhook digest hidden event =>
    refine replays_of_wp TopupDb.wallet (fun _ => rfl) (fun _ => nofun) ?_
    exact wp_mono (process_topup_webhook_effect digest hidden event _)
      (fun _ _ h => ⟨h.of_posted hrow (Option.some.inj hkey).symm, nofun⟩) fun _ _ h => h.elim
  | fee_one hidden env reservation_id =>
    refine replays_of_wp ReservationDb.wallet (fun _ => rfl) (fun _ => nofun) ?_
    have hk : row.key = (.reservation_fee, reservation_id.text) := (Option.some.inj hkey).symm
    refine wp_mono (fee_one_effect (E := fun _ t => Quiet s.wallet t.wallet ∧
      (Call.fee_one hidden env reservation_id).Refused s row) hidden env reservation_id _
      (fun r hr hid h => ⟨.refl _, r, hr, hid, .inl h⟩) fun r hr hid w hw hwd => ?_)
      (fun _ _ h => ⟨h.of_posted hrow hk, nofun⟩) fun _ _ h => h
    refine wp_mono (ghi_so_cai_replay hs hrow hidden w.id .reservation_fee (-r.fee_vnd) "reservation"
      r.id.text none (by rw [Uuid.strip_text, hid, hk])) (fun _ _ h => .inl h.2)
      fun _ _ h => ⟨h.1, r, hr, hid, .inr ⟨w, hw, hwd, h.2⟩⟩

/-! ## 4. Runs -/

/-- A consistent ledger: cached and running balances are sums of the rows, in the order of the ids, all
within 64 bits, and no key occurs twice. -/
structure Consistent (s : WalletDb) : Prop where
  balance : ∀ w ∈ s.wallets, w.balance_vnd = ledgerTotal s.wallet_ledger w.id
  running : ∀ before row rest, s.wallet_ledger = before ++ row :: rest →
    row.balance_after_vnd = ledgerTotal (before ++ [row]) row.wallet_id
  order : s.wallet_ledger.Pairwise fun r t => r.id < t.id
  balances : ∀ w ∈ s.wallets, InRange w.balance_vnd
  amounts : ∀ r ∈ s.wallet_ledger, InRange r.amount_vnd ∧ InRange r.balance_after_vnd
  keys : s.wallet_ledger.Pairwise fun r t => r.key ≠ t.key

/-- No wallet and no posting yet. -/
def Opening (s : Books) : Prop := s.wallet.wallets = [] ∧ s.wallet.wallet_ledger = []

namespace CallsLemmas

theorem step_effect {s s' : Books} (h : Step s s') (hs : Ok s.wallet) :
    ∃ k ref, Effect k ref s.wallet s'.wallet := by
  cases h with
  | call c _ =>
    rcases (run_spec c hs).effect with hq | ⟨k, -, he⟩
    · exact ⟨(.adjustment, ""), "", .inl hq⟩
    · exact ⟨k, c.reference, he⟩
  | undone c _ raised =>
    exact ⟨(.adjustment, ""), "", .inl (quiet_rollback ((run_spec c hs).raised raised).seq)⟩
  | rest _ _ quiet => exact ⟨(.adjustment, ""), "", .inl quiet⟩

theorem reach_ok {s s' : Books} (h : Reach s s') (hs : Ok s.wallet) :
    Ok s'.wallet ∧ s.wallet.wallet_ledger <+: s'.wallet.wallet_ledger := by
  induction h with
  | refl => exact ⟨hs, List.prefix_rfl⟩
  | tail _ step ih =>
    obtain ⟨k, ref, he⟩ := step_effect step ih.1
    exact ⟨he.ok ih.1, ih.2.trans he.ledger⟩

theorem Ok.consistent {s : WalletDb} (h : Ok s) : Consistent s :=
  ⟨h.balance, h.running, h.order, h.range, h.amounts, h.keys⟩

end CallsLemmas

/-- In every reachable state the ledger is consistent, and it only ever grows at its end. A call that
raises leaves balances and ledger as they were; so does a call whose key is posted already, which gives
back the row posted before or is refused. -/
theorem ledger_consistent {s₀ s : Books} (opening : Opening s₀) (reach : Reach s₀ s) :
    Consistent s.wallet ∧
    (∀ s', Reach s s' → s.wallet.wallet_ledger <+: s'.wallet.wallet_ledger) ∧
    ∀ c : Call, ((c.run s).1 = .raised → Unmoved s.wallet (c.run s).2.wallet) ∧
      ∀ row ∈ s.wallet.wallet_ledger, c.key = some row.key →
        Unmoved s.wallet (c.run s).2.wallet ∧ (∀ n, (c.run s).1 = .row n → n = row.id) ∧
        ((c.run s).1 = .raised → c.Refused s row) := by
  have hs₀ : Ok s₀.wallet := by
    refine Ok.of_empty opening.2 ?_ ?_ <;> rw [opening.1]
    · exact List.Pairwise.nil
    · exact nofun
  obtain ⟨hs, -⟩ := reach_ok reach hs₀
  refine ⟨Ok.consistent hs, fun s' h => (reach_ok h hs).2, fun c => ⟨fun hr => ?_, fun row hrow hkey => ?_⟩⟩
  · exact ((run_spec c hs).raised hr).unmoved
  · have hreplay := run_replay c hs hrow hkey
    exact ⟨hreplay.quiet.unmoved, hreplay.returned, hreplay.refused⟩

namespace OneReceipt

def admin : Uuid := .sample 1
def driver : Uuid := .sample 2
def purse : Uuid := .sample 3

/-- An administrator and a driver. -/
def books : Books where
  wallet :=
    { users := [⟨admin, true, [.admin]⟩, ⟨driver, true, [.driver]⟩], wallets := [], wallet_ledger := []
      ledger_seq := 1, wallet_audits := [], audit_logs := [] }
  topups := []
  reservations := []
  ocpp_seq := 1

/-- A credit of 50 000 on a receipt of the administrator's own. -/
def receipt : Call :=
  .nap_tay [] [] 1000000 driver admin
    { amount_vnd := 50000, reason := some "cash", receipt_code := some "R-1", request_id := none
      payment_received := none, external_reference := none, amount_ok := fifty_thousand
      texts_ok := ⟨by simp only [stripped]; decide +kernel, by simp only [stripped]; decide +kernel, nofun⟩
      mode_ok := by decide }

/-- The books after the driver's wallet was opened, and after the credit. -/
def opened : Books := (Call.run (.ensure_driver_wallet purse driver) books).2
def credited : Books := (receipt.run opened).2

theorem reach_opened : Reach books opened := Relation.ReflTransGen.single (.call _ _)
theorem reach_credited : Reach books credited := reach_opened.tail (.call _ _)

end OneReceipt

open OneReceipt

/-- The same credit again is refused, although nothing differs. -/
theorem repeated_receipt_raises :
    ¬ ∀ (s₀ s : Books) (c : Call) (n : ℕ), Opening s₀ → Reach s₀ s → (c.run s).1 = .row n →
      (c.run (c.run s).2).1 = .row n := by
  intro hall
  have hagain := hall books opened receipt 1 ⟨rfl, rfl⟩ reach_opened (by decide +kernel)
  revert hagain
  decide +kernel

theorem ledger_consistent_one_receipt : Consistent credited.wallet ∧
    Unmoved credited.wallet (receipt.run credited).2.wallet ∧
    credited.wallet.wallet_ledger.map (·.balance_after_vnd) = [50000] := by
  have h := ledger_consistent (⟨rfl, rfl⟩ : Opening books) reach_credited
  have hraised : (receipt.run credited).1 = .raised := by decide +kernel
  exact ⟨h.1, (h.2.2 receipt).1 hraised, by decide +kernel⟩

end Csms.Accounts
