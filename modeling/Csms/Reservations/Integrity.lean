import Csms.Reservations.System

/-!
# Integrity of reservations and their fees

`WorldOk` is the invariant of the reservation system. Besides the invariant of each row it says
that holds are unique for a connector and for a driver, and that the reservation fees of the
ledger and the reservations that carry a ledger id are the same.

Results:
1. `step_ok`: every operation keeps the invariant.
2. `run_ok`, `run_keeps`: so does every run, and a reservation keeps through it what `Keeps` lists.
3. `run_decided`: a reservation decided without a fee is never charged.
-/

namespace Csms.Reservations

open Csms.Wallets SystemLemmas

/-! ## 1. Invariant -/

/-- The ledger row of a reservation's fee. -/
structure FeeRow (r : Reservation) (row : WalletLedger) : Prop where
  key : row.key = (.reservation_fee, r.id.text)
  amount : row.amount_vnd = -r.fee_vnd
  id : r.fee_ledger_id = some row.id

theorem FeeRow.of_keeps {r r' : Reservation} {row : WalletLedger} (h : FeeRow r row) (hk : Keeps r r')
    (hl : r'.fee_ledger_id = r.fee_ledger_id) : FeeRow r' row :=
  ⟨by rw [h.key, hk.id], by rw [h.amount, hk.fee_vnd], by rw [hl, h.id]⟩

/-- The invariant of the system. -/
structure WorldOk (w : World) : Prop where
  ledger : Ok w.db.wallet
  ids : Table.Keyed Reservation.id w.db.reservations
  rows : ∀ r ∈ w.db.reservations, RowOk r
  connector : ∀ a ∈ w.db.reservations, ∀ b ∈ w.db.reservations, a.status.holds = true →
    b.status.holds = true → a.connector_id = b.connector_id → a = b
  driver : ∀ a ∈ w.db.reservations, ∀ b ∈ w.db.reservations, a.status.holds = true →
    b.status.holds = true → a.driver_id = b.driver_id → a = b
  charged : ∀ r ∈ w.db.reservations, r.fee_ledger_id ≠ none →
    r.expires_at + 30 * SECOND ≤ w.clock ∧ ∃ row ∈ w.db.wallet.wallet_ledger, FeeRow r row
  fees : ∀ row ∈ w.db.wallet.wallet_ledger, row.entry_type = .reservation_fee →
    ∃ r ∈ w.db.reservations, FeeRow r row

namespace IntegrityLemmas

/-! ## 2. Rows -/

/-- What every operation does to the row it works on. -/
structure Updates (r r' : Reservation) : Prop extends Keeps r r' where
  ok : RowOk r'
  holds : r'.status.holds = true → r.status.holds = true

theorem Moves.updates {r r' : Reservation} (h : Moves r r') (hr : RowOk r) : Updates r r' :=
  ⟨h.toKeeps, h.ok hr, h.holds⟩

theorem moves_decided (env : Environment) (target : Target) (r : Reservation) (release : Bool)
    {decision : FeeDecision} (reason : FeeReason) (hd : decision = .waived ∨ decision = .review) :
    Moves r (decide (if release then request_release (observe_expiry env target r) env.now env.new_id .expired
      else observe_expiry env target r) decision reason env.now) := by
  have hdec : decision ≠ .pending := by rcases hd with rfl | rfl <;> simp
  have hobs := moves_observe_expiry env target r
  refine Moves.trans ?_ (moves_decide _ hdec reason env.now)
  split
  · exact hobs.trans (moves_request_release _ _ _ _ _)
  · exact hobs

/-- A touch that does not consume the reservation. -/
theorem Touch.moves {op : Op} {r r' : Reservation} (h : Touch op r r') (hr : RowOk r) :
    Moves r r' ∨ ∃ now msg checks, op = .start_transaction now msg checks ∧
      msg.reservation_id = some r.ocpp_id ∧ now ≤ r.expires_at + 30 * SECOND ∧
      (r.status.holds = true ∨ r.status = .expired) ∧ r' = consume r checks.session_id now := by
  cases h with
  | cancel => exact .inl (moves_request_release _ _ _ _ _)
  | claim => exact .inl (moves_claimRow _ _ _ _ _ _)
  | deliver => exact .inl (moves_deliverRow hr _ _ _)
  | reconcile => exact .inl (moves_reconcileRow _ _ _)
  | decided target locked id pending due release decision reason uncharged => exact .inl (moves_decided _ _ _ _ _ uncharged)
  | late => exact .inl (moves_mark_late_start _ _)
  | consume ocpp_id _ timely status => exact .inr ⟨_, _, _, rfl, ocpp_id, timely, status, rfl⟩

theorem Touch.updates {op : Op} {r r' : Reservation} (h : Touch op r r') (hr : RowOk r) :
    Updates r r' ∧ r'.fee_ledger_id = r.fee_ledger_id := by
  rcases Touch.moves h hr with hm | ⟨now, _, checks, -, -, -, hstatus, rfl⟩
  · exact ⟨Moves.updates hm hr, hm.ledger⟩
  · have hne : r.status ≠ .rejected := by
      rintro h
      rw [h] at hstatus
      rcases hstatus with h | h <;> cases h
    obtain ⟨hk, hs, hl, hok⟩ := keeps_consume hne checks.session_id now
    refine ⟨⟨hk, hok hr, fun hh => ?_⟩, hl⟩
    rw [hs] at hh
    cases hh

theorem chargedRow_updates {env : Environment} {target : Target} {r : Reservation} (n : ℕ) (hr : RowOk r)
    (hc : Chargeable env target r) :
    Updates r (chargedRow env target r n) ∧ (chargedRow env target r n).fee_ledger_id = some n ∧
    (r.status.holds = false → (chargedRow env target r n).status = r.status) ∧
    (chargedRow env target r n).status ≠ .consumed := by
  have hobs := moves_observe_expiry env target r
  obtain ⟨hel, hex, hrej, hreq⟩ := request_release_expired (observe_expiry env target r) env.now env.new_id
  obtain ⟨eligible, hframe⟩ := observe_expiry_frame env target r
  have hm := hobs.trans (moves_request_release _ env.now env.new_id .expired none)
  have hexempt : r.no_show_exempt = false := by
    by_contra h
    exact hc.exempt (.inl (by simpa using h))
  obtain ⟨x, hx⟩ : ∃ x, x = request_release (observe_expiry env target r) env.now env.new_id .expired :=
    ⟨_, rfl⟩
  have hrow : chargedRow env target r n =
      { decide x .charged .no_show env.now with fee_ledger_id := some n } := by
    rw [hx]
    unfold chargedRow decide
    split <;> rfl
  rw [← hx] at hel hex hrej hreq hm
  obtain ⟨-, hst, hcr, hne, hee⟩ := decide_frame x .charged .no_show env.now
  have hdec := decide_decision x .charged .no_show env.now
  have hne' : FeeDecision.charged ≠ .pending := by simp
  have hy := hm.trans (moves_decide x hne' .no_show env.now)
  have hcharged : ChargedOk { decide x .charged .no_show env.now with fee_ledger_id := some n } := by
    refine ⟨hee.trans (hel.trans hc.eligible), hy.fee_vnd ▸ hc.fee, hne.trans (hex ?_), ?_, ?_, fun hh => ?_⟩
    · rw [hframe]
      exact hexempt
    · rw [hst]
      exact hrej (by rw [hframe]; exact hc.status.2)
    · rw [hdec]
      simp
    · rw [hst] at hh
      rw [hcr]
      exact hreq hh
  rw [hrow]
  exact ⟨⟨{ hy.toKeeps with }, { hy.ok hr with charged := fun _ => hcharged }, hy.holds⟩, rfl, hy.terminal,
    fun h => hc.status.1 (hy.consumed h)⟩

/-! ## 3. Tables -/

/-- The rows after an operation on one reservation. -/
theorem mem_updated {s s' : ReservationDb} {r r' : Reservation}
    (hids : Table.Keyed Reservation.id s.reservations) (hr : r ∈ s.reservations)
    (h : s'.reservations = Table.modify Reservation.id r.id (fun _ => r') s.reservations) {x : Reservation} :
    x ∈ s'.reservations ↔ x = r' ∨ (x ∈ s.reservations ∧ x.id ≠ r.id) := by
  rw [h]
  exact Table.mem_modify_of_mem hids hr rfl

variable {s s' : ReservationDb}

/-- Holds that are unique for a column stay so when a row is updated. -/
theorem unique_updated {r r' : Reservation} {column : Reservation → Uuid}
    (hids : Table.Keyed Reservation.id s.reservations) (hr : r ∈ s.reservations)
    (h : s'.reservations = Table.modify Reservation.id r.id (fun _ => r') s.reservations)
    (hholds : r'.status.holds = true → r.status.holds = true) (hcol : column r' = column r)
    (huniq : ∀ a ∈ s.reservations, ∀ b ∈ s.reservations, a.status.holds = true → b.status.holds = true →
      column a = column b → a = b) :
    ∀ a ∈ s'.reservations, ∀ b ∈ s'.reservations, a.status.holds = true → b.status.holds = true →
      column a = column b → a = b := by
  intro a ha b hb hha hhb hab
  rcases (mem_updated hids hr h).mp ha with rfl | ⟨ha, hane⟩ <;>
    rcases (mem_updated hids hr h).mp hb with rfl | ⟨hb, hbne⟩
  · rfl
  · exact absurd (congrArg Reservation.id (huniq r hr b hb (hholds hha) hhb (hcol ▸ hab))).symm hbne
  · exact absurd (congrArg Reservation.id (huniq a ha r hr hha (hholds hhb) (hcol ▸ hab))) hane
  · exact huniq a ha b hb hha hhb hab

/-- A booking on a column without a hold keeps them unique. -/
theorem unique_booked {r : Reservation} {column : Reservation → Uuid}
    (h : s'.reservations = s.reservations ++ [r])
    (hfree : ∀ a ∈ s.reservations, column a = column r → a.status.holds = false)
    (huniq : ∀ a ∈ s.reservations, ∀ b ∈ s.reservations, a.status.holds = true → b.status.holds = true →
      column a = column b → a = b) :
    ∀ a ∈ s'.reservations, ∀ b ∈ s'.reservations, a.status.holds = true → b.status.holds = true →
      column a = column b → a = b := by
  intro a ha b hb hha hhb hab
  rw [h] at ha hb
  rcases List.mem_append.mp ha with ha | ha <;> rcases List.mem_append.mp hb with hb | hb
  · exact huniq a ha b hb hha hhb hab
  · rw [List.mem_singleton.mp hb] at hab
    rw [hfree a ha hab] at hha
    cases hha
  · rw [List.mem_singleton.mp ha] at hab
    rw [hfree b hb hab.symm] at hhb
    cases hhb
  · rw [List.mem_singleton.mp ha, List.mem_singleton.mp hb]

theorem rowOk_new (env : Environment) (target : Target) (request : BookingRequest)
    {checks : BookingChecks} (hfee : 0 ≤ checks.fee_vnd) (n : ℕ) :
    RowOk (newReservation env target request checks n) where
  fee := hfee
  exempt := nofun
  lease := fun h => absurd rfl h
  unsent := fun _ => rfl
  activated := fun h => absurd rfl h
  not_sent := nofun
  eligible := nofun
  consumed := nofun
  session := fun h => absurd rfl h
  charged := fun h => absurd rfl h

end IntegrityLemmas

open IntegrityLemmas

/-! ## 4. Steps -/

namespace WorldOk

variable {w : World}

theorem of_start (h : Start w) : WorldOk w where
  ledger := h.ledger
  ids := by rw [h.reservations]; exact List.Pairwise.nil
  rows := by simp [h.reservations]
  connector := by simp [h.reservations]
  driver := by simp [h.reservations]
  charged := by simp [h.reservations]
  fees := fun row hr ht => absurd ht (h.fees row hr)

/-- A row without a ledger id does not get one from a fee posted before. -/
theorem no_fee (h : WorldOk w) {r : Reservation} (hr : r ∈ w.db.reservations) (hl : r.fee_ledger_id = none) :
    ∀ row ∈ w.db.wallet.wallet_ledger, row.key ≠ (.reservation_fee, r.id.text) := by
  intro row hrow hkey
  obtain ⟨x, hx, hfee⟩ := h.fees row hrow (congrArg Prod.fst hkey)
  have hid : x.id = r.id := by
    have : (EntryType.reservation_fee, x.id.text) = (EntryType.reservation_fee, r.id.text) := hfee.key ▸ hkey
    exact Uuid.ext (Prod.mk.inj this).2
  have := h.ids.eq hx hr hid
  rw [← this, hfee.id] at hl
  cases hl

/-- Wallet changes that post no reservation fee keep the invariant. -/
theorem of_wallet (h : WorldOk w) {w' : World} (hclock : w.clock ≤ w'.clock)
    (hrows : w'.db.reservations = w.db.reservations) (hok : Ok w'.db.wallet)
    (hold : ∀ row ∈ w.db.wallet.wallet_ledger, row ∈ w'.db.wallet.wallet_ledger)
    (hnew : ∀ row ∈ w'.db.wallet.wallet_ledger, row.entry_type = .reservation_fee →
      row ∈ w.db.wallet.wallet_ledger) : WorldOk w' where
  ledger := hok
  ids := hrows ▸ h.ids
  rows := hrows ▸ h.rows
  connector := hrows ▸ h.connector
  driver := hrows ▸ h.driver
  charged := fun r hr hl => by
    rw [hrows] at hr
    obtain ⟨hdue, row, hrow, hfee⟩ := h.charged r hr hl
    exact ⟨hdue.trans hclock, row, hold row hrow, hfee⟩
  fees := fun row hrow ht => by
    rw [hrows]
    exact h.fees row (hnew row hrow ht) ht

/-- A booking of a free connector by a driver without a hold. -/
theorem of_booked (h : WorldOk w) {w' : World} {x : Reservation} (hclock : w.clock ≤ w'.clock)
    (hx : RowOk x) (hl : x.fee_ledger_id = none) (hfresh : ∀ r ∈ w.db.reservations, r.id ≠ x.id)
    (hconn : ∀ r ∈ w.db.reservations, r.connector_id = x.connector_id → r.status.holds = false)
    (hdriver : ∀ r ∈ w.db.reservations, r.driver_id = x.driver_id → r.status.holds = false)
    (hrows : w'.db.reservations = w.db.reservations ++ [x]) (hq : Quiet w.db.wallet w'.db.wallet) :
    WorldOk w' where
  ledger := hq.ok h.ledger
  ids := hrows ▸ h.ids.append hfresh
  rows := fun r hr => by
    rw [hrows] at hr
    rcases List.mem_append.mp hr with hr | hr
    · exact h.rows r hr
    · exact List.mem_singleton.mp hr ▸ hx
  connector := unique_booked hrows hconn h.connector
  driver := unique_booked hrows hdriver h.driver
  charged := fun r hr hch => by
    rw [hrows] at hr
    rw [hq.ledger]
    rcases List.mem_append.mp hr with hr | hr
    · exact (h.charged r hr hch).imp_left hclock.trans'
    · rw [List.mem_singleton.mp hr] at hch
      exact absurd hl hch
  fees := fun row hrow ht => by
    rw [hq.ledger] at hrow
    obtain ⟨r, hr, hfee⟩ := h.fees row hrow ht
    exact ⟨r, hrows ▸ List.mem_append_left _ hr, hfee⟩

/-- An update of one reservation; `hpost` says what became of its fee. -/
theorem of_updated (h : WorldOk w) {w' : World} {r r' : Reservation} (hclock : w.clock ≤ w'.clock)
    (hr : r ∈ w.db.reservations) (hup : Updates r r') (hok : Ok w'.db.wallet)
    (hrows : w'.db.reservations = Table.modify Reservation.id r.id (fun _ => r') w.db.reservations)
    (hpost : (w'.db.wallet.wallet_ledger = w.db.wallet.wallet_ledger ∧ r'.fee_ledger_id = r.fee_ledger_id) ∨
      ∃ row, w'.db.wallet.wallet_ledger = w.db.wallet.wallet_ledger ++ [row] ∧ r.fee_ledger_id = none ∧
        FeeRow r' row ∧ r'.expires_at + 30 * SECOND ≤ w'.clock) :
    WorldOk w' where
  ledger := hok
  ids := by
    rw [hrows]
    exact Table.Keyed.modify h.ids fun _ _ => hup.id
  rows := fun x hx => by
    rcases (mem_updated h.ids hr hrows).mp hx with rfl | ⟨hx, -⟩
    · exact hup.ok
    · exact h.rows x hx
  connector := unique_updated h.ids hr hrows hup.holds hup.connector_id h.connector
  driver := unique_updated h.ids hr hrows hup.holds hup.driver_id h.driver
  charged := fun x hx hch => by
    rcases hpost with ⟨hledger, hsame⟩ | ⟨row, hledger, hnone, hfee, hdue⟩ <;> rw [hledger] <;>
      rcases (mem_updated h.ids hr hrows).mp hx with rfl | ⟨hx, -⟩
    · obtain ⟨hdue, row, hrow, hfee⟩ := h.charged r hr (hsame ▸ hch)
      exact ⟨hup.expires_at ▸ hdue.trans hclock, row, hrow, hfee.of_keeps hup.toKeeps hsame⟩
    · exact (h.charged x hx hch).imp_left hclock.trans'
    · exact ⟨hdue, row, by simp, hfee⟩
    · obtain ⟨hdue, row, hrow, hfee⟩ := h.charged x hx hch
      exact ⟨hdue.trans hclock, row, List.mem_append_left _ hrow, hfee⟩
  fees := fun row hrow ht => by
    have hold : row ∈ w.db.wallet.wallet_ledger → ∃ x ∈ w'.db.reservations, FeeRow x row := by
      intro hrow
      obtain ⟨x, hx, hfee⟩ := h.fees row hrow ht
      by_cases hid : x.id = r.id
      · obtain rfl := h.ids.eq hx hr hid
        refine ⟨r', (mem_updated h.ids hr hrows).mpr (.inl rfl), ?_⟩
        rcases hpost with ⟨-, hsame⟩ | ⟨row', -, hnone, -⟩
        · exact hfee.of_keeps hup.toKeeps hsame
        · rw [hfee.id] at hnone
          cases hnone
      · exact ⟨x, (mem_updated h.ids hr hrows).mpr (.inr ⟨hx, hid⟩), hfee⟩
    rcases hpost with ⟨hledger, -⟩ | ⟨row', hledger, -, hfee, -⟩ <;> rw [hledger] at hrow
    · exact hold hrow
    · rcases List.mem_append.mp hrow with hrow | hrow
      · exact hold hrow
      · rw [List.mem_singleton.mp hrow]
        exact ⟨r', (mem_updated h.ids hr hrows).mpr (.inl rfl), hfee⟩

end WorldOk

theorem clock_le_step {w : World} {op : Op} (h : op.Valid w) : w.clock ≤ (step op w).clock := by
  change w.clock ≤ op.now?.getD w.clock
  cases hn : op.now? with
  | none => exact le_rfl
  | some now => exact h.1 now hn

/-- Every operation keeps the invariant. -/
theorem step_ok {w : World} {op : Op} (h : WorldOk w) (hv : op.Valid w) : WorldOk (step op w) := by
  have hclock := clock_le_step hv
  cases step_transition hv with
  | same hrows _ hq =>
    exact h.of_wallet hclock hrows (hq.ok h.ledger) (fun _ hr => hq.ledger ▸ hr) fun _ hr _ => hq.ledger ▸ hr
  | booked env request checks target _ hfresh hconn hdriver hfee hrows _ hq =>
    exact h.of_booked hclock (rowOk_new env target request hfee _) rfl hfresh hconn hdriver hrows hq
  | touched r r' hr htouch hrows _ hq =>
    obtain ⟨hup, hl⟩ := Touch.updates htouch (h.rows r hr)
    exact h.of_updated hclock hr hup (hq.ok h.ledger) hrows (.inl ⟨hq.ledger, hl⟩)
  | charged hidden env id target r row hop hr _ hc hkey hamount hpost hrows _ =>
    obtain ⟨hup, hl, -⟩ := chargedRow_updates row.id (h.rows r hr) hc
    have hnone : r.fee_ledger_id = none := by
      by_contra hne
      exact ((h.rows r hr).charged hne).decided hc.pending
    rcases hpost with ⟨hrow, -⟩ | hpost
    · exact absurd hkey (h.no_fee hr hnone row hrow)
    · refine h.of_updated hclock hr hup (hpost.ok h.ledger) hrows (.inr ⟨row, hpost.ledger, hnone, ?_, ?_⟩)
      · exact ⟨by rw [hkey, hup.id], by rw [hamount, hup.fee_vnd], hl⟩
      · subst hop
        exact hup.expires_at ▸ hc.due
  | wallet key _ hother hrows _ heffect =>
    refine h.of_wallet hclock hrows (heffect.ok h.ledger) (fun _ hr => heffect.ledger.subset hr) ?_
    intro row hrow ht
    rcases heffect.mem hrow with hmem | ⟨hk, -⟩
    · exact hmem
    · exact absurd (hk ▸ ht) hother

/-! ## 5. Runs -/

/-- Every run keeps the invariant. -/
theorem run_ok {w w' : World} {ops : List Op} (run : Run w ops w') (h : WorldOk w) : WorldOk w' := by
  induction run with
  | nil => exact h
  | snoc _ valid ih => exact step_ok ih valid

/-- What becomes of a reservation in one operation. -/
theorem step_row {w : World} {op : Op} (h : WorldOk w) (hv : op.Valid w) {r r' : Reservation}
    (hr : r ∈ w.db.reservations) (hr' : r' ∈ (step op w).db.reservations) (hid : r'.id = r.id) :
    r' = r ∨ Touch op r r' ∨ ∃ env target n, Chargeable env target r ∧ r' = chargedRow env target r n := by
  cases step_transition hv with
  | same hrows => exact .inl (h.ids.eq (hrows ▸ hr') hr hid)
  | booked _ _ _ _ _ hfresh _ _ _ hrows =>
    rw [hrows] at hr'
    rcases List.mem_append.mp hr' with hr' | hr'
    · exact .inl (h.ids.eq hr' hr hid)
    · rw [List.mem_singleton.mp hr'] at hid
      exact absurd hid.symm (hfresh r hr)
  | touched x x' hx htouch hrows =>
    rcases (mem_updated h.ids hx hrows).mp hr' with rfl | ⟨hr', -⟩
    · have hup := (Touch.updates htouch (h.rows x hx)).1
      obtain rfl := h.ids.eq hx hr (hup.id.symm.trans hid)
      exact .inr (.inl htouch)
    · exact .inl (h.ids.eq hr' hr hid)
  | charged _ env _ target x row _ hx _ hc _ _ _ hrows =>
    rcases (mem_updated h.ids hx hrows).mp hr' with rfl | ⟨hr', -⟩
    · obtain rfl := h.ids.eq hx hr ((chargedRow_id _ _ _ _).symm.trans hid)
      exact .inr (.inr ⟨env, target, row.id, hc, rfl⟩)
    · exact .inl (h.ids.eq hr' hr hid)
  | wallet _ _ _ hrows => exact .inl (h.ids.eq (hrows ▸ hr') hr hid)

theorem step_mem {w : World} {op : Op} (h : WorldOk w) (hv : op.Valid w) {r : Reservation}
    (hr : r ∈ w.db.reservations) : ∃ r' ∈ (step op w).db.reservations, r'.id = r.id := by
  have hmod : ∀ {x x' : Reservation}, x ∈ w.db.reservations → x'.id = x.id →
      (step op w).db.reservations = Table.modify Reservation.id x.id (fun _ => x') w.db.reservations →
      ∃ r' ∈ (step op w).db.reservations, r'.id = r.id := by
    intro x x' hx hid hrows
    by_cases hrx : r.id = x.id
    · exact ⟨x', (mem_updated h.ids hx hrows).mpr (.inl rfl), hid.trans hrx.symm⟩
    · exact ⟨r, (mem_updated h.ids hx hrows).mpr (.inr ⟨hr, hrx⟩), rfl⟩
  cases step_transition hv with
  | same hrows => exact ⟨r, hrows ▸ hr, rfl⟩
  | booked _ _ _ _ _ _ _ _ _ hrows => exact ⟨r, hrows ▸ List.mem_append_left _ hr, rfl⟩
  | touched x x' hx htouch hrows => exact hmod hx (Touch.updates htouch (h.rows x hx)).1.id hrows
  | charged _ _ _ _ x row _ hx _ hc _ _ _ hrows => exact hmod hx (chargedRow_id _ _ _ _) hrows
  | wallet _ _ _ hrows => exact ⟨r, hrows ▸ hr, rfl⟩

theorem step_keeps {w : World} {op : Op} (h : WorldOk w) (hv : op.Valid w) {r : Reservation}
    (hr : r ∈ w.db.reservations) : ∃ r' ∈ (step op w).db.reservations, Keeps r r' := by
  obtain ⟨r', hr', hid⟩ := step_mem h hv hr
  refine ⟨r', hr', ?_⟩
  rcases step_row h hv hr hr' hid with rfl | htouch | ⟨env, target, n, hc, rfl⟩
  · exact .refl _
  · exact (Touch.updates htouch (h.rows r hr)).1.toKeeps
  · exact (chargedRow_updates n (h.rows r hr) hc).1.toKeeps

theorem run_keeps {w w' : World} {ops : List Op} (run : Run w ops w') (h : WorldOk w) {r : Reservation}
    (hr : r ∈ w.db.reservations) : ∃ r' ∈ w'.db.reservations, Keeps r r' := by
  induction run with
  | nil => exact ⟨r, hr, .refl r⟩
  | snoc run' valid ih =>
    obtain ⟨x, hx, hk⟩ := ih
    obtain ⟨x', hx', hk'⟩ := step_keeps (run_ok run' h) valid hx
    exact ⟨x', hx', hk.trans hk'⟩

/-- The reservation of an id after a run. -/
theorem run_keeps_id {w w' : World} {ops : List Op} (run : Run w ops w') (h : WorldOk w)
    {r r' : Reservation} (hr : r ∈ w.db.reservations) (hr' : r' ∈ w'.db.reservations) (hid : r'.id = r.id) :
    Keeps r r' := by
  obtain ⟨x, hx, hk⟩ := run_keeps run h hr
  rwa [(run_ok run h).ids.eq hr' hx (hid.trans hk.id.symm)]

/-! ## 6. Fees -/

/-- A decided reservation without a fee is not charged. -/
theorem step_decided {w : World} {op : Op} (h : WorldOk w) (hv : op.Valid w) {r r' : Reservation}
    (hr : r ∈ w.db.reservations) (hd : r.fee_decision ≠ .pending) (hl : r.fee_ledger_id = none)
    (hr' : r' ∈ (step op w).db.reservations) (hid : r'.id = r.id) : r'.fee_ledger_id = none := by
  rcases step_row h hv hr hr' hid with rfl | htouch | ⟨env, target, n, hc, -⟩
  · exact hl
  · exact (Touch.updates htouch (h.rows r hr)).2.trans hl
  · exact absurd hc.pending hd

theorem run_decided {w w' : World} {ops : List Op} (run : Run w ops w') (h : WorldOk w) {r r' : Reservation}
    (hr : r ∈ w.db.reservations) (hd : r.fee_decision ≠ .pending) (hl : r.fee_ledger_id = none)
    (hr' : r' ∈ w'.db.reservations) (hid : r'.id = r.id) : r'.fee_ledger_id = none := by
  induction run generalizing r' with
  | nil => exact h.ids.eq hr' hr hid ▸ hl
  | snoc run' valid ih =>
    obtain ⟨x, hx, hk⟩ := run_keeps run' h hr
    exact step_decided (run_ok run' h) valid hx (hk.decision hd) (ih hx hk.id) hr' (hid.trans hk.id.symm)

/-! ## 7. Numbers and sessions -/

/-- The numbers of the reservations come from the sequence. -/
theorem run_ocpp_id {w₀ w : World} {ops : List Op} (start : Start w₀) (run : Run w₀ ops w) :
    ∀ r ∈ w.db.reservations, r.ocpp_id < w.db.ocpp_seq := by
  have h₀ := WorldOk.of_start start
  induction run with
  | nil =>
    intro r hr
    rw [start.reservations] at hr
    cases hr
  | @snoc w' ops op run' valid ih =>
    have h := run_ok run' h₀
    have hstep := step_transition valid
    have hseq : w'.db.ocpp_seq ≤ (step op w').db.ocpp_seq := by
      cases hstep with
      | same _ seq | touched _ _ _ _ _ seq | charged _ _ _ _ _ _ _ _ _ _ _ _ _ _ seq | wallet _ _ _ _ seq => exact seq.ge
      | booked _ _ _ _ _ _ _ _ _ _ seq => exact seq ▸ Nat.le_succ _
    intro r' hr'
    by_cases hold : ∃ r ∈ w'.db.reservations, r.id = r'.id
    · obtain ⟨r, hr, hid⟩ := hold
      obtain ⟨x, hx, hk⟩ := step_keeps h valid hr
      have heq : r' = x := (step_ok h valid).ids.eq hr' hx (hid.symm.trans hk.id.symm)
      rw [heq, hk.ocpp_id]
      exact (ih r hr).trans_le hseq
    · push Not at hold
      cases hstep with
      | booked env request checks target _ _ _ _ _ rows seq =>
        rw [rows] at hr'
        rcases List.mem_append.mp hr' with hr' | hr'
        · exact absurd rfl (hold r' hr')
        · rw [List.mem_singleton.mp hr', seq]
          exact Nat.lt_succ_self _
      | same rows | wallet _ _ _ rows => exact absurd rfl (hold r' (rows ▸ hr'))
      | touched x x' hx htouch rows =>
        rcases (mem_updated h.ids hx rows).mp hr' with rfl | ⟨hr', -⟩
        · exact absurd (Touch.updates htouch (h.rows x hx)).1.id.symm (hold x hx)
        · exact absurd rfl (hold r' hr')
      | charged _ _ _ _ x row _ hx _ _ _ _ _ rows =>
        rcases (mem_updated h.ids hx rows).mp hr' with rfl | ⟨hr', -⟩
        · exact absurd (chargedRow_id _ _ _ _).symm (hold x hx)
        · exact absurd rfl (hold r' hr')

/-- A touch leaves a consumed reservation to its session. -/
theorem Touch.consumed {op : Op} {r r' : Reservation} (h : Touch op r r') (hr : RowOk r) (hc : r.status = .consumed) :
    r'.status = .consumed ∧ r'.session_id = r.session_id := by
  have hh : r.status.holds = false := by rw [hc]; rfl
  have hstatus : r'.status = .consumed := by
    rcases Touch.moves h hr with hm | ⟨_, _, _, -, -, -, hstatus, -⟩
    · exact (hm.terminal hh).trans hc
    · rw [hc] at hstatus
      rcases hstatus with h | h <;> cases h
  refine ⟨hstatus, ?_⟩
  have hdecide : ∀ (x : Reservation) decision reason now, (decide x decision reason now).session_id = x.session_id := by
    intro x decision reason now
    unfold decide
    split <;> rfl
  have hrelease : ∀ (x : Reservation) now new_id reason, x.status.holds = false →
      (request_release x now new_id reason).session_id = x.session_id := fun x now new_id reason hx => by
    rw [request_release, if_pos (.inl hx)]
  cases h with
  | cancel => rw [request_release, if_pos (.inl hh)]
  | @claim env timeout token command_id _ target _ _ =>
    unfold claimRow
    split
    · unfold claimReserve
      split <;> rfl
    split
    · unfold claimCancel
      split <;> rfl
    · rfl
  | deliver =>
    unfold deliverRow
    split
    · split
      · unfold deliverReserve
        rw [if_pos hh]
      · rfl
    split
    · split
      · unfold deliverCancel
        split <;> simp [hh]
      · rfl
    · rfl
  | reconcile => rw [reconcileRow, if_pos hh]
  | @decided hidden env _ _ target _ _ _ _ release decision reason _ =>
    obtain ⟨eligible, hobserved⟩ := observe_expiry_frame env target r
    rw [hdecide]
    split
    · rw [hrelease _ _ _ _ (by rw [hobserved]; exact hh), hobserved]
    · rw [hobserved]
  | late =>
    unfold mark_late_start
    dsimp only [Reservation.event]
    split
    · exact hdecide _ _ _ _
    · rfl
  | consume _ _ _ status =>
    rw [hc] at status
    rcases status with h | h <;> cases h

theorem run_consumed {w w' : World} {ops : List Op} (run : Run w ops w') (h : WorldOk w) {r r' : Reservation}
    (hr : r ∈ w.db.reservations) (hc : r.status = .consumed) (hr' : r' ∈ w'.db.reservations) (hid : r'.id = r.id) :
    r'.status = .consumed ∧ r'.session_id = r.session_id := by
  induction run generalizing r' with
  | nil =>
    rw [h.ids.eq hr' hr hid]
    exact ⟨hc, rfl⟩
  | snoc run' valid ih =>
    obtain ⟨x, hx, hk⟩ := run_keeps run' h hr
    obtain ⟨hstatus, hsession⟩ := ih hx hk.id
    rcases step_row (run_ok run' h) valid hx hr' (hid.trans hk.id.symm) with rfl | htouch | ⟨env, target, n, hc, -⟩
    · exact ⟨hstatus, hsession⟩
    · obtain ⟨hstatus', hsession'⟩ := htouch.consumed ((run_ok run' h).rows x hx) hstatus
      exact ⟨hstatus', hsession'.trans hsession⟩
    · exact absurd hstatus hc.status.1

end Csms.Reservations
