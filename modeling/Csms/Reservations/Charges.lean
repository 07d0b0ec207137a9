import Csms.Reservations.Integrity

/-!
# When a no-show fee is charged

Results:
1. `fees_settled`: fee rows and reservations agree, and what keeps a reservation from being charged
   keeps it from being charged in every continuation of the run.
2. `fee_excludes_consumption`: a charged reservation is not consumed, unless a start names it at the
   very instant at which its fee window closes. `fee_and_consumption` is such a run.
-/

namespace Csms.Reservations

open Tx Csms.Wallets SystemLemmas IntegrityLemmas

/-! ## 1. Reservations that are never charged -/

/-- No continuation charges the reservation. -/
def NeverCharged (w : World) (id : Uuid) : Prop :=
  ∀ ops w', Run w ops w' → ∀ r ∈ w'.db.reservations, r.id = id → r.fee_ledger_id = none

/-- A reservation that was given back in time, refused, never sent, or is free of charge. -/
def Barred (r : Reservation) : Prop :=
  r.no_show_exempt = true ∨ r.status = .rejected ∨ r.outcome = some .not_sent ∨ r.fee_vnd = 0

/-- `op` calls `observe_expiry` on `r`. -/
inductive Observes : Op → Environment → Target → Reservation → Prop
  | reconcile {env : Environment} {target : Target} {r : Reservation}
      (locked : lock_target? env r.connector_id = some target) (holds : r.status.holds = true) :
      Observes (.reconcile env r.id) env target r
  | fee_one {hidden : List ℕ} {env : Environment} {target : Target} {r : Reservation}
      (locked : lock_target? env r.connector_id = some target) (due : r.expires_at + 30 * SECOND ≤ env.now) :
      Observes (.fee_one hidden env r.id) env target r

namespace ChargesLemmas

variable {w : World}

theorem neverCharged_of_barred (h : WorldOk w) {r : Reservation} (hr : r ∈ w.db.reservations)
    (hb : Barred r) : NeverCharged w r.id := by
  intro ops w' run r' hr' hid
  by_contra hl
  have hk := run_keeps_id run h hr hr' hid
  have hok := (run_ok run h).rows r' hr'
  have hcharged := hok.charged hl
  rcases hb with hb | hb | hb | hb
  · have := (hk.released ((h.rows r hr).exempt hb)).2
    rw [hcharged.exempt, hb] at this
    cases this
  · exact hcharged.rejected (hk.rejected hb)
  · have := hk.suppressed ((h.rows r hr).not_sent hb)
    rw [hok.charged_done hl] at this
    cases this
  · exact hcharged.fee (hk.fee_vnd.trans hb)

theorem neverCharged_of_ineligible (h : WorldOk w) {r : Reservation} (hr : r ∈ w.db.reservations)
    (hi : r.expiry_fee_eligible = some false) : NeverCharged w r.id := by
  intro ops w' run r' hr' hid
  by_contra hl
  have hk := run_keeps_id run h hr hr' hid
  have := (((run_ok run h).rows r' hr').charged hl).eligible
  rw [hk.ineligible hi] at this
  cases this

theorem neverCharged_of_decided (h : WorldOk w) {r : Reservation} (hr : r ∈ w.db.reservations)
    (hd : r.fee_decision ≠ .pending) (hl : r.fee_ledger_id = none) : NeverCharged w r.id :=
  fun _ _ run _ hr' hid => run_decided run h hr hd hl hr' hid

/-- A late start on an undecided reservation decides it, unless no fee is due. -/
theorem neverCharged_of_late (h : WorldOk w) {r : Reservation} {now : ℤ}
    (hr : mark_late_start r now ∈ w.db.reservations) (hok : RowOk r) (hdec : r.fee_decision = .pending) :
    NeverCharged w r.id := by
  have hl : r.fee_ledger_id = none := by
    by_contra hl
    exact (hok.charged hl).decided hdec
  have hfee := hok.fee
  have hm := moves_mark_late_start r now
  rw [← hm.id]
  by_cases hcond : 0 < r.fee_vnd ∧ r.fee_decision ≠ .legacy_exempt ∧ ¬ r.no_show_exempt
  · refine neverCharged_of_decided h hr ?_ (hm.ledger.trans hl)
    unfold mark_late_start
    rw [if_pos hcond]
    change (decide r .review .late_start_after_fee_window now).fee_decision ≠ .pending
    rw [decide_decision]
    simp
  · refine neverCharged_of_barred h hr ?_
    unfold mark_late_start
    rw [if_neg hcond]
    have : r.fee_vnd = 0 ∨ r.no_show_exempt = true := by
      rw [hdec] at hcond
      by_contra hne
      rw [not_or] at hne
      exact hcond ⟨by omega, by simp, hne.2⟩
    rcases this with h0 | hex
    · exact .inr (.inr (.inr h0))
    · exact .inl hex

/-- A transaction that does not raise. -/
theorem transact_of_wp {α : Type} {x : ReservationTx α} {s : ReservationDb} {P : ReservationDb → Prop}
    (h : wp x (fun _ s' => P s') (fun _ _ => False) s) : P (transact x s) := by
  unfold transact
  rcases wp_run h with ⟨a, s', hx, hP⟩ | ⟨e, s', hx, hfalse⟩
  · rw [hx]
    exact hP
  · exact hfalse.elim

theorem find_of_mem {s : ReservationDb} (hids : Table.Keyed Reservation.id s.reservations) {r : Reservation}
    (hr : r ∈ s.reservations) : s.find r.id = some r := by
  cases hf : s.find r.id with
  | none => simpa using List.find?_eq_none.mp hf r hr
  | some x => rw [hids.eq (mem_of_find hf).1 hr (mem_of_find hf).2]

theorem mem_save {s : ReservationDb} {r r' : Reservation} (hr : r ∈ s.reservations) (hid : r'.id = r.id) :
    r' ∈ Table.modify Reservation.id r'.id (fun _ => r') s.reservations :=
  Table.mem_modify.mpr ⟨r, hr, by rw [if_pos hid.symm]⟩

/-- `reconcile` does not forget that it found the site not in order. -/
theorem reconcileRow_unverified {env : Environment} {target : Target} {r : Reservation}
    (hh : r.status.holds = true) (hp : r.fee_decision = .pending) (hnow : r.expires_at ≤ env.now)
    (hver : siteVerified env target r = false) :
    (reconcileRow env target r).expiry_fee_eligible = some false := by
  have hobs := observe_expiry_unverified hp hnow hver
  have hm := (moves_observeReboot env target (observe_expiry env target r)).trans (moves_expireLeases env.now _)
  rw [reconcileRow_eq hh]
  refine (moves_freeOnEvidence ?_).ineligible ((hm.trans (moves_releaseDue env target _)).ineligible hobs)
  exact (releaseDue_status env target (observedRow_holds env target hh)).imp_right fun h => h.2.2

theorem reconcile_unverified (h : WorldOk w) {env : Environment} {target : Target} {r : Reservation}
    (hr : r ∈ w.db.reservations) (hlock : lock_target? env r.connector_id = some target) :
    reconcileRow env target r ∈ (transact (reconcile env r.id) w.db).reservations := by
  refine transact_of_wp (P := fun s' => reconcileRow env target r ∈ s'.reservations) ?_
  unfold reconcile lock_target
  simp only [wp_bind, wp_read, find_of_mem h.ids hr, hlock, wp_orRaise, save, wp_write]
  refine ⟨fun h => (by cases h), fun t ht => ?_⟩
  obtain rfl : target = t := by simpa using ht
  exact mem_save hr (moves_reconcileRow env target r).id

/-- `fee_one` decides a reservation whose site it found not in order, without a charge. -/
theorem fee_one_unverified (h : WorldOk w) {hidden : List ℕ} {env : Environment} {target : Target}
    {r : Reservation} (hr : r ∈ w.db.reservations) (hlock : lock_target? env r.connector_id = some target)
    (hp : r.fee_decision = .pending) (hdue : r.expires_at + 30 * SECOND ≤ env.now)
    (hver : siteVerified env target r = false) :
    ∃ r' ∈ (transact (fee_one hidden env r.id) w.db).reservations, r'.id = r.id ∧
      r'.fee_decision ≠ .pending ∧ r'.fee_ledger_id = none := by
  have hl : r.fee_ledger_id = none := by
    by_contra hl
    exact ((h.rows r hr).charged hl).decided hp
  have hnow : r.expires_at ≤ env.now := by
    have : (0 : ℤ) ≤ 30 * SECOND := by decide
    omega
  have hobs := observe_expiry_unverified hp hnow hver
  refine transact_of_wp (P := fun s' => ∃ r' ∈ s'.reservations, r'.id = r.id ∧
    r'.fee_decision ≠ .pending ∧ r'.fee_ledger_id = none) ?_
  have hsave : ∀ (release : Bool) (decision : FeeDecision) (reason : FeeReason),
      decision = .waived ∨ decision = .review → wp (save (decide (if release then
        request_release (observe_expiry env target r) env.now env.new_id .expired
        else observe_expiry env target r) decision reason env.now))
      (fun _ s' => ∃ r' ∈ s'.reservations, r'.id = r.id ∧ r'.fee_decision ≠ .pending ∧ r'.fee_ledger_id = none)
      (fun _ _ => False) w.db := by
    intro release decision reason hd
    have hm := moves_decided env target r release reason hd
    rw [save, wp_write]
    refine ⟨_, mem_save hr hm.id, hm.id, ?_, hm.ledger.trans hl⟩
    rw [decide_decision]
    rcases hd with rfl | rfl <;> simp
  unfold fee_one lock_target
  simp only [wp_bind, wp_read, find_of_mem h.ids hr, hlock, wp_orRaise]
  refine ⟨fun h => (by cases h), fun t ht => ?_⟩
  obtain rfl : target = t := by simpa using ht
  rw [if_neg (by rw [not_or, not_not, not_lt]; exact ⟨hp, hdue⟩)]
  unfold decideFee
  rw [wp_ite]
  refine ⟨fun _ => hsave false _ _ (.inl rfl), fun _ => ?_⟩
  rw [wp_ite]
  refine ⟨fun _ => hsave false _ _ (.inl rfl), fun _ => ?_⟩
  rw [wp_ite]
  refine ⟨fun _ => hsave false _ _ (.inl rfl), fun _ => ?_⟩
  rw [wp_ite]
  refine ⟨fun _ => hsave true _ _ (.inl rfl), fun _ => ?_⟩
  rw [wp_ite]
  refine ⟨fun _ => hsave true _ _ (.inr rfl), fun hverified => ?_⟩
  exact absurd (.inl (by rw [hobs]; simp)) hverified

theorem neverCharged_of_unverified (h : WorldOk w) {op : Op} (hv : op.Valid w) {env : Environment}
    {target : Target} {r : Reservation} (hr : r ∈ w.db.reservations) (hobs : Observes op env target r)
    (hp : r.fee_decision = .pending) (hnow : r.expires_at ≤ env.now)
    (hver : siteVerified env target r = false) : NeverCharged (step op w) r.id := by
  have hok := step_ok h hv
  cases hobs with
  | reconcile hlock hh =>
    have hmem := reconcile_unverified h hr hlock
    have hnever := neverCharged_of_ineligible hok hmem (reconcileRow_unverified hh hp hnow hver)
    rwa [(moves_reconcileRow env target r).id] at hnever
  | fee_one hlock hdue =>
    obtain ⟨r', hr', hid, hd, hl⟩ := fee_one_unverified h hr hlock hp hdue hver
    have hnever := neverCharged_of_decided hok hr' hd hl
    rwa [hid] at hnever

end ChargesLemmas

open ChargesLemmas

/-! ## 2. One run -/

theorem Run.cons {w w' : World} {op : Op} {ops : List Op} (valid : op.Valid w)
    (run : Run (step op w) ops w') : Run w (op :: ops) w' := by
  induction run with
  | nil => exact Run.snoc (.nil w) valid
  | snoc _ valid' ih => exact Run.snoc ih valid'

namespace OneDriver

def station : Uuid := .sample 1
def point : Uuid := .sample 2
def connector : Uuid := .sample 3
def driver : Uuid := .sample 4
def card : Uuid := .sample 5
def booking : Uuid := .sample 6
def token : Uuid := .sample 7
def fresh : Uuid := .sample 8

/-- A charger that is always there, at a second after its boot. -/
def site (second : ℤ) : Environment where
  now := second * SECOND
  new_id := fresh
  stations := [⟨station, true, false⟩]
  charge_points := [⟨point, station, true, false, some 0, some (second * SECOND), 60, none, .Available⟩]
  connectors := [⟨connector, point, false, .Available, .Available, none, 0⟩]
  capabilities := [⟨point, some 0, true, some 0⟩]
  connections := [(point, true)]
  sessions := []
  virtual_tags := [(driver, card)]

/-- One driver with an empty wallet. -/
def world : World where
  db :=
    { wallet :=
        { users := [⟨driver, true, [.driver]⟩], wallets := [⟨fresh, driver, 0, .active⟩]
          wallet_ledger := [], ledger_seq := 1, wallet_audits := [], audit_logs := [] }
      reservations := [], ocpp_seq := 1 }
  clock := 0
  flights := []

def request : BookingRequest :=
  ⟨driver, booking, connector, none, some 5000, some 1, "digest", "legacy"⟩

def checks : BookingChecks := ⟨false, true, 5000, 1, true, true, none, none, card, true⟩

/-- A hold of 900 seconds is booked, confirmed by the charger, and charged 30 seconds after it expired. -/
def noShow : List Op :=
  [.create_reservation (site 0) request checks, .claim (site 0) 30 token booking,
    .deliver (site 1) ⟨booking, booking, token, .ReserveNow⟩ .Accepted, .fee_one [] (site 930) booking]

/-- The driver's start, stamped before expiry, is processed `second` seconds after the booking. -/
def start (second : ℤ) : Op :=
  .start_transaction (second * SECOND) ⟨connector, some ⟨card, driver⟩, some 1, 899 * SECOND⟩
    ⟨true, false, true, true, 1⟩

theorem start_world : Start world :=
  ⟨Ok.of_empty rfl (by simp [world]) (by simp [world]), rfl, rfl, by simp [world]⟩

/-- The reservation is booked, confirmed and charged; then the start is processed. -/
theorem run_start (second : ℤ) (h : 930 ≤ second) :
    ∃ w, w = (noShow ++ [start second]).foldl (fun w op => step op w) world ∧
      Run world (noShow ++ [start second]) w := by
  refine ⟨_, rfl, ?_⟩
  refine .cons ⟨?_, trivial⟩ (.cons ⟨?_, trivial⟩ (.cons ⟨?_, ?_⟩ (.cons ⟨?_, trivial⟩
    (.cons ⟨?_, trivial⟩ (.nil _)))))
  · decide +kernel
  · decide +kernel
  · decide +kernel
  · decide +kernel
  · decide +kernel
  · rintro now ⟨⟩
    change 930 * SECOND ≤ second * SECOND
    exact Int.mul_le_mul_of_nonneg_right h (by decide)

end OneDriver

open OneDriver

/-! ## 3. Fees of a run -/

/-- The fee of a reservation and the ledger agree. -/
structure FeeSettled (w : World) (r : Reservation) : Prop where
  once : (w.db.wallet.wallet_ledger.filter (·.key = (.reservation_fee, r.id.text))).length ≤ 1
  posted : (∃ row ∈ w.db.wallet.wallet_ledger, row.key = (.reservation_fee, r.id.text)) ↔
    r.fee_ledger_id ≠ none
  row : ∀ row ∈ w.db.wallet.wallet_ledger, row.key = (.reservation_fee, r.id.text) →
    r.fee_ledger_id = some row.id ∧ row.amount_vnd = -r.fee_vnd
  charged : r.fee_ledger_id ≠ none → r.activatedInTime = true ∧ ¬ Barred r

theorem WorldOk.feeSettled {w : World} (h : WorldOk w) {r : Reservation} (hr : r ∈ w.db.reservations) :
    FeeSettled w r := by
  have hposted : (∃ row ∈ w.db.wallet.wallet_ledger, row.key = (.reservation_fee, r.id.text)) ↔
      r.fee_ledger_id ≠ none := by
    constructor
    · rintro ⟨row, hrow, hkey⟩ hnone
      exact h.no_fee hr hnone row hrow hkey
    · intro hl
      obtain ⟨-, row, hrow, hfee⟩ := h.charged r hr hl
      exact ⟨row, hrow, hfee.key⟩
  refine ⟨?_, hposted, fun row hrow hkey => ?_, fun hl => ⟨?_, fun hb => ?_⟩⟩
  · by_cases hex : ∃ row ∈ w.db.wallet.wallet_ledger, row.key = (.reservation_fee, r.id.text)
    · obtain ⟨row, hrow, hkey⟩ := hex
      rw [← hkey, h.ledger.filter_key hrow]
      rfl
    · rw [List.filter_eq_nil_iff.mpr fun row hrow => by simpa using fun hk => hex ⟨row, hrow, hk⟩]
      exact Nat.zero_le 1
  · obtain ⟨-, row', hrow', hfee⟩ := h.charged r hr (hposted.mp ⟨row, hrow, hkey⟩)
    rw [h.ledger.key_inj hrow hrow' (hkey.trans hfee.key.symm)]
    exact ⟨hfee.id, hfee.amount⟩
  · exact (h.rows r hr).eligible ((h.rows r hr).charged hl).eligible
  · exact hl (neverCharged_of_barred h hr hb _ _ (.nil w) r hr rfl)

/-- In every reachable state a reservation has its fee row if and only if it carries its id, at
most one, with the amount fixed at booking, and only if it was confirmed in time and is not barred.
What bars a reservation, a late start noted while it was undecided, and an observation after
expiry that the site is not in order, bar it for good. Decisions are not taken back. -/
theorem fees_settled {w₀ w : World} {ops : List Op} (start : Start w₀) (run : Run w₀ ops w) :
    (∀ r ∈ w.db.reservations, FeeSettled w r ∧ (Barred r → NeverCharged w r.id)) ∧
    (∀ ops' w', Run w ops' w' → ∀ r ∈ w.db.reservations, ∀ r' ∈ w'.db.reservations, r'.id = r.id →
      r'.fee_vnd = r.fee_vnd ∧ (r.fee_decision ≠ .pending → r'.fee_decision ≠ .pending)) ∧
    ∀ op, op.Valid w → ∀ r ∈ w.db.reservations, r.fee_decision = .pending →
      (∀ now, mark_late_start r now ∈ (step op w).db.reservations → NeverCharged (step op w) r.id) ∧
      ∀ env target, Observes op env target r → r.expires_at ≤ env.now →
        siteVerified env target r = false → NeverCharged (step op w) r.id := by
  have h := run_ok run (.of_start start)
  refine ⟨fun r hr => ⟨h.feeSettled hr, neverCharged_of_barred h hr⟩, fun ops' w' run' r hr r' hr' hid => ?_,
    fun op hv r hr hp => ⟨fun now hlate => ?_, fun env target hobs hnow hver => ?_⟩⟩
  · have hk := run_keeps_id run' h hr hr' hid
    exact ⟨hk.fee_vnd, hk.decision⟩
  · exact neverCharged_of_late (step_ok h hv) hlate (h.rows r hr) hp
  · exact neverCharged_of_unverified h hv hr hobs hp hnow hver

theorem fees_settled_no_show : ∃ w, Run world (noShow ++ [start 931]) w ∧
    (∀ r ∈ w.db.reservations, FeeSettled w r ∧ (Barred r → NeverCharged w r.id)) ∧
    w.db.reservations.map (fun r => (r.fee_vnd, r.fee_ledger_id)) = [(5000, some 1)] := by
  obtain ⟨w, hw, run⟩ := run_start 931 (by decide)
  refine ⟨w, run, (fees_settled start_world run).1, ?_⟩
  rw [hw]
  decide +kernel

/-! ## 4. Fee and consumption -/

/-- A start does not name a charged reservation at the instant its fee window closes. -/
def Op.Apart (w : World) : Op → Prop
  | .start_transaction now msg _ => ∀ r ∈ w.db.reservations, msg.reservation_id = some r.ocpp_id →
      r.fee_ledger_id ≠ none → now ≠ r.expires_at + 30 * SECOND
  | _ => True

/-- Every start of the run is such. -/
def StartsApart : World → List Op → Prop
  | _, [] => True
  | w, op :: ops => op.Apart w ∧ StartsApart (step op w) ops

namespace ChargesLemmas

theorem startsApart_append {w w' : World} {ops : List Op} (run : Run w ops w') {rest : List Op} :
    StartsApart w (ops ++ rest) ↔ StartsApart w ops ∧ StartsApart w' rest := by
  induction run generalizing rest with
  | nil => simp [StartsApart]
  | snoc _ _ ih =>
    rw [List.append_assoc, ih, ih]
    simp [StartsApart, and_assoc]

/-- No operation consumes a charged reservation or charges a consumed one. -/
theorem step_exclusive {w : World} {op : Op} (h : WorldOk w) (hv : op.Valid w) (ha : op.Apart w)
    (hx : ∀ r ∈ w.db.reservations, r.fee_ledger_id ≠ none → r.status ≠ .consumed) :
    ∀ r ∈ (step op w).db.reservations, r.fee_ledger_id ≠ none → r.status ≠ .consumed := by
  intro r hr hl
  cases step_transition hv with
  | same hrows => exact hx r (hrows ▸ hr) hl
  | booked _ _ _ _ _ _ _ _ _ hrows =>
    rw [hrows] at hr
    rcases List.mem_append.mp hr with hr | hr
    · exact hx r hr hl
    · rw [List.mem_singleton.mp hr] at hl
      exact absurd rfl hl
  | touched x x' hmem htouch hrows =>
    rcases (mem_updated h.ids hmem hrows).mp hr with rfl | ⟨hr, -⟩
    · have hledger := (Touch.updates htouch (h.rows x hmem)).2
      rw [hledger] at hl
      rcases Touch.moves htouch (h.rows x hmem) with hm | hconsume
      · exact fun hc => hx x hmem hl (hm.consumed hc)
      · obtain ⟨now, msg, checks, rfl, hocpp, htime, -, -⟩ := hconsume
        have hdue := (h.charged x hmem hl).1
        have hclock : w.clock ≤ now := hv.1 now rfl
        exact absurd (by omega) (ha x hmem hocpp hl)
    · exact hx r hr hl
  | charged _ _ _ _ x row _ hmem _ hc _ _ _ hrows =>
    rcases (mem_updated h.ids hmem hrows).mp hr with rfl | ⟨hr, -⟩
    · exact (chargedRow_updates row.id (h.rows x hmem) hc).2.2.2
    · exact hx r hr hl
  | wallet _ _ _ hrows => exact hx r (hrows ▸ hr) hl

theorem run_exclusive {w w' : World} {ops : List Op} (run : Run w ops w') (h : WorldOk w)
    (ha : StartsApart w ops) (hx : ∀ r ∈ w.db.reservations, r.fee_ledger_id ≠ none → r.status ≠ .consumed) :
    ∀ r ∈ w'.db.reservations, r.fee_ledger_id ≠ none → r.status ≠ .consumed := by
  induction run with
  | nil => exact hx
  | snoc run' valid ih =>
    obtain ⟨ha', hop⟩ := (startsApart_append run').mp ha
    exact step_exclusive (run_ok run' h) valid hop.1 (ih ha')

end ChargesLemmas

/-- In a run whose starts stay off the closing instant of a charged reservation, no reservation has
both a fee in the ledger and a session. -/
theorem fee_excludes_consumption {w₀ w : World} {ops : List Op} (start : Start w₀) (run : Run w₀ ops w)
    (apart : StartsApart w₀ ops) : ∀ r ∈ w.db.reservations, r.status = .consumed ∨ r.session_id ≠ none →
      ∀ row ∈ w.db.wallet.wallet_ledger, row.key ≠ (.reservation_fee, r.id.text) := by
  intro r hr hcon row hrow hkey
  have h := run_ok run (.of_start start)
  have hstatus : r.status = .consumed := hcon.elim (fun hc => hc) (h.rows r hr).session
  have hl := (h.feeSettled hr).posted.mp ⟨row, hrow, hkey⟩
  refine run_exclusive run (.of_start start) apart ?_ r hr hl hstatus
  simp [start.reservations]

/-- At the closing instant itself `fee_one` charges and the start still consumes. -/
theorem fee_and_consumption :
    ¬ ∀ (w₀ w : World) (ops : List Op), Start w₀ → Run w₀ ops w →
      ∀ r ∈ w.db.reservations, r.status = .consumed ∨ r.session_id ≠ none →
        ∀ row ∈ w.db.wallet.wallet_ledger, row.key ≠ (.reservation_fee, r.id.text) := by
  intro hall
  obtain ⟨w, hw, run⟩ := run_start 930 le_rfl
  have hboth := hall _ _ _ start_world run
  rw [hw] at hboth
  revert hboth
  decide +kernel

theorem fee_excludes_consumption_one_second_later : ∃ w, Run world (noShow ++ [start 931]) w ∧
    StartsApart world (noShow ++ [start 931]) ∧
    (∀ r ∈ w.db.reservations, r.status = .consumed ∨ r.session_id ≠ none →
      ∀ row ∈ w.db.wallet.wallet_ledger, row.key ≠ (.reservation_fee, r.id.text)) ∧
    w.db.reservations.map (fun r => (r.status, r.fee_ledger_id)) = [(.expiry_release_pending, some 1)] := by
  obtain ⟨w, hw, run⟩ := run_start 931 (by decide)
  have hapart : StartsApart world (noShow ++ [start 931]) := by
    refine ⟨trivial, trivial, trivial, trivial, ?_, trivial⟩
    change ∀ r ∈ _, _ → _ → _
    decide +kernel
  refine ⟨w, run, hapart, fee_excludes_consumption start_world run hapart, ?_⟩
  rw [hw]
  decide +kernel

end Csms.Reservations
