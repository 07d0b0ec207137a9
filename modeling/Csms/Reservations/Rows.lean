import Csms.Reservations.Fees

/-!
# Invariants of one reservation

`RowOk` ties together the status, the ReserveNow command and the fee of a reservation. `Moves`
says what every function on a row keeps; it is transitive, so a function made of others moves a
row as they do.

Results: `moves_request_release`, `moves_claimRow`, `moves_deliverRow`, `moves_reconcileRow`: one
for each function; `rowOk_consume` and `rowOk_charged` for the two that are no `Moves`.
-/

namespace Csms.Reservations

/-! ## 1. Invariant -/

/-- What holds of a reservation whose fee was charged. -/
structure ChargedOk (r : Reservation) : Prop where
  eligible : r.expiry_fee_eligible = some true
  fee : r.fee_vnd ≠ 0
  exempt : r.no_show_exempt = false
  rejected : r.status ≠ .rejected
  decided : r.fee_decision ≠ .pending
  released : r.status.holds = true → r.cancel_requested_at ≠ none

/-- The invariant of a reservation. -/
structure RowOk (r : Reservation) : Prop where
  fee : 0 ≤ r.fee_vnd
  exempt : r.no_show_exempt = true → r.cancel_requested_at ≠ none
  lease : r.reserve.lease_token ≠ none → r.reserve.status = .sending
  unsent : r.reserve.status = .queued → r.reserve.attempts = 0
  activated : r.activated_at ≠ none → r.reserve.status = .done
  not_sent : r.outcome = some .not_sent → r.reserve.status = .suppressed
  eligible : r.expiry_fee_eligible = some true → r.activatedInTime = true
  consumed : r.status = .consumed → r.fee_decision ≠ .pending
  session : r.session_id ≠ none → r.status = .consumed
  charged : r.fee_ledger_id ≠ none → ChargedOk r

/-- What every function on a reservation keeps. -/
structure Keeps (r r' : Reservation) : Prop where
  id : r'.id = r.id
  ocpp_id : r'.ocpp_id = r.ocpp_id
  driver_id : r'.driver_id = r.driver_id
  connector_id : r'.connector_id = r.connector_id
  expires_at : r'.expires_at = r.expires_at
  fee_vnd : r'.fee_vnd = r.fee_vnd
  decision : r.fee_decision ≠ .pending → r'.fee_decision ≠ .pending
  released : r.cancel_requested_at ≠ none →
    r'.cancel_requested_at ≠ none ∧ r'.no_show_exempt = r.no_show_exempt
  ineligible : r.expiry_fee_eligible = some false → r'.expiry_fee_eligible = some false
  activated : r.activated_at ≠ none → r'.activated_at = r.activated_at
  requeue : r.reserve.status ≠ .queued → r'.reserve.status ≠ .queued
  suppressed : r.reserve.status = .suppressed → r'.reserve.status = .suppressed
  rejected : r.status = .rejected → r'.status = .rejected

/-- What the functions on a reservation keep that neither charge nor consume it. -/
structure Moves (r r' : Reservation) : Prop extends Keeps r r' where
  ledger : r'.fee_ledger_id = r.fee_ledger_id
  terminal : r.status.holds = false → r'.status = r.status
  consumed : r'.status = .consumed → r.status = .consumed
  ok : RowOk r → RowOk r'

variable {r r' r'' : Reservation}

theorem Keeps.refl (r : Reservation) : Keeps r r :=
  ⟨rfl, rfl, rfl, rfl, rfl, rfl, fun h => h, fun h => ⟨h, rfl⟩, fun h => h, fun _ => rfl, fun h => h,
    fun h => h, fun h => h⟩

theorem Keeps.trans (h : Keeps r r') (h' : Keeps r' r'') : Keeps r r'' where
  id := h'.id.trans h.id
  ocpp_id := h'.ocpp_id.trans h.ocpp_id
  driver_id := h'.driver_id.trans h.driver_id
  connector_id := h'.connector_id.trans h.connector_id
  expires_at := h'.expires_at.trans h.expires_at
  fee_vnd := h'.fee_vnd.trans h.fee_vnd
  decision := fun hd => h'.decision (h.decision hd)
  released := fun hr =>
    let h1 := h.released hr
    let h2 := h'.released h1.1
    ⟨h2.1, h2.2.trans h1.2⟩
  ineligible := fun hi => h'.ineligible (h.ineligible hi)
  activated := fun ha => by
    have h1 := h.activated ha
    rw [h'.activated (h1 ▸ ha), h1]
  requeue := fun hq => h'.requeue (h.requeue hq)
  suppressed := fun hs => h'.suppressed (h.suppressed hs)
  rejected := fun hr => h'.rejected (h.rejected hr)

theorem Moves.refl (r : Reservation) : Moves r r :=
  ⟨.refl r, rfl, fun _ => rfl, fun h => h, fun h => h⟩

theorem Moves.trans (h : Moves r r') (h' : Moves r' r'') : Moves r r'' where
  toKeeps := h.toKeeps.trans h'.toKeeps
  ledger := h'.ledger.trans h.ledger
  terminal := fun ht => by
    have hs := h.terminal ht
    rw [h'.terminal (hs ▸ ht), hs]
  consumed := fun hc => h.consumed (h'.consumed hc)
  ok := fun ho => h'.ok (h.ok ho)

theorem Moves.holds (h : Moves r r') (hh : r'.status.holds = true) : r.status.holds = true := by
  by_contra hn
  rw [Bool.not_eq_true] at hn
  rw [h.terminal hn, hn] at hh
  cases hh

/-- A charged reservation was confirmed by the charger. -/
theorem RowOk.charged_done (h : RowOk r) (hl : r.fee_ledger_id ≠ none) : r.reserve.status = .done := by
  have ha := h.eligible (h.charged hl).eligible
  refine h.activated fun hn => ?_
  rw [Reservation.activatedInTime, hn] at ha
  cases ha

theorem RowOk.session_none (h : RowOk r) (hh : r.status.holds = true) : r.session_id = none := by
  by_contra hs
  rw [h.session hs] at hh
  cases hh

/-! ## 2. Updates of single columns -/

/-- Columns the invariant does not read. -/
theorem moves_minor (r : Reservation) (outcome : Option Outcome) (updated_at : ℤ)
    (cancel : Option ReservationCommand) (ho : outcome = some .not_sent → r.outcome = some .not_sent) :
    Moves r { r with outcome, updated_at, cancel } := by
  refine { Moves.refl r with ok := fun h => ?_ }
  exact { h with
    not_sent := fun hn => h.not_sent (ho hn)
    charged := fun hl => { h.charged hl with } }

theorem moves_event (r : Reservation) (action : EventAction) (now : ℤ) : Moves r (r.event action now) := by
  refine { Moves.refl r with ok := fun h => ?_ }
  exact { h with charged := fun hl => { h.charged hl with } }

/-- Another status of a hold. -/
theorem moves_status (status : ReservationStatus) (hh : r.status.holds = true)
    (hc : status ≠ .consumed) (hr : status = .rejected → r.reserve.status ≠ .done) :
    Moves r { r with status } := by
  refine { Moves.refl r with
    rejected := fun h => ?_, terminal := fun h => ?_, consumed := fun h => absurd h hc, ok := fun h => ?_ }
  · rw [h] at hh
    cases hh
  · rw [hh] at h
    cases h
  refine { h with
    consumed := fun hs => absurd hs hc
    session := fun hs => absurd (h.session_none hh) hs
    charged := fun hl => ?_ }
  have c := h.charged hl
  exact { c with
    rejected := fun hs => hr hs (h.charged_done hl)
    released := fun _ => c.released hh }

/-- Another state of the ReserveNow command, on a reservation the charger did not confirm. -/
theorem moves_reserve (reserve : ReservationCommand)
    (hq : reserve.status = .queued → r.reserve.status = .queued ∧ reserve.attempts = r.reserve.attempts)
    (hs : r.reserve.status = .suppressed → reserve.status = .suppressed)
    (hd : r.reserve.status = .done → reserve.status = .done)
    (hl : reserve.lease_token ≠ none → r.reserve.lease_token ≠ none ∧
      (r.reserve.status = .sending → reserve.status = .sending) ∨ reserve.status = .sending) :
    Moves r { r with reserve } := by
  refine { Moves.refl r with requeue := fun hn h => hn (hq h).1, suppressed := hs, ok := fun h => ?_ }
  refine { h with
    lease := fun ht => ?_
    unsent := fun ht => ?_
    activated := fun ha => hd (h.activated ha)
    not_sent := fun hn => hs (h.not_sent hn)
    charged := fun hl => { h.charged hl with } }
  · rcases hl ht with ⟨ht', hkeep⟩ | hsend
    · exact hkeep (h.lease ht')
    · exact hsend
  · obtain ⟨hq', ha⟩ := hq ht
    exact ha.trans (h.unsent hq')

/-- A queued ReserveNow takes another status. -/
theorem moves_reserve_of_queued (reserve : ReservationCommand) (hq : r.reserve.status = .queued)
    (hs : reserve.status ≠ .queued)
    (hl : reserve.lease_token = r.reserve.lease_token ∨ reserve.status = .sending) :
    Moves r { r with reserve } := by
  refine moves_reserve reserve (fun h => absurd h hs) ?_ ?_ fun ht => ?_
  · rw [hq]
    nofun
  · rw [hq]
    nofun
  · rcases hl with hl | hl
    · exact .inl ⟨hl ▸ ht, by rw [hq]; nofun⟩
    · exact .inr hl

/-! ## 3. Fees -/

theorem moves_decide (r : Reservation) {decision : FeeDecision} (hd : decision ≠ .pending)
    (reason : FeeReason) (now : ℤ) : Moves r (decide r decision reason now) := by
  unfold decide
  split
  · exact .refl r
  refine Moves.trans ?_ (moves_event _ _ _)
  refine { Moves.refl r with decision := fun _ => hd, ok := fun h => ?_ }
  exact { h with consumed := fun _ => hd, charged := fun hl => { h.charged hl with decided := hd } }

theorem decide_decision (r : Reservation) (decision : FeeDecision) (reason : FeeReason) (now : ℤ) :
    (decide r decision reason now).fee_decision = decision := by
  unfold decide
  split
  · next h => exact h.1
  · rfl

/-- `decide` writes the columns of the decision only. -/
theorem decide_frame (r : Reservation) (decision : FeeDecision) (reason : FeeReason) (now : ℤ) :
    (decide r decision reason now).reserve = r.reserve ∧ (decide r decision reason now).status = r.status ∧
    (decide r decision reason now).cancel_requested_at = r.cancel_requested_at ∧
    (decide r decision reason now).no_show_exempt = r.no_show_exempt ∧
    (decide r decision reason now).expiry_fee_eligible = r.expiry_fee_eligible := by
  unfold decide
  split <;> exact ⟨rfl, rfl, rfl, rfl, rfl⟩

theorem moves_mark_late_start (r : Reservation) (now : ℤ) : Moves r (mark_late_start r now) := by
  unfold mark_late_start
  refine Moves.trans ?_ (moves_event _ _ _)
  split
  · exact moves_decide r (by simp) _ _
  · exact .refl r

theorem mark_late_start_status (r : Reservation) (now : ℤ) : (mark_late_start r now).status = r.status := by
  unfold mark_late_start
  dsimp only [Reservation.event]
  split
  · exact (decide_frame _ _ _ _).2.1
  · rfl

/-- The verdict on an undecided reservation, `some true` only if it was confirmed in time. -/
theorem moves_eligible {eligible : Bool} (hp : r.fee_decision = .pending)
    (hi : r.expiry_fee_eligible = some false → eligible = false)
    (ht : eligible = true → r.activatedInTime = true) :
    Moves r { r with expiry_fee_eligible := some eligible } := by
  refine { Moves.refl r with ineligible := fun h => congrArg some (hi h), ok := fun h => ?_ }
  exact { h with
    eligible := fun he => ht (Option.some.inj he)
    charged := fun hl => absurd hp (h.charged hl).decided }

theorem moves_observe_expiry (env : Environment) (target : Target) (r : Reservation) :
    Moves r (observe_expiry env target r) := by
  unfold observe_expiry
  split
  · exact .refl r
  next hpend =>
  rw [not_or, not_not] at hpend
  dsimp only
  split
  · next hnone =>
    refine moves_eligible hpend.1 (fun h => ?_) fun h => (Bool.and_eq_true_iff.mp h).1
    rw [hnone] at h
    cases h
  · split
    · exact .refl r
    · exact moves_eligible hpend.1 (fun _ => rfl) nofun

/-- An observation after expiry of a site that is not in order is not forgotten. -/
theorem observe_expiry_unverified {env : Environment} {target : Target} (hp : r.fee_decision = .pending)
    (hnow : r.expires_at ≤ env.now) (hv : siteVerified env target r = false) :
    (observe_expiry env target r).expiry_fee_eligible = some false := by
  unfold observe_expiry
  rw [if_neg (by rw [not_or, not_not]; exact ⟨hp, by omega⟩)]
  dsimp only
  rw [hv, Bool.and_false]
  split <;> rfl

/-! ## 4. Releases -/

theorem markReleased_frame (r : Reservation) (now : ℤ) (reason : CancelReason) (request_id : Option Uuid) :
    (markReleased r now reason request_id).reserve = r.reserve ∧
    (markReleased r now reason request_id).status = r.status ∧
    (markReleased r now reason request_id).cancel_requested_at = some now ∧
    (markReleased r now reason request_id).no_show_exempt =
      Decidable.decide (reason = .station_unavailable ∨ (reason = .driver_cancel ∧ now < r.expires_at)) ∧
    (markReleased r now reason request_id).expiry_fee_eligible = r.expiry_fee_eligible := by
  unfold markReleased
  dsimp only
  split
  · exact decide_frame _ _ _ _
  · exact ⟨rfl, rfl, rfl, rfl, rfl⟩

/-- The cancel columns, on a hold whose release was not requested before. -/
theorem moves_markReleased (hc : r.cancel_requested_at = none) (hh : r.status.holds = true) (now : ℤ)
    (reason : CancelReason) (request_id : Option Uuid) :
    Moves r (markReleased r now reason request_id) := by
  have hcols : ∀ exempt, Moves r { r with
      cancel_requested_at := some now, cancel_reason := some reason, cancel_request_id := request_id
      no_show_exempt := exempt } := by
    intro exempt
    refine { Moves.refl r with released := fun h => absurd hc h, ok := fun h => ?_ }
    exact { h with exempt := nofun, charged := fun hl => absurd hc ((h.charged hl).released hh) }
  unfold markReleased
  refine Moves.trans ?_ (moves_minor _ _ now _ id)
  split
  · exact (hcols _).trans (moves_decide _ (by simp) _ _)
  · exact hcols _

theorem moves_request_release (r : Reservation) (now : ℤ) (new_id : Uuid) (reason : CancelReason)
    (request_id : Option Uuid) : Moves r (request_release r now new_id reason request_id) := by
  unfold request_release
  split
  · exact .refl r
  next hguard =>
  rw [not_or, Bool.not_eq_false, not_not] at hguard
  obtain ⟨hh, hc⟩ := hguard
  obtain ⟨hres, hst, -⟩ := markReleased_frame r now reason request_id
  have hm := moves_markReleased hc hh now reason request_id
  have hh' : (markReleased r now reason request_id).status.holds = true := hst ▸ hh
  refine Moves.trans (hm.trans ?_) (moves_event _ _ _)
  split
  · next hq =>
    have hq' : (markReleased r now reason request_id).reserve.status = .queued := by rw [hres, hq.1]
    have hmove := moves_reserve_of_queued { r.reserve with status := .suppressed } hq'
      (by simp) (.inl (by rw [hres]))
    refine hmove.trans (.trans (moves_status (if reason = .expired then .expired else .cancelled)
      hh' ?_ ?_) ?_)
    · split <;> simp
    · split <;> nofun
    -- `not_sent` is written together with the suppressed command.
    refine { Moves.refl _ with ok := fun h => ?_ }
    exact { h with not_sent := fun _ => rfl, charged := fun hl => { h.charged hl with } }
  · refine .trans (moves_status
      (if reason = .expired then .expiry_release_pending else .cancel_pending) hh' ?_ ?_)
      (moves_minor _ _ _ _ id)
    · split <;> simp
    · split <;> nofun

/-! ## 5. Commands -/

theorem moves_claimReserve (env : Environment) (timeout : ℤ) (token : Uuid) (target : Target)
    (r : Reservation) : Moves r (claimReserve env timeout token target r).1 := by
  unfold claimReserve
  split
  · exact .refl r
  next hq =>
  rw [not_or, not_not] at hq
  split
  · exact moves_reserve_of_queued _ hq.1 (by simp) (.inl rfl)
  next hh =>
  rw [Bool.not_eq_false] at hh
  split
  · exact .refl r
  split
  · exact moves_request_release _ _ _ _ _
  have hreject : ∀ outcome, outcome ≠ .not_sent → Moves r (rejectUnsent r outcome) := by
    intro outcome ho
    have hstatus : Moves r { r with status := .rejected } :=
      moves_status _ hh (by simp) fun _ => by rw [hq.1]; simp
    have hcommand := moves_reserve_of_queued (r := { r with status := .rejected })
      { r.reserve with status := .done, outcome := some outcome } hq.1 (by simp) (.inl rfl)
    exact (hstatus.trans hcommand).trans (moves_minor _ _ _ _ fun h => absurd (Option.some.inj h) ho)
  split
  · exact ((hreject _ (by simp)).trans (moves_event _ _ _)).trans (moves_minor _ _ env.now _ id)
  split
  · exact hreject _ (by simp)
  · exact moves_reserve_of_queued _ hq.1 (by simp [ReservationCommand.lease]) (.inr rfl)

theorem moves_claimCancel (env : Environment) (timeout : ℤ) (token : Uuid) (target : Target)
    (r : Reservation) (command : ReservationCommand) :
    Moves r (claimCancel env timeout token target r command).1 := by
  have hcancel : ∀ cancel, Moves r { r with cancel } := fun cancel => moves_minor r _ _ cancel id
  unfold claimCancel
  split
  · exact .refl r
  split
  · exact hcancel _
  split
  · exact .refl r
  split
  · exact .refl r
  · exact hcancel _

theorem moves_claimRow (env : Environment) (timeout : ℤ) (token command_id : Uuid) (target : Target)
    (r : Reservation) : Moves r (claimRow env timeout token command_id target r).1 := by
  unfold claimRow
  split
  · exact moves_claimReserve _ _ _ _ _
  split
  · exact moves_claimCancel _ _ _ _ _ _
  · exact .refl r

/-- The charger's first confirmation of a hold. -/
theorem moves_activated {now : ℤ} (ha : r.activated_at = none) (hd : r.reserve.status = .done) :
    Moves r { r with activated_at := some now } := by
  refine { Moves.refl r with activated := fun h => absurd ha h, ok := fun h => ?_ }
  have hne : r.expiry_fee_eligible ≠ some true := by
    intro he
    have := h.eligible he
    rw [Reservation.activatedInTime, ha] at this
    cases this
  exact { h with
    activated := fun _ => hd
    eligible := fun he => absurd he hne
    charged := fun hl => { h.charged hl with } }

theorem moves_deliverReserve {now : ℤ} {outcome : WireOutcome} (hs : r.reserve.status = .sending) :
    Moves r (deliverReserve now outcome r) := by
  -- Every record `x` here differs from `r` in columns that `finish` does not read.
  have hfinish : ∀ (x : Reservation) (status : CommandStatus), x.reserve = r.reserve → status ≠ .queued →
      Moves x { x with reserve := r.reserve.finish status outcome } := by
    intro x status hx hq
    refine moves_reserve _ (fun h => absurd h hq) ?_ ?_ fun h => absurd rfl h <;>
    · rw [hx, hs]
      nofun
  unfold deliverReserve
  dsimp only
  split
  · exact hfinish r _ rfl (by split <;> simp)
  next hh =>
  rw [Bool.not_eq_false] at hh
  refine Moves.trans ?_ (moves_event _ _ _)
  refine (moves_minor r (some (.wire outcome)) now r.cancel nofun).trans ?_
  refine Moves.trans (moves_status (if outcome.refuses then .rejected
    else if r.cancel_requested_at = none then if outcome = .Accepted then .active else .uncertain
    else r.status) ?_ ?_ ?_) ?_
  · exact hh
  · split
    · simp
    split
    · split <;> simp
    · intro hc
      rw [hc] at hh
      cases hh
  · intro _
    rw [hs]
    simp
  refine Moves.trans (hfinish _ (if outcome = .Accepted ∨ outcome.refuses then .done else .uncertain)
    ?_ ?_) ?_
  · rfl
  · split <;> simp
  by_cases hacc : outcome = .Accepted ∧ r.activated_at = none
  · rw [if_pos hacc]
    refine moves_activated hacc.2 ?_
    rw [hacc.1]
    rfl
  · rw [if_neg hacc]
    exact .refl _

theorem moves_deliverCancel (now : ℤ) (outcome : WireOutcome) (r : Reservation)
    (command : ReservationCommand) : Moves r (deliverCancel now outcome r command) := by
  have hcancel : ∀ cancel, Moves r { r with cancel } := fun cancel => moves_minor r _ _ cancel id
  unfold deliverCancel
  split
  · dsimp only
    split
    · next hh =>
      refine Moves.trans ?_ (moves_event _ _ _)
      refine ((hcancel _).trans (moves_status (if r.cancel_reason = some .expired then .expired
        else .cancelled) hh ?_ ?_)).trans (moves_minor _ _ now _ nofun)
      · split <;> simp
      · split <;> nofun
    · exact hcancel _
  · dsimp only
    split
    · exact (hcancel _).trans (moves_minor _ _ now _ nofun)
    · exact hcancel _

theorem moves_deliverRow (h : RowOk r) (now : ℤ) (d : Delivery) (outcome : WireOutcome) :
    Moves r (deliverRow now d outcome r) := by
  unfold deliverRow
  split
  · split
    · next ht =>
      exact moves_deliverReserve (h.lease (by rw [ht]; simp))
    · exact .refl r
  · split
    · split
      · exact moves_deliverCancel _ _ _ _
      · exact .refl r
    · exact .refl r

theorem deliverRow_id (now : ℤ) (d : Delivery) (outcome : WireOutcome) (r : Reservation) :
    (deliverRow now d outcome r).id = r.id := by
  unfold deliverRow
  split
  · split
    · unfold deliverReserve
      dsimp only
      split <;> rfl
    · rfl
  · split
    · split
      · exact (moves_deliverCancel _ _ _ _).id
      · rfl
    · rfl

/-! ## 6. Reconciliation -/

/-- A hold whose state at the charger is no longer known. -/
theorem moves_uncertain {outcome : Outcome} (hh : r.status.holds = true) (ho : outcome ≠ .not_sent)
    (now : ℤ) : Moves r (Reservation.event { r with
      status := .uncertain, outcome := some outcome, updated_at := now } .uncertain now) := by
  refine Moves.trans ?_ (moves_event _ _ _)
  exact (moves_status .uncertain hh (by simp) nofun).trans
    (moves_minor _ _ _ _ fun h => absurd (Option.some.inj h) ho)

theorem moves_observeReboot (env : Environment) (target : Target) (r : Reservation) :
    Moves r (observeReboot env target r) := by
  unfold observeReboot
  split
  · next h => exact moves_uncertain (by rw [h.2]; rfl) (by simp) env.now
  · exact .refl r

theorem moves_expireLeases (now : ℤ) (r : Reservation) : Moves r (expireLeases now r) := by
  unfold expireLeases
  refine Moves.trans ?_ (moves_minor _ _ _ _ id)
  split
  · next he =>
    have hs : r.reserve.status = .sending := by
      unfold ReservationCommand.leaseExpired at he
      exact eq_of_beq (Bool.and_eq_true_iff.mp he).1
    have hexpire : Moves r { r with reserve := r.reserve.expire .uncertain now } := by
      refine moves_reserve _ (fun h => by cases h) ?_ ?_ fun h => absurd rfl h <;>
      · rw [hs]
        nofun
    refine hexpire.trans ?_
    dsimp only
    split
    · next hp =>
      exact moves_uncertain (r := { r with reserve := r.reserve.expire .uncertain now })
        (by rw [hp]; rfl) (by simp) now
    · exact .refl _
  · exact .refl r

theorem moves_releaseDue (env : Environment) (target : Target) (r : Reservation) :
    Moves r (releaseDue env target r) := by
  unfold releaseDue
  split
  · exact moves_request_release _ _ _ _ _
  split
  · exact moves_request_release _ _ _ _ _
  · exact .refl r

theorem moves_suppress (r : Reservation) : Moves r { r with reserve := r.reserve.suppress } := by
  unfold ReservationCommand.suppress
  split
  · next hq => exact moves_reserve_of_queued _ hq (by simp) (.inl rfl)
  · exact .refl r

/-- The status of a freed reservation. -/
def freedStatus (r : Reservation) : ReservationStatus := if r.no_show_exempt then .cancelled else .expired

theorem moves_freeOnEvidence {loaded : Bool} {env : Environment} {target : Target}
    (hs : r.status.holds = true ∨ r.status = freedStatus r) :
    Moves r (freeOnEvidence env target loaded r) := by
  unfold freeOnEvidence
  split
  · refine Moves.trans ?_ (moves_event _ _ _)
    have hstatus : Moves r { r with status := freedStatus r } := by
      rcases hs with hh | hst
      · refine moves_status _ hh ?_ ?_ <;> unfold freedStatus
        · split <;> simp
        · split <;> nofun
      · rw [← hst]
        exact .refl _
    exact (hstatus.trans (moves_minor _ (some .expiry_observed) env.now
      (if loaded then r.cancel.map (·.suppress) else r.cancel) nofun)).trans (moves_suppress _)
  · exact .refl r

/-- A release ends a hold only when ReserveNow was never sent. -/
theorem request_release_status (now : ℤ) (new_id : Uuid) (reason : CancelReason)
    (request_id : Option Uuid) (hh : r.status.holds = true)
    (hr : reason = .driver_cancel → now < r.expires_at) :
    (request_release r now new_id reason request_id).status.holds = true ∨
    r.reserve.status = .queued ∧ r.reserve.attempts = 0 ∧
      (request_release r now new_id reason request_id).status =
        freedStatus (request_release r now new_id reason request_id) := by
  unfold request_release
  split
  · exact .inl hh
  obtain ⟨-, -, -, hex, -⟩ := markReleased_frame r now reason request_id
  dsimp only
  split
  · next hq =>
    refine .inr ⟨hq.1, hq.2, ?_⟩
    simp only [Reservation.event, freedStatus, hex]
    cases reason
    · simp
    · simp
    · simp [hr]
  · refine .inl ?_
    simp only [Reservation.event]
    split <;> rfl

theorem releaseDue_status (env : Environment) (target : Target) (hh : r.status.holds = true) :
    (releaseDue env target r).status.holds = true ∨
    r.reserve.status = .queued ∧ r.reserve.attempts = 0 ∧
      (releaseDue env target r).status = freedStatus (releaseDue env target r) := by
  unfold releaseDue
  split
  · exact request_release_status _ _ _ _ hh nofun
  split
  · exact request_release_status _ _ _ _ hh nofun
  · exact .inl hh

/-- The hold that `reconcile` finds when it comes to the release. -/
def observedRow (env : Environment) (target : Target) (r : Reservation) : Reservation :=
  expireLeases env.now (observeReboot env target (observe_expiry env target r))

theorem reconcileRow_eq {env : Environment} {target : Target} (hh : r.status.holds = true) :
    reconcileRow env target r = freeOnEvidence env target (observedRow env target r).cancel.isSome
      (releaseDue env target (observedRow env target r)) := by
  unfold reconcileRow
  rw [hh, if_neg (by simp)]
  rfl

theorem observedRow_holds (env : Environment) (target : Target) (hh : r.status.holds = true) :
    (observedRow env target r).status.holds = true := by
  have h1 : (observe_expiry env target r).status = r.status := by
    unfold observe_expiry
    split
    · rfl
    dsimp only
    split
    · rfl
    · split <;> rfl
  have h2 : (observeReboot env target (observe_expiry env target r)).status.holds = true := by
    unfold observeReboot
    split
    · rfl
    · rw [h1, hh]
  unfold observedRow expireLeases
  dsimp only
  split
  · split
    · rfl
    · exact h2
  · exact h2

theorem moves_observedRow (env : Environment) (target : Target) (r : Reservation) :
    Moves r (observedRow env target r) :=
  ((moves_observe_expiry env target r).trans (moves_observeReboot env target _)).trans
    (moves_expireLeases env.now _)

theorem moves_reconcileRow (env : Environment) (target : Target) (r : Reservation) :
    Moves r (reconcileRow env target r) := by
  by_cases hh : r.status.holds = true
  · rw [reconcileRow_eq hh]
    have ho := observedRow_holds env target hh
    have hm := (moves_observedRow env target r).trans (moves_releaseDue env target _)
    refine hm.trans (moves_freeOnEvidence ?_)
    exact (releaseDue_status env target ho).imp_right fun h => h.2.2
  · rw [Bool.not_eq_true] at hh
    rw [reconcileRow, if_pos hh]
    exact .refl r

/-! ## 7. The charge and the start -/

/-- The release of `fee_one`: the reservation may now be charged. -/
theorem request_release_expired (r : Reservation) (now : ℤ) (new_id : Uuid) :
    (request_release r now new_id .expired).expiry_fee_eligible = r.expiry_fee_eligible ∧
    (r.no_show_exempt = false → (request_release r now new_id .expired).no_show_exempt = false) ∧
    (r.status ≠ .rejected → (request_release r now new_id .expired).status ≠ .rejected) ∧
    ((request_release r now new_id .expired).status.holds = true →
      (request_release r now new_id .expired).cancel_requested_at ≠ none) := by
  unfold request_release
  split
  · next hguard =>
    refine ⟨rfl, id, id, fun hh => ?_⟩
    rcases hguard with h | h
    · rw [h] at hh
      cases hh
    · exact h
  obtain ⟨-, -, hreq, hex, hel⟩ := markReleased_frame r now .expired none
  have hnot : (markReleased r now .expired none).no_show_exempt = false := by
    rw [hex]
    simp
  dsimp only
  split
  · exact ⟨hel, fun _ => hnot, fun _ => by simp [Reservation.event], nofun⟩
  · refine ⟨hel, fun _ => hnot, fun _ => by simp [Reservation.event], fun _ => ?_⟩
    simp only [Reservation.event]
    rw [hreq]
    simp

/-- The decision of `consume` does not depend on the columns written with it. -/
theorem consume_eq (r : Reservation) (session_id : ℕ) (now : ℤ) :
    consume r session_id now =
      Reservation.event { (if r.fee_decision = .pending then decide r .waived .consumed now else r) with
        status := .consumed, session_id := some session_id, updated_at := now
        outcome := some .StartTransaction } .consumed now := by
  unfold consume
  dsimp only
  split
  · unfold decide
    split <;> rfl
  · rfl

/-- A start consumes a reservation, expired or not. -/
theorem keeps_consume (hs : r.status ≠ .rejected) (session_id : ℕ) (now : ℤ) :
    Keeps r (consume r session_id now) ∧ (consume r session_id now).status = .consumed ∧
    (consume r session_id now).fee_ledger_id = r.fee_ledger_id ∧
    (RowOk r → RowOk (consume r session_id now)) := by
  rw [consume_eq]
  obtain ⟨x, hx, hm, hd⟩ : ∃ x, x = (if r.fee_decision = .pending then decide r .waived .consumed now else r) ∧
      Moves r x ∧ x.fee_decision ≠ .pending := by
    refine ⟨_, rfl, ?_, ?_⟩ <;> split
    · exact moves_decide r (by simp) _ _
    · exact .refl r
    · rw [decide_decision]
      simp
    · next hd => exact hd
  rw [← hx]
  refine ⟨{ hm.toKeeps with rejected := fun h => absurd h hs }, rfl, hm.ledger, fun h => ?_⟩
  have hok := hm.ok h
  exact { hok with
    not_sent := nofun
    consumed := fun _ => hd
    session := fun _ => rfl
    charged := fun hl => { hok.charged hl with rejected := nofun, released := nofun } }

end Csms.Reservations
