import Csms.Reservations.Charges

/-!
# The hold and command protocol

`claims` lists the deliveries that workers claimed for sending in a run. `Freed` lists the reasons
for which a reservation stops holding its connector.

Results:
1. `claimRow_delivery`: what a claim finds in the row it takes a command of.
2. `touch_freed`, `touch_terminal`: how one operation ends a hold, and that an ended hold stays so.
3. `holds_protocol`: the protocol over whole runs.
-/

namespace Csms.Reservations

open Tx Csms.Wallets SystemLemmas IntegrityLemmas ChargesLemmas

/-! ## 1. Claims -/

/-- The deliveries an operation claims. -/
def Op.claims (op : Op) (w : World) : List Delivery :=
  match op with
  | .claim env timeout token command_id =>
    (claimed (Reservations.claim env timeout token command_id) w.db).toList
  | _ => []

/-- The deliveries claimed in a run. -/
def claims : World → List Op → List Delivery
  | _, [] => []
  | w, op :: ops => op.claims w ++ claims (step op w) ops

/-- The delivery is a ReserveNow for the reservation. -/
def Delivery.reserves (d : Delivery) (id : Uuid) : Bool :=
  d.reservation_id = id && d.action = .ReserveNow

/-- What a claim of a command finds in the row, and leaves there. -/
structure Claimed (r r' : Reservation) (d : Delivery) : Prop where
  id : d.reservation_id = r.id
  reserve : d.action = .ReserveNow → r.reserve.status = .queued ∧ r.cancel_requested_at = none ∧
    r'.reserve.status = .sending
  cancel : d.action = .CancelReservation → r.reserve.status ≠ .sending ∧ r'.reserve = r.reserve

namespace ProtocolLemmas

theorem claimRow_delivery {env : Environment} {timeout : ℤ} {token command_id : Uuid} {target : Target}
    {r : Reservation} {d : Delivery} (h : (claimRow env timeout token command_id target r).2 = some d) :
    Claimed r (claimRow env timeout token command_id target r).1 d := by
  unfold claimRow at h ⊢
  split at h
  · next hid =>
    rw [if_pos hid]
    unfold claimReserve at h ⊢
    split at h
    · cases h
    next hq =>
    split at h
    · cases h
    next hh =>
    split at h
    · cases h
    next hc =>
    split at h
    · cases h
    next hrel =>
    split at h
    · cases h
    next hcap =>
    split at h
    · cases h
    next htag =>
    rw [if_neg hq, if_neg hh, if_neg hc, if_neg hrel, if_neg hcap, if_neg htag]
    obtain rfl := Option.some.inj h
    rw [not_or, not_not] at hq
    rw [not_or, not_or, not_not] at hrel
    exact ⟨rfl, fun _ => ⟨hq.1, hrel.2.2, rfl⟩, nofun⟩
  · next hid =>
    rw [if_neg hid]
    split at h
    · next command hcommand =>
      unfold claimCancel at h ⊢
      split at h
      · cases h
      next hq =>
      split at h
      · cases h
      next hh =>
      split at h
      · cases h
      next hc =>
      split at h
      · cases h
      next hs =>
      obtain rfl := Option.some.inj h
      rw [if_neg hq, if_neg hh, if_neg hc, if_neg hs]
      exact ⟨rfl, nofun, fun _ => ⟨hs, rfl⟩⟩
    · cases h

/-- A claim takes a command of a row and saves the row. -/
theorem claims_spec {op : Op} {w : World} {d : Delivery} (hd : d ∈ op.claims w) :
    ∃ r ∈ w.db.reservations, ∃ r' ∈ (step op w).db.reservations, r'.id = r.id ∧ Claimed r r' d := by
  cases op with
  | claim env timeout token command_id =>
    have h : claimed (Reservations.claim env timeout token command_id) w.db = some d := by
      simpa [Op.claims] using hd
    have hspec : wp (Reservations.claim env timeout token command_id)
        (fun a s' => ∀ d ∈ a, ∃ r ∈ w.db.reservations, ∃ r' ∈ s'.reservations, r'.id = r.id ∧ Claimed r r' d)
        (fun _ _ => True) w.db := by
      unfold Reservations.claim lock_target
      simp only [wp_bind, wp_read]
      split
      · exact fun _ h => by cases h
      · next r hr =>
        have hmem := List.mem_of_find?_eq_some hr
        simp only [wp_bind, wp_orRaise, save, wp_write, wp_pure]
        refine ⟨fun _ => trivial, fun target _ d hd => ?_⟩
        have hid := (moves_claimRow env timeout token command_id target r).id
        exact ⟨r, hmem, _, mem_save hmem hid, hid, claimRow_delivery hd⟩
    unfold claimed at h
    change ∃ r ∈ w.db.reservations, ∃ r' ∈ (transact (Reservations.claim env timeout token command_id)
      w.db).reservations, r'.id = r.id ∧ Claimed r r' d
    unfold transact
    rcases wp_run hspec with ⟨a, s', hx, hP⟩ | ⟨e, s', hx, -⟩
    · rw [hx] at h ⊢
      exact hP d h
    · rw [hx] at h
      cases h
  | _ => cases hd

end ProtocolLemmas

/-! ## 2. The end of a hold -/

/-- Why a reservation stops holding its connector. -/
inductive Freed (op : Op) (r r' : Reservation) : Prop
  /-- ReserveNow is still queued and was never claimed. -/
  | unsent (queued : r.reserve.status = .queued) (attempts : r.reserve.attempts = 0)
  /-- The charger refused ReserveNow. -/
  | refused (env : Environment) (d : Delivery) (outcome : WireOutcome) (op : op = .deliver env d outcome)
      (id : d.reservation_id = r.id) (action : d.action = .ReserveNow)
      (lease : r.reserve.lease_token = some d.token) (refuses : outcome.refuses = true)
  /-- The charger accepted CancelReservation. -/
  | released (env : Environment) (d : Delivery) (command : ReservationCommand)
      (op : op = .deliver env d .Accepted) (id : d.reservation_id = r.id)
      (action : d.action = .CancelReservation) (command_eq : r.cancel = some command)
      (lease : command.lease_token = some d.token)
  /-- Thirty seconds after expiry a live charger had reported Available since, and no session
  occupied the connector. -/
  | observed (env : Environment) (target : Target) (op : op = .reconcile env r.id)
      (locked : lock_target? env r.connector_id = some target)
      (due : r.expires_at + 30 * SECOND ≤ env.now) (live : live target.point env.now = true)
      (available : target.connector.status = .Available ∧ target.connector.raw_ocpp_status = .Available)
      (fresh : (∃ seen ∈ target.connector.last_status_notification_at,
        r.expires_at ≤ seen ∧ seen ≤ env.now + 30 * SECOND) ∧
        r.expires_at ≤ target.connector.status_updated_at)
      (free : env.occupied target.connector.id = false)
  /-- A session consumed it. -/
  | consumed (now : ℤ) (msg : StartMessage) (checks : StartChecks)
      (op : op = .start_transaction now msg checks) (status : r'.status = .consumed)

namespace ProtocolLemmas

variable {r : Reservation} {op : Op}

theorem freed_request_release {now : ℤ} {new_id : Uuid} {reason : CancelReason}
    {request_id : Option Uuid} {r' : Reservation} (hh : r.status.holds = true)
    (hreason : reason = .driver_cancel → now < r.expires_at)
    (hfree : (request_release r now new_id reason request_id).status.holds = false) : Freed op r r' := by
  rcases request_release_status now new_id reason request_id hh hreason with h | ⟨hq, ha, -⟩
  · rw [hfree] at h
    cases h
  · exact .unsent hq ha

theorem freed_claimRow {env : Environment} {timeout : ℤ} {token command_id : Uuid} {target : Target}
    {r' : Reservation} (hok : RowOk r) (hh : r.status.holds = true)
    (hfree : (claimRow env timeout token command_id target r).1.status.holds = false) : Freed op r r' := by
  have hsame : ∀ {p : Prop}, r.status.holds = false → p := fun h => by
    rw [hh] at h
    cases h
  unfold claimRow at hfree
  split at hfree
  · unfold claimReserve at hfree
    split at hfree
    · exact hsame hfree
    next hq =>
    rw [not_or, not_not] at hq
    exact .unsent hq.1 (hok.unsent hq.1)
  · split at hfree
    · unfold claimCancel at hfree
      split at hfree
      · exact hsame hfree
      split at hfree
      · exact hsame hfree
      split at hfree
      · exact hsame hfree
      split at hfree
      · exact hsame hfree
      · exact hsame hfree
    · exact hsame hfree

theorem freed_deliverRow {env : Environment} {d : Delivery} {outcome : WireOutcome} {r' : Reservation}
    (hh : r.status.holds = true) (hid : d.reservation_id = r.id)
    (hfree : (deliverRow env.now d outcome r).status.holds = false) :
    Freed (.deliver env d outcome) r r' := by
  have hsame : ∀ {p : Prop}, r.status.holds = false → p := fun h => by
    rw [hh] at h
    cases h
  unfold deliverRow at hfree
  split at hfree
  · next haction =>
    split at hfree
    · next hlease =>
      by_cases hr : outcome.refuses = true
      · exact .refused env d outcome rfl hid haction hlease hr
      · unfold deliverReserve at hfree
        dsimp only at hfree
        rw [if_neg (by simp [hh])] at hfree
        simp only [Reservation.event, if_neg hr] at hfree
        split at hfree
        · split at hfree <;> cases hfree
        · exact hsame hfree
    · exact hsame hfree
  · next haction =>
    split at hfree
    · next command hcommand =>
      split at hfree
      · next hlease =>
        unfold deliverCancel at hfree
        split at hfree
        · next hacc =>
          subst hacc
          exact .released env d command rfl hid haction hcommand hlease
        · dsimp only at hfree
          split at hfree <;> exact hsame hfree
      · exact hsame hfree
    · exact hsame hfree

theorem expiryEvidence_spec {env : Environment} {target : Target}
    (h : expiryEvidence env target r = true) {r' : Reservation} {op : Op} (hop : op = .reconcile env r.id)
    (hlock : lock_target? env r.connector_id = some target) : Freed op r r' := by
  unfold expiryEvidence at h
  simp only [Bool.and_eq_true, decide_eq_true_eq, beq_iff_eq, Option.any_eq_true,
    Bool.not_eq_true'] at h
  obtain ⟨⟨⟨⟨⟨⟨hdue, hlive⟩, hst⟩, hraw⟩, hseen⟩, hup⟩, hfree⟩ := h
  obtain ⟨seen, hsome, hseen⟩ := hseen
  exact .observed env target hop hlock hdue hlive ⟨hst, hraw⟩ ⟨⟨seen, hsome, hseen⟩, hup⟩ hfree

theorem freed_reconcileRow {env : Environment} {target : Target} {r' : Reservation}
    (hlock : lock_target? env r.connector_id = some target) (hok : RowOk r) (hh : r.status.holds = true)
    (hfree : (reconcileRow env target r).status.holds = false) :
    Freed (.reconcile env r.id) r r' := by
  rw [reconcileRow_eq hh] at hfree
  have hobs := moves_observedRow env target r
  have hrel := hobs.trans (moves_releaseDue env target _)
  unfold freeOnEvidence at hfree
  split at hfree
  · next hev =>
    refine expiryEvidence_spec ?_ rfl hlock
    unfold expiryEvidence at hev ⊢
    rwa [hrel.expires_at] at hev
  · rcases releaseDue_status env target (observedRow_holds env target hh) with h | ⟨hq, ha, -⟩
    · rw [hfree] at h
      cases h
    · have hqueued : r.reserve.status = .queued := by
        by_contra hne
        exact hobs.requeue hne hq
      exact .unsent hqueued (hok.unsent hqueued)

/-- The release of `fee_one` ends a hold only if ReserveNow was never sent. -/
theorem freed_fee_release {env : Environment} {target : Target} {r' : Reservation} (hh : r.status.holds = true)
    (hfree : (request_release (observe_expiry env target r) env.now env.new_id .expired).status.holds = false) :
    Freed op r r' := by
  obtain ⟨eligible, hframe⟩ := observe_expiry_frame env target r
  rw [hframe] at hfree
  have hstatus := request_release_status (r := { r with expiry_fee_eligible := eligible }) env.now
    env.new_id .expired none hh nofun
  rcases hstatus with h | ⟨hq, ha, -⟩
  · rw [hfree] at h
    cases h
  · exact .unsent hq ha

/-- How a touch ends a hold. -/
theorem touch_freed {r' : Reservation} (h : Touch op r r') (hok : RowOk r) (hh : r.status.holds = true)
    (hfree : r'.status.holds = false) : Freed op r r' := by
  cases h with
  | cancel early _ => exact freed_request_release hh (fun _ => early) hfree
  | claim => exact freed_claimRow hok hh hfree
  | deliver id => exact freed_deliverRow hh id hfree
  | reconcile target locked id =>
    subst id
    exact freed_reconcileRow locked hok hh hfree
  | decided target _ _ _ _ release decision reason _ =>
    rw [(decide_frame _ _ _ _).2.1] at hfree
    split at hfree
    · exact freed_fee_release hh hfree
    · obtain ⟨eligible, hframe⟩ := observe_expiry_frame _ target r
      rw [hframe] at hfree
      rw [hh] at hfree
      cases hfree
  | late =>
    rw [mark_late_start_status, hh] at hfree
    cases hfree
  | consume => exact .consumed _ _ _ rfl (keeps_consume (by rintro h; rw [h] at hh; cases hh) _ _).2.1

/-- A touch leaves an ended hold as it is, or consumes an expired one. -/
theorem touch_terminal {r' : Reservation} (h : Touch op r r') (hok : RowOk r) (ht : r.status.holds = false) :
    r'.status = r.status ∨ (r.status = .expired ∧ r'.status = .consumed) := by
  rcases Touch.moves h hok with hm | ⟨now, msg, checks, -, -, -, hstatus, rfl⟩
  · exact .inl (hm.terminal ht)
  · have hexp : r.status = .expired := hstatus.resolve_left (by rw [ht]; simp)
    exact .inr ⟨hexp, (keeps_consume (by rw [hexp]; simp) _ _).2.1⟩

/-! ## 3. Runs -/

theorem claims_append {w w' : World} {ops : List Op} (run : Run w ops w') (rest : List Op) :
    claims w (ops ++ rest) = claims w ops ++ claims w' rest := by
  induction run generalizing rest with
  | nil => rfl
  | snoc _ _ ih =>
    rw [List.append_assoc, ih, ih]
    simp [claims]

/-- The ReserveNow commands claimed in a run are no longer queued. -/
theorem claims_sent {w w' : World} {ops : List Op} (run : Run w ops w') (h : WorldOk w) :
    ∀ d ∈ claims w ops, d.action = .ReserveNow →
      ∃ r ∈ w'.db.reservations, r.id = d.reservation_id ∧ r.reserve.status ≠ .queued := by
  induction run with
  | nil => exact nofun
  | snoc run' valid ih =>
    intro d hd haction
    rw [claims_append run'] at hd
    rcases List.mem_append.mp hd with hd | hd
    · obtain ⟨r, hr, hid, hq⟩ := ih d hd haction
      obtain ⟨r', hr', hk⟩ := step_keeps (run_ok run' h) valid hr
      exact ⟨r', hr', hk.id.trans hid, hk.requeue hq⟩
    · rw [claims, claims, List.append_nil] at hd
      obtain ⟨r, hr, r', hr', hid, hclaimed⟩ := claims_spec hd
      refine ⟨r', hr', hid.trans hclaimed.id.symm, ?_⟩
      rw [(hclaimed.reserve haction).2.2]
      simp

theorem length_claims_le (op : Op) (w : World) : (op.claims w).length ≤ 1 := by
  cases op with
  | claim env timeout token command_id =>
    change (claimed (Reservations.claim env timeout token command_id) w.db).toList.length ≤ 1
    cases claimed (Reservations.claim env timeout token command_id) w.db <;> simp
  | _ => exact Nat.zero_le 1

/-- ReserveNow is claimed once at most. -/
theorem claims_once {w w' : World} {ops : List Op} (run : Run w ops w') (h : WorldOk w) (id : Uuid) :
    ((claims w ops).filter (·.reserves id)).length ≤ 1 := by
  induction run with
  | nil => exact Nat.zero_le 1
  | @snoc w₁ before op run' valid ih =>
    rw [claims_append run', List.filter_append, List.length_append, claims, claims, List.append_nil]
    by_cases hnew : ∃ d ∈ op.claims w₁, d.reserves id = true
    · -- The command of a new claim was queued, so it was not claimed before.
      obtain ⟨d, hd, hres⟩ := hnew
      simp only [Delivery.reserves, Bool.and_eq_true, decide_eq_true_eq] at hres
      obtain ⟨r, hr, _, _, _, hclaimed⟩ := claims_spec hd
      have hold : (claims w before).filter (·.reserves id) = [] := by
        refine List.filter_eq_nil_iff.mpr fun e he hres' => ?_
        simp only [Delivery.reserves, Bool.and_eq_true, decide_eq_true_eq] at hres'
        obtain ⟨r', hr', hid', hq⟩ := claims_sent run' h e he hres'.2
        have hsame : r' = r := (run_ok run' h).ids.eq hr' hr (by
          rw [hid', hres'.1, ← hres.1, hclaimed.id])
        exact hq (hsame ▸ (hclaimed.reserve hres.2).1)
      rw [hold]
      have := List.length_filter_le (·.reserves id) (op.claims w₁)
      have := length_claims_le op w₁
      simp only [List.length_nil]
      omega
    · have hnone : (op.claims w₁).filter (·.reserves id) = [] :=
        List.filter_eq_nil_iff.mpr fun d hd hres => hnew ⟨d, hd, hres⟩
      rw [hnone]
      exact ih

/-- After its release was requested, ReserveNow is not claimed. -/
theorem claims_not_released {w w' : World} {ops : List Op} (run : Run w ops w') (h : WorldOk w)
    {r : Reservation} (hr : r ∈ w.db.reservations) (hreq : r.cancel_requested_at ≠ none) :
    ∀ d ∈ claims w ops, d.reserves r.id = false := by
  induction run with
  | nil => exact nofun
  | snoc run' valid ih =>
    intro d hd
    rw [claims_append run'] at hd
    rcases List.mem_append.mp hd with hd | hd
    · exact ih d hd
    · rw [claims, claims, List.append_nil] at hd
      obtain ⟨x, hx, _, _, _, hclaimed⟩ := claims_spec hd
      by_contra hres
      rw [Bool.not_eq_false] at hres
      simp only [Delivery.reserves, Bool.and_eq_true, decide_eq_true_eq] at hres
      have hk := run_keeps_id run' h hr hx (hclaimed.id.symm.trans hres.1)
      exact (hk.released hreq).1 (hclaimed.reserve hres.2).2.1

end ProtocolLemmas

open ProtocolLemmas

/-- In every run ReserveNow of a reservation is claimed once at most and not after its release was
requested, and CancelReservation is not claimed while ReserveNow is being sent; a connector and a
driver have one hold at most; a hold ends for one of the reasons of `Freed`, `unsent` meaning that no
claim of its ReserveNow occurred; and an ended hold changes no more, except from expired to consumed. -/
theorem holds_protocol {w₀ w : World} {ops : List Op} (start : Start w₀) (run : Run w₀ ops w) :
    (∀ id, ((claims w₀ ops).filter (·.reserves id)).length ≤ 1) ∧
    (∀ ops' w', Run w ops' w' → ∀ r ∈ w.db.reservations, r.cancel_requested_at ≠ none →
      ∀ d ∈ claims w ops', d.reserves r.id = false) ∧
    (∀ a ∈ w.db.reservations, ∀ b ∈ w.db.reservations, a.status.holds = true → b.status.holds = true →
      a.connector_id = b.connector_id ∨ a.driver_id = b.driver_id → a = b) ∧
    ∀ op, op.Valid w →
      (∀ d ∈ op.claims w, ∃ r ∈ w.db.reservations, r.id = d.reservation_id ∧
        (d.action = .ReserveNow → r.cancel_requested_at = none) ∧
        (d.action = .CancelReservation → r.reserve.status ≠ .sending)) ∧
      ∀ r ∈ w.db.reservations, ∀ r' ∈ (step op w).db.reservations, r'.id = r.id →
        (r.status.holds = true → r'.status.holds = false → Freed op r r') ∧
        (r.reserve.status = .queued → ∀ d ∈ claims w₀ ops, d.reserves r.id = false) ∧
        (r.status.holds = false → r'.status = r.status ∨ (r.status = .expired ∧ r'.status = .consumed)) := by
  have h₀ := WorldOk.of_start start
  have h := run_ok run h₀
  refine ⟨claims_once run h₀, fun ops' w' run' r hr hreq => claims_not_released run' h hr hreq,
    fun a ha b hb hha hhb hab => ?_, fun op hv => ⟨fun d hd => ?_, fun r hr r' hr' hid => ⟨fun hh hfree => ?_,
      fun hq d hd => ?_, fun ht => ?_⟩⟩⟩
  · exact hab.elim (h.connector a ha b hb hha hhb) (h.driver a ha b hb hha hhb)
  · obtain ⟨r, hr, _, _, _, hclaimed⟩ := claims_spec hd
    exact ⟨r, hr, hclaimed.id.symm, fun ha => (hclaimed.reserve ha).2.1, fun ha => (hclaimed.cancel ha).1⟩
  · rcases step_row h hv hr hr' hid with rfl | htouch | ⟨env, target, n, hc, rfl⟩
    · rw [hh] at hfree
      cases hfree
    · exact touch_freed htouch (h.rows r hr) hh hfree
    · unfold chargedRow at hfree
      rw [(decide_frame _ _ _ _).2.1] at hfree
      exact freed_fee_release hh hfree
  · by_contra hres
    rw [Bool.not_eq_false] at hres
    simp only [Delivery.reserves, Bool.and_eq_true, decide_eq_true_eq] at hres
    obtain ⟨x, hx, hid', hne⟩ := claims_sent run h₀ d hd hres.2
    exact hne (h.ids.eq hx hr (hid'.trans hres.1) ▸ hq)
  · rcases step_row h hv hr hr' hid with rfl | htouch | ⟨env, target, n, hc, rfl⟩
    · exact .inl rfl
    · exact touch_terminal htouch (h.rows r hr) ht
    · exact .inl ((chargedRow_updates n (h.rows r hr) hc).2.2.1 ht)

theorem holds_protocol_no_show : ∃ w, Run OneDriver.world (OneDriver.noShow ++ [OneDriver.start 931]) w ∧
    (∀ id, ((claims OneDriver.world (OneDriver.noShow ++ [OneDriver.start 931])).filter
      (·.reserves id)).length ≤ 1) ∧
    (claims OneDriver.world (OneDriver.noShow ++ [OneDriver.start 931])).map (·.action) = [.ReserveNow] := by
  obtain ⟨w, -, run⟩ := OneDriver.run_start 931 (by decide)
  exact ⟨w, run, (holds_protocol OneDriver.start_world run).1, by decide +kernel⟩

end Csms.Reservations
