import Csms.Reservations.Rows
import Csms.Wallet.Administration

/-!
# The reservation system

The tables, the database clock, and the deliveries claimed by workers and not yet recorded. An
`Op` is one transaction with everything it reads from outside, so a run is a list of operations.
A transaction that raises is rolled back.

`Touch` lists what an operation can make of a reservation; `Transition` what it can do to the
tables. Result: `step_transition`: every operation is one of these.
-/

namespace Csms.Reservations

open Tx Csms.Wallets PostingsLemmas

/-! ## 1. Operations -/

structure World where
  db : ReservationDb
  clock : ℤ
  flights : List Delivery

inductive Op where
  | create_reservation (env : Environment) (request : BookingRequest) (checks : BookingChecks)
  | cancel_reservation (env : Environment) (driver_id reservation_id request_id : Uuid)
  | claim (env : Environment) (timeout : ℤ) (token command_id : Uuid)
  | deliver (env : Environment) (delivery : Delivery) (outcome : WireOutcome)
  /-- A worker dies between `claim` and the database part of `deliver`. -/
  | crash (delivery : Delivery)
  | reconcile (env : Environment) (reservation_id : Uuid)
  | fee_one (hidden : List ℕ) (env : Environment) (reservation_id : Uuid)
  | start_transaction (now : ℤ) (msg : StartMessage) (checks : StartChecks)
  /-- The rest of the program changes the wallets. -/
  | wallet (db : WalletDb)

/-- The database time of an operation. -/
def Op.now? : Op → Option ℤ
  | .create_reservation env _ _ | .cancel_reservation env _ _ _ | .claim env _ _ _
  | .deliver env _ _ | .reconcile env _ | .fee_one _ env _ => some env.now
  | .start_transaction now _ _ => some now
  | .crash _ | .wallet _ => none

/-- The clock does not go back, only claimed deliveries are delivered, and the rest of the program
posts no reservation fee. -/
def Op.Valid (w : World) (op : Op) : Prop :=
  (∀ now ∈ op.now?, w.clock ≤ now) ∧
  match op with
  | .deliver _ d _ => d ∈ w.flights
  | .wallet db => ∃ key ref, key.1 ≠ .reservation_fee ∧ Effect key ref w.db.wallet db
  | _ => True

/-- A transaction: its state is kept when it returns and rolled back when it raises. -/
def transact {α : Type} (x : ReservationTx α) (s : ReservationDb) : ReservationDb :=
  match x s with
  | (.ok _, s') => s'
  | (.error _, s') => { s with wallet := s.wallet.rollback s'.wallet }

/-- The delivery a claim hands out. -/
def claimed (x : ReservationTx (Option Delivery)) (s : ReservationDb) : Option Delivery :=
  match x s with
  | (.ok d, _) => d
  | (.error _, _) => none

def Op.run : Op → ReservationDb → ReservationDb
  | .create_reservation env request checks => transact (Reservations.create_reservation env request checks)
  | .cancel_reservation env driver_id reservation_id request_id =>
    transact (Reservations.cancel_reservation env driver_id reservation_id request_id)
  | .claim env timeout token command_id => transact (Reservations.claim env timeout token command_id)
  | .deliver env d outcome => transact (Reservations.deliver env d outcome)
  | .crash _ => id
  | .reconcile env reservation_id => transact (Reservations.reconcile env reservation_id)
  | .fee_one hidden env reservation_id => transact (Reservations.fee_one hidden env reservation_id)
  | .start_transaction now msg checks => transact (Reservations.start_transaction now msg checks)
  | .wallet db => fun s => { s with wallet := db }

/-- The deliveries in flight after an operation. -/
def Op.flights (op : Op) (w : World) : List Delivery :=
  match op with
  | .claim env timeout token command_id =>
    w.flights ++ (claimed (Reservations.claim env timeout token command_id) w.db).toList
  | .deliver _ d _ | .crash d => w.flights.erase d
  | _ => w.flights

/-- One operation. -/
def step (op : Op) (w : World) : World where
  db := op.run w.db
  clock := op.now?.getD w.clock
  flights := op.flights w

/-- A run of valid operations. -/
inductive Run : World → List Op → World → Prop
  | nil (w : World) : Run w [] w
  | snoc {w w' : World} {ops : List Op} {op : Op} (run : Run w ops w') (valid : op.Valid w') :
      Run w (ops ++ [op]) (step op w')

/-- The start: no reservation, and a consistent ledger without reservation fees. -/
structure Start (w : World) : Prop where
  ledger : Ok w.db.wallet
  reservations : w.db.reservations = []
  flights : w.flights = []
  fees : ∀ r ∈ w.db.wallet.wallet_ledger, r.entry_type ≠ .reservation_fee

/-! ## 2. What an operation does to a reservation -/

/-- What an operation makes of the reservation it works on, apart from a charge. -/
inductive Touch : Op → Reservation → Reservation → Prop
  | cancel {env : Environment} {driver_id reservation_id request_id : Uuid} {r : Reservation}
      (early : env.now < r.expires_at) (status : r.status = .active ∨ r.status = .uncertain) :
      Touch (.cancel_reservation env driver_id reservation_id request_id) r
        (request_release r env.now env.new_id .driver_cancel (some request_id))
  | claim {env : Environment} {timeout : ℤ} {token command_id : Uuid} {r : Reservation} (target : Target)
      (locked : lock_target? env r.connector_id = some target) (command : r.hasCommand command_id = true) :
      Touch (.claim env timeout token command_id) r (claimRow env timeout token command_id target r).1
  | deliver {env : Environment} {d : Delivery} {outcome : WireOutcome} {r : Reservation}
      (id : d.reservation_id = r.id) :
      Touch (.deliver env d outcome) r (deliverRow env.now d outcome r)
  | reconcile {env : Environment} {reservation_id : Uuid} {r : Reservation} (target : Target)
      (locked : lock_target? env r.connector_id = some target) (id : r.id = reservation_id) :
      Touch (.reconcile env reservation_id) r (reconcileRow env target r)
  | decided {hidden : List ℕ} {env : Environment} {reservation_id : Uuid} {r : Reservation}
      (target : Target) (locked : lock_target? env r.connector_id = some target) (id : r.id = reservation_id)
      (pending : r.fee_decision = .pending) (due : r.expires_at + 30 * SECOND ≤ env.now)
      (release : Bool) (decision : FeeDecision) (reason : FeeReason)
      (uncharged : decision = .waived ∨ decision = .review) :
      Touch (.fee_one hidden env reservation_id) r
        (decide (if release then request_release (observe_expiry env target r) env.now env.new_id .expired
          else observe_expiry env target r) decision reason env.now)
  | late {now : ℤ} {msg : StartMessage} {checks : StartChecks} {r : Reservation}
      (exempt : r.no_show_exempt = false) :
      Touch (.start_transaction now msg checks) r (mark_late_start r now)
  | consume {now : ℤ} {msg : StartMessage} {checks : StartChecks} {r : Reservation}
      (ocpp_id : msg.reservation_id = some r.ocpp_id) (connector : r.connector_id = msg.connector_id)
      (timely : now ≤ r.expires_at + 30 * SECOND)
      (status : r.status.holds = true ∨ r.status = .expired) :
      Touch (.start_transaction now msg checks) r (Reservations.consume r checks.session_id now)

/-- The reservation after its fee was charged as ledger row `n`. -/
def chargedRow (env : Environment) (target : Target) (r : Reservation) (n : ℕ) : Reservation :=
  decide { request_release (observe_expiry env target r) env.now env.new_id .expired with
    fee_ledger_id := some n } .charged .no_show env.now

/-- The tests `fee_one` made before it charged. -/
structure Chargeable (env : Environment) (target : Target) (r : Reservation) : Prop where
  locked : lock_target? env r.connector_id = some target
  pending : r.fee_decision = .pending
  due : r.expires_at + 30 * SECOND ≤ env.now
  status : r.status ≠ .consumed ∧ r.status ≠ .rejected
  session : r.session_id = none
  outcome : r.outcome ≠ some .not_sent
  exempt : ¬ r.cancelledInTime
  fee : r.fee_vnd ≠ 0
  eligible : (observe_expiry env target r).expiry_fee_eligible = some true

/-- What an operation does to the tables. -/
inductive Transition (op : Op) (s s' : ReservationDb) : Prop
  | same (reservations : s'.reservations = s.reservations) (seq : s'.ocpp_seq = s.ocpp_seq)
      (wallet : Quiet s.wallet s'.wallet)
  | booked (env : Environment) (request : BookingRequest) (checks : BookingChecks) (target : Target)
      (op : op = .create_reservation env request checks)
      (fresh : ∀ r ∈ s.reservations, r.id ≠ request.request_id)
      (connector : ∀ r ∈ s.reservations, r.connector_id = target.connector.id → r.status.holds = false)
      (driver : ∀ r ∈ s.reservations, r.driver_id = request.driver_id → r.status.holds = false)
      (fee : 0 ≤ checks.fee_vnd)
      (reservations : s'.reservations =
        s.reservations ++ [newReservation env target request checks s.ocpp_seq])
      (seq : s'.ocpp_seq = s.ocpp_seq + 1) (wallet : Quiet s.wallet s'.wallet)
  | touched (r r' : Reservation) (mem : r ∈ s.reservations) (touch : Touch op r r')
      (reservations : s'.reservations = Table.modify Reservation.id r.id (fun _ => r') s.reservations)
      (seq : s'.ocpp_seq = s.ocpp_seq) (wallet : Quiet s.wallet s'.wallet)
  | charged (hidden : List ℕ) (env : Environment) (reservation_id : Uuid) (target : Target)
      (r : Reservation) (row : WalletLedger) (op : op = .fee_one hidden env reservation_id)
      (mem : r ∈ s.reservations) (id : r.id = reservation_id) (chargeable : Chargeable env target r)
      (key : row.key = (.reservation_fee, r.id.text)) (amount : row.amount_vnd = -r.fee_vnd)
      (posted : row ∈ s.wallet.wallet_ledger ∧ Quiet s.wallet s'.wallet ∨ Post row s.wallet s'.wallet)
      (reservations : s'.reservations =
        Table.modify Reservation.id r.id (fun _ => chargedRow env target r row.id) s.reservations)
      (seq : s'.ocpp_seq = s.ocpp_seq)
  | wallet (key : EntryType × String) (ref : String) (other : key.1 ≠ .reservation_fee)
      (reservations : s'.reservations = s.reservations) (seq : s'.ocpp_seq = s.ocpp_seq)
      (effect : Effect key ref s.wallet s'.wallet)

/-! ## 3. Every operation is a transition -/

namespace SystemLemmas

/-- A transaction that raises leaves a trace in the sequence at most. -/
theorem transact_spec {α : Type} {x : ReservationTx α} {s : ReservationDb} {P : ReservationDb → Prop}
    (h : wp x (fun _ s' => P s') (fun _ s' => s.wallet.ledger_seq ≤ s'.wallet.ledger_seq) s)
    (hroll : ∀ w, Quiet s.wallet w → P { s with wallet := w }) : P (transact x s) := by
  unfold transact
  rcases wp_run h with ⟨a, s', hx, hP⟩ | ⟨e, s', hx, hle⟩
  · rw [hx]
    exact hP
  · rw [hx]
    exact hroll _ (quiet_rollback hle)

theorem transition_of_wp {α : Type} {op : Op} {x : ReservationTx α} {s : ReservationDb}
    (h : wp x (fun _ s' => Transition op s s') (fun _ s' => s.wallet.ledger_seq ≤ s'.wallet.ledger_seq) s) :
    Transition op s (transact x s) :=
  transact_spec h fun _ hq => .same rfl rfl hq

theorem mem_of_find {s : ReservationDb} {id : Uuid} {r : Reservation} (h : s.find id = some r) :
    r ∈ s.reservations ∧ r.id = id :=
  ⟨List.mem_of_find?_eq_some h, by simpa using List.find?_some h⟩

/-- A touched row that is saved. -/
theorem touched_of_save {op : Op} {s : ReservationDb} {r r' : Reservation} (hmem : r ∈ s.reservations)
    (htouch : Touch op r r') (hid : r'.id = r.id) :
    Transition op s
      { s with reservations := Table.modify Reservation.id r'.id (fun _ => r') s.reservations } := by
  rw [hid]
  exact .touched r r' hmem htouch rfl rfl (.refl _)

theorem transition_cancel (env : Environment) (driver_id reservation_id request_id : Uuid)
    (s : ReservationDb) : Transition (.cancel_reservation env driver_id reservation_id request_id) s
      (transact (Reservations.cancel_reservation env driver_id reservation_id request_id) s) := by
  refine transition_of_wp ?_
  unfold Reservations.cancel_reservation lock_target
  simp only [wp_bind, wp_read, wp_orRaise, wp_raiseIf]
  refine ⟨fun _ => le_rfl, fun r hr => ⟨fun _ => le_rfl, fun _ => ⟨fun _ => le_rfl, fun target ht => ?_⟩⟩⟩
  rw [wp_ite]
  refine ⟨fun _ => .same rfl rfl (.refl _), fun _ => ?_⟩
  simp only [wp_bind, wp_raiseIf]
  refine ⟨fun _ => le_rfl, fun _ => ⟨fun _ => le_rfl, fun _ => ?_⟩⟩
  rw [wp_ite]
  refine ⟨fun _ => .same rfl rfl (.refl _), fun _ => ?_⟩
  simp only [wp_bind, wp_raiseIf, save, wp_write, wp_pure]
  refine ⟨fun _ => le_rfl, fun hearly => ⟨fun _ => le_rfl, fun hstatus => ?_⟩⟩
  refine touched_of_save (mem_of_find hr).1 (.cancel (by omega) (by tauto)) ?_
  exact (moves_request_release _ _ _ _ _).id

theorem transition_claim (env : Environment) (timeout : ℤ) (token command_id : Uuid)
    (s : ReservationDb) : Transition (.claim env timeout token command_id) s
      (transact (Reservations.claim env timeout token command_id) s) := by
  refine transition_of_wp ?_
  unfold Reservations.claim lock_target
  simp only [wp_bind, wp_read]
  split
  · exact .same rfl rfl (.refl _)
  · next r hr =>
    simp only [wp_bind, wp_orRaise, save, wp_write, wp_pure]
    refine ⟨fun _ => le_rfl, fun target ht => ?_⟩
    exact touched_of_save (List.mem_of_find?_eq_some hr) (.claim target ht (by simpa using List.find?_some hr))
      (moves_claimRow _ _ _ _ _ _).id

theorem transition_reconcile (env : Environment) (reservation_id : Uuid) (s : ReservationDb) :
    Transition (.reconcile env reservation_id) s (transact (Reservations.reconcile env reservation_id) s) := by
  refine transition_of_wp ?_
  unfold Reservations.reconcile lock_target
  simp only [wp_bind, wp_read]
  split
  · exact .same rfl rfl (.refl _)
  · next r hr =>
    simp only [wp_bind, wp_orRaise, save, wp_write]
    refine ⟨fun _ => le_rfl, fun target ht => ?_⟩
    exact touched_of_save (mem_of_find hr).1 (.reconcile target ht (mem_of_find hr).2)
      (moves_reconcileRow _ _ _).id

theorem transition_deliver (env : Environment) (d : Delivery) (outcome : WireOutcome) (s : ReservationDb) :
    Transition (.deliver env d outcome) s (transact (Reservations.deliver env d outcome) s) := by
  refine transition_of_wp ?_
  unfold Reservations.deliver lock_target
  simp only [wp_bind, wp_read]
  split
  · exact .same rfl rfl (.refl _)
  · next r hr =>
    simp only [wp_bind, wp_orRaise, save, wp_write]
    refine ⟨fun _ => le_rfl, fun target ht => ?_⟩
    exact touched_of_save (mem_of_find hr).1 (.deliver (mem_of_find hr).2.symm) (deliverRow_id _ _ _ _)

theorem transition_create (env : Environment) (request : BookingRequest) (checks : BookingChecks)
    (s : ReservationDb) : Transition (.create_reservation env request checks) s
      (transact (Reservations.create_reservation env request checks) s) := by
  refine transition_of_wp ?_
  unfold Reservations.create_reservation lock_target
  simp only [wp_bind, wp_read]
  split
  · simp only [wp_bind, wp_raiseIf, wp_pure]
    exact ⟨fun _ => le_rfl, fun _ => .same rfl rfl (.refl _)⟩
  next hnone =>
  have hfresh : ∀ r ∈ s.reservations, r.id ≠ request.request_id := fun r hr h =>
    List.find?_eq_none.mp hnone r hr (by simpa using h)
  simp only [checkSite, checkDriver, ensureWallet, wp_bind, wp_raiseIf, wp_orRaise, wp_zoom, wp_pure,
    wp_write]
  refine ⟨fun _ => le_rfl, fun _ => ⟨fun _ => le_rfl, fun target ht => ⟨fun _ => le_rfl, fun _ =>
    ⟨fun _ => le_rfl, fun _ => ⟨fun _ => le_rfl, fun _ => ⟨fun _ => le_rfl, fun _ => ⟨fun _ => le_rfl,
    fun hconn => ⟨fun _ => le_rfl, fun _ => ⟨fun _ => le_rfl, fun _ => ⟨fun _ => le_rfl, fun _ =>
    ⟨fun _ => le_rfl, fun _ => ⟨fun _ => le_rfl, fun _ => ⟨fun _ => le_rfl, fun hdriver =>
    ⟨fun _ => le_rfl, fun _ => ⟨fun _ => le_rfl, fun _ => ?_⟩⟩⟩⟩⟩⟩⟩⟩⟩⟩⟩⟩⟩⟩⟩
  refine wp_mono (ensure_driver_wallet_spec env.new_id request.driver_id s.wallet) ?_ ?_
  · rintro w s' ⟨hq, -, -⟩
    refine ⟨fun _ => hq.seq, fun _ => ⟨fun _ => hq.seq, fun _ => ⟨fun _ => hq.seq, fun hfee => ?_⟩⟩⟩
    refine .booked env request checks target rfl hfresh (fun r hr hc => ?_) (fun r hr hd => ?_)
      (not_not.mp hfee).1 rfl rfl hq
    · by_contra hh
      exact hconn ⟨r, hr, hc, by simpa using hh⟩
    · by_contra hh
      exact hdriver ⟨r, hr, hd, by simpa using hh⟩
  · rintro e s' rfl
    exact le_rfl

/-- A decision without a charge. -/
theorem touched_decided (hidden : List ℕ) {env : Environment} {reservation_id : Uuid} {s : ReservationDb}
    {r : Reservation} {target : Target} (hmem : r ∈ s.reservations) (hid : r.id = reservation_id)
    (hlock : lock_target? env r.connector_id = some target) (hpend : r.fee_decision = .pending)
    (hdue : r.expires_at + 30 * SECOND ≤ env.now) (release : Bool) {decision : FeeDecision}
    (reason : FeeReason) (hd : decision = .waived ∨ decision = .review) :
    wp (save (decide (if release then request_release (observe_expiry env target r) env.now env.new_id .expired
        else observe_expiry env target r) decision reason env.now))
      (fun _ s' => Transition (.fee_one hidden env reservation_id) s s')
      (fun _ s' => s.wallet.ledger_seq ≤ s'.wallet.ledger_seq) s := by
  rw [save, wp_write]
  refine touched_of_save hmem (.decided target hlock hid hpend hdue release decision reason hd) ?_
  have hdec : decision ≠ .pending := by rcases hd with rfl | rfl <;> simp
  have hobs := moves_observe_expiry env target r
  rw [(moves_decide _ hdec reason env.now).id]
  split
  · exact ((hobs.trans (moves_request_release _ _ _ _ _))).id
  · exact hobs.id

theorem observe_expiry_frame (env : Environment) (target : Target) (r : Reservation) :
    ∃ eligible, observe_expiry env target r = { r with expiry_fee_eligible := eligible } := by
  unfold observe_expiry
  split
  · exact ⟨_, rfl⟩
  dsimp only
  split
  · exact ⟨_, rfl⟩
  · split <;> exact ⟨_, rfl⟩

theorem chargedRow_id (env : Environment) (target : Target) (r : Reservation) (n : ℕ) :
    (chargedRow env target r n).id = r.id := by
  unfold chargedRow
  rw [(moves_decide _ (by simp) _ _).id]
  exact ((moves_observe_expiry env target r).trans (moves_request_release _ _ _ _ _)).id

/-- The last branch of `fee_one`. -/
theorem transition_charge {hidden : List ℕ} {env : Environment} {reservation_id : Uuid} {s : ReservationDb}
    {r : Reservation} {target : Target} (hmem : r ∈ s.reservations) (hid : r.id = reservation_id)
    (hcharge : Chargeable env target r) :
    wp (chargeFee hidden env.now (request_release (observe_expiry env target r) env.now env.new_id .expired))
      (fun _ s' => Transition (.fee_one hidden env reservation_id) s s')
      (fun _ s' => s.wallet.ledger_seq ≤ s'.wallet.ledger_seq) s := by
  have hreview := touched_decided (s := s) hidden hmem hid hcharge.locked hcharge.pending hcharge.due
    true .wallet_unavailable (.inr rfl)
  have hmoves := (moves_observe_expiry env target r).trans
    (moves_request_release _ env.now env.new_id .expired none)
  unfold chargeFee
  simp only [wp_bind, wp_read]
  split
  · exact hreview
  rw [wp_ite]
  refine ⟨fun _ => hreview, fun _ => ?_⟩
  rw [wp_bind, wp_zoom]
  refine wp_mono (ghi_so_cai_spec _ _ _ _ _ _ _ s.wallet) ?_ fun _ _ h => h.1.seq
  rintro row w ⟨hentered, -, -⟩
  rw [save, wp_write]
  rw [Uuid.strip_text, hmoves.id, hmoves.fee_vnd] at hentered
  refine .charged hidden env reservation_id target r row rfl hmem hid hcharge hentered.key
    hentered.amount hentered.change ?_ rfl
  have hrow : (chargedRow env target r row.id).id = r.id := chargedRow_id _ _ _ _
  unfold chargedRow at hrow ⊢
  rw [hrow]

theorem transition_fee_one (hidden : List ℕ) (env : Environment) (reservation_id : Uuid) (s : ReservationDb) :
    Transition (.fee_one hidden env reservation_id) s
      (transact (Reservations.fee_one hidden env reservation_id) s) := by
  refine transition_of_wp ?_
  unfold Reservations.fee_one lock_target
  simp only [wp_bind, wp_read]
  split
  · exact .same rfl rfl (.refl _)
  next r hr =>
  obtain ⟨hmem, hid⟩ := mem_of_find hr
  simp only [wp_bind, wp_orRaise]
  refine ⟨fun _ => le_rfl, fun target hlock => ?_⟩
  rw [wp_ite]
  refine ⟨fun _ => .same rfl rfl (.refl _), fun hguard => ?_⟩
  rw [not_or, not_not, not_lt] at hguard
  obtain ⟨hpend, hdue⟩ := hguard
  obtain ⟨eligible, hframe⟩ := observe_expiry_frame env target r
  have htouch := fun release decision reason (hd : decision = FeeDecision.waived ∨ decision = .review) =>
    touched_decided (s := s) hidden hmem hid hlock hpend hdue release reason hd
  unfold decideFee
  rw [wp_ite]
  refine ⟨fun _ => htouch false _ _ (.inl rfl), fun hconsumed => ?_⟩
  rw [wp_ite]
  refine ⟨fun _ => htouch false _ _ (.inl rfl), fun hexempt => ?_⟩
  rw [wp_ite]
  refine ⟨fun _ => htouch false _ _ (.inl rfl), fun hnever => ?_⟩
  rw [wp_ite]
  refine ⟨fun _ => htouch true _ _ (.inl rfl), fun hfee => ?_⟩
  rw [wp_ite]
  refine ⟨fun _ => htouch true _ _ (.inr rfl), fun hverified => ?_⟩
  refine transition_charge hmem hid ?_
  have heligible : (observe_expiry env target r).expiry_fee_eligible = some true := by
    by_contra h
    exact hverified (.inl h)
  rw [hframe, not_or] at hconsumed hnever
  rw [hframe] at hexempt hfee
  exact ⟨hlock, hpend, hdue, ⟨hconsumed.1, hnever.1⟩, not_not.mp hconsumed.2, hnever.2, hexempt, hfee,
    heligible⟩

/-- A start that is too late for the fee window. -/
theorem late_of_save {now : ℤ} {msg : StartMessage} {checks : StartChecks} {s : ReservationDb}
    {r : Reservation} (hmem : r ∈ s.reservations) (hex : r.no_show_exempt = false) :
    Transition (.start_transaction now msg checks) s { s with
      reservations := Table.modify Reservation.id (mark_late_start r now).id
        (fun _ => mark_late_start r now) s.reservations } :=
  touched_of_save hmem (.late hex) (moves_mark_late_start r now).id

/-- A reservation that a start may consume. -/
def Consumable (now : ℤ) (msg : StartMessage) (s : ReservationDb) (r : Reservation) : Prop :=
  r ∈ s.reservations ∧ msg.reservation_id = some r.ocpp_id ∧ r.connector_id = msg.connector_id ∧
  now ≤ r.expires_at + 30 * SECOND ∧ (r.status.holds = true ∨ r.status = .expired)

/-- The outcome of a start's test: refused, the late start noted or not, or a hold to consume. -/
def Validated (now : ℤ) (msg : StartMessage) (checks : StartChecks) (s : ReservationDb)
    (a : Bool × Option Reservation) (s' : ReservationDb) : Prop :=
  (a.1 = false ∧ Transition (.start_transaction now msg checks) s s') ∨
  (s' = s ∧ ∀ r ∈ a.2, Consumable now msg s r)

theorem validateHold_spec {now : ℤ} {msg : StartMessage} {checks : StartChecks} {s : ReservationDb}
    {hold : Option Reservation} (hhold : ∀ r ∈ hold, r ∈ s.reservations ∧ r.connector_id = msg.connector_id) :
    wp (validateHold msg now hold) (Validated now msg checks s) (fun _ _ => False) s := by
  cases hold with
  | none => exact .inr ⟨rfl, by simp⟩
  | some r =>
    obtain ⟨hmem, hconn⟩ := hhold r rfl
    unfold validateHold
    rw [wp_ite]
    refine ⟨fun _ => .inl ⟨rfl, .same rfl rfl (.refl _)⟩, fun hown => ?_⟩
    rw [not_or, not_not] at hown
    rw [wp_ite]
    refine ⟨fun hlate => ?_, fun _ => ?_⟩
    · simp only [wp_bind, save, wp_write, wp_pure]
      exact .inl ⟨rfl, late_of_save hmem (by simpa using hlate.2.2)⟩
    · rw [wp_pure]
      by_cases hok : (r.duringHold msg.timestamp && msg.timestamp ≤ now + 30 * SECOND &&
          now ≤ r.expires_at + 30 * SECOND) = true ∧ (r.status = .pending ∨ r.status = .uncertain ∨
          r.status = .active ∨ ((r.status = .expiry_release_pending ∨ r.status = .expired) ∧
            r.cancel_reason = some .expired))
      · refine .inr ⟨rfl, fun r' hr' => ?_⟩
        obtain rfl : r = r' := by simpa using hr'
        have htime : now ≤ r.expires_at + 30 * SECOND := by
          have := (Bool.and_eq_true_iff.mp hok.1).2
          simpa using this
        refine ⟨hmem, hown.2, hconn, htime, ?_⟩
        rcases hok.2 with h | h | h | ⟨h | h, -⟩
        · exact .inl (by rw [h]; rfl)
        · exact .inl (by rw [h]; rfl)
        · exact .inl (by rw [h]; rfl)
        · exact .inl (by rw [h]; rfl)
        · exact .inr h
      · refine .inl ⟨?_, .same rfl rfl (.refl _)⟩
        rw [not_and_or, Bool.not_eq_true] at hok
        rcases hok with h | h
        · dsimp only
          rw [h, Bool.false_and]
        · dsimp only
          rw [Bool.and_eq_false_iff]
          exact .inr (by simpa using h)

theorem connectorHold_spec {s : ReservationDb} {connector_id : Uuid} :
    ∀ r ∈ s.connectorHold connector_id, r ∈ s.reservations ∧ r.connector_id = connector_id := by
  intro r hr
  refine ⟨List.mem_of_find?_eq_some hr, ?_⟩
  have := List.find?_some hr
  simp only [decide_eq_true_eq] at this
  exact this.1

theorem previousFor_spec {s : ReservationDb} {msg : StartMessage} {r : Reservation}
    (h : s.previousFor msg = some r) :
    r ∈ s.reservations ∧ r.connector_id = msg.connector_id ∧ r.no_show_exempt = false := by
  unfold ReservationDb.previousFor at h
  obtain ⟨ocpp_id, -, h⟩ := Option.bind_eq_some_iff.mp h
  split at h
  · cases h
  obtain ⟨previous, hfind, h⟩ := Option.bind_eq_some_iff.mp h
  split at h
  · next hok =>
    obtain rfl : previous = r := Option.some.inj h
    have hkey := List.find?_some hfind
    simp only [decide_eq_true_eq] at hkey
    refine ⟨List.mem_of_find?_eq_some hfind, hkey.2, ?_⟩
    have := (Bool.and_eq_true_iff.mp hok).2
    simpa using this
  · cases h

theorem validate_start_spec (now : ℤ) (msg : StartMessage) (checks : StartChecks) (s : ReservationDb) :
    wp (validate_start now msg) (Validated now msg checks s) (fun _ _ => False) s := by
  unfold validate_start
  simp only [wp_bind, wp_read]
  split
  · next r hr =>
    obtain ⟨hmem, hconn, hex⟩ := previousFor_spec hr
    rw [wp_ite]
    refine ⟨fun _ => ?_, fun _ => ?_⟩
    · simp only [wp_bind, save, wp_write, wp_pure]
      exact .inl ⟨rfl, late_of_save hmem hex⟩
    rw [wp_ite]
    refine ⟨fun _ => validateHold_spec fun r' hr' => ?_, fun _ => validateHold_spec connectorHold_spec⟩
    obtain rfl : r = r' := by simpa using hr'
    exact ⟨hmem, hconn⟩
  · exact validateHold_spec connectorHold_spec

theorem transition_start (now : ℤ) (msg : StartMessage) (checks : StartChecks) (s : ReservationDb) :
    Transition (.start_transaction now msg checks) s
      (transact (Reservations.start_transaction now msg checks) s) := by
  refine transition_of_wp ?_
  unfold Reservations.start_transaction
  rw [wp_bind]
  refine wp_mono (validate_start_spec now msg checks s) ?_ fun _ _ h => h.elim
  rintro ⟨allowed, reservation⟩ s' hval
  dsimp only
  have hsame : Validated now msg checks s (allowed, reservation) s' →
      Transition (.start_transaction now msg checks) s s' := by
    rintro (⟨-, ht⟩ | ⟨rfl, -⟩)
    · exact ht
    · exact .same rfl rfl (.refl _)
  rw [wp_ite]
  refine ⟨fun _ => hsame hval, fun hallowed => ?_⟩
  rw [wp_ite]
  refine ⟨fun _ => hsame hval, fun _ => ?_⟩
  rw [not_or] at hallowed
  rcases hval with ⟨hfalse, -⟩ | ⟨rfl, hcons⟩
  · exact absurd hfalse hallowed.1
  cases reservation with
  | none => exact .same rfl rfl (.refl _)
  | some r =>
    obtain ⟨hmem, hocpp, hconn, htime, hstatus⟩ := hcons r rfl
    simp only [wp_bind, save, wp_write, wp_pure]
    have hne : r.status ≠ .rejected := by
      rintro h
      rw [h] at hstatus
      rcases hstatus with h | h <;> cases h
    exact touched_of_save hmem (.consume hocpp hconn htime hstatus) (keeps_consume hne _ _).1.id

end SystemLemmas

open SystemLemmas

/-- Every operation is a transition. -/
theorem step_transition {w : World} {op : Op} (h : op.Valid w) : Transition op w.db (step op w).db := by
  cases op with
  | create_reservation env request checks => exact transition_create env request checks w.db
  | cancel_reservation env driver_id reservation_id request_id =>
    exact transition_cancel env driver_id reservation_id request_id w.db
  | claim env timeout token command_id => exact transition_claim env timeout token command_id w.db
  | deliver env d outcome => exact transition_deliver env d outcome w.db
  | crash d => exact .same rfl rfl (.refl _)
  | reconcile env reservation_id => exact transition_reconcile env reservation_id w.db
  | fee_one hidden env reservation_id => exact transition_fee_one hidden env reservation_id w.db
  | start_transaction now msg checks => exact transition_start now msg checks w.db
  | wallet db =>
    obtain ⟨key, ref, hother, heffect⟩ := h.2
    exact .wallet key ref hother rfl rfl heffect

end Csms.Reservations
