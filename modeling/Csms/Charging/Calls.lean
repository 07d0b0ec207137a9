import Csms.Charging.Closure
import Csms.Charging.Invariant

/-!
# The calls as moves

Results: one lemma for each call, `start_transaction_moves` to `chot_phien_moves`: on sound tables the call is
a sequence of moves, whether it returns or raises.
-/

namespace Csms.Charging

open Tx Csms.Wallets Csms.Reservations Csms.Accounts Csms.Pricing PostingsLemmas
open Csms.Billing (MeterSample InvoiceRow BillingDb Numeric)

variable {A : Permits} {Z : Billing.Station → Prop} {now : ℤ} {env : Environment} {s : Database}

/-- On whatever path `x` ends, it makes moves from `t` on. -/
def Makes (A : Permits) (Z : Billing.Station → Prop) (now : ℤ) (t : Core) {α : Type} (x : ChargingTx α) (s : Database) : Prop :=
  wp x (fun _ s' => Moves A Z now t s'.core) (fun _ s' => Moves A Z now t s'.core) s

namespace CallsLemmas

/-! ## 1. Single moves -/

theorem single {t t' : Core} (h : Move A Z now t t') : Moves A Z now t t' := .single h

/-- A session changes alone. -/
theorem saveSession_move (h : CoreOk s.core) {c c' : Session} (hc : c ∈ s.charging_sessions)
    (he : Evolve c c') : Move A Z now s.core (saveSession c' s).core := by
  refine .sessions s.core (fun x => if x.id = c'.id then c' else x) fun x hx => ?_
  split
  · next hid => exact h.eq hc hx (hid.trans he.id).symm ▸ he
  · exact .same x

theorem core_flush (o : Occupied) (s : Database) : (flush o s).core = s.core.flush o := by
  unfold flush Core.flush
  cases o.interval with
  | none => rfl
  | some i =>
    simp only [Option.elim_some, saveInterval, Core.saveInterval]
    by_cases hi : i.id < s.interval_seq
    · have hi' : i.id < s.core.interval_seq := hi
      simp only [hi, hi', if_true]
      rfl
    · have hi' : ¬ i.id < s.core.interval_seq := hi
      simp only [hi, hi', if_false]
      rfl

theorem mem_of_find {α : Type} {p : α → Bool} {l : List α} {a : α} (h : l.find? p = some a) :
    a ∈ l ∧ p a = true :=
  ⟨List.mem_of_find?_eq_some h, List.find?_some h⟩

theorem mem_latestSession {connector_id : ℕ} {c : Session} (h : s.latestSession connector_id = some c) :
    c ∈ s.charging_sessions ∧ c.connector_id = connector_id := by
  have := List.mem_filter.mp (List.mem_of_getLast? h)
  exact ⟨this.1, of_decide_eq_true this.2⟩

/-! ## 2. Occupation and contact -/

theorem note_status_makes {t : Core} (ht : Moves A Z now t s.core) (h : CoreOk s.core) (k : Connector)
    (hk : k ∈ s.connectors) (status : OcppStatus) {stamp : Option ℤ}
    (hlast : ∀ at_ ∈ stamp, k.last_status_notification_at = some at_) :
    Makes A Z now t (note_status k.id status stamp) s := by
  unfold Makes note_status
  simp only [wp_bind, wp_read]
  split
  · exact ht
  next c hc =>
  obtain ⟨hmem, hconn⟩ := mem_latestSession hc
  split
  · exact ht
  next hskip =>
  push Not at hskip
  split
  · exact ht.tail (saveSession_move h hmem (.review c _))
  next at_ =>
  split
  · exact ht
  next hsince =>
  split
  · split
    · exact ht.tail (saveSession_move h hmem (.review c _))
    · exact ht
  next hrel =>
  rw [wp_write, core_flush]
  exact ht.tail (.status s.core status at_ c _ hmem hskip.1 hskip.2 (not_not.mp hrel) (not_lt.mp hsince)
    ⟨k, hk, hconn.symm, hlast at_ rfl⟩)

theorem note_stop_makes {t : Core} (ht : Moves A Z now t s.core) {c : Session}
    (hc : c ∈ s.charging_sessions) (hbill : ¬ s.Invoiced c.id) : Makes A Z now t (note_stop c) s := by
  unfold Makes note_stop
  split
  · exact ht
  next hv =>
  simp only [wp_bind, wp_orRaise, wp_read, wp_write]
  refine ⟨fun _ => ht, fun ended_at he => ?_⟩
  rw [core_flush]
  exact ht.tail (.stopped s.core c ended_at hc hv hbill he)

theorem note_offline_gap_move (charger_id : ℕ) (s : Database) :
    Move A Z now s.core (note_offline_gap charger_id s).2.core := by
  refine .sessions s.core (flagGap s charger_id) fun c _ => ?_
  unfold flagGap
  split
  · exact .review c _
  · exact .same c

theorem note_offline_gap_makes {t : Core} (ht : Moves A Z now t s.core) (charger_id : ℕ) :
    Makes A Z now t (note_offline_gap charger_id) s :=
  ht.tail (note_offline_gap_move charger_id s)

/-- Connectors change, and keep their times. -/
theorem connectors_move (h : CoreOk s.core) {f : Connector → Connector} (hid : ∀ k, (f k).id = k.id)
    (hstamp : ∀ k ∈ s.connectors, ∀ l ∈ k.last_status_notification_at,
      ∃ l' ∈ (f k).last_status_notification_at, l ≤ l') :
    Move A Z now s.core { s.core with connectors := s.connectors.map f } := by
  refine .connectors s.core _ (List.pairwise_map.mpr (h.connectors.imp fun hne => ?_)) fun k hk => ?_
  · simpa only [hid] using hne
  · obtain ⟨k₀, hk₀, rfl⟩ := List.mem_map.mp hk
    exact .inl ⟨k₀, hk₀, (hid k₀).symm, hstamp k₀ hk₀⟩

theorem forgetConnectors_move (h : CoreOk s.core) (at_ : ℤ) (points : List ℕ) :
    Move A Z now s.core (forgetConnectors at_ points s).core := by
  refine connectors_move h (fun k => ?_) fun k _ l hl => ?_
  · split <;> rfl
  · refine ⟨l, ?_, le_rfl⟩
    split <;> exact hl

theorem note_offline_gaps_makes (points : List ℕ) :
    ∀ {t : Core} {s : Database}, Moves A Z now t s.core →
      wp (note_offline_gaps points) (fun _ s' => Moves A Z now t s'.core)
        (fun _ s' => Moves A Z now t s'.core) s := by
  induction points with
  | nil => exact fun ht => ht
  | cons p rest ih =>
    intro t s ht
    unfold note_offline_gaps
    rw [wp_bind]
    exact wp_mono (note_offline_gap_makes ht p) (fun _ _ h => ih h) fun _ _ h => h

end CallsLemmas

open CallsLemmas

theorem mark_seen_moves (h : CoreOk s.core) (charger_id : ℕ) :
    Makes A Z now s.core (mark_seen env charger_id) s := by
  unfold Makes mark_seen
  simp only [wp_bind, wp_read]
  split
  · exact .refl
  next p _ =>
  rw [wp_bind, wp_write]
  split
  swap
  · exact .refl
  rw [wp_bind, wp_write]
  have hm : Moves A Z now s.core (forgetConnectors env.now [charger_id] s).core :=
    single (forgetConnectors_move h env.now [charger_id])
  split
  · exact note_offline_gap_makes hm charger_id
  · exact hm

theorem expire_chargers_moves (h : CoreOk s.core) (busy : List ℕ) :
    Makes A Z now s.core (expire_chargers env busy) s := by
  unfold Makes expire_chargers
  simp only [wp_bind, wp_read]
  refine wp_mono (note_offline_gaps_makes _ .refl) (fun _ s' hm => ?_) fun _ _ h => h
  rw [wp_bind, wp_write, wp_write]
  exact hm.tail (forgetConnectors_move (Moves.ok h hm) _ _)

namespace CallsLemmas

/-! ## 3. Status notifications -/

theorem updateIdle_move (connector_id : ℕ) (payload : StatusPayload) (s : Database) :
    Moves A Z now s.core (updateIdle connector_id payload s).core := by
  unfold updateIdle
  split
  swap
  · exact .refl
  split
  swap
  · exact .refl
  next stamp _ _ =>
  refine single (.sessions s.core (idleUpdate connector_id payload.status stamp) fun c _ => ?_)
  unfold idleUpdate
  split
  swap
  · exact .same c
  next hc =>
  split
  · split
    · exact .note c _ hc.2.1 rfl fun _ h => h
    · exact .same c
  · exact .note c _ hc.2.1 rfl fun _ h => h

theorem report_status_makes (h : CoreOk s.core) (charger : ChargePoint) (payload : StatusPayload) :
    Makes A Z now s.core (report_status env charger payload) s := by
  unfold Makes report_status
  split
  · exact .refl
  simp only [wp_bind, wp_read]
  split
  · exact .refl
  next k hfind =>
  obtain ⟨hk, -⟩ := mem_of_find hfind
  split
  · exact .refl
  next htakes =>
  rw [not_not] at htakes
  simp only [wp_bind, wp_write]
  set s' : Database :=
    { s with connectors := Table.modify (·.id) k.id (connectorStatus env payload) s.connectors } with hs'
  have hmove : Move A Z now s.core s'.core := by
    refine connectors_move h (fun x => ?_) fun x hx l hl => ?_
    · split <;> rfl
    · split
      · next hid =>
        obtain rfl := h.connectors.eq hx hk hid
        simp only [connectorStatus]
        cases hp : payload.timestamp with
        | none => exact ⟨l, hl, le_rfl⟩
        | some at_ => exact ⟨at_, rfl, (htakes at_ hp l hl).le⟩
      · exact ⟨l, hl, le_rfl⟩
  have hok : CoreOk s'.core := hmove.ok h
  have hk' : connectorStatus env payload k ∈ s'.connectors :=
    Table.mem_modify.mpr ⟨k, hk, by rw [if_pos rfl]⟩
  refine wp_mono (note_status_makes (single hmove) hok (connectorStatus env payload k) hk' payload.status
    fun at_ hat => ?_) (fun _ s'' hm => ?_) fun _ _ hm => hm
  · simp only [connectorStatus]
    rw [hat]
    rfl
  · exact hm.trans (updateIdle_move k.id payload s'')

theorem note_connector_status_makes {t : Core} (ht : Moves A Z now t s.core) (h : CoreOk s.core)
    (charger_id number : ℕ) (status : OcppStatus) :
    Makes A Z now t (note_connector_status charger_id number status) s := by
  unfold Makes note_connector_status
  simp only [wp_bind, wp_read]
  split
  · exact ht
  split
  · exact ht
  next c hfind =>
  obtain ⟨hc, hp⟩ := mem_of_find hfind
  simp only [decide_eq_true_eq] at hp
  split
  · exact ht.tail (saveSession_move h hc (.review c _))
  split
  · refine ht.tail (saveSession_move h hc (.clear c _ ?_ hp.2.1))
    simp [SETTLED_BY_STOP]
  · exact ht

end CallsLemmas

theorem status_notification_moves (h : CoreOk s.core) (charger : ChargePoint) (payload : StatusPayload) :
    Makes A Z now s.core (status_notification env charger payload) s := by
  unfold Makes status_notification
  rw [wp_bind]
  refine wp_mono (report_status_makes h charger payload) (fun taken s' hm => ?_) fun _ _ hm => hm
  split
  · exact note_connector_status_makes hm (Moves.ok h hm) _ _ _
  · exact hm

/-! ## 4. Recovery -/

theorem note_reconnection_moves (charger_id : ℕ) : Makes A Z now s.core (note_reconnection env charger_id) s := by
  refine single (.sessions s.core _ fun c _ => ?_)
  split
  · next hc =>
    rw [decide_eq_true_eq] at hc
    exact .note c _ hc.2 rfl fun _ h => h
  · exact .same c

theorem flag_abnormal_sessions_moves (busy : List ℕ) :
    Makes A Z now s.core (flag_abnormal_sessions env busy) s := by
  unfold Makes flag_abnormal_sessions
  simp only [wp_bind, wp_read]
  have hloop : ∀ (points : List ChargePoint) {t : Core} {s : Database}, Moves A Z now t s.core →
      Makes A Z now t (flagAbnormals env points) s := by
    intro points
    induction points with
    | nil => exact fun ht => ht
    | cons p rest ih =>
      intro t s ht
      unfold Makes flagAbnormals
      rw [wp_bind, wp_write]
      refine ih (ht.tail (.sessions s.core _ fun c _ => ?_))
      split
      · next hc =>
        refine .note c _ hc.2.1 ?_ fun _ hr => mem_review.mpr (.inl hr)
        rw [review_eq]
      · exact .same c
  exact hloop _ .refl

theorem CallsLemmas.numeric_reading {m : MeterSample} (h : ∀ v ∈ m.value, Numeric v) : Numeric (reading m) := by
  unfold reading
  cases hv : m.value with
  | none => exact ⟨0, by simp, by decide⟩
  | some v => exact h v hv

theorem manual_close_moves (h : CoreOk s.core) (session_id : ℕ) (actor_id : Uuid) (reason : String) :
    Makes A Z now s.core (manual_close env session_id actor_id reason) s := by
  unfold Makes manual_close
  simp only [wp_bind, wp_read, wp_orRaise, wp_raiseIf]
  refine ⟨fun _ => .refl, fun c hfind => ⟨fun _ => .refl, fun hopen => ⟨fun _ => .refl, fun p hp =>
    ⟨fun _ => .refl, fun _ => ⟨fun _ => .refl, fun _ => ?_⟩⟩⟩⟩⟩
  push Not at hopen
  have hnum : Numeric p.2 := by
    obtain ⟨m, hm, -, rfl⟩ := mem_history.mp (Points.latest_spec hp).1
    exact numeric_reading (h.numeric m (List.mem_filter.mp hm).1)
  exact single (saveSession_move h (mem_of_find hfind).1 (.close c env actor_id reason _ hopen.1 hnum))

theorem scan_control_deadlines_moves : Makes A Z now s.core (scan_control_deadlines env) s := by
  refine single (.sessions s.core _ fun c _ => ?_)
  split
  · exact .review c _
  · exact .same c

/-! ## 5. Transactions -/

namespace CallsLemmas

/-- Writes that leave the core alone. -/
theorem authorize_core (charger : ChargePoint) (tag : String) (context : Bool) :
    wp (authorize env charger tag context) (fun _ s' => s'.core = s.core) (fun _ s' => s'.core = s.core) s := by
  unfold authorize
  split
  · rfl
  simp only [wp_bind, wp_read, wp_raiseIf, wp_write, wp_pure]
  exact ⟨fun _ => trivial, fun _ => ⟨fun _ => trivial, fun _ => rfl⟩⟩

theorem save_wallet (row : Reservation) (r : ReservationDb) :
    wp (save row) (fun _ r' => r'.wallet = r.wallet) (fun _ r' => r'.wallet = r.wallet) r := rfl

theorem validate_start_wallet (msg : StartMessage) (r : ReservationDb) :
    wp (validate_start env.now msg) (fun _ r' => r'.wallet = r.wallet) (fun _ r' => r'.wallet = r.wallet) r := by
  have hhold : ∀ hold, wp (validateHold msg env.now hold) (fun _ r' => r'.wallet = r.wallet)
      (fun _ r' => r'.wallet = r.wallet) r := by
    intro hold
    unfold validateHold
    split
    · rfl
    split
    · rfl
    split
    · rfl
    · rfl
  unfold validate_start
  simp only [wp_bind, wp_read]
  split
  · split
    · rfl
    split
    · exact hhold _
    · exact hhold _
  · exact hhold _

theorem onReservations_core {α : Type} {x : ReservationTx α}
    (hx : ∀ r, wp x (fun _ r' => r'.wallet = r.wallet) (fun _ r' => r'.wallet = r.wallet) r) :
    wp (onReservations x) (fun _ s' => s'.core = s.core) (fun _ s' => s'.core = s.core) s := by
  unfold onReservations
  rw [wp_zoom]
  refine wp_mono (hx _) (fun _ r' hr => ?_) fun _ r' hr => ?_ <;>
  · simp only [Database.core]
    rw [hr]

theorem answerRequest_core (connector_id : ℕ) (card : Option ChargingCard)
    (answer : DriverStartRequest → DriverStartRequest) :
    wp (answerRequest env connector_id card answer) (fun _ s' => s'.core = s.core)
      (fun _ s' => s'.core = s.core) s := by
  unfold answerRequest
  rw [wp_write]
  split <;> rfl

theorem note_power_start_core (station_id connector_id : ℕ) :
    wp (note_power_start station_id connector_id) (fun _ s' => s'.core = s.core)
      (fun _ s' => s'.core = s.core) s := by
  unfold note_power_start
  rw [wp_write]
  split
  · simp only
    split <;> rfl
  · rfl

theorem refuseStart_core (charger : ChargePoint) (message_id : String) (connector : Connector)
    (card : Option ChargingCard) (reason : String) :
    wp (refuseStart env charger message_id connector card reason) (fun _ s' => s'.core = s.core)
      (fun _ s' => s'.core = s.core) s := by
  unfold refuseStart reject_unavailable_start
  rw [wp_bind]
  exact wp_mono (answerRequest_core connector.id card _) (fun _ _ h => h) fun _ _ h => h

theorem fresh_newSession (charger : ChargePoint) (connector : Connector) (payload : StartPayload)
    (result : Billing.AuthorizationStatus) (card : Option ChargingCard) (hasOld : Bool) (id : ℕ) :
    Fresh (newSession env charger connector payload result card hasOld id) ∧
    (newSession env charger connector payload result card hasOld id).id = id := by
  have hreview : ∀ {c : Session} (b : Prop) [Decidable b] reason, Fresh c ∧ c.id = id →
      Fresh (if b then review reason c else c) ∧ (if b then review reason c else c).id = id := by
    rintro c b _ reason ⟨hc, hid⟩
    split
    · rw [review_eq]
      exact ⟨⟨⟨hc.metered.start, hc.metered.stop⟩, hc.opened, hc.unreleased, hc.unsettled⟩, hid⟩
    · exact ⟨hc, hid⟩
  unfold newSession
  refine hreview _ _ (hreview _ _ (hreview _ _ ⟨⟨⟨fun v hv => ?_, fun _ h => by cases h⟩, rfl, rfl, rfl⟩, rfl⟩))
  cases hv
  exact InvariantLemmas.numeric_counter payload.meterStart

theorem closeOld_makes (h : CoreOk s.core) {t : Core} (ht : Moves A Z now t s.core) (connector : Connector) :
    Makes A Z now t (closeOld env connector) s := by
  unfold Makes closeOld
  simp only [wp_bind, wp_read]
  split
  · next old hold =>
    obtain ⟨hmem, hp⟩ := mem_of_find hold
    rw [decide_eq_true_eq] at hp
    exact ht.tail (saveSession_move h hmem (.replace old env.now hp.2))
  · exact ht

theorem flagPrevious_makes (h : CoreOk s.core) {t : Core} (ht : Moves A Z now t s.core)
    (previous : Option Session) : Makes A Z now t (flagPrevious previous) s := by
  unfold Makes flagPrevious
  simp only [wp_bind, wp_read]
  split
  · next p hp =>
    obtain ⟨q, -, hfind⟩ := Option.bind_eq_some_iff.mp hp
    split
    · exact ht.tail (saveSession_move h (mem_of_find hfind).1 (.review p _))
    · exact ht
  · exact ht

theorem beginSession_makes {t : Core} (ht : Moves A Z now t s.core) (charger : ChargePoint)
    (connector : Connector) (payload : StartPayload) (result : Billing.AuthorizationStatus)
    (card : Option ChargingCard) (reservation : Option Reservation) (hasOld : Bool) :
    Makes A Z now t (beginSession env charger connector payload result card reservation hasOld) s := by
  unfold Makes beginSession
  simp only [wp_bind, wp_read, wp_write]
  set c := newSession env charger connector payload result card hasOld s.session_seq with hc
  obtain ⟨hfresh, hid⟩ := @fresh_newSession env charger connector payload result card hasOld s.session_seq
  set s' : Database := { s with charging_sessions := s.charging_sessions ++ [c], session_seq := s.session_seq + 1 }
  have hm : Moves A Z now t s'.core := ht.tail (.insert s.core c hfresh hid)
  have hres : wp (consumeHold env c.id reservation) (fun _ s'' => s''.core = s'.core)
      (fun _ s'' => s''.core = s'.core) s' := by
    cases reservation with
    | some row => exact onReservations_core fun r => save_wallet _ r
    | none => rfl
  refine wp_mono hres (fun _ s₁ h₁ => ?_) fun _ s₁ h₁ => by rwa [h₁]
  have hattach : ∀ s₂ : Database, wp (attach_remote_start env c card) (fun _ s₃ => s₃.core = s₂.core)
      (fun _ s₃ => s₃.core = s₂.core) s₂ := by
    intro s₂
    unfold attach_remote_start
    split
    · rfl
    · exact answerRequest_core c.connector_id card _
  rw [wp_bind, wp_write, wp_bind]
  refine wp_mono (hattach _) (fun _ s₂ h₂ => ?_) fun _ s₂ h₂ => ?_
  · have hcore : s₂.core = s'.core := h₂.trans h₁
    split
    · rw [wp_bind]
      refine wp_mono (note_power_start_core charger.station_id connector.id) (fun _ s₃ h₃ => ?_) fun _ s₃ h₃ => ?_
      · simp only [wp_pure]
        rw [h₃, hcore]
        exact hm
      · rw [h₃, hcore]
        exact hm
    · simp only [wp_pure]
      rw [hcore]
      exact hm
  · rw [h₂]
    exact h₁ ▸ hm

end CallsLemmas

theorem start_transaction_moves (h : CoreOk s.core) (charger : ChargePoint) (message_id : String)
    (payload : StartPayload) : Makes A Z now s.core (start_transaction env charger message_id payload) s := by
  unfold Makes start_transaction
  simp only [wp_bind, wp_read, wp_orRaise]
  refine ⟨fun _ => .refl, fun connector _ => ?_⟩
  refine wp_mono (authorize_core charger payload.idTag true) (fun r s₁ h₁ => ?_) fun _ s₁ h₁ => h₁ ▸ .refl
  rw [wp_bind]
  refine wp_mono (onReservations_core (validate_start_wallet _)) (fun r' s₂ h₂ => ?_)
    fun _ s₂ h₂ => (h₂.trans h₁) ▸ .refl
  have hcore : s₂.core = s.core := h₂.trans h₁
  rw [wp_bind, wp_read]
  have hrefuse : ∀ card reason, wp (refuseStart env charger message_id connector card reason)
      (fun _ s' => Moves A Z now s.core s'.core) (fun _ s' => Moves A Z now s.core s'.core) s₂ := fun card reason =>
    wp_mono (refuseStart_core charger message_id connector card reason)
      (fun _ s₃ h₃ => (h₃.trans hcore) ▸ .refl) fun _ s₃ h₃ => (h₃.trans hcore) ▸ .refl
  split
  · exact hrefuse _ _
  split
  · exact hrefuse _ _
  split
  · exact hrefuse _ _
  split
  · next eligibility _ =>
    rw [wp_bind]
    refine wp_mono (answerRequest_core connector.id _ _) (fun _ s₃ h₃ => ?_) fun _ s₃ h₃ => ?_
    · have hm : Moves A Z now s.core s₃.core := (h₃.trans hcore) ▸ .refl
      simp only [wp_bind, wp_orRaise, pending, wp_write, wp_pure]
      exact ⟨fun _ => hm, fun _ _ => hm⟩
    · exact (h₃.trans hcore) ▸ .refl
  · have hm₂ : Moves A Z now s.core s₂.core := hcore ▸ .refl
    rw [wp_bind]
    refine wp_mono (closeOld_makes (Moves.ok h hm₂) hm₂ connector) (fun hasOld s₃ h₃ => ?_) fun _ _ h₃ => h₃
    rw [wp_bind]
    refine wp_mono (flagPrevious_makes (Moves.ok h h₃) h₃ _) (fun _ s₄ h₄ => ?_) fun _ _ h₄ => h₄
    exact beginSession_makes h₄ charger connector payload _ _ _ hasOld

namespace CallsLemmas

/-- The key of the samples. -/
theorem keys_of_series {t : Core} (h : CoreOk t) : t.samples.Pairwise fun a b => sampleKey a ≠ sampleKey b := by
  rw [List.pairwise_iff_getElem]
  intro i j hi hj hij heq
  obtain ⟨c, hc, hid⟩ := h.sampled t.samples[i] (List.getElem_mem hi)
  have hseries := List.pairwise_iff_getElem.mp (List.pairwise_filter.mp (h.series c hc).distinct) i j hi hj hij
  have hsame : t.samples[j].session_id = c.id := hid ▸ (congrArg (·.1) heq).symm
  exact hseries (decide_eq_true hid.symm) (decide_eq_true hsame) heq

/-- The tables after the rows of a report were inserted. -/
def inserted (rows : List MeterSample) (s : Database) : Database :=
  { s with
    meter_samples := s.meter_samples ++ numbered s.sample_seq rows
    sample_seq := s.sample_seq + rows.length }

/-- The insert of the rows of a report raises at most for a value that the column cannot hold. -/
theorem insert_meter_rows_spec {rows : List MeterSample}
    (hkeys : (s.meter_samples ++ rows).Pairwise fun a b => sampleKey a ≠ sampleKey b) :
    wp (insert_meter_rows rows) (fun _ s' => s' = inserted rows s ∧ ∀ m ∈ rows, |reading m| < 10 ^ 18)
      (fun e s' => s' = s ∧ e = .dataError) s := by
  unfold insert_meter_rows
  split
  · next hnil =>
    subst hnil
    simp [inserted, numbered]
  simp only [wp_bind, wp_read, wp_raiseIf, wp_write]
  refine ⟨fun _ => ⟨trivial, trivial⟩, fun hfit => ⟨fun hno => absurd hkeys hno, fun _ => ⟨rfl, fun m hm => ?_⟩⟩⟩
  exact not_le.mp fun hle => hfit ⟨m, hm, hle⟩

/-- The column holds the rows of a report that was inserted. -/
theorem numeric_rows {c : Session} {rows : List MeterSample} (hrows : ∀ m ∈ rows, RowOf c m)
    (hfit : ∀ m ∈ rows, |reading m| < 10 ^ 18) : ∀ m ∈ rows, ∀ v ∈ m.value, Numeric v := by
  intro m hm v hv
  obtain ⟨-, value, hvalue⟩ := hrows m hm
  cases hvalue.symm.trans hv
  have hlt := hfit m hm
  unfold reading at hlt
  rw [hvalue, Option.getD_some] at hlt
  refine ⟨Rounding.roundHalfEven (value * 10 ^ 6), div_mul_cancel₀ _ (by norm_num), ?_⟩
  unfold DecimalText.micro at hlt
  rw [abs_div, div_lt_iff₀ (by norm_num)] at hlt
  have hbound : |(Rounding.roundHalfEven (value * 10 ^ 6) : ℚ)| < 10 ^ 24 := by
    refine hlt.trans_le (le_of_eq ?_)
    norm_num
  exact_mod_cast hbound

/-- The keys of a store to which the rows of a report are added. -/
theorem keys_append (h : CoreOk s.core) {c c' : Session} {rows : List MeterSample}
    (hid : c'.id = c.id) (hs : SeriesOk c' (s.samplesOf c.id ++ rows)) :
    (s.meter_samples ++ rows).Pairwise fun a b => sampleKey a ≠ sampleKey b := by
  obtain ⟨-, hrows, hcross⟩ := List.pairwise_append.mp hs.distinct
  refine List.pairwise_append.mpr ⟨keys_of_series h, hrows, fun a ha b hb heq => ?_⟩
  have hb' : b.session_id = c.id := (hs.session b (List.mem_append_right _ hb)).trans hid
  have ha' : a.session_id = c.id := (congrArg (·.1) heq).trans hb'
  exact hcross a (List.mem_filter.mpr ⟨ha, decide_eq_true ha'⟩) b hb heq

end CallsLemmas

theorem meter_values_moves (h : CoreOk s.core) (charger : ChargePoint) (message_id : String)
    (payload : MeterPayload) (hp : ∀ c c' rows, meterSession s charger.id payload = some c → takesReports c →
      storeSamples (s.samplesOf c.id) c payload.meterValue (payload.transactionId.isSome && c.recovery_at.isSome) =
        .ok (c', rows) → A.stored s.core c rows) :
    wp (meterReport charger message_id payload) (fun _ s' => Moves A Z now s.core s'.core)
      (fun e s' => Moves A Z now s.core s'.core ∧ ∀ name, e ≠ .integrityError name) s := by
  unfold meterReport meter_values
  simp only [wp_bind, wp_read]
  split
  · exact .refl
  next c hfind =>
  obtain ⟨hc, -⟩ := mem_of_find hfind
  split
  · exact .refl
  next htakes =>
  simp only [wp_bind, wp_lift, wp_write]
  refine ⟨fun r hstored => ?_, fun e he => ⟨.refl, fun name heq => ?_⟩⟩
  · obtain ⟨c', rows⟩ := r
    obtain ⟨hr, hs⟩ := storeSamples_spec (h.series c hc) hstored
    have hid : c'.id = c.id := hr.get (·.id) fun _ _ => rfl
    have hsave : Moves A Z now s.core (saveSession c' s).core := single (saveSession_move h hc (.flag c c' hr))
    change wp (insert_meter_rows rows) _ _ (saveSession c' s)
    refine wp_mono (insert_meter_rows_spec (keys_append h hid hs)) (fun _ s' hs' => ?_) fun e s' he => ?_
    · rw [hs'.1]
      exact single (.store s.core s.sample_seq c c' rows _ _ hc (not_not.mp htakes) hstored
        (numeric_rows (storeSamples_frame hstored).2 hs'.2) (hp c c' rows hfind (not_not.mp htakes) hstored))
    · rw [he.1, he.2]
      exact ⟨hsave, fun _ h => by cases h⟩
  · rw [storeSamples_raises e he] at heq
    cases heq

theorem CallsLemmas.note_stop_raises (c : Session) :
    wp (note_stop c) (fun _ _ => True) (fun e _ => ∀ name, e ≠ .integrityError name) s := by
  unfold note_stop
  split
  · trivial
  simp only [wp_bind, wp_orRaise, wp_read, wp_write, implies_true, and_true]
  exact fun _ _ h => by cases h

theorem stop_transaction_moves (h : CoreOk s.core) (charger : ChargePoint) (message_id : String)
    (payload : StopPayload) :
    wp (stop_transaction charger message_id payload) (fun _ s' => Moves A Z now s.core s'.core)
      (fun e s' => Moves A Z now s.core s'.core ∧ ∀ name, e ≠ .integrityError name) s := by
  unfold stop_transaction
  simp only [wp_bind, wp_read]
  split
  · exact .refl
  next c hfind =>
  obtain ⟨hc, -⟩ := mem_of_find hfind
  split
  · exact .refl
  next hopen =>
  rw [not_not] at hopen
  simp only [wp_bind, wp_lift]
  refine ⟨fun r hstored => ?_, fun e he => ⟨.refl, fun name heq => ?_⟩⟩
  swap
  · rw [storeSamples_raises e he] at heq
    cases heq
  obtain ⟨c', rows⟩ := r
  have hseries : SeriesOk (withStop payload c) (s.samplesOf c.id) := (h.series c hc).congr rfl rfl rfl fun h => h
  obtain ⟨hr, hs⟩ := storeSamples_spec hseries hstored
  have hid : c'.id = c.id := hr.get (·.id) fun _ _ => rfl
  have hkeys := keys_append h hid hs
  refine wp_mono (insert_meter_rows_spec hkeys) (fun _ s₁ hs₁ => ?_) fun e s₁ he => ?_
  swap
  · rw [he.1, he.2]
    exact ⟨.refl, fun _ h => by cases h⟩
  obtain ⟨h₁, hfit⟩ := hs₁
  simp only [wp_bind, wp_read, wp_write]
  -- the insert and the write of the session are one move
  set c'' := finishStop payload (latestMeter (s₁.samplesOf c.id) c payload.timestamp) c' with hc''
  have hid' : c''.id = c.id := (InvariantLemmas.Kept.of_stop hr).id
  have hm : Moves A Z now s.core (saveSession c'' s₁).core := by
    rw [h₁]
    exact single (.stop s.core s.sample_seq payload c c' rows _ _ hc hopen hstored
      (numeric_rows (storeSamples_frame hstored).2 hfit))
  have hmem : c'' ∈ (saveSession c'' s₁).charging_sessions := by
    rw [h₁]
    exact Table.mem_modify.mpr ⟨c, hc, by rw [if_pos hid'.symm]⟩
  have hbill : ¬ (saveSession c'' s₁).Invoiced c''.id := by
    rintro ⟨i, hi, hiid⟩
    rw [h₁] at hi
    obtain ⟨a, ha, haid, hended⟩ := h.billed i hi
    rw [h.eq ha hc (haid.trans (hiid.trans hid'))] at hended
    exact hended hopen
  have hstop : ∀ {s₂ : Database}, s₂.core = (saveSession c'' s₁).core →
      wp (note_stop c'') (fun _ s' => Moves A Z now s.core s'.core)
        (fun e s' => Moves A Z now s.core s'.core ∧ ∀ name, e ≠ .integrityError name) s₂ := by
    intro s₂ h₂
    have hmem₂ : c'' ∈ s₂.charging_sessions := (congrArg (c'' ∈ ·.sessions) h₂).mpr hmem
    have hbill₂ : ¬ s₂.Invoiced c''.id := fun hi => hbill ((congrArg (·.Invoiced c''.id) h₂).mp hi)
    exact wp_mono (wp_and (note_stop_makes (h₂ ▸ hm) hmem₂ hbill₂) (note_stop_raises c''))
      (fun _ _ h => h.1) fun _ _ h => h
  split
  · exact hstop rfl
  · exact hstop rfl

/-! ## 6. Closure -/

namespace CallsLemmas

theorem putBilling_same (s : Database) : Database.putBilling s.billing s = s := by
  have hsame : List.zipWith (fun (c : Session) row => { c with toChargingSession := row }) s.charging_sessions
      (s.charging_sessions.map (·.toChargingSession)) = s.charging_sessions := by
    rw [List.zipWith_map_right]
    exact List.zipWith_self.trans (List.map_id _)
  unfold Database.putBilling Database.billing
  rw [hsame]

/-- The reason that a rejected invoice adds. -/
theorem putBilling_review (session_id : ℕ) (reason : String) (s : Database) :
    Database.putBilling (Billing.addReviewReason session_id reason s.billing) s = rejectedFor session_id reason s := by
  have hmap : List.zipWith (fun (c : Session) row => { c with toChargingSession := row }) s.charging_sessions
      (Billing.addReviewReason session_id reason s.billing).charging_sessions =
      (rejectedFor session_id reason s).charging_sessions := by
    simp only [Billing.addReviewReason, Database.billing, Table.modify, List.map_map, rejectedFor]
    rw [List.zipWith_map_right, List.zipWith_self]
    refine List.map_congr_left fun c _ => ?_
    simp only [Function.comp_apply]
    split <;> rfl
  unfold Database.putBilling
  rw [hmap]
  rfl

/-- A session of billing is one of charging. -/
theorem find_billing {session_id : ℕ} {charging : Billing.ChargingSession}
    (hfound : s.billing.charging_sessions.find? (·.id = session_id) = some charging) :
    ∃ c ∈ s.charging_sessions, c.toChargingSession = charging ∧ c.id = session_id ∧
      s.charging_sessions.find? (·.id = session_id) = some c := by
  simp only [Database.billing, List.find?_map, Option.map_eq_some_iff] at hfound
  obtain ⟨c, hc, rfl⟩ := hfound
  exact ⟨c, List.mem_of_find?_eq_some hc, rfl, by simpa using List.find?_some hc, hc⟩

end CallsLemmas

/-- `lap_hoa_don` is a move at most, and gives back an invoice of the session that has no reasons. -/
theorem lap_hoa_don_moves (h : CoreOk s.core) (hz : ∀ st ∈ env.stations, Z st.toStation) (session_id : ℕ) :
    wp (lap_hoa_don env session_id)
      (fun r s' => Moves A Z env.now s.core s'.core ∧ s'.books = s.books ∧
        ∀ i, r.status = .ready → r.invoice = some i → i ∈ s'.invoices ∧ i.session_id = session_id ∧
          s'.charging_sessions = s.charging_sessions ∧
          ∃ c, s.charging_sessions.find? (·.id = session_id) = some c ∧ c.review_reasons = [])
      (fun _ s' => Moves A Z env.now s.core s'.core) s := by
  unfold lap_hoa_don
  rw [wp_bind, wp_read, wp_zoom]
  refine wp_mono (Billing.lap_hoa_don_outcome _ env.new_id env.now session_id s.billing)
    (fun r b hb => ?_) fun e b hb => ?_
  swap
  · rw [hb, putBilling_same]
    exact .refl
  obtain ⟨hout, hready⟩ := hb
  cases hout with
  | same r =>
    rw [putBilling_same]
    refine ⟨.refl, rfl, fun i hr hi => ?_⟩
    obtain ⟨hmem, hid, charging, hfound, hclean⟩ := hready i hr hi
    obtain ⟨c, -, rfl, -, hc⟩ := find_billing hfound
    exact ⟨hmem, hid, rfl, c, hc, hclean⟩
  | rejected charging reason hfound hclean =>
    obtain ⟨c, hc, rfl, hid, -⟩ := find_billing hfound
    refine ⟨?_, rfl, nofun⟩
    rw [putBilling_review]
    refine single (.sessions s.core _ fun x hx => ?_)
    split
    · next hx' =>
      obtain rfl := h.eq hx hc (hx'.trans hid.symm)
      rw [show x.review_reasons = [] from hclean]
      have hreview : review reason x = { x with review_reasons := [] ++ [reason] } := by
        unfold review
        rw [if_neg (by rw [show x.review_reasons = [] from hclean]; exact List.not_mem_nil),
          show x.review_reasons = [] from hclean]
      exact hreview ▸ .review x reason
    · exact .same x
  | created charging stop row b' hfound hclean hended hreleased hunbilled hcreated =>
    obtain ⟨c, hc, rfl, hid, hfind⟩ := find_billing hfound
    obtain ⟨k, hrow, -, hs'⟩ := wp_ok (Billing._create_invoice_ok _ _ _ _ _ _) hcreated
    have hsame : b.charging_sessions = s.billing.charging_sessions := by rw [hs']
    have hsessions : (Database.putBilling b s).charging_sessions = s.charging_sessions := by
      have := congrArg Database.charging_sessions (putBilling_same s)
      simpa only [Database.putBilling, hsame] using this
    refine ⟨single ?_, rfl, fun i _ hi => ?_⟩
    · have hmove := @Move.invoice A Z env.now s.core (billingTables env s) env.new_id c stop row b hc
        hclean hended ?_ hreleased rfl rfl ?_ hcreated
      · have hcore : (Database.putBilling b s).core = { s.core with invoices := b.invoices, tariffs := b.tariffs } := by
          unfold Database.core
          rw [hsessions]
          rfl
        rw [hcore]
        exact hmove
      · rintro ⟨i, hi, hiid⟩
        exact hunbilled i hi (hiid.trans hid)
      · intro station hst
        obtain ⟨st, hst', rfl⟩ := List.mem_map.mp hst
        exact hz st hst'
    · obtain ⟨hmem, hid', -⟩ := hready i rfl hi
      exact ⟨hmem, hid', hsessions, c, hfind, hclean⟩

namespace CallsLemmas

theorem mem_sessionEntries {w : WalletDb} {session_id : ℕ} {row : WalletLedger} :
    row ∈ sessionEntries w session_id ↔ row ∈ w.wallet_ledger ∧ row.reference_id = toString session_id ∧
      (row.entry_type = .charging_debit ∨ row.reference_type = "charging_session") := by
  simp [sessionEntries]

/-- The debit of an invoice: nothing to pay, or one row. -/
theorem debit_spec (hidden : List ℕ) (new_id : Uuid) (i : InvoiceRow) :
    wp (debit hidden new_id i)
      (fun _ s' => ∃ w, s' = { s with books := { s.books with wallet := w } } ∧
        ((i.total_vnd = 0 ∧ w = s.books.wallet) ∨ ∃ row, 0 < i.total_vnd ∧
          Debited i.toInvoice row s.books.wallet w))
      (fun _ s' => ∃ w, s' = { s with books := { s.books with wallet := w } } ∧ Quiet s.books.wallet w) s := by
  unfold debit
  simp only [wp_bind, wp_read, wp_zoom, wp_pure]
  refine wp_mono (tru_vi_spec hidden new_id _ (some i.toInvoice) none none none _) (fun r w hr => ?_)
    fun e w hw => ⟨w, rfl, hw⟩
  obtain ⟨i', hi', hcase⟩ := hr
  cases hi'
  refine ⟨w, rfl, ?_⟩
  rcases hcase with ⟨-, hzero, hw⟩ | ⟨row, -, hpos, hdeb⟩
  · exact .inl ⟨hzero, hw⟩
  · exact .inr ⟨row, hpos, hdeb⟩

theorem settleInvoice_makes (h : CoreOk s.core) {t : Core} (ht : Moves A Z now t s.core) (hidden : List ℕ)
    (new_id : Uuid) {c : Session} {i : InvoiceRow} (hc : c ∈ s.charging_sessions) (hi : i ∈ s.invoices)
    (hid : i.session_id = c.id) (hclean : c.review_reasons = []) (hunsettled : c.settlement = none)
    (outcome : Billing.InvoiceResult) : Makes A Z now t (settleInvoice hidden new_id c i outcome) s := by
  have hsettle : ∀ {w : WalletDb}, ((i.total_vnd = 0 ∧ w = s.books.wallet) ∨
      (∃ row, 0 < i.total_vnd ∧ Debited i.toInvoice row s.books.wallet w) ∨
      (w = s.books.wallet ∧ i.total_vnd ≠ 0 ∧ ∃ row ∈ s.books.wallet.wallet_ledger,
        row.key = (.charging_debit, toString c.id) ∧ row.amount_vnd = -i.total_vnd ∧
        ∃ owner ∈ s.books.wallet.wallets, owner.id = row.wallet_id ∧ owner.driver_id = i.driver_id)) →
      Moves A Z now t (saveSession (settledAs i c) { s with books := { s.books with wallet := w } }).core :=
    fun hpaid => ht.tail (.settle s.core c i _ hc hclean hi hid hunsettled hpaid)
  unfold Makes settleInvoice
  simp only [wp_bind, wp_read]
  split
  · rw [wp_bind, wp_write, wp_pure]
    refine ht.tail (saveSession_move h hc ?_)
    have hreview : review "settlement_ledger_mismatch" c = mismatched c := by
      unfold review mismatched
      rw [if_neg (by rw [hclean]; exact List.not_mem_nil)]
    exact hreview ▸ .review c _
  next hmatch =>
  split
  · rw [wp_bind]
    refine wp_mono (debit_spec hidden new_id i) (fun _ s' hs' => ?_) fun _ s' hs' => ?_
    · obtain ⟨w, rfl, hzero | hdeb⟩ := hs'
      · exact hsettle (.inl hzero)
      · exact hsettle (.inr (.inl hdeb))
    · obtain ⟨w, rfl, hq⟩ := hs'
      exact ht.tail (.wallet s.core w (.inl hq))
  next hentries =>
  simp only [wp_bind, wp_pure, wp_write]
  have hm : entriesMatch s.books.wallet i (sessionEntries s.books.wallet c.id) :=
    not_not.mp fun hno => hmatch ⟨hentries, hno⟩
  obtain ⟨row, hrow, -, ⟨owner, howner, hwallet⟩, htype, -, hamount, hzero⟩ := hm
  obtain ⟨hmem, href, -⟩ := mem_sessionEntries.mp (List.mem_of_mem_head? hrow)
  obtain ⟨hown, hdriver⟩ := mem_of_find howner
  exact hsettle (.inr (.inr ⟨rfl, hzero, row, hmem, Prod.ext htype href, hamount, owner, hown, hwallet.symm,
    of_decide_eq_true hdriver⟩))

end CallsLemmas

theorem chot_phien_moves (h : CoreOk s.core) (hz : ∀ st ∈ env.stations, Z st.toStation) (hidden : List ℕ)
    (new_id : Uuid) (session_id : ℕ) (settle : Bool) :
    Makes A Z env.now s.core (chot_phien env hidden new_id session_id settle) s := by
  have hlap : Makes A Z env.now s.core (lap_hoa_don env session_id) s :=
    wp_mono (lap_hoa_don_moves h hz session_id) (fun _ _ h => h.1) fun _ _ h => h
  unfold Makes chot_phien
  simp only [wp_bind, wp_read]
  split
  · exact hlap
  next c hfind =>
  split
  · exact hlap
  next hunsettled =>
  rw [wp_bind]
  refine wp_mono (lap_hoa_don_moves h hz session_id) (fun r s' hr => ?_) fun _ _ h => h
  obtain ⟨hm, -, hready⟩ := hr
  split
  · next i hstatus hinvoice =>
    split
    swap
    · exact hm
    obtain ⟨hi, hiid, hsame, c', hfind', hclean⟩ := hready i hstatus hinvoice
    cases hfind.symm.trans hfind'
    obtain ⟨hc, hid⟩ := mem_of_find hfind
    exact settleInvoice_makes (Moves.ok h hm) hm hidden new_id (hsame ▸ hc) hi
      (hiid.trans (of_decide_eq_true hid).symm) hclean (not_not.mp hunsettled) r
  · exact hm

end Csms.Charging
