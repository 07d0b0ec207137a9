import Csms.Charging.System
import Csms.Reservations.Protocol

/-!
# Who may start at a held connector

StartTransaction and the reservations together: a run of starts and of the operations on reservations, on
the same tables. `StartCall.run_projects` says that a start is an operation of the reservation system, so
its runs have the invariants of that system.

Result: `held_connectors_admit_holder`.
-/

namespace Csms.Charging

open Tx Csms.Reservations
open Csms.Billing (AuthorizationStatus)

/-! ## 1. Runs -/

/-- The tables of the reservation system. -/
def Database.reservationDb (s : Database) : ReservationDb := ⟨s.books.wallet, s.books.reservations, s.books.ocpp_seq⟩

structure StartCall where
  env : Environment
  charger : ChargePoint
  message_id : String
  payload : StartPayload

/-- A StartTransaction, undone when it raises. -/
def StartCall.run (call : StartCall) (s : Database) : Database :=
  match start_transaction call.env call.charger call.message_id call.payload s with
  | (.ok _, s') => s'
  | (.error _, s') => s.rollback s'

/-- The tables, the clock of the database, and the commands of reservations on their way. -/
structure Site where
  db : Database
  clock : ℤ
  flights : List Delivery

def Site.world (w : Site) : World := ⟨w.db.reservationDb, w.clock, w.flights⟩

/-- Starts, with the tables they found, and other operations on reservations, while the rest of the program
writes its own tables. -/
inductive SiteRun : Site → List (StartCall × Database) → Site → Prop
  | nil (w : Site) : SiteRun w [] w
  | start {w w' : Site} {starts : List (StartCall × Database)} (run : SiteRun w starts w') (call : StartCall)
      (clock : w'.clock ≤ call.env.now) :
      SiteRun w (starts ++ [(call, w'.db)]) ⟨call.run w'.db, call.env.now, w'.flights⟩
  | other {w w' : Site} {starts : List (StartCall × Database)} (run : SiteRun w starts w') (op : Op)
      (noStart : ∀ now msg checks, op ≠ .start_transaction now msg checks) (valid : op.Valid w'.world)
      (db : Database) (tables : db.reservationDb = (step op w'.world).db) :
      SiteRun w starts ⟨db, (step op w'.world).clock, (step op w'.world).flights⟩

/-- The start creates the session. -/
def StartCall.Creates (call : StartCall) (s : Database) (c : Session) : Prop :=
  c ∈ (call.run s).charging_sessions ∧ ∀ x ∈ s.charging_sessions, x.id ≠ c.id

/-- The card of the start's tag. -/
def StartCall.card (call : StartCall) : Option ChargingCard :=
  call.env.cards.find? (·.tag_hash = call.env.sha256 call.payload.idTag)

/-- The start is the holder's, and in time. -/
structure StartCall.Fits (call : StartCall) (r : Reservation) : Prop where
  holder : ∃ card, call.card = some card ∧ r.card_id = card.id ∧ r.driver_id = card.driver_id
  reservation : call.payload.reservationId = some (r.ocpp_id : ℤ)
  since : r.created_at - 30 * SECOND ≤ call.payload.timestamp
  before : call.payload.timestamp < r.expires_at
  ahead : call.payload.timestamp ≤ call.env.now + 30 * SECOND
  late : call.env.now ≤ r.expires_at + 30 * SECOND

/-- The reservation was not consumed, and the start consumed it for the session it created. -/
def StartCall.Consumes (call : StartCall) (s : Database) (r : Reservation) (c : Session) : Prop :=
  r ∈ s.books.reservations ∧ r.status ≠ .consumed ∧ call.Creates s c ∧
    ∃ r' ∈ (call.run s).books.reservations, r'.id = r.id ∧ r'.status = .consumed ∧ r'.session_id = some c.id

/-! ## 2. What a start does -/

namespace AdmissionLemmas

/-- The reservations are as before, and no session is new. -/
structure Frame (s s' : Database) : Prop where
  tables : s'.reservationDb = s.reservationDb
  sessions : ∀ c ∈ s'.charging_sessions, ∃ x ∈ s.charging_sessions, x.id = c.id
  seq : s'.session_seq = s.session_seq

variable {env : Environment} {s s' s'' : Database}

theorem Frame.of_eq (tables : s'.reservationDb = s.reservationDb)
    (sessions : s'.charging_sessions = s.charging_sessions) (seq : s'.session_seq = s.session_seq) : Frame s s' :=
  ⟨tables, fun c hc => ⟨c, sessions ▸ hc, rfl⟩, seq⟩

theorem Frame.trans (h : Frame s s') (h' : Frame s' s'') : Frame s s'' where
  tables := h'.tables.trans h.tables
  sessions := fun c hc => by
    obtain ⟨x, hx, hid⟩ := h'.sessions c hc
    obtain ⟨y, hy, hid'⟩ := h.sessions x hx
    exact ⟨y, hy, hid'.trans hid⟩
  seq := h'.seq.trans h.seq

/-- Every outcome of `x` is in the frame. -/
def Frames {α : Type} (x : ChargingTx α) (s : Database) : Prop :=
  wp x (fun _ s' => Frame s s') (fun _ s' => Frame s s') s

theorem saveSession_frame (c : Session) (s : Database) : Frame s (saveSession c s) := by
  refine ⟨rfl, fun x hx => ?_, rfl⟩
  obtain ⟨y, hy, rfl⟩ := Table.mem_modify.mp hx
  refine ⟨y, hy, ?_⟩
  split
  · next heq => exact heq
  · rfl

theorem answerRequest_frames (connector_id : ℕ) (card : Option ChargingCard)
    (answer : DriverStartRequest → DriverStartRequest) : Frames (answerRequest env connector_id card answer) s := by
  unfold Frames answerRequest
  rw [wp_write]
  split <;> exact .of_eq rfl rfl rfl

theorem refuseStart_frames (charger : ChargePoint) (message_id : String) (connector : Connector)
    (card : Option ChargingCard) (reason : String) :
    Frames (refuseStart env charger message_id connector card reason) s := by
  unfold Frames refuseStart reject_unavailable_start pending
  rw [wp_bind]
  refine wp_mono (answerRequest_frames connector.id card _) (fun _ s₁ h₁ => ?_) fun _ _ h => h
  simp only [wp_bind, wp_write, wp_pure]
  exact h₁.trans (.of_eq rfl rfl rfl)

theorem closeOld_frames (connector : Connector) : Frames (closeOld env connector) s := by
  unfold Frames closeOld
  simp only [wp_bind, wp_read]
  split
  · exact saveSession_frame _ s
  · exact .of_eq rfl rfl rfl

theorem flagPrevious_frames (previous : Option Session) : Frames (flagPrevious previous) s := by
  unfold Frames flagPrevious
  simp only [wp_bind, wp_read]
  split
  · split
    · exact saveSession_frame _ s
    · exact .of_eq rfl rfl rfl
  · exact .of_eq rfl rfl rfl

theorem note_power_start_frames (station_id connector_id : ℕ) : Frames (note_power_start station_id connector_id) s := by
  unfold Frames note_power_start
  rw [wp_write]
  split
  · simp only
    split <;> exact .of_eq rfl rfl rfl
  · exact .of_eq rfl rfl rfl

theorem attach_remote_start_frames (c : Session) (card : Option ChargingCard) :
    Frames (attach_remote_start env c card) s := by
  unfold attach_remote_start
  split
  · exact .of_eq rfl rfl rfl
  · exact answerRequest_frames _ _ _

/-- The card that is authorized is that of the tag, or none. -/
theorem authorize_frames (charger : ChargePoint) (tag : String) (context : Bool) :
    wp (authorize env charger tag context)
      (fun r s' => Frame s s' ∧ (r.2.1 = none ∨ r.2.1 = env.cards.find? (·.tag_hash = env.sha256 tag)))
      (fun _ s' => Frame s s') s := by
  unfold authorize
  split
  · exact ⟨.of_eq rfl rfl rfl, .inl rfl⟩
  simp only [wp_bind, wp_read, wp_raiseIf, wp_write, wp_pure]
  refine ⟨fun _ => .of_eq rfl rfl rfl, fun _ => ⟨fun _ => .of_eq rfl rfl rfl, fun _ => ⟨.of_eq rfl rfl rfl, .inr trivial⟩⟩⟩

/-- A reservation that lets the message start: its holder's, and in time. -/
structure LetsIn (now : ℤ) (msg : StartMessage) (r : Reservation) : Prop where
  owned : r.ownedBy msg.card = true
  reservation : msg.reservation_id = some r.ocpp_id
  during : r.duringHold msg.timestamp = true
  ahead : msg.timestamp ≤ now + 30 * SECOND
  late : now ≤ r.expires_at + 30 * SECOND

/-- What an allowed start was allowed for. -/
def AllowedFor (now : ℤ) (msg : StartMessage) (t : ReservationDb) : Option Reservation → Prop
  | none => msg.reservation_id = none ∧ t.connectorHold msg.connector_id = none
  | some r => r ∈ t.reservations ∧ r.connector_id = msg.connector_id ∧ LetsIn now msg r ∧
    (t.connectorHold msg.connector_id = some r ∨
      t.connectorHold msg.connector_id = none ∧ r.status = .expired)

/-- A start that is refused may be noted at a reservation; one that is allowed changes nothing. -/
def Tested (now : ℤ) (msg : StartMessage) (t : ReservationDb) (a : Bool × Option Reservation) (t' : ReservationDb) :
    Prop :=
  t'.wallet = t.wallet ∧ t'.ocpp_seq = t.ocpp_seq ∧ (a.1 = true → t' = t ∧ AllowedFor now msg t a.2)

theorem validateHold_tested {now : ℤ} {msg : StartMessage} {t : ReservationDb} {hold : Option Reservation}
    (hnone : hold = none → msg.reservation_id = none → t.connectorHold msg.connector_id = none)
    (hsome : ∀ r, hold = some r → r ∈ t.reservations ∧ r.connector_id = msg.connector_id ∧
      (t.connectorHold msg.connector_id = some r ∨ t.connectorHold msg.connector_id = none ∧ r.status = .expired)) :
    wp (validateHold msg now hold) (Tested now msg t) (fun _ _ => False) t := by
  cases hold with
  | none =>
    refine ⟨rfl, rfl, fun hallowed => ⟨rfl, ?_⟩⟩
    have hid : msg.reservation_id = none := by simpa using hallowed
    exact ⟨hid, hnone rfl hid⟩
  | some r =>
    obtain ⟨hmem, hconn, hheld⟩ := hsome r rfl
    unfold validateHold
    rw [wp_ite]
    refine ⟨fun _ => ⟨rfl, rfl, nofun⟩, fun hown => ?_⟩
    rw [not_or, not_not, Bool.not_eq_false] at hown
    rw [wp_ite]
    refine ⟨fun _ => ⟨rfl, rfl, nofun⟩, fun _ => ?_⟩
    rw [wp_pure]
    refine ⟨rfl, rfl, fun hallowed => ⟨rfl, hmem, hconn, ?_, hheld⟩⟩
    simp only [Bool.and_eq_true, decide_eq_true_eq] at hallowed
    obtain ⟨⟨⟨hduring, hahead⟩, hlate⟩, -⟩ := hallowed
    exact ⟨hown.1, hown.2, hduring, hahead, hlate⟩

theorem validate_start_tested (now : ℤ) (msg : StartMessage) (t : ReservationDb) :
    wp (validate_start now msg) (Tested now msg t) (fun _ _ => False) t := by
  have hhold : wp (validateHold msg now (t.connectorHold msg.connector_id)) (Tested now msg t) (fun _ _ => False) t := by
    refine validateHold_tested (fun h _ => h) fun r hr => ?_
    obtain ⟨hmem, hconn⟩ := Reservations.SystemLemmas.connectorHold_spec r hr
    exact ⟨hmem, hconn, .inl hr⟩
  unfold validate_start
  simp only [wp_bind, wp_read]
  split
  · next r hr =>
    obtain ⟨hmem, hconn, -⟩ := Reservations.SystemLemmas.previousFor_spec hr
    rw [wp_ite]
    refine ⟨fun _ => ⟨rfl, rfl, fun h => by cases h⟩, fun hfree => ?_⟩
    rw [not_or, Bool.not_eq_true, Option.isSome_eq_false_iff, Option.isNone_iff_eq_none] at hfree
    rw [wp_ite]
    refine ⟨fun hexpired => validateHold_tested (fun h => by cases h) fun r' hr' => ?_, fun _ => hhold⟩
    cases hr'
    exact ⟨hmem, hconn, .inr ⟨hfree.2, hexpired.1⟩⟩
  · exact hhold

/-- The tables with other reservations. -/
def withReservations (t : ReservationDb) (s : Database) : Database :=
  { s with books := { s.books with wallet := t.wallet, reservations := t.reservations, ocpp_seq := t.ocpp_seq } }

theorem wp_onReservations {α : Type} {x : ReservationTx α} {a : α} {t : ReservationDb} {Q : α → Database → Prop}
    {E : ChargingError → Database → Prop} (hx : x s.reservationDb = (.ok a, t)) (h : Q a (withReservations t s)) :
    wp (onReservations x) Q E s := by
  unfold onReservations
  rw [wp_zoom]
  change wp x _ _ s.reservationDb
  unfold wp
  rw [hx]
  exact h

/-- The message of a start on a connector. -/
def startMessage (call : StartCall) (s : Database) (k : Connector) (card : Option ChargingCard) : StartMessage :=
  ⟨k.uuid, card.map (·.toCard), startReservation s call.payload.reservationId, call.payload.timestamp⟩

/-- The reservation is used up. -/
def consumedTables (now : ℤ) (session_id : ℕ) (t : ReservationDb) : Option Reservation → ReservationDb
  | some r => { t with
    reservations := Table.modify Reservation.id (consume r session_id now).id (fun _ => consume r session_id now)
      t.reservations }
  | none => t

/-- The start was refused: no session is new, and the reservations are those its test left. -/
def Refused (call : StartCall) (s s' : Database) : Prop :=
  (∀ c ∈ s'.charging_sessions, ∃ x ∈ s.charging_sessions, x.id = c.id) ∧
    ∃ msg a, validate_start call.env.now msg s.reservationDb = (.ok a, s'.reservationDb)

/-- The start created a session, and the reservation it was allowed for is used up. -/
def Admitted (call : StartCall) (s s' : Database) : Prop :=
  ∃ k card reservation, s.connectorOf call.charger.id call.payload.connectorId = some k ∧
    (card = none ∨ card = call.card) ∧
    validate_start call.env.now (startMessage call s k card) s.reservationDb = (.ok (true, reservation), s.reservationDb) ∧
    AllowedFor call.env.now (startMessage call s k card) s.reservationDb reservation ∧
    (∀ c ∈ s'.charging_sessions, c.id = s.session_seq ∨ ∃ x ∈ s.charging_sessions, x.id = c.id) ∧
    s'.reservationDb = consumedTables call.env.now s.session_seq s.reservationDb reservation

/-- What a start that raises must not have touched, for its rollback to be complete. -/
def Unposted (s s' : Database) : Prop :=
  s'.books.wallet = s.books.wallet ∧ s'.books.ocpp_seq = s.books.ocpp_seq

theorem Frame.unposted (h : Frame s s') : Unposted s s' :=
  ⟨congrArg (·.wallet) h.tables, congrArg (·.ocpp_seq) h.tables⟩

theorem rollback_reservationDb (h : Unposted s s') : (s.rollback s').reservationDb = s.reservationDb := by
  unfold Database.rollback Database.reservationDb Wallets.WalletDb.rollback
  rw [h.1, h.2]

theorem beginSession_admits (call : StartCall) (connector : Connector) (result : AuthorizationStatus)
    (card : Option ChargingCard) (reservation : Option Reservation) (hasOld : Bool) :
    wp (beginSession call.env call.charger connector call.payload result card reservation hasOld)
      (fun _ s' => (∀ c ∈ s'.charging_sessions, c.id = s.session_seq ∨ ∃ x ∈ s.charging_sessions, x.id = c.id) ∧
        s'.reservationDb = consumedTables call.env.now s.session_seq s.reservationDb reservation)
      (fun _ s' => Unposted s s') s := by
  unfold beginSession
  simp only [wp_bind, wp_read, wp_write]
  set c := newSession call.env call.charger connector call.payload result card hasOld s.session_seq with hc
  have hid : c.id = s.session_seq := (CallsLemmas.fresh_newSession _ _ _ _ _ _ _).2
  set s₁ : Database := { s with charging_sessions := s.charging_sessions ++ [c], session_seq := s.session_seq + 1 }
  have hconsume : wp (consumeHold call.env c.id reservation)
      (fun _ s₂ => s₂.charging_sessions = s₁.charging_sessions ∧
        s₂.reservationDb = consumedTables call.env.now s.session_seq s.reservationDb reservation)
      (fun _ _ => False) s₁ := by
    cases reservation with
    | none => exact ⟨rfl, rfl⟩
    | some r => exact wp_onReservations (t := consumedTables call.env.now c.id s.reservationDb (some r)) rfl ⟨rfl, by rw [hid]; rfl⟩
  refine wp_mono hconsume (fun _ s₂ hs₂ => ?_) fun _ _ h => h.elim
  obtain ⟨hsessions, htables⟩ := hs₂
  have hposted : Unposted s s₂ := by
    have hwallet := congrArg (·.wallet) htables
    have hseq := congrArg (·.ocpp_seq) htables
    cases reservation <;> exact ⟨hwallet, hseq⟩
  have hdone : ∀ s₃, Frame s₂ s₃ →
      (∀ x ∈ s₃.charging_sessions, x.id = s.session_seq ∨ ∃ y ∈ s.charging_sessions, y.id = x.id) ∧
        s₃.reservationDb = consumedTables call.env.now s.session_seq s.reservationDb reservation := by
    intro s₃ h₃
    refine ⟨fun x hx => ?_, h₃.tables.trans htables⟩
    obtain ⟨y, hy, hyx⟩ := h₃.sessions x hx
    rw [hsessions] at hy
    rcases List.mem_append.mp hy with hy | hy
    · exact .inr ⟨y, hy, hyx⟩
    · rw [List.mem_singleton.mp hy] at hyx
      exact .inl (hyx.symm.trans hid)
  have hraised : ∀ s₃, Frame s₂ s₃ → Unposted s s₃ := fun s₃ h₃ =>
    ⟨h₃.unposted.1.trans hposted.1, h₃.unposted.2.trans hposted.2⟩
  rw [wp_bind, wp_write, wp_bind]
  set s₃ : Database := { s₂ with charge_points := _ }
  have hpoints : Frame s₂ s₃ := .of_eq rfl rfl rfl
  refine wp_mono (attach_remote_start_frames c card) (fun _ s₄ h₄ => ?_) fun _ s₄ h₄ => hraised s₄ (hpoints.trans h₄)
  split
  · rw [wp_bind]
    refine wp_mono (note_power_start_frames call.charger.station_id connector.id) (fun _ s₅ h₅ => ?_) fun _ s₅ h₅ => ?_
    · exact hdone s₅ ((hpoints.trans h₄).trans h₅)
    · exact hraised s₅ ((hpoints.trans h₄).trans h₅)
  · exact hdone s₄ (hpoints.trans h₄)

/-- The branches after the test of the reservation. -/
theorem start_transaction_outcome (call : StartCall) (s : Database) :
    wp (start_transaction call.env call.charger call.message_id call.payload)
      (fun _ s' => Refused call s s' ∨ Admitted call s s') (fun _ s' => Unposted s s') s := by
  unfold start_transaction
  simp only [wp_bind, wp_read, wp_orRaise]
  refine ⟨fun _ => ⟨rfl, rfl⟩, fun connector hconnector => ?_⟩
  refine wp_mono (authorize_frames call.charger call.payload.idTag true) (fun r s₁ h₁ => ?_) fun _ s₁ h₁ => h₁.unposted
  obtain ⟨result, card, wallet_failure⟩ := r
  obtain ⟨h₁, hcard⟩ := h₁
  rw [wp_bind]
  have hvalidated := wp_run (validate_start_tested call.env.now (startMessage call s connector card) s.reservationDb)
  obtain ⟨⟨allowed, reservation⟩, t, hrun, hwallet, hseq, hallowed⟩ | ⟨_, _, _, hfalse⟩ := hvalidated
  swap
  · exact hfalse.elim
  refine wp_onReservations (by rw [h₁.tables]; exact hrun) ?_
  set s₂ := withReservations t s₁ with hs₂
  have htables : s₂.reservationDb = t := rfl
  have hsessions : ∀ c ∈ s₂.charging_sessions, ∃ x ∈ s.charging_sessions, x.id = c.id := h₁.sessions
  have hposted : ∀ s₃, Frame s₂ s₃ → Unposted s s₃ := fun s₃ h₃ =>
    ⟨h₃.unposted.1.trans hwallet, h₃.unposted.2.trans hseq⟩
  have hrefused : ∀ s₃, Frame s₂ s₃ → Refused call s s₃ := fun s₃ h₃ => by
    refine ⟨fun c hc => ?_, startMessage call s connector card, (allowed, reservation), ?_⟩
    · obtain ⟨x, hx, hid⟩ := h₃.sessions c hc
      obtain ⟨y, hy, hid'⟩ := hsessions x hx
      exact ⟨y, hy, hid'.trans hid⟩
    · rw [h₃.tables, htables]
      exact hrun
  have hrefuse : ∀ reason, wp (refuseStart call.env call.charger call.message_id connector card reason)
      (fun _ s' => Refused call s s' ∨ Admitted call s s') (fun _ s' => Unposted s s') s₂ := fun reason =>
    wp_mono (refuseStart_frames call.charger call.message_id connector card reason)
      (fun _ s₃ h₃ => .inl (hrefused s₃ h₃)) fun _ s₃ h₃ => hposted s₃ h₃
  rw [wp_bind, wp_read]
  split
  · exact hrefuse _
  next htest =>
  split
  · exact hrefuse _
  split
  · exact hrefuse _
  split
  · rw [wp_bind]
    refine wp_mono (answerRequest_frames connector.id card _) (fun _ s₃ h₃ => ?_) fun _ s₃ h₃ => hposted s₃ h₃
    simp only [wp_bind, wp_orRaise, pending, wp_write, wp_pure]
    exact ⟨fun _ => hposted s₃ h₃, fun _ _ => .inl (hrefused _ (h₃.trans (.of_eq rfl rfl rfl)))⟩
  · rw [not_or, Bool.not_eq_false] at htest
    obtain rfl : allowed = true := htest.1
    obtain ⟨rfl, hfor⟩ := hallowed rfl
    rw [wp_bind]
    refine wp_mono (closeOld_frames connector) (fun hasOld s₃ h₃ => ?_) fun _ s₃ h₃ => hposted s₃ h₃
    rw [wp_bind]
    refine wp_mono (flagPrevious_frames _) (fun _ s₄ h₄ => ?_) fun _ s₄ h₄ => hposted s₄ (h₃.trans h₄)
    have hframe := h₃.trans h₄
    have hseq₄ : s₄.session_seq = s.session_seq := hframe.seq.trans h₁.seq
    refine wp_mono (beginSession_admits call connector result card reservation hasOld) (fun _ s₅ h₅ => .inr ?_)
      fun _ s₅ h₅ => ?_
    · refine ⟨connector, card, reservation, hconnector, hcard, hrun, hfor, fun c hc => ?_, ?_⟩
      · rcases h₅.1 c hc with hnew | ⟨x, hx, hid⟩
        · exact .inl (hnew.trans hseq₄)
        · obtain ⟨y, hy, hid'⟩ := hframe.sessions x hx
          obtain ⟨z, hz, hid''⟩ := hsessions y hy
          exact .inr ⟨z, hz, hid''.trans (hid'.trans hid)⟩
      · rw [h₅.2, hseq₄, hframe.tables, htables]
    · have h₄' := hposted s₄ hframe
      exact ⟨h₅.1.trans h₄'.1, h₅.2.trans h₄'.2⟩

end AdmissionLemmas

open AdmissionLemmas

/-- A start is refused, or it creates a session, or it raises and leaves the tables. -/
theorem StartCall.run_outcome (call : StartCall) (s : Database) :
    Refused call s (call.run s) ∨ Admitted call s (call.run s) ∨
      ((call.run s).reservationDb = s.reservationDb ∧ (call.run s).charging_sessions = s.charging_sessions) := by
  unfold StartCall.run
  obtain ⟨reply, s', hrun, h⟩ | ⟨e, s', hrun, h⟩ := wp_run (start_transaction_outcome call s)
  · rw [hrun]
    exact h.elim .inl fun h => .inr (.inl h)
  · rw [hrun]
    exact .inr (.inr ⟨rollback_reservationDb h, rfl⟩)

/-- On the tables of the reservation system a start is one of its operations. -/
theorem StartCall.run_projects (call : StartCall) (s : Database) : ∃ msg checks,
    (call.run s).reservationDb = transact (Reservations.start_transaction call.env.now msg checks) s.reservationDb := by
  have hrefused : ∀ {msg a t}, validate_start call.env.now msg s.reservationDb = (.ok a, t) →
      transact (Reservations.start_transaction call.env.now msg ⟨false, false, false, false, 0⟩) s.reservationDb = t := by
    intro msg a t hrun
    unfold transact Reservations.start_transaction
    rw [bind_run hrun]
    simp only [true_or, if_true, ite_self]
    rfl
  rcases call.run_outcome s with ⟨-, msg, a, hrun⟩ | ⟨k, card, reservation, -, -, hrun, -, -, htables⟩ | ⟨htables, -⟩
  · exact ⟨msg, _, (hrefused hrun).symm⟩
  · refine ⟨startMessage call s k card, ⟨true, false, true, true, s.session_seq⟩, ?_⟩
    unfold transact Reservations.start_transaction
    rw [bind_run hrun, htables]
    simp only [Bool.true_eq_false, Bool.false_eq_true, false_and, and_false, or_self, if_false]
    cases reservation <;> rfl
  · -- a start without a card and a reservation leaves the reservations alone
    have hidle : ∃ a, validate_start call.env.now ⟨call.env.new_id, none, none, 0⟩ s.reservationDb =
        (.ok a, s.reservationDb) := by
      change ∃ a, validateHold ⟨call.env.new_id, none, none, 0⟩ call.env.now
        (s.reservationDb.connectorHold call.env.new_id) s.reservationDb = _
      cases s.reservationDb.connectorHold call.env.new_id with
      | none => exact ⟨_, rfl⟩
      | some hold => exact ⟨_, rfl⟩
    obtain ⟨a, hrun⟩ := hidle
    exact ⟨_, _, htables.trans (hrefused hrun).symm⟩

/-! ## 3. Runs -/

namespace AdmissionLemmas

/-- A start is a step of the reservation system. -/
theorem start_step (w : Site) (call : StartCall) (hclock : w.clock ≤ call.env.now) : ∃ op : Op, op.Valid w.world ∧
    step op w.world = Site.world ⟨call.run w.db, call.env.now, w.flights⟩ := by
  obtain ⟨msg, checks, h⟩ := call.run_projects w.db
  refine ⟨.start_transaction call.env.now msg checks, ⟨fun now hnow => ?_, trivial⟩, ?_⟩
  · cases hnow
    exact hclock
  · unfold Site.world
    rw [h]
    rfl

/-- The tables of an operation of the reservation system. -/
theorem other_step {w : World} {op : Op} {db : Database} (h : db.reservationDb = (step op w).db) :
    Site.world ⟨db, (step op w).clock, (step op w).flights⟩ = step op w :=
  congrArg (fun t => World.mk t (step op w).clock (step op w).flights) h

/-- A run is a run of the reservation system. -/
theorem run_world {w₀ w : Site} {starts : List (StartCall × Database)} (run : SiteRun w₀ starts w) :
    ∃ ops, Reservations.Run w₀.world ops w.world := by
  induction run with
  | nil => exact ⟨[], .nil _⟩
  | @start w' starts _ call clock ih =>
    obtain ⟨ops, hops⟩ := ih
    obtain ⟨op, hvalid, hstep⟩ := start_step w' call clock
    exact ⟨ops ++ [op], hstep ▸ hops.snoc hvalid⟩
  | other _ op _ valid db tables ih =>
    obtain ⟨ops, hops⟩ := ih
    exact ⟨ops ++ [op], other_step tables ▸ hops.snoc valid⟩

/-- The row of a reservation that a start used up. -/
theorem consumed_row {now : ℤ} {session_id : ℕ} {t : ReservationDb} {r : Reservation} (hr : r ∈ t.reservations)
    (hs : r.status ≠ .rejected) : ∃ r' ∈ (consumedTables now session_id t (some r)).reservations,
      r'.id = r.id ∧ r'.status = .consumed ∧ r'.session_id = some session_id := by
  obtain ⟨hkeeps, hstatus, -, -⟩ := keeps_consume hs session_id now
  refine ⟨consume r session_id now, Table.mem_modify.mpr ⟨r, hr, ?_⟩, hkeeps.id, hstatus, ?_⟩
  · rw [if_pos hkeeps.id.symm]
  · rw [consume_eq]
    rfl

/-- A start that lets the message in fits the reservation. -/
theorem LetsIn.fits {call : StartCall} {s : Database} {k : Connector} {card : Option ChargingCard} {r : Reservation}
    (h : LetsIn call.env.now (startMessage call s k card) r) (hcard : card = none ∨ card = call.card)
    (hseq : r.ocpp_id < s.books.ocpp_seq) : call.Fits r := by
  have howned := h.owned
  have hid := h.reservation
  have hduring := h.during
  simp only [startMessage, startReservation, Option.map_eq_some_iff] at hid
  obtain ⟨i, hi, hnumber⟩ := hid
  rw [Reservation.duringHold, Bool.and_eq_true, decide_eq_true_eq, decide_eq_true_eq] at hduring
  refine ⟨?_, ?_, hduring.1, hduring.2, h.ahead, h.late⟩
  · cases card with
    | none => cases howned
    | some card =>
      simp only [startMessage, Option.map_some, Reservation.ownedBy, Option.any_some, Bool.and_eq_true, beq_iff_eq]
        at howned
      exact ⟨card, (hcard.resolve_left nofun).symm, howned.1, howned.2⟩
  · rw [hi]
    split at hnumber
    · next hpos => rw [← hnumber, Int.toNat_of_nonneg hpos]
    · exact absurd hnumber hseq.ne'

/-- What a start that created a session was allowed for. -/
theorem admitted_of_creates {call : StartCall} {s : Database} {c : Session} (h : call.Creates s c) :
    Admitted call s (call.run s) ∧ c.id = s.session_seq := by
  obtain ⟨hc, hnew⟩ := h
  rcases call.run_outcome s with ⟨hsessions, -⟩ | hadmitted | ⟨-, hsessions⟩
  · obtain ⟨x, hx, hid⟩ := hsessions c hc
    exact absurd hid (hnew x hx)
  · refine ⟨hadmitted, ?_⟩
    obtain ⟨_, _, _, -, -, -, -, hsessions, -⟩ := hadmitted
    rcases hsessions c hc with hid | ⟨x, hx, hid⟩
    · exact hid
    · exact absurd hid (hnew x hx)
  · rw [hsessions] at hc
    exact absurd rfl (hnew c hc)

/-- The reservation that let a session start, if it needed one. -/
theorem creates_for {call : StartCall} {s : Database} {c : Session} (h : call.Creates s c)
    (hseq : ∀ r ∈ s.books.reservations, r.ocpp_id < s.books.ocpp_seq) :
    ∃ k, s.connectorOf call.charger.id call.payload.connectorId = some k ∧
      ((call.payload.reservationId = none ∧ s.reservationDb.connectorHold k.uuid = none) ∨
        ∃ r, r.connector_id = k.uuid ∧ call.Fits r ∧ call.Consumes s r c ∧
          (s.reservationDb.connectorHold k.uuid = some r ∨
            s.reservationDb.connectorHold k.uuid = none ∧ r.status = .expired)) := by
  obtain ⟨⟨k, card, reservation, hk, hcard, -, hallowed, -, htables⟩, hid⟩ := admitted_of_creates h
  refine ⟨k, hk, ?_⟩
  cases reservation with
  | none =>
    obtain ⟨hres, hhold⟩ := hallowed
    exact .inl ⟨by simpa [startMessage, startReservation] using hres, hhold⟩
  | some r =>
    obtain ⟨hr, hconn, hlets, hheld⟩ := hallowed
    have hstatus : r.status.holds = true ∨ r.status = .expired := by
      rcases hheld with hhold | ⟨-, hexpired⟩
      · have := List.find?_some hhold
        simp only [decide_eq_true_eq] at this
        exact .inl this.2
      · exact .inr hexpired
    have hne : r.status ≠ .rejected ∧ r.status ≠ .consumed := by
      constructor <;> intro heq <;> rw [heq] at hstatus <;> rcases hstatus with h | h <;> cases h
    refine .inr ⟨r, hconn, hlets.fits hcard (hseq r hr), ⟨hr, hne.2, h, ?_⟩, hheld⟩
    obtain ⟨r', hr', hid', hconsumed, hsession⟩ := @consumed_row call.env.now s.session_seq s.reservationDb r hr hne.1
    refine ⟨r', ?_, hid', hconsumed, hid ▸ hsession⟩
    change r' ∈ (call.run s).reservationDb.reservations
    rwa [htables]

/-- What the starts of a run consumed stays consumed, by the same session. -/
theorem consumed_stays {w₀ w : Site} {starts : List (StartCall × Database)} (start : Start w₀.world)
    (run : SiteRun w₀ starts w) : ∀ a ∈ starts, ∀ r c, a.1.Consumes a.2 r c →
      ∃ r' ∈ w.db.books.reservations, r'.id = r.id ∧ r'.status = .consumed ∧ r'.session_id = some c.id := by
  have hkeep : ∀ {w w' : Site} {op : Op}, (∃ ops, Reservations.Run w₀.world ops w.world) → op.Valid w.world →
      w'.world = step op w.world → ∀ (r : Reservation) (id : ℕ),
      (∃ x ∈ w.db.books.reservations, x.id = r.id ∧ x.status = .consumed ∧ x.session_id = some id) →
      ∃ x ∈ w'.db.books.reservations, x.id = r.id ∧ x.status = .consumed ∧ x.session_id = some id := by
    rintro w w' op ⟨ops, hops⟩ hvalid hstep r id ⟨x, hx, hid, hstatus, hsession⟩
    have hok := run_ok hops (WorldOk.of_start start)
    obtain ⟨x', hx', hid'⟩ := step_mem hok hvalid (r := x) hx
    obtain ⟨hstatus', hsession'⟩ := run_consumed ((Reservations.Run.nil _).snoc hvalid) hok hx hstatus hx' hid'
    have hmem : x' ∈ w'.world.db.reservations := hstep ▸ hx'
    exact ⟨x', hmem, hid'.trans hid, hstatus', hsession'.trans hsession⟩
  induction run with
  | nil =>
    intro a ha
    cases ha
  | @start w' starts run' call clock ih =>
    intro a ha r c hconsumes
    rcases List.mem_append.mp ha with ha | ha
    · obtain ⟨op, hvalid, hstep⟩ := start_step w' call clock
      exact hkeep (run_world run') hvalid hstep.symm r c.id (ih a ha r c hconsumes)
    · rw [List.mem_singleton.mp ha] at hconsumes
      exact hconsumes.2.2.2
  | @other w' starts run' op noStart valid db tables ih =>
    intro a ha r c hconsumes
    exact hkeep (run_world run') valid (other_step tables) r c.id (ih a ha r c hconsumes)

end AdmissionLemmas

/-! ## 4. The holder -/

/-- In every state a run reaches: where a connector is held, a session is created for the holder only, and in
time; with a reservation that does not hold the connector it is created only by using up that reservation,
expired, in the same way; and no two starts of a run use up one reservation. -/
theorem held_connectors_admit_holder {w₀ w : Site} {starts : List (StartCall × Database)} (start : Start w₀.world)
    (run : SiteRun w₀ starts w) :
    (∀ (call : StartCall) (c : Session), call.Creates w.db c →
      ∃ k, w.db.connectorOf call.charger.id call.payload.connectorId = some k ∧
        (∀ hold ∈ w.db.books.reservations, hold.connector_id = k.uuid → hold.status.holds = true →
          call.Fits hold ∧ call.Consumes w.db hold c) ∧
        ∀ i, call.payload.reservationId = some i →
          (∀ hold ∈ w.db.books.reservations, hold.connector_id = k.uuid → hold.status.holds = true →
            (hold.ocpp_id : ℤ) ≠ i) →
          ∃ r, r.connector_id = k.uuid ∧ (r.ocpp_id : ℤ) = i ∧ r.status = .expired ∧ call.Fits r ∧
            call.Consumes w.db r c) ∧
    starts.Pairwise (fun a b => ∀ r c r' c', a.1.Consumes a.2 r c → b.1.Consumes b.2 r' c' → r'.id ≠ r.id) ∧
    ∀ a ∈ starts, ∀ r c, a.1.Consumes a.2 r c →
      ∃ r' ∈ w.db.books.reservations, r'.id = r.id ∧ r'.status = .consumed ∧ r'.session_id = some c.id := by
  refine ⟨fun call c hcreates => ?_, ?_, consumed_stays start run⟩
  · obtain ⟨ops, hops⟩ := run_world run
    have hok := run_ok hops (WorldOk.of_start start)
    obtain ⟨k, hk, hfor⟩ := creates_for hcreates (run_ocpp_id start hops)
    have hfind : ∀ hold ∈ w.db.books.reservations, hold.connector_id = k.uuid → hold.status.holds = true →
        w.db.reservationDb.connectorHold k.uuid = some hold := by
      intro hold hmem hconn hholds
      cases hh : w.db.reservationDb.connectorHold k.uuid with
      | none => exact absurd (decide_eq_true ⟨hconn, hholds⟩) (List.find?_eq_none.mp hh hold hmem)
      | some r =>
        have hp := List.find?_some hh
        simp only [decide_eq_true_eq] at hp
        exact congrArg some (hok.connector r (List.mem_of_find?_eq_some hh) hold hmem hp.2 hholds (hp.1.trans hconn.symm))
    refine ⟨k, hk, fun hold hmem hconn hholds => ?_, fun i hi hnone => ?_⟩
    · have hheld := hfind hold hmem hconn hholds
      rcases hfor with ⟨-, hno⟩ | ⟨r, -, hfits, hconsumes, hr | ⟨hno, -⟩⟩
      · rw [hheld] at hno
        cases hno
      · cases hheld.symm.trans hr
        exact ⟨hfits, hconsumes⟩
      · rw [hheld] at hno
        cases hno
    · rcases hfor with ⟨hno, -⟩ | ⟨r, hconn, hfits, hconsumes, hr⟩
      · rw [hi] at hno
        cases hno
      have hnumber : (r.ocpp_id : ℤ) = i := Option.some_inj.mp (hfits.reservation.symm.trans hi)
      rcases hr with hr | ⟨-, hexpired⟩
      · have hp := List.find?_some hr
        simp only [decide_eq_true_eq] at hp
        exact absurd hnumber (hnone r hconsumes.1 hp.1 hp.2)
      · exact ⟨r, hconn, hnumber, hexpired, hfits, hconsumes⟩
  · induction run with
    | nil => exact .nil
    | other _ _ _ _ _ _ ih => exact ih
    | @start w' starts run' call clock ih =>
      refine List.pairwise_append.mpr ⟨ih, List.pairwise_singleton _ _, fun a ha b hb r c r' c' hr hr' hid => ?_⟩
      rw [List.mem_singleton.mp hb] at hr'
      obtain ⟨x, hx, hxid, hstatus, -⟩ := consumed_stays start run' a ha r c hr
      obtain ⟨ops, hops⟩ := (run_world run')
      have hok := run_ok hops (WorldOk.of_start start)
      have heq : r' = x := hok.ids.eq hr'.1 hx (hid.trans hxid.symm)
      exact hr'.2.1 (heq ▸ hstatus)

/-! ## 5. A hold and its holder -/

namespace OneHold

open Reservations.OneDriver (driver card connector booking token)

/-- A charger with one connector, one driver and no session. -/
def tables : Database :=
  { OneSession.charging [] with
    books := { wallet := OneDriver.world.db.wallet, topups := [], reservations := [], ocpp_seq := 1 }
    connectors := [{ OneSession.connector with uuid := connector, status := .Available }]
    charging_sessions := [] }

/-- The station is open, and the driver has a card. -/
def site (second : ℤ) : Environment :=
  { OneSession.site (second * SECOND) with
    stations := [{ id := 0, timezone := Zone.fixed 0, status := .active, archived := false }]
    cards := [⟨⟨card, driver⟩, "TAG", true, true, true, none⟩] }

/-- A hold of 900 seconds is booked. -/
def book : Op := .create_reservation (OneDriver.site 0) OneDriver.request OneDriver.checks

def claim : Op := .claim (OneDriver.site 0) 30 token booking

/-- The charger confirms the hold. -/
def confirm : Op := .deliver (OneDriver.site 1) ⟨booking, booking, token, .ReserveNow⟩ .Accepted

/-- The site after some operations on the reservations. -/
def after (ops : List Op) : Site :=
  let w := ops.foldl (fun w op => step op w) OneDriver.world
  ⟨withReservations w.db tables, w.clock, w.flights⟩

/-- The driver starts with the number of a reservation after 899 seconds. -/
def start (number : ℤ) : StartCall :=
  ⟨site 899, OneSession.point, "start", ⟨"TAG", 1, ⟨0, by decide⟩, 899 * SECOND, some number⟩⟩

theorem run_hold : SiteRun (after []) [] (after [book, claim, confirm]) := by
  have hnil : SiteRun (after []) [] (after []) := .nil _
  have hbooked : SiteRun (after []) [] (after [book]) :=
    hnil.other book (by simp [book]) ⟨by decide +kernel, trivial⟩ _ rfl
  have hclaimed : SiteRun (after []) [] (after [book, claim]) :=
    hbooked.other claim (by simp [claim]) ⟨by decide +kernel, trivial⟩ _ rfl
  have hflight : ⟨booking, booking, token, .ReserveNow⟩ ∈ (after [book, claim]).flights := by decide +kernel
  exact hclaimed.other confirm (by simp [confirm]) ⟨by decide +kernel, hflight⟩ _ rfl

/-- The site with the hold. -/
def held : Site := after [book, claim, confirm]

end OneHold

open OneHold in
/-- The holder starts with the number of the hold, and the hold is used up. -/
theorem held_connectors_admit_holder_start : ∃ hold ∈ held.db.books.reservations, hold.status.holds = true ∧
    ∃ c, (OneHold.start 1).Creates held.db c ∧ (OneHold.start 1).Fits hold ∧
      (OneHold.start 1).Consumes held.db hold c := by
  have hcreated : ((OneHold.start 1).run held.db).charging_sessions.length = 1 := by decide +kernel
  obtain ⟨c, hc⟩ := List.length_eq_one_iff.mp hcreated
  have hfresh : held.db.charging_sessions = [] := rfl
  have hcreates : (OneHold.start 1).Creates held.db c := by
    refine ⟨hc ▸ List.mem_cons_self, fun x hx => ?_⟩
    rw [hfresh] at hx
    cases hx
  have hstart : Start (after []).world := OneDriver.start_world
  obtain ⟨k, hk, hadmits, -⟩ := (held_connectors_admit_holder hstart run_hold).1 _ c hcreates
  have hhold : ∃ hold ∈ held.db.books.reservations, hold.status.holds = true ∧
      (held.db.connectorOf 0 1).map (·.uuid) = some hold.connector_id := by decide +kernel
  obtain ⟨hold, hmem, hholds, hconn⟩ := hhold
  change held.db.connectorOf 0 1 = some k at hk
  rw [hk] at hconn
  exact ⟨hold, hmem, hholds, c, hcreates, hadmits hold hmem (Option.some_inj.mp hconn).symm hholds⟩

end Csms.Charging
