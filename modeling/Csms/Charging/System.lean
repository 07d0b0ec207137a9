import Csms.Charging.Calls

/-!
# All calls on sessions

`Call` lists the calls that write sessions, their samples, their intervals and their bills. `Step` runs one of
them, undone or not, posts something else to the ledger, or lets the rest of the program write its own tables.

Results:
1. `Step.moves`: a step is a sequence of moves.
2. `Reach.sound`: the tables stay sound.
-/

namespace Csms.Charging

open Tx Csms.Wallets Csms.Accounts Csms.Pricing PostingsLemmas CallsLemmas
open Csms.Billing (InvoiceRow)

/-! ## 1. Calls and steps -/

inductive Call where
  | start_transaction (charger : ChargePoint) (message_id : String) (payload : StartPayload)
  | meter_values (charger : ChargePoint) (message_id : String) (payload : MeterPayload)
  | stop_transaction (charger : ChargePoint) (message_id : String) (payload : StopPayload)
  | status_notification (charger : ChargePoint) (payload : StatusPayload)
  | note_reconnection (charger_id : ℕ)
  | note_offline_gap (charger_id : ℕ)
  | mark_seen (charger_id : ℕ)
  | expire_chargers (busy : List ℕ)
  | flag_abnormal_sessions (busy : List ℕ)
  | manual_close (session_id : ℕ) (actor_id : Uuid) (reason : String)
  | scan_control_deadlines
  | lap_hoa_don (session_id : ℕ)
  | chot_phien (hidden : List ℕ) (new_id : Uuid) (session_id : ℕ) (settle : Bool)
  | tariff (stations : List Pricing.Station) (op : TariffOp)

def Call.run (env : Environment) : Call → ChargingTx Unit
  | .start_transaction charger message_id payload =>
    (fun _ => ()) <$> Charging.start_transaction env charger message_id payload
  | .meter_values charger message_id payload => (fun _ => ()) <$> meterReport charger message_id payload
  | .stop_transaction charger message_id payload =>
    (fun _ => ()) <$> Charging.stop_transaction charger message_id payload
  | .status_notification charger payload => (fun _ => ()) <$> Charging.status_notification env charger payload
  | .note_reconnection charger_id => Charging.note_reconnection env charger_id
  | .note_offline_gap charger_id => Charging.note_offline_gap charger_id
  | .mark_seen charger_id => Charging.mark_seen env charger_id
  | .expire_chargers busy => Charging.expire_chargers env busy
  | .flag_abnormal_sessions busy => Charging.flag_abnormal_sessions env busy
  | .manual_close session_id actor_id reason => Charging.manual_close env session_id actor_id reason
  | .scan_control_deadlines => Charging.scan_control_deadlines env
  | .lap_hoa_don session_id => (fun _ => ()) <$> Charging.lap_hoa_don env session_id
  | .chot_phien hidden new_id session_id settle =>
    (fun _ => ()) <$> Charging.chot_phien env hidden new_id session_id settle
  | .tariff stations op => write fun s => { s with tariffs := op.commit stations env.now s.tariffs }

/-- The tables before, with the sequences of the tables after. -/
def Database.rollback (before after : Database) : Database :=
  { before with
    session_seq := after.session_seq
    sample_seq := after.sample_seq
    interval_seq := after.interval_seq
    books := { before.books with
      wallet := before.books.wallet.rollback after.books.wallet, ocpp_seq := after.books.ocpp_seq } }

/-- The connectors after the rest of the program wrote: the newest status of each is no older, and no
session is on a new one. -/
structure Connected (s : Database) (ks : List Connector) : Prop where
  keyed : Table.Keyed (fun k : Connector => k.id) ks
  later : ∀ k ∈ ks, (∃ k₀ ∈ s.connectors, k₀.id = k.id ∧
      ∀ l ∈ k₀.last_status_notification_at, ∃ l' ∈ k.last_status_notification_at, l ≤ l') ∨
    ∀ c ∈ s.charging_sessions, c.connector_id ≠ k.id

/-- One call, kept or undone, another posting, or a change by the rest of the program. -/
inductive Step (env : Environment) : Database → Database → Prop
  | call (c : Call) (s : Database) : Step env s (c.run env s).2
  | undone (c : Call) (s : Database) : Step env s (s.rollback (c.run env s).2)
  | money (c : Accounts.Call) (s : Database) (outer : ∀ k ∈ c.key, k.1 ≠ .charging_debit) :
      Step env s { s with books := (c.run s.books).2 }
  | refused (c : Accounts.Call) (s : Database) (raised : (c.run s.books).1 = .raised) :
      Step env s { s with books := { s.books with
        wallet := s.books.wallet.rollback (c.run s.books).2.wallet } }
  | rest (s s' : Database) (core : s'.core = { s.core with connectors := s'.connectors })
      (connectors : Connected s s'.connectors) : Step env s s'

/-- The steps of the wallet may post anything but debits, and every report and call on tariffs is allowed. -/
def NotDebit : Permits where
  posting key _ := key.1 ≠ .charging_debit
  stored _ _ _ := True
  priced _ _ _ _ := True

/-- What the call stores and prices is permitted. -/
def Call.Permitted (A : Permits) (now : ℤ) (s : Database) : Call → Prop
  | .meter_values charger _ payload => ∀ c c' rows, meterSession s charger.id payload = some c → takesReports c →
      storeSamples (s.samplesOf c.id) c payload.meterValue (payload.transactionId.isSome && c.recovery_at.isSome) =
        .ok (c', rows) → A.stored s.core c rows
  | .tariff stations op => A.priced s.core now stations op
  | _ => True

/-- The stations that invoices are made for satisfy `Z`. -/
def Admits (Z : Billing.Station → Prop) (env : Environment) : Prop := ∀ st ∈ env.stations, Z st.toStation

/-- Any number of steps, each in its own environment. -/
def Reach (Z : Billing.Station → Prop) : Database → Database → Prop :=
  Relation.ReflTransGen fun s s' => ∃ env, Admits Z env ∧ Step env s s'

/-- Sound tables. -/
structure Sound (s : Database) : Prop where
  core : CoreOk s.core
  wallet : Wallets.Ok s.books.wallet

variable {A : Permits} {Z : Billing.Station → Prop} {now : ℤ} {env : Environment} {s s' : Database}

/-! ## 2. Steps are moves -/

theorem Call.moves (c : Call) (h : CoreOk s.core) (hz : Admits Z env) (hp : c.Permitted A env.now s) :
    Makes A Z env.now s.core (c.run env) s := by
  cases c with
  | start_transaction charger message_id payload =>
    exact wp_map.mpr (start_transaction_moves h charger message_id payload)
  | meter_values charger message_id payload =>
    refine wp_map.mpr ?_
    exact wp_mono (meter_values_moves h charger message_id payload hp) (fun _ _ hm => hm) fun _ _ hm => hm.1
  | stop_transaction charger message_id payload =>
    refine wp_map.mpr ?_
    exact wp_mono (stop_transaction_moves h charger message_id payload) (fun _ _ hm => hm) fun _ _ hm => hm.1
  | status_notification charger payload => exact wp_map.mpr (status_notification_moves h charger payload)
  | note_reconnection charger_id => exact note_reconnection_moves charger_id
  | note_offline_gap charger_id => exact note_offline_gap_makes .refl charger_id
  | mark_seen charger_id => exact mark_seen_moves h charger_id
  | expire_chargers busy => exact expire_chargers_moves h busy
  | flag_abnormal_sessions busy => exact flag_abnormal_sessions_moves busy
  | manual_close session_id actor_id reason => exact manual_close_moves h session_id actor_id reason
  | scan_control_deadlines => exact scan_control_deadlines_moves
  | lap_hoa_don session_id =>
    refine wp_map.mpr ?_
    exact wp_mono (lap_hoa_don_moves h hz session_id) (fun _ _ hm => hm.1) fun _ _ hm => hm
  | chot_phien hidden new_id session_id settle =>
    exact wp_map.mpr (chot_phien_moves h hz hidden new_id session_id settle)
  | tariff stations op => exact single (.tariffs s.core stations op hp)

namespace SystemLemmas

/-- What a debit posts. -/
theorem debited_effect {i : Invoice} {row : WalletLedger} {w w' : WalletDb} (h : Debited i row w w') :
    Effect (.charging_debit, toString i.session_id) "charging_session" w w' := by
  obtain ⟨t, hq, hent⟩ := h.entered
  exact hent.effect hq fun hnew => h.reference (hq.ledger ▸ hnew)

/-- A move changes no ledger row, makes a posting of the rest of the program, or the debit of a session without
reasons. -/
theorem move_wallet {t t' : Core} (h : Move A Z now t t') :
    Quiet t.wallet t'.wallet ∨ ∃ key ref, Effect key ref t.wallet t'.wallet ∧
      (A.posting key ref ∨ ∃ c ∈ t.sessions, c.review_reasons = [] ∧ key = (.charging_debit, toString c.id)) := by
  have hsame : ∀ {w : WalletDb}, w = t.wallet → Quiet t.wallet w := fun h => h ▸ .refl _
  cases h with
  | seqs | sessions | insert | store | stop | connectors | invoice | tariffs => exact .inl (hsame rfl)
  | status st stamp c events | stopped c ended_at =>
    obtain ⟨intervals, seq, -, hflush⟩ := Core.flush_eq _ t
    rw [hflush]
    exact .inl (hsame rfl)
  | wallet w change =>
    rcases change with hq | ⟨key, ref, hkey, he⟩
    · exact .inl hq
    · exact .inr ⟨key, ref, he, .inl hkey⟩
  | settle c i w mem clean billed session unsettled paid =>
    rcases paid with ⟨-, hw⟩ | ⟨row, -, hdeb⟩ | ⟨hw, -⟩
    · exact .inl (hsame hw)
    · exact .inr ⟨_, _, debited_effect hdeb, .inr ⟨c, mem, clean, by rw [← session]⟩⟩
    · exact .inl (hsame hw)

/-- Sequences only advance. -/
structure Advanced (t t' : Core) : Prop where
  session : t.session_seq ≤ t'.session_seq
  interval : t.interval_seq ≤ t'.interval_seq
  ledger : t.wallet.ledger_seq ≤ t'.wallet.ledger_seq

theorem move_advanced {t t' : Core} (h : Move A Z now t t') : Advanced t t' := by
  have hledger : t.wallet.ledger_seq ≤ t'.wallet.ledger_seq := by
    rcases move_wallet h with hq | ⟨_, _, he, -⟩
    · exact hq.seq
    · exact he.seq
  cases h with
  | seqs n m hn hm => exact ⟨hn, hm, hledger⟩
  | insert c fresh id => exact ⟨Nat.le_succ _, le_rfl, hledger⟩
  | sessions | store | stop | connectors | invoice | tariffs | wallet | settle => exact ⟨le_rfl, le_rfl, hledger⟩
  | status st stamp c events | stopped c ended_at =>
    obtain ⟨intervals, seq, hseq, hflush⟩ := Core.flush_eq _ t
    rw [hflush] at hledger ⊢
    exact ⟨le_rfl, hseq, hledger⟩

theorem moves_advanced {t t' : Core} (h : Moves A Z now t t') : Advanced t t' := by
  induction h with
  | refl => exact ⟨le_rfl, le_rfl, le_rfl⟩
  | tail _ hm ih =>
    have := move_advanced hm
    exact ⟨ih.session.trans this.session, ih.interval.trans this.interval, ih.ledger.trans this.ledger⟩

theorem move_wallet_ok {t t' : Core} (h : Move A Z now t t') (ho : Wallets.Ok t.wallet) : Wallets.Ok t'.wallet := by
  rcases move_wallet h with hq | ⟨_, _, he, -⟩
  · exact hq.ok ho
  · exact he.ok ho

theorem moves_wallet_ok {t t' : Core} (h : Moves A Z now t t') (ho : Wallets.Ok t.wallet) :
    Wallets.Ok t'.wallet := by
  induction h with
  | refl => exact ho
  | tail _ hm ih => exact move_wallet_ok hm ih

theorem permitted_of_all (hstored : ∀ t c rows, A.stored t c rows) (hpriced : ∀ t now stations op, A.priced t now stations op)
    (c : Call) (now : ℤ) (s : Database) : c.Permitted A now s := by
  cases c with
  | meter_values => exact fun c _ rows _ _ _ => hstored _ c rows
  | tariff stations op => exact hpriced _ _ stations op
  | _ => trivial

theorem permitted_all (c : Call) (now : ℤ) (s : Database) : c.Permitted NotDebit now s :=
  permitted_of_all (fun _ _ _ => trivial) (fun _ _ _ _ => trivial) c now s

/-- The sequences advance and the ledger's too, nothing else happens. -/
theorem rollback_moves (hadv : Advanced s.core s'.core) : Moves A Z now s.core (s.rollback s').core := by
  have hseqs : Moves A Z now s.core { s.core with session_seq := s'.session_seq, interval_seq := s'.interval_seq } :=
    single (.seqs s.core _ _ hadv.session hadv.interval)
  exact hseqs.tail (.wallet _ _ (.inl (quiet_rollback hadv.ledger)))

end SystemLemmas

open SystemLemmas

/-- A step moves as far as `A` permits it, if `A` permits every posting but debits and the call of the step. -/
theorem Step.movesUnder (h : Step env s s') (hs : Sound s) (hz : Admits Z env)
    (hpost : ∀ key ref, NotDebit.posting key ref → A.posting key ref)
    (hcall : ∀ c : Call, s' = (c.run env s).2 → c.Permitted A env.now s) : Moves A Z env.now s.core s'.core := by
  cases h with
  | call c => exact wp_state (c.moves hs.core hz (hcall c rfl))
  | undone c =>
    exact rollback_moves (moves_advanced (wp_state (c.moves hs.core hz (permitted_all c env.now s))))
  | money c _ outer =>
    refine single (.wallet s.core _ ?_)
    rcases (run_spec c hs.wallet).effect with hq | ⟨k, hk, he⟩
    · exact .inl hq
    · exact .inr ⟨k, c.reference, hpost _ _ (outer k hk), he⟩
  | refused c _ raised =>
    exact single (.wallet s.core _ (.inl (quiet_rollback
      ((run_spec c hs.wallet).raised raised).seq)))
  | rest _ _ core connectors =>
    rw [core]
    exact single (.connectors s.core _ connectors.keyed connectors.later)

theorem Step.moves (h : Step env s s') (hs : Sound s) (hz : Admits Z env) :
    Moves NotDebit Z env.now s.core s'.core :=
  h.movesUnder hs hz (fun _ _ h => h) fun c _ => permitted_all c env.now s

theorem Step.sound (h : Step env s s') (hs : Sound s) : Sound s' := by
  have hm : Moves NotDebit (fun _ => True) env.now s.core s'.core := h.moves hs fun _ _ => trivial
  exact ⟨Moves.ok hs.core hm, moves_wallet_ok hm hs.wallet⟩

theorem Reach.sound (h : Reach Z s s') (hs : Sound s) : Sound s' := by
  induction h with
  | refl => exact hs
  | tail _ step ih =>
    obtain ⟨env, -, hstep⟩ := step
    exact hstep.sound ih

/-! ## 3. One session -/

namespace OneSession

def admin : Uuid := .sample 1
def driver : Uuid := .sample 2
def unit : Uuid := .sample 3

def point : ChargePoint where
  id := 0
  station_id := 0
  uuid := unit
  archived := false
  online := true
  vendor := none
  model := none
  firmware_version := none
  last_seen_at := some 0
  heartbeat_interval_seconds := 60
  last_boot_at := none
  raw_ocpp_status := none
  error_code := none
  vendor_error_code := none
  error_at := none
  status_updated_at := 0
  code_locked_at := none

def connector : Connector where
  id := 0
  charge_point_id := 0
  uuid := unit
  connector_number := 1
  archived := false
  status := .Charging
  raw_ocpp_status := none
  last_status_notification_at := none
  status_updated_at := 0

/-- A session that started at 0, with some reasons. -/
def session (reasons : List String) : Session where
  id := 0
  charge_point_id := 0
  connector_id := 0
  driver_id := some driver
  authorization_status := .accepted
  started_at := 0
  ended_at := none
  idle_since := none
  billing_lifecycle_version := 1
  connector_released_at := none
  settlement := none
  meter_start_wh := some 0
  meter_stop_wh := none
  review_reasons := reasons
  tag_tail := "0001"
  release_detection := .available
  energy_kwh := none
  stop_reason := none
  recovery_at := none
  abnormal_since := none
  manual_closed_at := none
  manual_close_reason := none
  closed_by := none
  received_at := 0

/-- The tables after the start of the session. -/
def charging (reasons : List String) : Database where
  books :=
    { wallet := { users := [⟨admin, true, [.admin]⟩, ⟨driver, true, [.driver]⟩], wallets := [], wallet_ledger := []
                  ledger_seq := 1, wallet_audits := [], audit_logs := [] }
      topups := [], reservations := [], ocpp_seq := 1 }
  charge_points := [point]
  connectors := [connector]
  charging_sessions := [session reasons]
  session_seq := 1
  meter_samples := []
  sample_seq := 1
  occupation_intervals := []
  interval_seq := 1
  invoices := []
  tariffs := []
  session_events := []
  pending_messages := []
  authorization_attempts := []
  start_requests := []
  station_power := []
  connector_power := []

/-- An environment with nothing in it. -/
def site (now : ℤ) : Environment where
  now := now
  new_id := unit
  sha256 := id
  stations := []
  cards := []
  virtual_tags := []
  resets := []
  heartbeats := fun _ => (none, none)
  scheduled_limit_w := fun _ => none
  remote_stops := []
  billing_available_confirms_unplug := true
  charging_minimum_kwh := 1
  wallet_reserve_vnd := 0
  charging_abnormal_offline_seconds := 300
  ocpp_heartbeat_interval_seconds := 60

/-- A status of the connector, reported when it changed. -/
def reported (status : Reservations.OcppStatus) (at_ : ℤ) (s : Database) : Database :=
  ((Call.status_notification point ⟨1, status, "NoError", none, some at_⟩).run (site at_) s).2

/-- A reading of the register in Wh. -/
def metered (value : String) (at_ : ℤ) (s : Database) : Database :=
  ((Call.meter_values point "m" ⟨1, some 0, [⟨at_, [{ value := value }]⟩]⟩).run (site at_) s).2

theorem reach_reported (status : Reservations.OcppStatus) (at_ : ℤ) (s : Database) : Reach Z s (reported status at_ s) :=
  Relation.ReflTransGen.single ⟨site at_, nofun, .call _ s⟩

theorem reach_metered (value : String) (at_ : ℤ) (s : Database) : Reach Z s (metered value at_ s) :=
  Relation.ReflTransGen.single ⟨site at_, nofun, .call _ s⟩

theorem charging_sound (reasons : List String) : Sound (charging reasons) where
  core :=
    { sessions := List.pairwise_singleton _ _
      fresh := by simp [Database.core, charging, session]
      intervals := .nil
      intervals_fresh := List.forall_mem_nil _
      connectors := List.pairwise_singleton _ _
      sampled := List.forall_mem_nil _
      occupied := List.forall_mem_nil _
      billed := List.forall_mem_nil _
      stamps := List.forall_mem_nil _
      occupation := fun c hc _ => by
        obtain rfl := List.mem_singleton.mp hc
        exact .nil fun _ h => by cases h
      series := fun c hc => ⟨List.forall_mem_nil _, .nil, List.forall_mem_nil _, fun _ _ _ _ hp => absurd hp List.not_mem_nil,
        fun _ _ hp => absurd hp List.not_mem_nil⟩
      numeric := List.forall_mem_nil _
      metered := fun c hc => by
        obtain rfl := List.mem_singleton.mp hc
        refine ⟨fun v hv => ?_, fun _ hv => by cases hv⟩
        cases hv
        exact ⟨0, by simp, by decide⟩ }
  wallet := .of_empty rfl .nil (List.forall_mem_nil _)

end OneSession

end Csms.Charging
