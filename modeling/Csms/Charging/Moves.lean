import Csms.Pricing.History
import Csms.Billing.Integrity
import Csms.Charging.Recovery
import Csms.Charging.Series

/-!
# What the calls do to sessions

`Core` holds the tables that sessions, their records and their bills live in. Every call is a sequence of
`Move`s, which keep the conditions of the code as guards; invariants are proved for moves.

Results: `Move.ok`: every move keeps the tables sound, `CoreOk`.
-/

namespace Csms.Charging

open Tx Csms.Wallets Csms.Reservations Csms.Accounts Csms.Pricing
open Csms.Billing (MeterSample InvoiceRow StationTables BillingDb BillingError SettlementReason Numeric)

/-! ## 1. The core -/

structure Core where
  sessions : List Session
  session_seq : ℕ
  samples : List MeterSample
  intervals : List Interval
  interval_seq : ℕ
  connectors : List Connector
  invoices : List InvoiceRow
  tariffs : List Tariff
  wallet : WalletDb

def Database.core (s : Database) : Core where
  sessions := s.charging_sessions
  session_seq := s.session_seq
  samples := s.meter_samples
  intervals := s.occupation_intervals
  interval_seq := s.interval_seq
  connectors := s.connectors
  invoices := s.invoices
  tariffs := s.tariffs
  wallet := s.books.wallet

namespace Core

def samplesOf (t : Core) (session_id : ℕ) : List MeterSample := t.samples.filter (·.session_id = session_id)

def intervalsOf (t : Core) (session_id : ℕ) : List Interval := t.intervals.filter (·.session_id = session_id)

def Invoiced (t : Core) (session_id : ℕ) : Prop := ∃ i ∈ t.invoices, i.session_id = session_id

def saveSession (c : Session) (t : Core) : Core :=
  { t with sessions := Table.modify (fun c : Session => c.id) c.id (fun _ => c) t.sessions }

def saveInterval (i : Interval) (t : Core) : Core :=
  if i.id < t.interval_seq then
    { t with intervals := Table.modify Interval.id i.id (fun _ => i) t.intervals }
  else { t with intervals := t.intervals ++ [i], interval_seq := i.id + 1 }

def flush (o : Occupied) (t : Core) : Core :=
  saveSession o.session (o.interval.elim t (saveInterval · t))

/-- A flush writes the session, and at most the intervals with it. -/
theorem flush_eq (o : Occupied) (t : Core) : ∃ intervals seq, t.interval_seq ≤ seq ∧
    t.flush o = { t.saveSession o.session with intervals, interval_seq := seq } := by
  unfold flush
  cases o.interval with
  | none => exact ⟨t.intervals, t.interval_seq, le_rfl, rfl⟩
  | some i =>
    simp only [Option.elim_some, saveInterval]
    split
    · exact ⟨_, t.interval_seq, le_rfl, rfl⟩
    · next hi => exact ⟨_, i.id + 1, by omega, rfl⟩

end Core

/-- The columns hold the readings of the session. -/
structure Metered (c : Session) : Prop where
  start : ∀ v ∈ c.meter_start_wh, Numeric v
  stop : ∀ v ∈ c.meter_stop_wh, Numeric v

/-- A session as a start inserts it. -/
structure Fresh (c : Session) : Prop where
  metered : Metered c
  opened : c.ended_at = none
  unreleased : c.connector_released_at = none
  unsettled : c.settlement = none

/-- A change of one session that touches no other table. -/
inductive Evolve : Session → Session → Prop
  | same (c : Session) : Evolve c c
  | flag (c c' : Session) (reviewed : Reviewed c c') : Evolve c c'
  | clear (c : Session) (reasons : List String) (settled : reasons ⊆ SETTLED_BY_STOP)
      (opened : c.ended_at = none) : Evolve c (withoutReasons reasons c)
  | note (c c' : Session) (opened : c.ended_at = none)
      (frame : c' = { c with
        review_reasons := c'.review_reasons, idle_since := c'.idle_since
        recovery_at := c'.recovery_at, abnormal_since := c'.abnormal_since })
      (reasons : c.review_reasons ⊆ c'.review_reasons) : Evolve c c'
  | replace (c : Session) (now : ℤ) (opened : c.ended_at = none) : Evolve c (replaced now c)
  | close (c : Session) (env : Environment) (actor_id : Uuid) (reason : String) (value : ℚ)
      (opened : c.ended_at = none) (numeric : Numeric value) : Evolve c (closedManually env actor_id reason value c)

/-- The tables of billing. -/
def Core.billing (t : Core) : BillingDb where
  charging_sessions := t.sessions.map (·.toChargingSession)
  invoices := t.invoices
  tariffs := t.tariffs

/-- What the rest of the program may post, by key and reference type; the rows a report may store for a session;
and the calls on tariffs that may happen at a time. -/
structure Permits where
  posting : EntryType × String → String → Prop
  stored : Core → Session → List MeterSample → Prop
  priced : Core → ℤ → List Pricing.Station → TariffOp → Prop

/-- What a step may do at the time `now`, as far as `A` permits it. The stations that invoices are made for
satisfy `Z`. -/
inductive Move (A : Permits) (Z : Billing.Station → Prop) (now : ℤ) : Core → Core → Prop
  | seqs (t : Core) (n m : ℕ) (hn : t.session_seq ≤ n) (hm : t.interval_seq ≤ m) :
      Move A Z now t { t with session_seq := n, interval_seq := m }
  | sessions (t : Core) (f : Session → Session) (evolve : ∀ c ∈ t.sessions, Evolve c (f c)) :
      Move A Z now t { t with sessions := t.sessions.map f }
  | insert (t : Core) (c : Session) (fresh : Fresh c) (id : c.id = t.session_seq) :
      Move A Z now t { t with sessions := t.sessions ++ [c], session_seq := t.session_seq + 1 }
  | store (t : Core) (seq : ℕ) (c c' : Session) (rows : List MeterSample) (blocks : List MeterBlock)
      (backfill : Bool) (mem : c ∈ t.sessions) (takes : takesReports c)
      (stored : storeSamples (t.samplesOf c.id) c blocks backfill = .ok (c', rows))
      (numeric : ∀ m ∈ rows, ∀ v ∈ m.value, Numeric v) (permitted : A.stored t c rows) :
      Move A Z now t { t.saveSession c' with samples := t.samples ++ numbered seq rows }
  | stop (t : Core) (seq : ℕ) (payload : StopPayload) (c c' : Session) (rows : List MeterSample)
      (backfill : Bool) (latest : Option ℚ) (mem : c ∈ t.sessions) (opened : c.ended_at = none)
      (stored : storeSamples (t.samplesOf c.id) (withStop payload c) payload.transactionData backfill =
        .ok (c', rows))
      (numeric : ∀ m ∈ rows, ∀ v ∈ m.value, Numeric v) :
      Move A Z now t { t.saveSession (finishStop payload latest c') with
        samples := t.samples ++ numbered seq rows }
  | status (t : Core) (status : OcppStatus) (stamp : ℤ) (c : Session) (events : List EventAction)
      (mem : c ∈ t.sessions) (version : c.billing_lifecycle_version ≠ 0) (unbilled : ¬ t.Invoiced c.id)
      (unreleased : c.connector_released_at = none) (since : c.started_at ≤ stamp)
      (latest : ∃ k ∈ t.connectors, k.id = c.connector_id ∧ k.last_status_notification_at = some stamp) :
      Move A Z now t (t.flush (noteStamped t.interval_seq status stamp
        ⟨c, (t.intervalsOf c.id).getLast?, events⟩))
  | stopped (t : Core) (c : Session) (ended_at : ℤ) (mem : c ∈ t.sessions)
      (version : c.billing_lifecycle_version ≠ 0) (unbilled : ¬ t.Invoiced c.id)
      (ended : c.ended_at = some ended_at) :
      Move A Z now t (t.flush (Charging.stopped ended_at ⟨c, (t.intervalsOf c.id).getLast?, []⟩))
  | connectors (t : Core) (ks : List Connector) (keyed : Table.Keyed (fun k : Connector => k.id) ks)
      (later : ∀ k ∈ ks, (∃ k₀ ∈ t.connectors, k₀.id = k.id ∧
          ∀ l ∈ k₀.last_status_notification_at, ∃ l' ∈ k.last_status_notification_at, l ≤ l') ∨
        ∀ c ∈ t.sessions, c.connector_id ≠ k.id) :
      Move A Z now t { t with connectors := ks }
  | invoice (t : Core) (tables : StationTables) (new_id : Uuid) (c : Session) (stop : ℤ) (row : InvoiceRow)
      (b : BillingDb) (mem : c ∈ t.sessions) (clean : c.review_reasons = []) (ended : c.ended_at = some stop)
      (unbilled : ¬ t.Invoiced c.id)
      (released : c.billing_lifecycle_version = 1 → c.connector_released_at ≠ none)
      (samples : tables.meter_samples = t.samples)
      (intervals : tables.occupation_intervals = t.intervals.map (·.toOccupationInterval))
      (stations : ∀ station ∈ tables.stations, Z station)
      (created : Billing._create_invoice tables new_id now c.toChargingSession stop t.billing = (.ok row, b)) :
      Move A Z now t { t with invoices := b.invoices, tariffs := b.tariffs }
  | tariffs (t : Core) (stations : List Pricing.Station) (op : TariffOp) (permitted : A.priced t now stations op) :
      Move A Z now t { t with tariffs := op.commit stations now t.tariffs }
  | wallet (t : Core) (w : WalletDb)
      (change : Quiet t.wallet w ∨ ∃ key ref, A.posting key ref ∧ Effect key ref t.wallet w) :
      Move A Z now t { t with wallet := w }
  | settle (t : Core) (c : Session) (i : InvoiceRow) (w : WalletDb) (mem : c ∈ t.sessions)
      (clean : c.review_reasons = []) (billed : i ∈ t.invoices) (session : i.session_id = c.id)
      (unsettled : c.settlement = none)
      (paid : (i.total_vnd = 0 ∧ w = t.wallet) ∨
        (∃ row, 0 < i.total_vnd ∧ Debited i.toInvoice row t.wallet w) ∨
        (w = t.wallet ∧ i.total_vnd ≠ 0 ∧ ∃ row ∈ t.wallet.wallet_ledger,
          row.key = (.charging_debit, toString c.id) ∧ row.amount_vnd = -i.total_vnd ∧
          ∃ owner ∈ t.wallet.wallets, owner.id = row.wallet_id ∧ owner.driver_id = i.driver_id)) :
      Move A Z now t { t.saveSession { c with
        settlement := some (if i.total_vnd = 0 then .zero_invoice else .debited) } with wallet := w }

/-- A sequence of moves. -/
def Moves (A : Permits) (Z : Billing.Station → Prop) (now : ℤ) : Core → Core → Prop := Relation.ReflTransGen (Move A Z now)

/-! ## 2. Sound tables -/

/-- The rows belong together: keys, owners, the order of status notifications, the intervals and the samples
of each session. -/
structure CoreOk (t : Core) : Prop where
  sessions : t.sessions.Pairwise fun a b => a.id < b.id
  fresh : ∀ c ∈ t.sessions, c.id < t.session_seq
  intervals : Table.Keyed Interval.id t.intervals
  intervals_fresh : ∀ i ∈ t.intervals, i.id < t.interval_seq
  connectors : Table.Keyed (fun k : Connector => k.id) t.connectors
  sampled : ∀ m ∈ t.samples, ∃ c ∈ t.sessions, c.id = m.session_id
  occupied : ∀ i ∈ t.intervals, ∃ c ∈ t.sessions, c.id = i.session_id
  billed : ∀ i ∈ t.invoices, ∃ c ∈ t.sessions, c.id = i.session_id ∧ c.ended_at ≠ none
  stamps : ∀ i ∈ t.intervals, ∀ c ∈ t.sessions, c.id = i.session_id → ∀ k ∈ t.connectors,
    k.id = c.connector_id → ∃ l ∈ k.last_status_notification_at, i.started_at ≤ l
  occupation : ∀ c ∈ t.sessions, c.billing_lifecycle_version ≠ 0 → IntervalsOk c (t.intervalsOf c.id)
  series : ∀ c ∈ t.sessions, SeriesOk c (t.samplesOf c.id)
  numeric : ∀ m ∈ t.samples, ∀ v ∈ m.value, Numeric v
  metered : ∀ c ∈ t.sessions, Metered c

namespace CoreOk

variable {t : Core}

theorem keyed (h : CoreOk t) : Table.Keyed (fun c : Session => c.id) t.sessions :=
  h.sessions.imp fun hlt => hlt.ne

theorem eq (h : CoreOk t) {a b : Session} (ha : a ∈ t.sessions) (hb : b ∈ t.sessions) (hid : a.id = b.id) :
    a = b :=
  h.keyed.eq ha hb hid

end CoreOk

/-! ## 3. Sessions that change alone -/

namespace Evolve

variable {c c' : Session}

theorem review (c : Session) (reason : String) : Evolve c (Charging.review reason c) :=
  .flag c _ (reviewed_review reason c)

/-- What no change of a session touches. -/
theorem get (h : Evolve c c') {α : Type} (f : Session → α)
    (hf : ∀ (c : Session) reasons idle recovery abnormal ended meter energy reason manual text actor,
      f { c with
        review_reasons := reasons, idle_since := idle, recovery_at := recovery, abnormal_since := abnormal
        ended_at := ended, meter_stop_wh := meter, energy_kwh := energy, stop_reason := reason
        manual_closed_at := manual, manual_close_reason := text, closed_by := actor } = f c) :
    f c' = f c := by
  have hreview : ∀ (c : Session) reason, f (Charging.review reason c) = f c := by
    intro c reason
    rw [review_eq]
    exact hf c _ c.idle_since c.recovery_at c.abnormal_since c.ended_at c.meter_stop_wh c.energy_kwh c.stop_reason
      c.manual_closed_at c.manual_close_reason c.closed_by
  cases h with
  | same => rfl
  | flag _ reviewed =>
    exact reviewed.get f fun c reasons => hf c reasons c.idle_since c.recovery_at c.abnormal_since c.ended_at
      c.meter_stop_wh c.energy_kwh c.stop_reason c.manual_closed_at c.manual_close_reason c.closed_by
  | clear reasons settled opened =>
    exact hf c _ c.idle_since c.recovery_at c.abnormal_since c.ended_at c.meter_stop_wh c.energy_kwh c.stop_reason
      c.manual_closed_at c.manual_close_reason c.closed_by
  | note _ opened frame reasons =>
    rw [frame]
    exact hf c _ _ _ _ c.ended_at c.meter_stop_wh c.energy_kwh c.stop_reason c.manual_closed_at
      c.manual_close_reason c.closed_by
  | replace now opened =>
    unfold replaced
    rw [review_eq]
    exact hf c _ c.idle_since c.recovery_at none (some now) c.meter_stop_wh c.energy_kwh _ c.manual_closed_at
      c.manual_close_reason c.closed_by
  | close env actor_id reason value opened numeric =>
    unfold closedManually
    rw [hreview]
    exact hf c _ c.idle_since c.recovery_at none _ _ _ _ _ _ _

/-- A session that has ended gets reasons at most. -/
theorem reviewed (h : Evolve c c') (hended : c.ended_at ≠ none) : Reviewed c c' := by
  cases h with
  | same => exact .refl c
  | flag _ reviewed => exact reviewed
  | clear reasons settled opened => exact absurd opened hended
  | note _ opened frame reasons => exact absurd opened hended
  | replace now opened => exact absurd opened hended
  | close env actor_id reason value opened numeric => exact absurd opened hended

/-- Only the reasons that a stop settles can go, and only while the session is open. -/
theorem mem_reasons (h : Evolve c c') {r : String} (hr : r ∈ c.review_reasons) :
    r ∈ c'.review_reasons ∨ (r ∈ SETTLED_BY_STOP ∧ c.ended_at = none) := by
  cases h with
  | same => exact .inl hr
  | flag _ reviewed => exact .inl (reviewed.reasons hr)
  | clear reasons settled opened =>
    by_cases hin : r ∈ reasons
    · exact .inr ⟨settled hin, opened⟩
    · exact .inl (List.mem_filter.mpr ⟨hr, by simpa using hin⟩)
  | note _ opened frame reasons => exact .inl (reasons hr)
  | replace now opened => exact .inl (mem_review.mpr (.inl hr))
  | close env actor_id reason value opened numeric =>
    by_cases hin : r ∈ ["offline_timeout", "available_with_open_session"]
    · exact .inr ⟨by rcases List.mem_cons.mp hin with rfl | hin <;> simp_all [SETTLED_BY_STOP], opened⟩
    · exact .inl (mem_review.mpr (.inl (List.mem_filter.mpr ⟨hr, by simpa using hin⟩)))

theorem id (h : Evolve c c') : c'.id = c.id := h.get (·.id) fun _ _ _ _ _ _ _ _ _ _ _ _ => rfl

end Evolve

end Csms.Charging
