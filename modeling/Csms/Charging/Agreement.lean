import Csms.Accounting.Recomputation
import Csms.Charging.Invoices
import Csms.Pricing.Backdating

/-!
# Reconciliation agrees with the invoices it checks

`execute_reconciliation_run` prices a session from the rows as they are when it runs. The invoice was priced from
the rows as they were when it was made. In between the calls of chargers, drivers, owners and workers ran.

Results:
1. `move_unchanged`: what no step changes of a session that has an invoice.
2. `move_tariffs`: the tariffs of the days that were billed.
3. `reconciliation_agrees`: every run in which nothing is stored within a session that has an invoice, and no tariff
   is given to a day that was billed, finds every invoice at its total.
-/

namespace Csms.Charging

open Tx Csms.Wallets Csms.Accounts Csms.Pricing
open SystemLemmas InvariantLemmas CallsLemmas ReasonsLemmas InvoicesLemmas BackdatingLemmas HistoryLemmas
open Csms.Billing (MeterSample InvoiceRow OccupationInterval registerSamples)
open Csms.Accounting (lastDay recompute SameInputs)

/-! ## 1. Runs that leave billed sessions alone -/

/-- Each station is in its zone. -/
def Placed (zones : ℕ → Zone) (station : Billing.Station) : Prop := station.timezone = zones station.id

/-- The station of an invoice, as the run joins it. -/
def stationOf (zones : ℕ → Zone) (i : InvoiceRow) : Billing.Station := ⟨i.station_id, zones i.station_id⟩

/-- A reading that the energy of the session is priced from. -/
def OfRegister (c : Session) (stop : ℤ) (m : MeterSample) : Prop :=
  c.started_at ≤ m.timestamp ∧ m.timestamp ≤ stop ∧ m.measurand = .energyRegister ∧ m.phase = "" ∧
    m.location = "Outlet"

/-- The intervals of all sessions, as billing reads them. -/
def Core.occupation (t : Core) : List OccupationInterval := t.intervals.map (·.toOccupationInterval)

/-- No report stores a reading within a session that has an invoice, and no call on tariffs gives one to a day that
an invoice billed. -/
def Undisturbed (zones : ℕ → Zone) : Permits where
  posting := NotDebit.posting
  stored t c rows := t.Invoiced c.id → ∀ stop, c.ended_at = some stop → ∀ m ∈ rows, ¬ OfRegister c stop m
  priced t now stations op := ∀ i ∈ t.invoices, ∀ c ∈ t.sessions, c.id = i.session_id → ∀ stop,
    c.ended_at = some stop → ¬ op.Backdates stations now t.tariffs i.station_id
      (lastDay (zones i.station_id) c.toChargingSession stop t.occupation)

/-- What the prices of sessions depend on is as it was. -/
structure Untouched (t t' : Core) : Prop where
  sessions : t'.sessions = t.sessions
  samples : t'.samples = t.samples
  intervals : t'.intervals = t.intervals
  invoices : t'.invoices = t.invoices
  tariffs : t'.tariffs = t.tariffs

/-- A permitted call, or a step that touches nothing that prices depend on. -/
inductive UndisturbedStep (zones : ℕ → Zone) (env : Environment) : Database → Database → Prop
  | call (c : Call) (s : Database) (permitted : c.Permitted (Undisturbed zones) env.now s) :
      UndisturbedStep zones env s (c.run env s).2
  | aside (s s' : Database) (step : Step env s s') (untouched : Untouched s.core s'.core) :
      UndisturbedStep zones env s s'

/-- Any number of undisturbed steps, with the stations in their zones. -/
def UndisturbedRun (zones : ℕ → Zone) : Database → Database → Prop :=
  Relation.ReflTransGen fun s s' => ∃ env, Admits (Placed zones) env ∧ UndisturbedStep zones env s s'

/-- The run prices the session of the invoice at its total, and the tariffs of its days are used ones. -/
structure Agrees (zones : ℕ → Zone) (t : Core) (i : InvoiceRow) (c : Session) (stop : ℤ) : Prop where
  mem : c ∈ t.sessions
  id : c.id = i.session_id
  ended : c.ended_at = some stop
  recomputed : recompute (stationOf zones i) t.tariffs t.occupation t.samples c.toChargingSession =
    .ok (some i.total_vnd, false)
  versions : ∀ day, (zones i.station_id).localDate c.started_at ≤ day →
    day ≤ lastDay (zones i.station_id) c.toChargingSession stop t.occupation →
    ∃ v, lay_bieu_gia_hieu_luc t.tariffs i.station_id day = some v ∧ v.used_at ≠ none

/-- Every invoice agrees. -/
structure AllAgree (zones : ℕ → Zone) (t : Core) : Prop where
  dated : Dated t.tariffs
  agrees : ∀ i ∈ t.invoices, ∃ c stop, Agrees zones t i c stop

namespace AgreementLemmas

variable {zones : ℕ → Zone} {Z : Billing.Station → Prop} {now : ℤ} {t t' : Core} {c c' : Session} {stop : ℤ}

/-! ## 2. What no step changes -/

/-- What is billed of a session. -/
def billedPart (c : Session) : Billing.ChargingSession :=
  { c.toChargingSession with review_reasons := [], settlement := none }

theorem session_of_billedPart (h : billedPart c' = billedPart c) : c'.toChargingSession =
    { c.toChargingSession with
      review_reasons := c'.review_reasons, settlement := c'.toChargingSession.settlement } :=
  congrArg (fun x : Billing.ChargingSession =>
    { x with review_reasons := c'.review_reasons, settlement := c'.toChargingSession.settlement }) h

theorem billedPart_of_reviewed (h : Reviewed c c') : billedPart c' = billedPart c :=
  h.get billedPart fun _ _ => rfl

/-- The rows of an ended session in the tables after a step. -/
structure Unchanged (t t' : Core) (c c' : Session) (stop : ℤ) : Prop where
  mem : c' ∈ t'.sessions
  part : billedPart c' = billedPart c
  register : registerSamples t'.samples c.toChargingSession stop = registerSamples t.samples c.toChargingSession stop
  occupation : t'.intervalsOf c.id = t.intervalsOf c.id

theorem Unchanged.refl (hc : c ∈ t.sessions) : Unchanged t t c c stop := ⟨hc, rfl, rfl, rfl⟩

/-- New rows that are not of the register of the session. -/
theorem registerSamples_append {samples rows : List MeterSample} (seq : ℕ)
    (h : ∀ m ∈ rows, m.session_id = c.id → ¬ OfRegister c stop m) :
    registerSamples (samples ++ numbered seq rows) c.toChargingSession stop =
      registerSamples samples c.toChargingSession stop := by
  unfold registerSamples
  rw [List.filter_append]
  have hnone : (numbered seq rows).filter (fun m => m.session_id = c.id ∧ c.started_at ≤ m.timestamp ∧
      m.timestamp ≤ stop ∧ m.measurand = .energyRegister ∧ m.phase = "" ∧ m.location = "Outlet") = [] := by
    refine List.filter_eq_nil_iff.mpr fun m hm hin => ?_
    obtain ⟨r, hr, id, rfl⟩ := mem_numbered hm
    have hin := of_decide_eq_true hin
    exact h r hr hin.1 hin.2
  rw [hnone, List.append_nil]

/-- One session is written; the others stay. -/
theorem mem_saveSession {x y : Session} (hx : x ∈ t.sessions) (hid : x.id ≠ y.id) : x ∈ (t.saveSession y).sessions :=
  Table.mem_modify.mpr ⟨x, hx, by rw [if_neg hid]⟩

/-- A session and its interval are written; another session stays as it is. -/
theorem unchanged_flush (h : CoreOk t) {a : Session} {stamp : Option ℤ} {o : Occupied} {l : List Interval}
    (hv : View t.interval_seq stamp a (t.intervalsOf a.id) o l) (hc : c ∈ t.sessions) (hid : c.id ≠ a.id) :
    Unchanged t (t.flush o) c c stop := by
  have hother := (intervals_flush h hv).2.1 c.id hid
  have hoid : o.session.id = a.id := hv.get (·.id) fun _ _ _ _ => rfl
  obtain ⟨intervals, seq, -, hflush⟩ := Core.flush_eq o t
  refine ⟨?_, rfl, ?_, hother⟩
  · rw [hflush]
    exact mem_saveSession hc (hoid ▸ hid)
  · rw [hflush]
    rfl

theorem move_unchanged (h : CoreOk t) (hm : Move (Undisturbed zones) Z now t t') (hc : c ∈ t.sessions)
    (hended : c.ended_at = some stop) (hbilled : t.Invoiced c.id) : ∃ c', Unchanged t t' c c' stop := by
  have hopen : ∀ {a : Session}, a.ended_at = none → a ∈ t.sessions → c.id ≠ a.id := by
    intro a ha hmem hid
    rw [← h.eq hc hmem hid, hended] at ha
    cases ha
  have hunbilled : ∀ {a : Session}, ¬ t.Invoiced a.id → c.id ≠ a.id := fun hno hid => hno (hid ▸ hbilled)
  cases hm with
  | seqs | connectors | invoice | tariffs | wallet => exact ⟨c, hc, rfl, rfl, rfl⟩
  | sessions f evolve =>
    exact ⟨f c, List.mem_map_of_mem hc, billedPart_of_reviewed ((evolve c hc).reviewed (by rw [hended]; simp)), rfl, rfl⟩
  | insert a fresh id => exact ⟨c, List.mem_append_left _ hc, rfl, rfl, rfl⟩
  | store seq a a' rows blocks backfill mem takes stored numeric permitted =>
    obtain ⟨hreviewed, hrows⟩ := storeSamples_frame stored
    have haid : a'.id = a.id := hreviewed.get (·.id) fun _ _ => rfl
    by_cases hid : c.id = a.id
    · obtain rfl := h.eq hc mem hid
      refine ⟨a', Table.mem_modify.mpr ⟨c, hc, by rw [if_pos haid.symm]⟩, billedPart_of_reviewed hreviewed, ?_, rfl⟩
      exact registerSamples_append seq fun m hm _ => permitted hbilled stop hended m hm
    · refine ⟨c, mem_saveSession hc (haid ▸ hid), rfl, ?_, rfl⟩
      exact registerSamples_append seq fun m hm hmid => absurd (hmid.symm.trans (hrows m hm).1) hid
  | stop seq payload a a' rows backfill latest mem opened stored numeric =>
    obtain ⟨hreviewed, hrows⟩ := storeSamples_frame stored
    have hid := hopen opened mem
    refine ⟨c, mem_saveSession hc ((Kept.of_stop hreviewed).id ▸ hid), rfl, ?_, rfl⟩
    exact registerSamples_append seq fun m hm hmid => absurd (hmid.symm.trans (hrows m hm).1) hid
  | status status stamp a events mem version unbilled unreleased since latest =>
    obtain ⟨l, hv⟩ := status_view h mem version unreleased latest status events
    exact ⟨c, unchanged_flush h hv hc (hunbilled unbilled)⟩
  | stopped a ended_at mem version unbilled ended =>
    have hview : View t.interval_seq none a (t.intervalsOf a.id)
        ⟨a, (t.intervalsOf a.id).getLast?, []⟩ (t.intervalsOf a.id) := .start (h.occupation a mem version) []
    obtain ⟨l, hv⟩ := stopped_view hview ended_at
    exact ⟨c, unchanged_flush h hv hc (hunbilled unbilled)⟩
  | settle a i w mem clean billed session unsettled paid =>
    by_cases hid : c.id = a.id
    · obtain rfl := h.eq hc mem hid
      set c' : Session := { c with settlement := some (if i.total_vnd = 0 then .zero_invoice else .debited) }
      exact ⟨c', Table.mem_modify.mpr ⟨c, hc, by rw [if_pos rfl]⟩, rfl, rfl, rfl⟩
    · exact ⟨c, mem_saveSession hc hid, rfl, rfl, rfl⟩

/-- The used tariffs of the days that an invoice billed stay. -/
def BilledDaysStay (zones : ℕ → Zone) (t t' : Core) : Prop :=
  ∀ i ∈ t.invoices, ∀ c stop, c ∈ t.sessions → c.id = i.session_id → c.ended_at = some stop →
    ∀ day ≤ lastDay (zones i.station_id) c.toChargingSession stop t.occupation, ∀ v,
      lay_bieu_gia_hieu_luc t.tariffs i.station_id day = some v → v.used_at ≠ none →
      lay_bieu_gia_hieu_luc t'.tariffs i.station_id day = some v

theorem move_tariffs (hd : Dated t.tariffs) (hm : Move (Undisturbed zones) Z now t t') :
    Dated t'.tariffs ∧ BilledDaysStay zones t t' := by
  have hsame : t'.tariffs = t.tariffs → Dated t'.tariffs ∧ BilledDaysStay zones t t' := by
    intro heq
    refine ⟨heq ▸ hd, fun i _ c stop _ _ _ day _ v hlay _ => ?_⟩
    rw [heq]
    exact hlay
  cases hm with
  | seqs | sessions | insert | store | stop | connectors | wallet | settle => exact hsame rfl
  | status status stamp c events | stopped c ended_at =>
    obtain ⟨intervals, seq, -, hflush⟩ := Core.flush_eq _ t
    exact hsame (by rw [hflush]; rfl)
  | invoice tables new_id c stop row b mem clean ended unbilled released samples intervals stations created =>
    obtain ⟨k, -, -, rfl⟩ := wp_ok (Billing._create_invoice_ok tables new_id now _ stop _) created
    obtain ⟨g, hg, hmarks, -⟩ := markDaily_eq k.station.id now k.daily t.tariffs
    change Dated (Billing.markDaily k.daily k.station.id now t.tariffs) ∧ _
    refine ⟨hmarks ▸ hg.dated hd, fun i _ c stop _ _ _ day _ v hlay hused => ?_⟩
    change lay_bieu_gia_hieu_luc (Billing.markDaily k.daily k.station.id now t.tariffs) i.station_id day = _
    rw [hmarks, hg.lay, hlay, Option.map_some, hg.used v hused]
  | tariffs stations op permitted =>
    exact ⟨commit_dated hd, fun i hi c stop hc hid hended day hday v hlay hused =>
      commit_used hd hlay hused hday (permitted i hi c hc hid stop hended)⟩

/-! ## 3. Invoices agree -/

/-- What was billed of a session determines the last day. -/
theorem lastDay_congr {tz : Zone} {intervals intervals' : List OccupationInterval}
    (hpart : billedPart c' = billedPart c)
    (h : intervals'.filter (·.session_id = c.id) = intervals.filter (·.session_id = c.id)) :
    lastDay tz c'.toChargingSession stop intervals' = lastDay tz c.toChargingSession stop intervals := by
  have hoccupation : Accounting.confirmedOccupation intervals' c.toChargingSession =
      Accounting.confirmedOccupation intervals c.toChargingSession := Accounting.confirmedOccupation_congr h
  unfold lastDay
  rw [session_of_billedPart hpart]
  exact congrArg (fun l => tz.localDate (Billing.billingEnd c.toChargingSession stop l - 1)) hoccupation

theorem occupation_filter (t : Core) (n : ℕ) :
    t.occupation.filter (·.session_id = n) = (t.intervalsOf n).map (·.toOccupationInterval) := by
  unfold Core.occupation Core.intervalsOf
  rw [List.filter_map]
  rfl

theorem move_agrees (h : CoreOk t) (hd : Dated t.tariffs) (hm : Move (Undisturbed zones) Z now t t')
    {i : InvoiceRow} (hi : i ∈ t.invoices) (ha : Agrees zones t i c stop) : ∃ c', Agrees zones t' i c' stop := by
  obtain ⟨c', hu⟩ := move_unchanged h hm ha.mem ha.ended ⟨i, hi, ha.id.symm⟩
  have hoccupation : t'.occupation.filter (·.session_id = c.id) = t.occupation.filter (·.session_id = c.id) := by
    rw [occupation_filter, occupation_filter, hu.occupation]
  have hlast : lastDay (zones i.station_id) c'.toChargingSession stop t'.occupation =
      lastDay (zones i.station_id) c.toChargingSession stop t.occupation := lastDay_congr hu.part hoccupation
  have hsession := session_of_billedPart hu.part
  have hstart : c'.started_at = c.started_at := by rw [hsession]
  have hlay : ∀ day, (zones i.station_id).localDate c.started_at ≤ day →
      day ≤ lastDay (zones i.station_id) c.toChargingSession stop t.occupation → ∃ v,
      lay_bieu_gia_hieu_luc t.tariffs i.station_id day = some v ∧ v.used_at ≠ none ∧
        lay_bieu_gia_hieu_luc t'.tariffs i.station_id day = some v := by
    intro day hfirst hlast
    obtain ⟨v, hv, hused⟩ := ha.versions day hfirst hlast
    exact ⟨v, hv, hused, (move_tariffs hd hm).2 i hi c stop ha.mem ha.id ha.ended day hlast v hv hused⟩
  refine ⟨c', hu.mem, ?_, ?_, ?_, fun day hfirst hday => ?_⟩
  · exact (by rw [hsession] : c'.id = c.id).trans ha.id
  · exact (by rw [hsession] : c'.ended_at = c.ended_at).trans ha.ended
  · refine (Accounting.recompute_congr ha.ended ⟨hsession, hu.register, hoccupation, fun day hfirst hday => ?_⟩).trans
      ha.recomputed
    obtain ⟨v, hv, -, hv'⟩ := hlay day hfirst hday
    exact congrArg (Option.map Tariff.terms) (hv'.trans hv.symm)
  · rw [hstart] at hfirst
    rw [hlast] at hday
    obtain ⟨v, -, hused, hv'⟩ := hlay day hfirst hday
    exact ⟨v, hv', hused⟩

/-- A new invoice agrees with the tables that it was made from, with its tariffs marked. -/
theorem invoice_agrees (h : CoreOk t) {tables : Billing.StationTables} {new_id : Uuid}
    (k : Billing.Computation tables t.tariffs c.toChargingSession stop) (hc : c ∈ t.sessions)
    (hended : c.ended_at = some stop) (hsamples : tables.meter_samples = t.samples)
    (hintervals : tables.occupation_intervals = t.occupation) (hplaced : ∀ station ∈ tables.stations, Placed zones station)
    (row : InvoiceRow) (hrow : row = k.invoice new_id) (invoices : List InvoiceRow) :
    Agrees zones { t with invoices := invoices, tariffs := Billing.markDaily k.daily k.station.id now t.tariffs } row c
      stop := by
  have hstation : stationOf zones row = k.station := by
    have hzone := hplaced _ (Billing.RejectionsLemmas.sessionStation_mem k.station_eq).1
    subst hrow
    unfold Placed at hzone
    change (⟨k.station.id, zones k.station.id⟩ : Billing.Station) = k.station
    rw [← hzone]
  have hsid : row.station_id = k.station.id := hrow ▸ rfl
  have hnumeric : Billing.NumericColumns tables.meter_samples c.toChargingSession :=
    ⟨(h.metered c hc).start, (h.metered c hc).stop, hsamples ▸ h.numeric⟩
  have hprice := Accounting.recompute_invoice k hnumeric hended
  obtain ⟨g, hg, hmarks, hused⟩ := markDaily_eq k.station.id now k.daily t.tariffs
  have hlast : lastDay (zones row.station_id) c.toChargingSession stop t.occupation =
      k.station.timezone.localDate (Billing.billingEnd c.toChargingSession stop k.intervals - 1) := by
    unfold lastDay
    rw [← hintervals, Accounting.RecomputationLemmas.confirmedOccupation_eq k.intervals_eq, ← hstation]
    rfl
  refine ⟨hc, hrow ▸ rfl, hended, ?_, fun day hfirst hday => ?_⟩
  · have htotal : row.total_vnd = k.total := hrow ▸ rfl
    rw [hstation, htotal]
    refine (Accounting.recompute_congr hended ⟨rfl, ?_, ?_, fun day _ _ => ?_⟩).trans hprice
    · rw [hsamples]
    · exact congrArg _ hintervals.symm
    · change Option.map _ (lay_bieu_gia_hieu_luc (Billing.markDaily k.daily k.station.id now t.tariffs) _ _) = _
      rw [hmarks, hg.lay, Option.map_map]
      exact congrArg (Option.map · _) (funext hg.terms)
  · have hzone : zones row.station_id = k.station.timezone := congrArg Billing.Station.timezone hstation
    change day ≤ lastDay (zones row.station_id) c.toChargingSession stop t.occupation at hday
    rw [hlast] at hday
    rw [hzone] at hfirst
    obtain ⟨v, -, hlay, hversion, -⟩ := Billing._daily_tariffs_frames k.daily_eq hfirst hday
    refine ⟨g v, ?_, ?_⟩
    · change lay_bieu_gia_hieu_luc (Billing.markDaily k.daily k.station.id now t.tariffs) row.station_id day = _
      rw [hmarks, hg.lay, hsid, hlay, Option.map_some]
    · obtain ⟨d, hfind, rfl⟩ := Option.map_eq_some_iff.mp hversion
      exact hused d (List.mem_of_find?_eq_some hfind) _ rfl (lay_bieu_gia_hieu_luc_mem hlay).2.1

theorem move_all_agree (h : CoreOk t) (ha : AllAgree zones t) (hm : Move (Undisturbed zones) (Placed zones) now t t') :
    AllAgree zones t' := by
  have hold : ∀ i ∈ t.invoices, ∃ c stop, Agrees zones t' i c stop := by
    intro i hi
    obtain ⟨c, stop, hi'⟩ := ha.agrees i hi
    obtain ⟨c', hc'⟩ := move_agrees h ha.dated hm hi hi'
    exact ⟨c', stop, hc'⟩
  have hsame : t'.invoices = t.invoices → AllAgree zones t' := fun heq =>
    ⟨(move_tariffs ha.dated hm).1, fun i hi => hold i (heq ▸ hi)⟩
  cases hm with
  | seqs | sessions | insert | store | stop | connectors | tariffs | wallet | settle => exact hsame rfl
  | status status stamp c events | stopped c ended_at =>
    obtain ⟨intervals, seq, -, hflush⟩ := Core.flush_eq _ t
    exact hsame (by rw [hflush]; rfl)
  | invoice tables new_id c stop row b mem clean ended unbilled released samples intervals stations created =>
    have hdated := (move_tariffs ha.dated (Move.invoice (A := Undisturbed zones) t tables new_id c stop row b mem clean
      ended unbilled released samples intervals stations created)).1
    refine ⟨hdated, fun i hi => ?_⟩
    obtain ⟨k, hrow, -, rfl⟩ := wp_ok (Billing._create_invoice_ok tables new_id now _ stop _) created
    rcases List.mem_append.mp hi with hi | hi
    · exact hold i hi
    · rw [List.mem_singleton.mp hi]
      exact ⟨c, stop, invoice_agrees h k mem ended samples intervals stations row hrow _⟩

theorem moves_all_agree (h : CoreOk t) (ha : AllAgree zones t)
    (hm : Moves (Undisturbed zones) (Placed zones) now t t') : AllAgree zones t' := by
  induction hm with
  | refl => exact ha
  | tail hms hm ih => exact move_all_agree (Moves.ok h hms) ih hm

theorem all_agree_of_untouched (ha : AllAgree zones t) (h : Untouched t t') : AllAgree zones t' where
  dated := h.tariffs ▸ ha.dated
  agrees i hi := by
    obtain ⟨c, stop, hi'⟩ := ha.agrees i (h.invoices ▸ hi)
    have hoccupation : t'.occupation = t.occupation := congrArg (List.map _) h.intervals
    refine ⟨c, stop, h.sessions ▸ hi'.mem, hi'.id, hi'.ended, ?_, ?_⟩
    · rw [h.tariffs, hoccupation, h.samples]
      exact hi'.recomputed
    · rw [h.tariffs, hoccupation]
      exact hi'.versions

theorem step_all_agree {env : Environment} {s s' : Database} (hs : Sound s) (hz : Admits (Placed zones) env)
    (ha : AllAgree zones s.core) (h : UndisturbedStep zones env s s') : Sound s' ∧ AllAgree zones s'.core := by
  cases h with
  | call c _ permitted =>
    have hm : Moves (Undisturbed zones) (Placed zones) env.now s.core (c.run env s).2.core :=
      wp_state (c.moves hs.core hz permitted)
    exact ⟨(Step.call c s).sound hs, moves_all_agree hs.core ha hm⟩
  | aside _ _ step untouched => exact ⟨step.sound hs, all_agree_of_untouched ha untouched⟩

/-- Without invoices every call is permitted. -/
theorem permitted_of_none {s : Database} (h : s.invoices = []) (c : Call) (now : ℤ) :
    c.Permitted (Undisturbed zones) now s := by
  have hnone : s.core.invoices = [] := h
  cases c with
  | meter_values charger message_id payload =>
    intro c c' rows _ _ _ hbilled
    obtain ⟨i, hi, -⟩ := hbilled
    exact absurd (hnone ▸ hi) List.not_mem_nil
  | tariff stations op => exact fun i hi => absurd (hnone ▸ hi) List.not_mem_nil
  | _ => trivial

end AgreementLemmas

/-- Where every call is permitted, every step is undisturbed. -/
theorem Step.undisturbed {zones : ℕ → Zone} {env : Environment} {s s' : Database} (h : Step env s s')
    (permitted : ∀ c : Call, c.Permitted (Undisturbed zones) env.now s) : UndisturbedStep zones env s s' := by
  cases h with
  | call c => exact .call c s (permitted c)
  | undone c => exact .aside _ _ (.undone c s) ⟨rfl, rfl, rfl, rfl, rfl⟩
  | money c _ outer => exact .aside _ _ (.money c s outer) ⟨rfl, rfl, rfl, rfl, rfl⟩
  | refused c _ raised => exact .aside _ _ (.refused c s raised) ⟨rfl, rfl, rfl, rfl, rfl⟩
  | rest _ _ core connectors =>
    refine .aside _ _ (.rest s s' core connectors) ?_
    rw [core]
    exact ⟨rfl, rfl, rfl, rfl, rfl⟩

open AgreementLemmas

/-- Take any run in which no report stores a register reading within a session that has an invoice, and no call gives
a tariff to a day that was billed. In every state it reaches, and for every invoice there,
`execute_reconciliation_run` finds the total again from the tariffs, and reports no mismatch of its price. -/
theorem reconciliation_agrees {zones : ℕ → Zone} {s₀ s : Database} (sound : Sound s₀) (opening : s₀.invoices = [])
    (dated : Dated s₀.tariffs) (run : UndisturbedRun zones s₀ s) : ∀ i ∈ s.invoices, ∃ c ∈ s.charging_sessions,
      c.id = i.session_id ∧ Accounting.execute_reconciliation_run (stationOf zones i) s.tariffs s.core.occupation
        s.meter_samples c.toChargingSession i = .ok ⟨i.total_vnd, true, false⟩ := by
  have hall : Sound s ∧ AllAgree zones s.core := by
    induction run with
    | refl =>
      have hnone : s₀.core.invoices = [] := opening
      exact ⟨sound, dated, fun i hi => absurd (hnone ▸ hi) List.not_mem_nil⟩
    | tail _ hstep ih =>
      obtain ⟨env, hz, hstep⟩ := hstep
      exact step_all_agree ih.1 hz ih.2 hstep
  intro i hi
  obtain ⟨c, stop, ha⟩ := hall.2.agrees i hi
  refine ⟨c, ha.mem, ha.id, ?_⟩
  have hprice : recompute (stationOf zones i) s.tariffs s.core.occupation s.meter_samples c.toChargingSession =
      .ok (some i.total_vnd, false) := ha.recomputed
  unfold Accounting.execute_reconciliation_run
  rw [hprice]
  simp

namespace OneInvoice

open OneSession

theorem placed_town (now : ℤ) : Admits (Placed fun _ => Zone.fixed 0) (town now) := by
  intro st hst
  rw [List.mem_singleton.mp hst]
  rfl

end OneInvoice

open OneInvoice

theorem reconciliation_agrees_one_hour : billed.invoices.map (·.total_vnd) = [10000] ∧
    ∀ i ∈ billed.invoices, ∃ c ∈ billed.charging_sessions, c.id = i.session_id ∧
      Accounting.execute_reconciliation_run (stationOf (fun _ => Zone.fixed 0) i) billed.tariffs billed.core.occupation
        billed.meter_samples c.toChargingSession i = .ok ⟨i.total_vnd, true, false⟩ := by
  have hrun : UndisturbedRun (fun _ => Zone.fixed 0) priced billed :=
    (Relation.ReflTransGen.single ⟨_, placed_town _, (Step.call _ priced).undisturbed fun c => permitted_of_none rfl c _⟩).tail
      ⟨_, placed_town _, (Step.call _ unplugged).undisturbed fun c => permitted_of_none (by decide +kernel) c _⟩
  have hdated : Dated priced.tariffs := by
    refine ⟨List.pairwise_singleton _ _, fun x hx y hy _ _ => ?_⟩
    rw [List.mem_singleton.mp hx, List.mem_singleton.mp hy]
  exact ⟨by decide +kernel, reconciliation_agrees priced_sound rfl hdated hrun⟩

end Csms.Charging
