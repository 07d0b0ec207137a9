import Csms.Accounting.Fallback
import Csms.Billing.Integrity
import Csms.Pricing.History

/-!
# The recomputed price of a session (`accounting/service.py`)

`execute_reconciliation_run` prices a session again from its samples, its occupation and the tariffs, as they are
when it runs, and compares the sum with the total of the invoice.

Results:
1. `recompute_invoice`: an invoice is priced again at its total.
2. `recompute_congr`: what the recomputation depends on.
-/

namespace Csms.Accounting

open Csms.Billing Csms.Pricing Outcome RejectionsLemmas IntegrityLemmas

/-! ## 1. The code -/

/-- `standardized_readings`: the samples, or the two ends of the session where they are refused. -/
def standardized_readings (samples : List MeterSample) (charging : ChargingSession) (meter_start meter_stop : ℚ)
    (stop : ℤ) : List MeterValue :=
  match _meter_values samples charging stop with
  | .ok readings => readings
  | .error _ => [⟨charging.started_at, meter_start⟩, ⟨stop, meter_stop⟩]

/-- The confirmed intervals of a session, in the order of the query. -/
def confirmedOccupation (intervals : List OccupationInterval) (charging : ChargingSession) : List OccupationInterval :=
  if charging.billing_lifecycle_version = 1 then
    (intervals.filter fun i => i.session_id = charging.id ∧ i.confirmed).insertionSort
      fun a b => a.started_at ≤ b.started_at
  else []

/-- `recomputed_idle_lines`. -/
def recomputed_idle_lines (tz : Zone) (charging : ChargingSession) (stop : ℤ) (intervals : List OccupationInterval)
    (daily : List DailyTariff) : Except BillingError (List InvoiceLine) :=
  if charging.billing_lifecycle_version = 0 then
    match charging.idle_since with
    | some idle => if idle < stop then _idle_lines tz charging.started_at stop daily (some idle) else .ok []
    | none => .ok []
  else do
    let lines ← intervals.mapM fun i =>
      match i.ended_at with
      | some ended_at => _idle_lines tz charging.started_at ended_at daily (some i.started_at)
      | none => .ok []
    return lines.flatten

/-- `recomputed_session_vnd`, from the tariffs of the station. -/
def recomputed_session_vnd (station : Billing.Station) (tariffs : List Tariff) (intervals : List OccupationInterval)
    (charging : ChargingSession) (stop : ℤ) (readings : List MeterValue) : Except BillingError ℤ := do
  let daily ← _daily_tariffs tariffs station.id station.timezone charging.started_at (billingEnd charging stop intervals)
  let segments ← chia_doan 50 station.timezone charging.started_at stop readings (framesOf daily)
  let idle ← recomputed_idle_lines station.timezone charging stop intervals daily
  return (segments.map (·.amount_vnd)).sum + (idle.map (·.amount_vnd)).sum

/-- The exceptions that leave the run. -/
inductive RunFailure where
  | billing (e : BillingError)
  | decimal (e : DecimalFailure)
  deriving DecidableEq, Repr

/-- What the run finds out about the price of an invoice. -/
structure PricingCheck where
  recomputed_session_vnd : ℤ
  tariff_matched : Bool
  pricing_mismatch : Bool
  deriving DecidableEq, Repr

/-- The recomputation from the tariffs: its price, and whether an issue says that there are none. -/
def recompute (station : Billing.Station) (tariffs : List Tariff) (intervals : List OccupationInterval)
    (samples : List MeterSample) (charging : ChargingSession) : Except RunFailure (Option ℤ × Bool) :=
  match charging.ended_at, charging.meter_start_wh, charging.meter_stop_wh with
  | some stop, some meter_start, some meter_stop =>
    if meter_stop < meter_start then .ok (none, false)
    else
      match recomputed_session_vnd station tariffs (confirmedOccupation intervals charging) charging stop
          (standardized_readings samples charging meter_start meter_stop stop) with
      | .ok total => .ok (some total, false)
      | .error (.invalidInvoice _) => .ok (none, true)
      | .error (.valueError _) => .ok (none, false)
      | .error e => .error (.billing e)
  | _, _, _ => .ok (none, false)

/-- `execute_reconciliation_run`, for the price of the invoice of one session. Without tariffs the lines of the
invoice are priced. -/
def execute_reconciliation_run (station : Billing.Station) (tariffs : List Tariff) (intervals : List OccupationInterval)
    (samples : List MeterSample) (charging : ChargingSession) (invoice : InvoiceRow) : Except RunFailure PricingCheck :=
  match recompute station tariffs intervals samples charging with
  | .error e => .error e
  | .ok (some total, missing) => .ok ⟨total, true, missing || decide (invoice.total_vnd ≠ total)⟩
  | .ok (none, missing) =>
    match lines_recomputed invoice.lines with
    | .error e => .error (.decimal e)
    | .ok total => .ok ⟨total, false, missing || decide (invoice.total_vnd ≠ total)⟩

/-- The last local date that an invoice of the session needs a tariff for. -/
def lastDay (tz : Zone) (charging : ChargingSession) (stop : ℤ) (intervals : List OccupationInterval) : ℤ :=
  tz.localDate (billingEnd charging stop (confirmedOccupation intervals charging) - 1)

/-! ## 2. Tariffs with the same terms -/

/-- The tariffs of a day, up to the mark of their use. -/
structure SameTerms (a b : DailyTariff) : Prop where
  day : a.day = b.day
  frames : a.frames = b.frames
  version : a.version.terms = b.version.terms

namespace RecomputationLemmas

variable {tz : Zone} {daily daily' : List DailyTariff} {charging charging' : ChargingSession} {stop : ℤ}

theorem of_terms {x y : Tariff} (h : x.terms = y.terms) :
    x.id = y.id ∧ x.bands = y.bands ∧ x.idle_rate_vnd_per_minute = y.idle_rate_vnd_per_minute ∧
      x.grace_minutes = y.grace_minutes := by
  simp only [Tariff.terms, Tariff.mk.injEq] at h
  exact ⟨h.1, h.2.2.2.2.2.2, h.2.2.2.2.1, h.2.2.2.2.2.1⟩

theorem tariffFrames_congr {x y : Tariff} (h : x.terms = y.terms) : tariffFrames x = tariffFrames y := by
  obtain ⟨hid, hbands, -⟩ := of_terms h
  unfold tariffFrames storedBands
  rw [hid, hbands]

theorem dailyTariff_congr {tariffs tariffs' : List Tariff} {station_id : ℕ} {day : ℤ}
    (h : (lay_bieu_gia_hieu_luc tariffs' station_id day).map Tariff.terms =
      (lay_bieu_gia_hieu_luc tariffs station_id day).map Tariff.terms) :
    Alike SameTerms (dailyTariff tariffs station_id day) (dailyTariff tariffs' station_id day) := by
  unfold dailyTariff
  cases hx : lay_bieu_gia_hieu_luc tariffs station_id day with
  | none =>
    rw [hx, Option.map_none, Option.map_eq_none_iff] at h
    rw [h]
    exact .error _
  | some x =>
    rw [hx, Option.map_some] at h
    obtain ⟨y, hy, hterms⟩ := Option.map_eq_some_iff.mp h
    simp only [hy, tariffFrames_congr hterms]
    cases tariffFrames x with
    | error e => exact .error e
    | ok frames => exact .ok ⟨rfl, rfl, hterms.symm⟩

/-- The days of a session, when each of them keeps its terms. -/
theorem daily_congr {tariffs tariffs' : List Tariff} {station_id : ℕ} {start last : ℤ}
    (h : ∀ day, tz.localDate start ≤ day → day ≤ tz.localDate (last - 1) →
      (lay_bieu_gia_hieu_luc tariffs' station_id day).map Tariff.terms =
        (lay_bieu_gia_hieu_luc tariffs station_id day).map Tariff.terms) :
    Alike (List.Forall₂ SameTerms) (_daily_tariffs tariffs station_id tz start last)
      (_daily_tariffs tariffs' station_id tz start last) := by
  refine Alike.mapM fun day hday => dailyTariff_congr (h day ?_ ?_)
  · exact (mem_dateRange.mp hday).1
  · exact (mem_dateRange.mp hday).2

theorem find_congr (h : List.Forall₂ SameTerms daily daily') (day : ℤ) :
    (daily.find? (·.day = day) = none ∧ daily'.find? (·.day = day) = none) ∨
      ∃ a b, daily.find? (·.day = day) = some a ∧ daily'.find? (·.day = day) = some b ∧ SameTerms a b := by
  induction h with
  | nil => exact .inl ⟨rfl, rfl⟩
  | @cons a b l l' hab _ ih =>
    by_cases hday : a.day = day
    · refine .inr ⟨a, b, ?_, ?_, hab⟩
      · exact List.find?_cons_of_pos (decide_eq_true hday)
      · exact List.find?_cons_of_pos (decide_eq_true (hab.day.symm.trans hday))
    · rw [List.find?_cons_of_neg (by simpa using hday), List.find?_cons_of_neg (by simpa [← hab.day] using hday)]
      exact ih

theorem framesOf_congr (h : List.Forall₂ SameTerms daily daily') : framesOf daily = framesOf daily' := by
  funext day
  unfold framesOf
  rcases find_congr h day with ⟨ha, hb⟩ | ⟨a, b, ha, hb, hab⟩
  · rw [ha, hb]
  · rw [ha, hb, Option.map_some, Option.map_some, hab.frames]

theorem versionOf_congr (h : List.Forall₂ SameTerms daily daily') (day : ℤ) :
    (versionOf daily day).map Tariff.terms = (versionOf daily' day).map Tariff.terms := by
  unfold versionOf
  rcases find_congr h day with ⟨ha, hb⟩ | ⟨a, b, ha, hb, hab⟩
  · rw [ha, hb]
  · rw [ha, hb, Option.map_some, Option.map_some, Option.map_some, Option.map_some, hab.version]

theorem idleDays_congr (h : List.Forall₂ SameTerms daily daily') :
    ∀ (turns : ℕ) (anchor count : ℤ), idleDays tz daily stop turns anchor count =
      idleDays tz daily' stop turns anchor count := by
  intro turns
  induction turns with
  | zero =>
    intro anchor count
    unfold idleDays
    rfl
  | succ turns ih =>
    intro anchor count
    unfold idleDays
    have hversion := versionOf_congr h (tz.localDate anchor)
    cases hx : versionOf daily (tz.localDate anchor) with
    | none =>
      rw [hx, Option.map_none] at hversion
      simp only [hx, Option.map_eq_none_iff.mp hversion.symm]
    | some x =>
      rw [hx, Option.map_some] at hversion
      obtain ⟨y, hy, hterms⟩ := Option.map_eq_some_iff.mp hversion.symm
      obtain ⟨hid, -, hrate, -⟩ := of_terms hterms
      simp only [hx, hy, hid, hrate, ih]

theorem _idle_lines_congr (h : List.Forall₂ SameTerms daily daily') (started_at stop : ℤ) (idle : Option ℤ) :
    _idle_lines tz started_at stop daily idle = _idle_lines tz started_at stop daily' idle := by
  unfold _idle_lines
  cases idle with
  | none => rfl
  | some idle =>
    have hversion := versionOf_congr h (tz.localDate idle)
    cases hx : versionOf daily (tz.localDate idle) with
    | none =>
      rw [hx, Option.map_none] at hversion
      simp only [hx, Option.map_eq_none_iff.mp hversion.symm]
    | some x =>
      rw [hx, Option.map_some] at hversion
      obtain ⟨y, hy, hterms⟩ := Option.map_eq_some_iff.mp hversion.symm
      obtain ⟨-, -, -, hgrace⟩ := of_terms hterms
      simp only [hx, hy, hgrace, idleDays_congr h]

theorem recomputed_idle_lines_congr (h : List.Forall₂ SameTerms daily daily') (intervals : List OccupationInterval) :
    recomputed_idle_lines tz charging stop intervals daily = recomputed_idle_lines tz charging stop intervals daily' := by
  unfold recomputed_idle_lines
  simp only [_idle_lines_congr h]

end RecomputationLemmas

open RecomputationLemmas

/-! ## 3. An invoice is priced again at its total -/

namespace RecomputationLemmas

variable {tz : Zone} {charging : ChargingSession} {stop : ℤ} {intervals found : List OccupationInterval}
variable {daily : List DailyTariff} {idle : List InvoiceLine}

theorem standardized_readings_eq {samples : List MeterSample} {readings : List MeterValue}
    (h : _meter_values samples charging stop = .ok readings) (a b : ℚ) :
    standardized_readings samples charging a b stop = readings := by
  unfold standardized_readings
  rw [h]

/-- The intervals that are billed are the confirmed ones. -/
theorem confirmedOccupation_eq (h : confirmedIntervals intervals charging = .ok found) :
    confirmedOccupation intervals charging = found := by
  unfold confirmedIntervals at h
  unfold confirmedOccupation
  split at h
  · next hversion =>
    rw [if_pos hversion]
    split at h
    · cases h
    · dsimp only at h
      split at h
      · cases h
      · exact Except.ok.inj h
  · next hversion =>
    rw [if_neg hversion]
    exact Except.ok.inj h

/-- Idle lines that were billed are found again. -/
theorem recomputed_idle_lines_eq (h : sessionIdleLines tz charging stop found daily = .ok idle) :
    recomputed_idle_lines tz charging stop found daily = .ok idle := by
  unfold sessionIdleLines at h
  unfold recomputed_idle_lines
  split at h
  · next hversion =>
    rw [if_pos hversion]
    cases hidle : charging.idle_since with
    | none =>
      rw [hidle] at h
      exact h
    | some start =>
      rw [hidle] at h
      dsimp only
      split
      · exact h
      · next hlate =>
        simp only [_idle_lines] at h
        split at h
        · cases h
        next hrange =>
        rw [if_pos (by omega)] at h
        exact h
  · next hversion =>
    rw [if_neg hversion]
    obtain ⟨blocks, hblocks, h⟩ := bind_eq_ok.mp h
    cases h
    have hsame := forall₂_imp_of_mem (forall₂_of_mapM_ok hblocks) (S := fun i block =>
      (match i.ended_at with
        | some ended_at => _idle_lines tz charging.started_at ended_at daily (some i.started_at)
        | none => .ok []) = .ok block) fun i _ block hblock => by
      cases hend : i.ended_at with
      | none =>
        rw [hend] at hblock
        cases hblock
      | some ended_at =>
        rw [hend] at hblock
        exact hblock
    rw [mapM_of_forall₂ hsame]
    rfl

/-- The stop reading is not below the start reading. -/
theorem meter_ends_le {samples : List MeterSample} {readings : List MeterValue} (hn : NumericColumns samples charging)
    (hlt : charging.started_at < stop) (h : _meter_values samples charging stop = .ok readings) :
    ∃ a b, charging.meter_start_wh = some a ∧ charging.meter_stop_wh = some b ∧ a ≤ b := by
  obtain ⟨a, b, ha, hb, hma, hmb⟩ := meter_values_ends hlt h
  have hr := ((_meter_values_spec hn hlt).2 _ h).1
  have htimes := InterpolationLemmas.increasing_pairwise hr.increasing
  have henergies : readings.Pairwise fun x y => x.energy_wh ≤ y.energy_wh :=
    List.isChain_iff_pairwise.mp (List.IsChain.imp (fun _ _ hxy => hxy.2) hr.increasing)
  refine ⟨a, b, ha, hb, ?_⟩
  obtain ⟨i, hi, hia⟩ := List.getElem_of_mem hma
  obtain ⟨j, hj, hjb⟩ := List.getElem_of_mem hmb
  rcases lt_trichotomy i j with hij | rfl | hij
  · have := List.pairwise_iff_getElem.mp henergies i j hi hj hij
    rwa [hia, hjb] at this
  · have heq := hia.symm.trans hjb
    exact absurd (congrArg MeterValue.timestamp heq) hlt.ne
  · have := List.pairwise_iff_getElem.mp htimes j i hj hi hij
    rw [hia, hjb] at this
    exact absurd this (not_lt.mpr hlt.le)

end RecomputationLemmas

open RecomputationLemmas

/-- An invoice is priced again at its total, from what it was made from. -/
theorem recompute_invoice {tables : StationTables} {tariffs : List Tariff} {charging : ChargingSession} {stop : ℤ}
    (k : Computation tables tariffs charging stop) (hn : NumericColumns tables.meter_samples charging)
    (hended : charging.ended_at = some stop) :
    recompute k.station tariffs tables.occupation_intervals tables.meter_samples charging =
      .ok (some k.total, false) := by
  obtain ⟨a, b, ha, hb, hle⟩ := meter_ends_le hn k.interval k.readings_eq
  obtain ⟨segments, idle, hchia, hidle, hlines⟩ := invoiceLines_parts k.lines_eq
  have htotal : k.total = (segments.map (·.amount_vnd)).sum + (idle.map (·.amount_vnd)).sum := by
    rw [Computation.total, hlines, List.map_append, List.sum_append, List.map_map]
    rfl
  have hprice : recomputed_session_vnd k.station tariffs k.intervals charging stop k.readings = .ok k.total := by
    unfold recomputed_session_vnd
    rw [k.daily_eq]
    simp only [bind, Except.bind, hchia, recomputed_idle_lines_eq hidle, htotal]
    rfl
  unfold recompute
  simp only [hended, ha, hb, if_neg (not_lt.mpr hle), standardized_readings_eq k.readings_eq,
    confirmedOccupation_eq k.intervals_eq, hprice]

/-! ## 4. What the recomputation depends on -/

/-- The later rows price the session as the rows before: the session changed at most its reasons and its
settlement, its register has the same samples, its occupation the same intervals, and each day that it needs a
tariff for has one with the same terms. -/
structure SameInputs (station : Billing.Station) (stop : ℤ) (charging charging' : ChargingSession)
    (samples samples' : List MeterSample) (intervals intervals' : List OccupationInterval)
    (tariffs tariffs' : List Tariff) : Prop where
  session : charging' =
    { charging with review_reasons := charging'.review_reasons, settlement := charging'.settlement }
  register : registerSamples samples' charging stop = registerSamples samples charging stop
  occupation : intervals'.filter (·.session_id = charging.id) = intervals.filter (·.session_id = charging.id)
  prices : ∀ day, station.timezone.localDate charging.started_at ≤ day →
    day ≤ lastDay station.timezone charging stop intervals →
    (lay_bieu_gia_hieu_luc tariffs' station.id day).map Tariff.terms =
      (lay_bieu_gia_hieu_luc tariffs station.id day).map Tariff.terms

theorem confirmedOccupation_congr {charging : ChargingSession} {intervals intervals' : List OccupationInterval}
    (h : intervals'.filter (·.session_id = charging.id) = intervals.filter (·.session_id = charging.id)) :
    confirmedOccupation intervals' charging = confirmedOccupation intervals charging := by
  have hfilter : ∀ l : List OccupationInterval, l.filter (fun i => i.session_id = charging.id ∧ i.confirmed) =
      (l.filter (·.session_id = charging.id)).filter (·.confirmed) := by
    intro l
    rw [List.filter_filter]
    refine List.filter_congr fun i _ => ?_
    rw [Bool.decide_and, Bool.and_comm, Bool.decide_eq_true]
  unfold confirmedOccupation
  rw [hfilter, hfilter, h]

theorem recompute_congr {station : Billing.Station} {stop : ℤ} {charging charging' : ChargingSession}
    {samples samples' : List MeterSample} {intervals intervals' : List OccupationInterval}
    {tariffs tariffs' : List Tariff} (hended : charging.ended_at = some stop)
    (h : SameInputs station stop charging charging' samples samples' intervals intervals' tariffs tariffs') :
    recompute station tariffs' intervals' samples' charging' = recompute station tariffs intervals samples charging := by
  have hsession : recompute station tariffs' intervals' samples' charging' =
      recompute station tariffs' intervals' samples' charging := by
    rw [h.session]
    rfl
  have hreadings : _meter_values samples' charging stop = _meter_values samples charging stop := by
    unfold _meter_values
    rw [h.register]
  have hoccupation := confirmedOccupation_congr h.occupation
  have hprice : ∀ readings, recomputed_session_vnd station tariffs' (confirmedOccupation intervals charging) charging
      stop readings = recomputed_session_vnd station tariffs (confirmedOccupation intervals charging) charging stop
      readings := by
    intro readings
    refine (Alike.eq ((daily_congr h.prices).bind fun daily daily' hdaily => ?_)).symm
    simp only [framesOf_congr hdaily, recomputed_idle_lines_congr hdaily]
    cases hx : (do
        let segments ← chia_doan 50 station.timezone charging.started_at stop readings (framesOf daily')
        let idle ← recomputed_idle_lines station.timezone charging stop (confirmedOccupation intervals charging) daily'
        return (segments.map (·.amount_vnd)).sum + (idle.map (·.amount_vnd)).sum : Except BillingError ℤ) with
    | error e => exact .error e
    | ok total => exact .ok rfl
  rw [hsession]
  unfold recompute
  rw [hended]
  cases charging.meter_start_wh with
  | none => rfl
  | some meter_start =>
    cases charging.meter_stop_wh with
    | none => rfl
    | some meter_stop => simp only [hoccupation, hprice, standardized_readings, hreadings]

end Csms.Accounting
