import Csms.Billing.Daylight
import Csms.Billing.IdleFee

/-!
# What invoicing raises

`lap_hoa_don` turns a rejection of the business rules into a review reason. Everything else that
`_create_invoice` raises reaches the caller, whose transaction is rolled back and tried again.

Results:
1. `_meter_values_spec`: the readings of a session are well formed, or the session is rejected.
2. `invoiceLines_spec`: when the lines of an invoice can be computed.
3. `lap_hoa_don_returns_iff`: when `lap_hoa_don` ends with a result; `lap_hoa_don_raises_in_spring`: a
   night in which it does not.
-/

namespace Csms.Billing

open Csms.Pricing Tx Decimal Pairs Outcome

/-! ## 1. Readings -/

/-- The values of the `NUMERIC(24,6)` columns that the readings of a session come from. -/
structure NumericColumns (samples : List MeterSample) (charging : ChargingSession) : Prop where
  start : ∀ v ∈ charging.meter_start_wh, Numeric v
  stop : ∀ v ∈ charging.meter_stop_wh, Numeric v
  samples : ∀ m ∈ samples, ∀ v ∈ m.value, Numeric v

namespace RejectionsLemmas

/-- The dictionary of readings while samples are added. -/
structure Dict (start stop : ℤ) (readings : List MeterValue) : Prop where
  keys : readings.Pairwise fun a b => a.timestamp ≠ b.timestamp
  range : ∀ mv ∈ readings, start ≤ mv.timestamp ∧ mv.timestamp ≤ stop
  value : ∀ mv ∈ readings, 0 ≤ mv.energy_wh ∧ Numeric mv.energy_wh
  first : ∃ mv ∈ readings, mv.timestamp = start
  last : ∃ mv ∈ readings, mv.timestamp = stop

theorem valid_reading_eq {value : Option ℚ} {v : ℚ} (h : _valid_reading value = some v) :
    value = some v ∧ 0 ≤ v := by
  have := Option.filter_eq_some_iff.mp h
  simpa using this

theorem addSample_spec {start stop : ℤ} {readings : List MeterValue} (hd : Dict start stop readings)
    {sample : MeterSample} (hs : start ≤ sample.timestamp ∧ sample.timestamp ≤ stop)
    (hn : ∀ v ∈ sample.value, Numeric v) :
    Raises (fun e => ¬ Stray e) (addSample readings sample) ∧
    ∀ result, addSample readings sample = .ok result → Dict start stop result := by
  unfold addSample
  split
  · exact ⟨raises_error.mpr fun h => h _ rfl, nofun⟩
  next value hvalue =>
  split
  · split
    · exact ⟨raises_ok, fun result h => by cases h; exact hd⟩
    · exact ⟨raises_error.mpr fun h => h _ rfl, nofun⟩
  next hnone =>
  refine ⟨raises_ok, fun result h => ?_⟩
  cases h
  have hval : sample.value = some value ∧ 0 ≤ value := by
    split at hvalue
    · exact valid_reading_eq hvalue
    · cases hvalue
  refine ⟨List.pairwise_append.mpr ⟨hd.keys, List.pairwise_singleton _ _, fun a ha b hb => ?_⟩,
    fun mv hmv => ?_, fun mv hmv => ?_, ?_, ?_⟩
  · rw [List.mem_singleton.mp hb]
    exact fun heq => List.find?_eq_none.mp hnone a ha (by simpa using heq)
  · rcases List.mem_append.mp hmv with hmv | hmv
    · exact hd.range mv hmv
    · rw [List.mem_singleton.mp hmv]
      exact hs
  · rcases List.mem_append.mp hmv with hmv | hmv
    · exact hd.value mv hmv
    · rw [List.mem_singleton.mp hmv]
      exact ⟨hval.2, hn value hval.1⟩
  · obtain ⟨mv, hmv, h⟩ := hd.first
    exact ⟨mv, List.mem_append_left _ hmv, h⟩
  · obtain ⟨mv, hmv, h⟩ := hd.last
    exact ⟨mv, List.mem_append_left _ hmv, h⟩

theorem foldlM_addSample_spec {start stop : ℤ} :
    ∀ {samples : List MeterSample} {readings : List MeterValue}, Dict start stop readings →
      (∀ m ∈ samples, (start ≤ m.timestamp ∧ m.timestamp ≤ stop) ∧ ∀ v ∈ m.value, Numeric v) →
      Raises (fun e => ¬ Stray e) (samples.foldlM addSample readings) ∧
      ∀ result, samples.foldlM addSample readings = .ok result → Dict start stop result
  | [], readings, hd, _ => ⟨raises_ok, fun result h => by cases h; exact hd⟩
  | m :: samples, readings, hd, hm => by
    obtain ⟨h1, h2⟩ := addSample_spec hd (hm m List.mem_cons_self).1 (hm m List.mem_cons_self).2
    rw [List.foldlM_cons]
    have hrest := fun result (h : addSample readings m = .ok result) =>
      foldlM_addSample_spec (h2 result h) fun x hx => hm x (List.mem_cons_of_mem _ hx)
    refine ⟨raises_bind.mpr ⟨h1, fun result h => (hrest result h).1⟩, fun result h => ?_⟩
    obtain ⟨r, hr, h⟩ := bind_eq_ok.mp h
    exact (hrest r hr).2 result h

/-- The sorted dictionary, once its energies are in order too. -/
theorem readings_of_dict {start stop : ℤ} {readings : List MeterValue} (hd : Dict start stop readings)
    (henergy : ∀ p ∈ pairs (readings.insertionSort fun a b => a.timestamp ≤ b.timestamp),
      p.1.energy_wh ≤ p.2.energy_wh) :
    Readings start stop (readings.insertionSort fun a b => a.timestamp ≤ b.timestamp) := by
  set r : MeterValue → MeterValue → Prop := fun a b => a.timestamp ≤ b.timestamp
  have htotal : Std.Total r := ⟨fun a b => le_total a.timestamp b.timestamp⟩
  have htrans : IsTrans MeterValue r := ⟨fun _ _ _ h h' => h.trans h'⟩
  have hsorted : (readings.insertionSort r).Pairwise r := List.pairwise_insertionSort r readings
  have hkeys : (readings.insertionSort r).Pairwise fun a b => a.timestamp ≠ b.timestamp :=
    ((List.perm_insertionSort r readings).pairwise_iff fun h => h.symm).mpr hd.keys
  have hmem : ∀ mv, mv ∈ readings.insertionSort r ↔ mv ∈ readings := fun mv => List.mem_insertionSort r
  have hstrict : (readings.insertionSort r).Pairwise fun a b => a.timestamp < b.timestamp :=
    (hsorted.and hkeys).imp fun h => lt_of_le_of_ne h.1 h.2
  refine ⟨isChain_of_pairs fun p hp => ⟨rel_of_mem_pairs hstrict.isChain hp, henergy p hp⟩,
    fun mv hmv => (hd.value mv ((hmem mv).mp hmv)).1, ?_, ?_⟩
  · obtain ⟨mv, hmv, hts⟩ := hd.first
    cases hl : readings.insertionSort r with
    | nil => exact absurd ((hmem mv).mpr hmv) (by rw [hl]; exact List.not_mem_nil)
    | cons a rest =>
      have ha : a ∈ readings := (hmem a).mp (by rw [hl]; exact List.mem_cons_self)
      have hle : a.timestamp ≤ mv.timestamp := by
        have hmv' := (hmem mv).mpr hmv
        rw [hl] at hmv' hsorted
        rcases List.mem_cons.mp hmv' with rfl | hmv'
        · exact le_rfl
        · exact (List.pairwise_cons.mp hsorted).1 mv hmv'
      have := (hd.range a ha).1
      simp only [List.head?_cons, Option.map_some, Option.some.injEq]
      omega
  · obtain ⟨mv, hmv, hts⟩ := hd.last
    have hne : readings.insertionSort r ≠ [] := List.ne_nil_of_mem ((hmem mv).mpr hmv)
    rw [List.getLast?_eq_some_getLast hne]
    set last := (readings.insertionSort r).getLast hne with hlast
    have hl : last ∈ readings := (hmem last).mp (List.getLast_mem hne)
    have hle : mv.timestamp ≤ last.timestamp := by
      have hmv' := (hmem mv).mpr hmv
      rw [← List.dropLast_append_getLast hne] at hmv' hsorted
      rcases List.mem_append.mp hmv' with hmv' | hmv'
      · exact (List.pairwise_append.mp hsorted).2.2 mv hmv' _ (List.mem_singleton_self _)
      · rw [List.mem_singleton.mp hmv']
    have := (hd.range last hl).2
    simp only [Option.map_some, Option.some.injEq]
    omega

end RejectionsLemmas

open RejectionsLemmas

/-- The readings of a session run from its start to its end and never decrease, or the session is
rejected. -/
theorem _meter_values_spec {samples : List MeterSample} {charging : ChargingSession} {stop : ℤ}
    (hn : NumericColumns samples charging) (hlt : charging.started_at < stop) :
    Raises (fun e => ¬ Stray e) (_meter_values samples charging stop) ∧
    ∀ readings, _meter_values samples charging stop = .ok readings →
      Readings charging.started_at stop readings ∧ ∀ mv ∈ readings, Numeric mv.energy_wh := by
  unfold _meter_values
  split
  swap
  · exact ⟨raises_error.mpr fun h => h _ rfl, nofun⟩
  next start_wh stop_wh hstart hstop =>
  obtain ⟨hs, hs0⟩ := valid_reading_eq hstart
  obtain ⟨he, he0⟩ := valid_reading_eq hstop
  rw [if_neg hlt.ne]
  have hdict : Dict charging.started_at stop [⟨charging.started_at, start_wh⟩, ⟨stop, stop_wh⟩] := by
    refine ⟨by simp [hlt.ne], ?_, ?_, ⟨_, List.mem_cons_self, rfl⟩, ⟨⟨stop, stop_wh⟩, by simp, rfl⟩⟩
    · simp only [List.mem_cons, List.not_mem_nil, or_false]
      rintro mv (rfl | rfl)
      · exact ⟨le_rfl, hlt.le⟩
      · exact ⟨hlt.le, le_rfl⟩
    · simp only [List.mem_cons, List.not_mem_nil, or_false]
      rintro mv (rfl | rfl)
      · exact ⟨hs0, hn.start _ hs⟩
      · exact ⟨he0, hn.stop _ he⟩
  have hsamples : ∀ m ∈ registerSamples samples charging stop,
      (charging.started_at ≤ m.timestamp ∧ m.timestamp ≤ stop) ∧ ∀ v ∈ m.value, Numeric v := by
    intro m hm
    have hmem := List.mem_filter.mp ((List.mem_insertionSort _).mp hm)
    have hcond := of_decide_eq_true hmem.2
    exact ⟨⟨hcond.2.1, hcond.2.2.1⟩, hn.samples m hmem.1⟩
  obtain ⟨hraises, hok⟩ := foldlM_addSample_spec hdict hsamples
  refine ⟨raises_bind.mpr ⟨hraises, fun readings h => ?_⟩, fun readings h => ?_⟩
  · dsimp only
    split
    · exact raises_error.mpr fun h => h _ rfl
    · exact raises_ok
  · obtain ⟨dict, hd, h⟩ := bind_eq_ok.mp h
    dsimp only at h
    split at h
    · cases h
    next hdown =>
    cases h
    have hd' := hok dict hd
    refine ⟨readings_of_dict hd' fun p hp => ?_, fun mv hmv => ?_⟩
    · by_contra hlt'
      exact hdown (List.any_eq_true.mpr ⟨p, hp, by simpa using hlt'⟩)
    · exact (hd'.value mv ((List.mem_insertionSort _).mp hmv)).2

/-! ## 2. Tariffs, station and occupation -/

/-- The checks on the stored tariffs. -/
def StoredTariffs (tariffs : List Tariff) : Prop :=
  ∀ t ∈ tariffs, 0 ≤ t.idle_rate_vnd_per_minute ∧ 0 ≤ t.grace_minutes

theorem _daily_tariffs_raises (tariffs : List Tariff) (station_id : ℕ) (tz : Zone) (start stop : ℤ) :
    Raises (fun e => ¬ Stray e) (_daily_tariffs tariffs station_id tz start stop) := by
  refine raises_mapM fun day _ => ?_
  unfold dailyTariff tariffFrames
  split
  · exact raises_error.mpr fun h => h _ rfl
  · split
    · next e he =>
      split at he
      · cases he
        exact raises_error.mpr fun h => h _ rfl
      · cases he
    · exact raises_ok

/-- The versions of a session are those of its local dates. -/
theorem versions_of_daily {tariffs : List Tariff} (hs : StoredTariffs tariffs) {station_id : ℕ} {tz : Zone}
    {start stop : ℤ} {daily : List DailyTariff}
    (h : _daily_tariffs tariffs station_id tz start stop = .ok daily) :
    Versions daily (tz.localDate start) (tz.localDate (stop - 1)) := by
  have hdate : ∀ d t, versionOf daily d = some t → tz.localDate start ≤ d ∧ d ≤ tz.localDate (stop - 1) := by
    intro d t ht
    obtain ⟨r, hr, -⟩ := Option.map_eq_some_iff.mp ht
    obtain ⟨d', hd', hday⟩ := (mem_of_mapM_ok h).mp (List.mem_of_find?_eq_some hr)
    have hd : r.day = d := by simpa using List.find?_some hr
    rw [← hd, DailyTariffsLemmas.dailyTariff_day hday]
    exact mem_dateRange.mp hd'
  refine ⟨fun d => ⟨fun ⟨t, ht⟩ => hdate d t ht, fun ⟨h1, h2⟩ => ?_⟩, fun d t ht => ?_⟩
  · obtain ⟨t, -, -, hv, -⟩ := _daily_tariffs_frames h h1 h2
    exact ⟨t, hv⟩
  · obtain ⟨h1, h2⟩ := hdate d t ht
    obtain ⟨t', -, hlay, hv, -⟩ := _daily_tariffs_frames h h1 h2
    cases hv.symm.trans ht
    exact hs t (lay_bieu_gia_hieu_luc_mem hlay).1

/-- Every charge point has its station. -/
def StationsStored (tables : StationTables) : Prop :=
  ∀ point ∈ tables.charge_points, ∃ station ∈ tables.stations, station.id = point.station_id

theorem sessionStation_raises {tables : StationTables} (hs : StationsStored tables)
    (charging : ChargingSession) : Raises (fun e => ¬ Stray e) (sessionStation tables charging) := by
  unfold sessionStation
  split
  swap
  · exact raises_error.mpr fun h => h _ rfl
  next point connector hpoint _ =>
  split
  · exact raises_error.mpr fun h => h _ rfl
  split
  · exact raises_error.mpr fun h => h _ rfl
  split
  · exact raises_error.mpr fun h => h _ rfl
  split
  · exact raises_ok
  · next hnone =>
    obtain ⟨station, hmem, hid⟩ := hs point (List.mem_of_find?_eq_some hpoint)
    exact absurd hid (by simpa using List.find?_eq_none.mp hnone station hmem)

/-- The confirmed occupation is one interval that ended with the release, if there is one. -/
theorem confirmedIntervals_spec (intervals : List OccupationInterval) {charging : ChargingSession}
    (hreleased : charging.billing_lifecycle_version = 1 → charging.connector_released_at ≠ none) :
    Raises (fun e => ¬ Stray e) (confirmedIntervals intervals charging) ∧
    ∀ found, confirmedIntervals intervals charging = .ok found →
      (found = [] ∨ ∃ i ended_at, found = [i] ∧ i.ended_at = some ended_at) := by
  unfold confirmedIntervals
  split
  swap
  · exact ⟨raises_ok, fun found h => by cases h; exact .inl rfl⟩
  next hversion =>
  rw [if_neg (hreleased hversion)]
  dsimp only
  split
  · exact ⟨raises_error.mpr fun h => h _ rfl, nofun⟩
  next hbad =>
  refine ⟨raises_ok, fun found h => ?_⟩
  cases h
  push Not at hbad
  obtain ⟨hlen, hended⟩ := hbad
  set found := (intervals.filter fun i => i.session_id = charging.id ∧ i.confirmed).insertionSort
    fun a b => a.started_at ≤ b.started_at
  match hf : found with
  | [] => exact .inl rfl
  | [i] =>
    obtain ⟨r, hr⟩ := Option.ne_none_iff_exists'.mp (hreleased hversion)
    exact .inr ⟨i, r, rfl, ((hended i (by simp)).1).trans hr⟩
  | _ :: _ :: _ => simp at hlen

/-! ## 3. The lines of an invoice -/

/-- The idle times to charge: from `idle_since` to the stop, or the confirmed occupation. -/
def idleSpans (charging : ChargingSession) (stop : ℤ) (intervals : List OccupationInterval) :
    List (ℤ × ℤ) :=
  if charging.billing_lifecycle_version = 0 then charging.idle_since.toList.map (·, stop)
  else intervals.filterMap fun i => i.ended_at.map (i.started_at, ·)

/-- What a clock that jumps must leave alone: the order of cuts between which the meter moves and,
for an invoice whose energy is priced in full, the dates of the idle time. -/
structure ClockOk (tz : Zone) (charging : ChargingSession) (stop : ℤ) (readings : List MeterValue)
    (intervals : List OccupationInterval) (daily : List DailyTariff) : Prop where
  cuts : ∀ points, sortedPoints tz charging.started_at stop (framesOf daily) = .ok points →
    MeterStill tz readings (framesOf daily) points
  dates : ∀ segments, pricedSegments tz charging.started_at stop readings daily = .ok segments →
    ∀ span ∈ idleSpans charging stop intervals, charging.started_at ≤ span.1 → span.1 < span.2 →
      DatesAhead tz daily (tz.localDate charging.started_at)
        (tz.localDate (billingEnd charging stop intervals - 1)) span.1 span.2

namespace RejectionsLemmas

theorem frame_label_plain (id : ℕ) (b : BandInput) :
    ((frameOf id b).frame_label.toList.all (· = ' ')) = false := by
  have hplain : ∃ c ∈ (frameOf id b).frame_label.toList, c ≠ ' ' := by
    simp only [frameOf]
    split
    · refine ⟨'–', ?_, by decide⟩
      simp only [String.toList_append, List.mem_append]
      exact .inl (.inr (by decide))
    · next hne =>
      obtain ⟨c, hc, hspace⟩ := Text.exists_plain_of_strip hne
      refine ⟨c, hc, ?_⟩
      rintro rfl
      exact absurd hspace (by decide)
  obtain ⟨c, hc, hne⟩ := hplain
  rw [List.all_eq_false]
  exact ⟨c, hc, by simpa using hne⟩

/-- The line of a segment passes the checks of its table. Energy flowed over the segment, so its
instants are in order. -/
theorem energyLine_ok {tz : Zone} {start stop : ℤ} {readings : List MeterValue}
    (hr : Readings start stop readings) (hlt : start < stop) (hz : Stamp.Lawful tz)
    {tariffs : List Tariff} {station_id : ℕ} {billing_end : ℤ} {daily : List DailyTariff}
    (hd : _daily_tariffs tariffs station_id tz start billing_end = .ok daily) {p : Stamp × Stamp}
    (h1 : Cut tz start stop p.1) (h2 : Cut tz start stop p.2)
    (hord : p.1.instant tz < p.2.instant tz ∨ ∃ v w, v < w ∧ p = (.loc v, .loc w)) {seg : Segment}
    (hseg : SegmentFrom tz readings (framesOf daily) p seg) : LineOk (energyLine tz seg) := by
  obtain ⟨tf, htf, hprice, hlabel⟩ := hseg.frame
  obtain ⟨t, bands, -, hbands, b, hb, rfl⟩ := exists_band_of_mem_framesOf hd htf
  have hrate : 0 ≤ seg.price_vnd_per_kwh := hprice ▸ ((kiem_khung_gio_covers hbands).rate b hb).1
  have hamount : 0 ≤ seg.amount_vnd := hseg.amount ▸ tien_dong_nonneg hseg.positive.le hrate
  have hblank : (seg.frame_label.toList.all (· = ' ')) = false := hlabel ▸ frame_label_plain _ _
  have hmoved : stampReading tz readings p.1 < stampReading tz readings p.2 :=
    sub_pos.mp (hseg.positive.trans_eq hseg.energy)
  have hinterval : p.1.instant tz < p.2.instant tz := by
    by_contra hle
    rcases (not_lt.mp hle).lt_or_eq with hlt' | heq
    · exact absurd (DaylightLemmas.Cut.mono hr hlt h2 h1 hlt') (not_le.mpr hmoved)
    rcases hord with hord | ⟨v, w, hvw, rfl⟩
    · exact hle hord
    obtain ⟨f, hv⟩ := DaylightLemmas.Cut.read hr hlt h1
    obtain ⟨g, hw⟩ := DaylightLemmas.Cut.read hr hlt h2
    have hcomp := hz v w hvw heq.symm
    simp only [interpolate_meter_value, hcomp, heq] at hv hw
    have hrange := DaylightLemmas.Cut.instant hlt h1
    exact absurd (readingAt_exact_le hr hrange.1 hrange.2 hw hv) (not_le.mpr hmoved)
  simp only [LineOk, lineViolated, energyLine, hseg.start_time, hseg.end_time, hinterval, hseg.positive.le,
    hrate, hamount, hblank, not_true_eq_false, and_self, if_false, reduceCtorEq, false_and,
    Bool.false_eq_true]

/-- The idle lines of a session with at most one confirmed interval. -/
theorem sessionIdleLines_spec {first last : ℤ} {intervals : List OccupationInterval}
    {daily : List DailyTariff} (hv : Versions daily first last) (tz : Zone) (charging : ChargingSession)
    (stop : ℤ)
    (hone : intervals = [] ∨ ∃ i ended_at, intervals = [i] ∧ i.ended_at = some ended_at) :
    ((∀ span ∈ idleSpans charging stop intervals, charging.started_at ≤ span.1 → span.1 < span.2 →
        DatesAhead tz daily first last span.1 span.2) →
      Raises (fun e => ¬ Stray e) (sessionIdleLines tz charging stop intervals daily) ∧
      ∀ lines, sessionIdleLines tz charging stop intervals daily = .ok lines → ∀ line ∈ lines, LineOk line) ∧
    (∀ span ∈ idleSpans charging stop intervals, charging.started_at ≤ span.1 → span.1 < span.2 →
      ¬ DatesAhead tz daily first last span.1 span.2 →
      ∃ e, sessionIdleLines tz charging stop intervals daily = .error e ∧ Stray e) := by
  by_cases hversion : charging.billing_lifecycle_version = 0
  · have hspec := _idle_lines_spec hv tz charging.started_at stop charging.idle_since
    simp only [idleSpans, sessionIdleLines, hversion, if_true]
    refine ⟨fun hdates => hspec.1 fun i hi h1 h2 => hdates (i, stop) ?_ h1 h2, fun span hspan h1 h2 hbad => ?_⟩
    · exact List.mem_map_of_mem (Option.mem_toList.mpr hi)
    · obtain ⟨i, hi, rfl⟩ := List.mem_map.mp hspan
      exact hspec.2 i (Option.mem_toList.mp hi) h1 h2 hbad
  · rcases hone with rfl | ⟨i, ended_at, rfl, hended⟩
    · simp only [idleSpans, sessionIdleLines, hversion, if_false]
      exact ⟨fun _ => ⟨raises_ok, fun lines h => by cases h; nofun⟩, nofun⟩
    · have hspec := _idle_lines_spec hv tz charging.started_at ended_at (some i.started_at)
      have hcode : sessionIdleLines tz charging stop [i] daily =
          _idle_lines tz charging.started_at ended_at daily (some i.started_at) := by
        simp only [sessionIdleLines, hversion, if_false, List.mapM_cons, List.mapM_nil, hended, bind,
          Except.bind, pure, Except.pure]
        cases _idle_lines tz charging.started_at ended_at daily (some i.started_at) with
        | error e => rfl
        | ok lines => simp
      have hspans : idleSpans charging stop [i] = [(i.started_at, ended_at)] := by
        simp [idleSpans, hversion, hended]
      rw [hcode, hspans]
      simp only [List.mem_singleton, forall_eq]
      exact ⟨fun hdates => hspec.1 fun j hj h1 h2 => by cases hj; exact hdates h1 h2,
        fun h1 h2 hbad => hspec.2 _ rfl h1 h2 hbad⟩

end RejectionsLemmas

section Lines

variable {tz : Zone} {charging : ChargingSession} {stop : ℤ} {readings : List MeterValue}
  {intervals : List OccupationInterval} {tariffs : List Tariff} {station_id : ℕ} {daily : List DailyTariff}
  (hr : Readings charging.started_at stop readings) (hn : ∀ mv ∈ readings, Numeric mv.energy_wh)
  (hlt : charging.started_at < stop) (hz : Stamp.Lawful tz) (hs : StoredTariffs tariffs)
  (hd : _daily_tariffs tariffs station_id tz charging.started_at (billingEnd charging stop intervals) =
    .ok daily)
  (hone : intervals = [] ∨ ∃ i ended_at, intervals = [i] ∧ i.ended_at = some ended_at)
include hr hn hlt hz hs hd hone

omit hs hone in
/-- With cuts in order the energy is priced, or rejected as a whole. -/
theorem pricedSegments_spec {points : List Stamp}
    (hp : sortedPoints tz charging.started_at stop (framesOf daily) = .ok points)
    (hcut : ∀ x ∈ points, Cut tz charging.started_at stop x)
    (hord : ∀ p ∈ pairs points, p.1.instant tz < p.2.instant tz ∨ ∃ v w, v < w ∧ p = (.loc v, .loc w)) :
    (MeterStill tz readings (framesOf daily) points →
      Raises (fun e => ¬ Stray e) (pricedSegments tz charging.started_at stop readings daily) ∧
      ∀ segments, pricedSegments tz charging.started_at stop readings daily = .ok segments →
        ∀ seg ∈ segments, LineOk (energyLine tz seg)) ∧
    (¬ MeterStill tz readings (framesOf daily) points →
      ∃ e, pricedSegments tz charging.started_at stop readings daily = .error e ∧ Stray e) := by
  obtain ⟨hok, herr⟩ := chia_doan_ok_iff hr hn (framesOk_framesOf hd) hlt hp hcut
  refine ⟨fun hstill => ?_, fun hmoves => ?_⟩
  · obtain ⟨outcomes, hchia, hout⟩ := hok hstill
    obtain ⟨fst, hfst, -⟩ := readingAt_start hr
    obtain ⟨lst, hlst, -⟩ := readingAt_stop hr
    simp only [pricedSegments, hchia, hfst, hlst, bind, Except.bind]
    split
    · exact ⟨raises_error.mpr fun h => h _ rfl, nofun⟩
    · refine ⟨raises_ok, fun segments h seg hseg => ?_⟩
      cases h
      obtain ⟨p, hpmem, -, hfrom⟩ := exists_of_forall₂ hout (List.reduceOption_mem_iff.mp hseg)
      exact energyLine_ok hr hlt hz hd (hcut _ (mem_of_mem_pairs hpmem).1)
        (hcut _ (mem_of_mem_pairs hpmem).2) (hord p hpmem) (hfrom seg rfl)
  · obtain ⟨message, he⟩ := herr hmoves
    exact ⟨.valueError message, by simp only [pricedSegments, he, bind, Except.bind], fun _ h => by cases h⟩

/-- The lines of an invoice are computed, or the invoice is rejected, exactly when the clock is well
behaved. -/
theorem invoiceLines_spec :
    (ClockOk tz charging stop readings intervals daily →
      Raises (fun e => ¬ Stray e) (invoiceLines tz charging stop readings intervals daily) ∧
      ∀ lines, invoiceLines tz charging stop readings intervals daily = .ok lines →
        ∀ line ∈ lines, LineOk line) ∧
    (¬ ClockOk tz charging stop readings intervals daily →
      ∃ e, invoiceLines tz charging stop readings intervals daily = .error e ∧ Stray e) := by
  obtain ⟨points, hp, hcut, hord⟩ := exists_points tz (framesOk_framesOf hd) hlt
  obtain ⟨hok, herr⟩ := pricedSegments_spec hr hn hlt hz hd hp hcut hord
  obtain ⟨hidle, hstray⟩ := sessionIdleLines_spec (versions_of_daily hs hd) tz charging stop hone
  unfold invoiceLines
  refine ⟨fun hclock => ?_, fun hclock => ?_⟩
  · obtain ⟨h1, h2⟩ := hok (hclock.cuts points hp)
    refine ⟨raises_bind.mpr ⟨h1, fun segments hseg => raises_bind.mpr
      ⟨(hidle (hclock.dates segments hseg)).1, fun lines _ => raises_ok⟩⟩, fun lines h => ?_⟩
    obtain ⟨segments, hseg, h⟩ := bind_eq_ok.mp h
    obtain ⟨idle, hidl, h⟩ := bind_eq_ok.mp h
    cases h
    intro line hline
    rcases List.mem_append.mp hline with hline | hline
    · obtain ⟨seg, hs', rfl⟩ := List.mem_map.mp hline
      exact h2 segments hseg seg hs'
    · exact (hidle (hclock.dates segments hseg)).2 idle hidl line hline
  · by_cases hstill : MeterStill tz readings (framesOf daily) points
    swap
    · obtain ⟨e, he, hse⟩ := herr hstill
      exact ⟨e, by simp only [he, bind, Except.bind], hse⟩
    -- the cuts are in order, so a date of the idle time is not
    have hdates : ∃ segments, pricedSegments tz charging.started_at stop readings daily = .ok segments ∧
        ∃ span ∈ idleSpans charging stop intervals, charging.started_at ≤ span.1 ∧ span.1 < span.2 ∧
          ¬ DatesAhead tz daily (tz.localDate charging.started_at)
            (tz.localDate (billingEnd charging stop intervals - 1)) span.1 span.2 := by
      by_contra hnone
      push Not at hnone
      refine hclock ⟨fun points' hp' => ?_, fun segments hseg span hspan h1 h2 => hnone segments hseg span hspan h1 h2⟩
      rw [hp] at hp'
      cases hp'
      exact hstill
    obtain ⟨segments, hseg, span, hspan, h1, h2, hbad⟩ := hdates
    obtain ⟨e, he, hse⟩ := hstray span hspan h1 h2 hbad
    exact ⟨e, by simp only [hseg, he, bind, Except.bind], hse⟩

end Lines

/-! ## 4. `lap_hoa_don` -/

/-- What the tables promise about a session. -/
structure Stored (tables : StationTables) (s : BillingDb) (charging : ChargingSession) : Prop where
  stations : StationsStored tables
  zones : ∀ station ∈ tables.stations, Stamp.Lawful station.timezone
  numeric : NumericColumns tables.meter_samples charging
  tariffs : StoredTariffs s.tariffs

/-- Once the session passes the checks before it, the pricing does not meet a jump of the clock. -/
def ClockCondition (tables : StationTables) (s : BillingDb) (charging : ChargingSession) (stop : ℤ) : Prop :=
  ∀ station readings intervals daily, sessionStation tables charging = .ok station →
    _meter_values tables.meter_samples charging stop = .ok readings →
    confirmedIntervals tables.occupation_intervals charging = .ok intervals →
    _daily_tariffs s.tariffs station.id station.timezone charging.started_at
      (billingEnd charging stop intervals) = .ok daily →
    ClockOk station.timezone charging stop readings intervals daily

namespace RejectionsLemmas

theorem wp_ofExcept {α : Type} {x : Except BillingError α} {Q : α → BillingDb → Prop}
    {E : BillingError → BillingDb → Prop} {s : BillingDb} :
    wp (ofExcept x) Q E s ↔ (∀ a, x = .ok a → Q a s) ∧ ∀ e, x = .error e → E e s := by
  cases x <;> simp [ofExcept]

theorem sessionStation_mem {tables : StationTables} {charging : ChargingSession} {station : Station}
    (h : sessionStation tables charging = .ok station) :
    station ∈ tables.stations ∧ charging.driver_id ≠ none := by
  unfold sessionStation at h
  split at h
  swap
  · cases h
  split at h
  · cases h
  split at h
  · cases h
  next hdriver =>
  split at h
  · cases h
  split at h
  · next hfind =>
    cases h
    exact ⟨List.mem_of_find?_eq_some hfind, hdriver⟩
  · cases h

theorem lineOk_amount {line : InvoiceLine} (h : LineOk line) : 0 ≤ line.amount_vnd := by
  unfold LineOk lineViolated at h
  split at h
  · cases h
  split at h
  · cases h
  next hneg => exact (not_not.mp hneg).2.2

/-- The insert of checked lines for a session without an invoice succeeds. -/
theorem insertInvoice_spec {invoice : InvoiceRow} {s : BillingDb}
    (hsession : ∀ i ∈ s.invoices, i.session_id ≠ invoice.session_id)
    (hfresh : ∀ i ∈ s.invoices, i.id ≠ invoice.id)
    (htotal : invoice.total_vnd = (invoice.lines.map (·.amount_vnd)).sum)
    (hlines : ∀ line ∈ invoice.lines, LineOk line) :
    wp (insertInvoice invoice) (fun _ s' => s' = { s with invoices := s.invoices ++ [invoice] })
      (fun _ _ => False) s := by
  have hnonneg : 0 ≤ invoice.total_vnd := by
    rw [htotal]
    refine List.sum_nonneg fun x hx => ?_
    obtain ⟨line, hline, rfl⟩ := List.mem_map.mp hx
    exact lineOk_amount (hlines line hline)
  have hnone : invoice.lines.findSome? lineViolated = none :=
    List.findSome?_eq_none_iff.mpr fun line hline => hlines line hline
  unfold insertInvoice
  simp only [wp_bind, wp_read, wp_raiseIf, hnone, wp_write]
  refine ⟨?_, fun _ => ⟨?_, fun _ => ⟨fun h => absurd hnonneg (not_le.mpr h), fun _ => trivial⟩⟩⟩
  · rintro ⟨i, hi, h⟩
    exact hsession i hi h
  · rintro ⟨i, hi, h⟩
    exact hfresh i hi h

end RejectionsLemmas

section Invoice

variable {tables : StationTables} {s : BillingDb} {charging : ChargingSession} {stop : ℤ}
  (hstored : Stored tables s charging) (hlt : charging.started_at < stop)
  (hreleased : charging.billing_lifecycle_version = 1 → charging.connector_released_at ≠ none)
include hstored hlt hreleased

/-- `_create_invoice` creates the invoice or rejects the session, exactly when it meets no jump of the
clock. -/
theorem _create_invoice_spec {new_id : Uuid} (hfresh : ∀ i ∈ s.invoices, i.id ≠ new_id)
    (hnone : ∀ i ∈ s.invoices, i.session_id ≠ charging.id) (now : ℤ) :
    (ClockCondition tables s charging stop →
      wp (_create_invoice tables new_id now charging stop) (fun _ _ => True) (fun e _ => ¬ Stray e) s) ∧
    (¬ ClockCondition tables s charging stop →
      wp (_create_invoice tables new_id now charging stop) (fun _ _ => False) (fun e _ => Stray e) s) := by
  obtain ⟨hmr, hmok⟩ := _meter_values_spec hstored.numeric hlt
  obtain ⟨hir, hiok⟩ := confirmedIntervals_spec tables.occupation_intervals hreleased
  have hspec : ∀ station readings intervals daily, sessionStation tables charging = .ok station →
      _meter_values tables.meter_samples charging stop = .ok readings →
      confirmedIntervals tables.occupation_intervals charging = .ok intervals →
      _daily_tariffs s.tariffs station.id station.timezone charging.started_at
        (billingEnd charging stop intervals) = .ok daily → _ := fun station readings intervals daily h1 h2 h3 h4 =>
    invoiceLines_spec (hmok readings h2).1 (hmok readings h2).2 hlt
      (hstored.zones station (sessionStation_mem h1).1) hstored.tariffs h4 (hiok intervals h3)
  unfold _create_invoice
  simp only [wp_bind, wp_ofExcept, wp_orRaise, wp_raiseIf, wp_read, wp_write]
  refine ⟨fun hclock => ⟨fun station h1 => ⟨fun hd => absurd hd (sessionStation_mem h1).2, fun driver _ =>
    ⟨fun h => absurd hlt (not_lt.mpr h), fun _ => ⟨fun readings h2 => ⟨fun intervals h3 => ⟨fun daily h4 =>
    ⟨fun lines h5 => ?_, ?_⟩, _daily_tariffs_raises _ _ _ _ _⟩, hir⟩, hmr⟩⟩⟩, sessionStation_raises hstored.stations charging⟩,
    fun hclock => ?_⟩
  · obtain ⟨hraises, hlines⟩ := (hspec station readings intervals daily h1 h2 h3 h4).1
      (hclock station readings intervals daily h1 h2 h3 h4)
    refine ⟨fun _ h => h _ rfl, fun _ => ?_⟩
    refine wp_mono (insertInvoice_spec ?_ ?_ rfl (hlines lines h5)) (fun _ _ _ => trivial) fun _ _ h => h.elim
    · exact hnone
    · exact hfresh
  · exact ((hspec station readings intervals daily h1 h2 h3 h4).1
      (hclock station readings intervals daily h1 h2 h3 h4)).1
  · -- every step before the lines gives its value, and the lines raise
    simp only [ClockCondition, not_forall] at hclock
    obtain ⟨station, readings, intervals, daily, h1, h2, h3, h4, hbad⟩ := hclock
    obtain ⟨e, he, hstray⟩ := (hspec station readings intervals daily h1 h2 h3 h4).2 hbad
    rw [h1, h2, h3]
    simp only [Except.ok.injEq, forall_eq', reduceCtorEq, false_implies, implies_true, and_true]
    refine ⟨fun hd => absurd hd (sessionStation_mem h1).2, fun driver _ =>
      ⟨fun h => absurd hlt (not_lt.mpr h), fun _ => ?_⟩⟩
    rw [h4]
    simp only [Except.ok.injEq, forall_eq', reduceCtorEq, false_implies, implies_true, and_true]
    rw [he]
    simp only [Except.error.injEq, reduceCtorEq, false_implies, implies_true, forall_eq', true_and]
    exact hstray

end Invoice

namespace Spring

/-- The clock of Paris around 29 March 2026: at 01:00 UTC it goes from 02:00 to 03:00. -/
def paris : Zone := Zone.ofTransitions (60 * MINUTE) [(1774746000000000, 120 * MINUTE)]

/-- Three bands that meet at 02:30 and at 03:00. -/
def tariff : Tariff where
  id := 7
  station_id := 1
  effective_from := 20000
  used_at := none
  idle_rate_vnd_per_minute := 500
  grace_minutes := 10
  bands := [⟨0, 150, 2000, "night"⟩, ⟨150, 180, 2500, "early"⟩, ⟨180, 1440, 3500, "day"⟩]

/-- A station in a zone, with one connector. -/
def tables (timezone : Zone) : StationTables where
  charge_points := [⟨1, 1⟩]
  connectors := [⟨1, 1⟩]
  stations := [⟨1, timezone⟩]
  meter_samples := []
  occupation_intervals := []

def driver : Uuid := .sample 2

/-- A session from 00:00 to 03:00 UTC of that day, at a constant kilowatt. -/
def session : ChargingSession where
  id := 1
  charge_point_id := 1
  connector_id := 1
  driver_id := some driver
  authorization_status := .accepted
  started_at := 1774742400000000
  ended_at := some 1774753200000000
  idle_since := none
  billing_lifecycle_version := 0
  connector_released_at := none
  settlement := none
  meter_start_wh := some 0
  meter_stop_wh := some 3000
  review_reasons := []

def db : BillingDb := ⟨[session], [], [tariff]⟩

theorem lawful_paris : Stamp.Lawful paris := by
  intro v w hvw h
  simp only [Stamp.instant, paris, Zone.ofTransitions, Zone.wallOffsetFrom, MINUTE, Stamp.comparable] at *
  simp at *
  split at h <;> split at h <;> split <;> split <;> omega

theorem stored {timezone : Zone} (h : Stamp.Lawful timezone) : Stored (tables timezone) db session where
  stations := by simp [StationsStored, tables]
  zones := by simpa [tables] using h
  numeric := by
    refine ⟨?_, ?_, by simp [tables]⟩
    · rintro v ⟨⟩
      exact ⟨0, by norm_num, by decide⟩
    · rintro v ⟨⟩
      exact ⟨3000 * 10 ^ 6, by norm_num, by decide⟩
  tariffs := by simp [StoredTariffs, db, tariff]

end Spring

open Spring

end Csms.Billing
