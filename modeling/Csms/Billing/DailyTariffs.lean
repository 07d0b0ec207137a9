import Csms.Lib.Outcome
import Csms.Lib.Text
import Csms.Pricing.Tariffs
import Csms.Billing.Segmentation

/-!
# The tariff of each local day (`_daily_tariffs` of `billing/invoicing.py`)

Every local day from the start to the microsecond before the end gets the tariff in force on it
and the frames of its validated bands.

Results:
1. `frameEdges_frameOf`: the frame of a band starts and ends at the band's minutes.
2. `_daily_tariffs_frames`: each day of the range has frames, and they come from validated bands.
3. `framesOk_framesOf`, `exists_frame_covering`: the frames lie inside their day and cover it.
-/

namespace Csms.Billing

open Csms.Pricing Outcome

/-! ## 1. The code -/

/-- `_clock` of invoicing, as the numbers of the text. -/
def clockNumbers (minute : ℤ) : List ℕ := [(minute / 60).toNat, (minute % 60).toNat]

def frameOf (tariff_id : ℕ) (b : BandInput) : TariffFrame where
  start_time := clockNumbers b.start_min
  end_time := clockNumbers b.end_min
  price_vnd_per_kwh := b.energy_rate_vnd_per_kwh
  tariff_version := tariff_id
  frame_label :=
    let label := Text.strip b.label
    if label = "" then _clock b.start_min ++ "–" ++ _clock b.end_min else label

/-- The bands of a tariff in the order of the query. -/
def storedBands (t : Tariff) : List BandInput :=
  t.bands.insertionSort fun a b => a.start_min ≤ b.start_min

def tariffFrames (t : Tariff) : Except BillingError (List TariffFrame) :=
  match kiem_khung_gio (storedBands t) with
  | .error _ => .error (.invalidInvoice "invoice_invalid_tariff")
  | .ok normalized => .ok (normalized.map (frameOf t.id))

/-- One day: its version and its frames. -/
structure DailyTariff where
  day : ℤ
  version : Tariff
  frames : List TariffFrame
  deriving DecidableEq, Repr

def dailyTariff (tariffs : List Tariff) (station_id : ℕ) (day : ℤ) :
    Except BillingError DailyTariff :=
  match lay_bieu_gia_hieu_luc tariffs station_id day with
  | none => .error (.invalidInvoice "invoice_missing_tariff")
  | some selected =>
    match tariffFrames selected with
    | .error e => .error e
    | .ok frames => .ok ⟨day, selected, frames⟩

/-- `_daily_tariffs`. Marking the versions as used writes only `used_at`, which this loop does
not read; `markDaily` does it afterwards. -/
def _daily_tariffs (tariffs : List Tariff) (station_id : ℕ) (tz : Zone) (start stop : ℤ) :
    Except BillingError (List DailyTariff) :=
  (dateRange (tz.localDate start) (tz.localDate (stop - 1))).mapM (dailyTariff tariffs station_id)

def markDaily (daily : List DailyTariff) (station_id : ℕ) (now : ℤ) (tariffs : List Tariff) :
    List Tariff :=
  daily.foldl (fun ts d => danh_dau_bieu_gia_da_dung ts station_id d.version.id now) tariffs

/-- `versions[day]`; a missing day is a `KeyError`. -/
def versionOf (daily : List DailyTariff) (day : ℤ) : Option Tariff :=
  (daily.find? (·.day = day)).map (·.version)

/-- `frames.get(day, [])`. -/
def framesOf (daily : List DailyTariff) (day : ℤ) : List TariffFrame :=
  ((daily.find? (·.day = day)).map (·.frames)).getD []

/-! ## 2. Edges and days -/

namespace DailyTariffsLemmas

theorem combine_ok {day : ℤ} {m : ℤ} (h0 : 0 ≤ m) (h1 : m < 1440) :
    combine day (m / 60).toNat (m % 60).toNat 0 = .ok (day * DAY + m * MINUTE) := by
  have hh : (m / 60).toNat < 24 := by omega
  have hm : (m % 60).toNat < 60 := by omega
  have hsum : (((m / 60).toNat * 3600 + (m % 60).toNat * 60 + 0 : ℕ) : ℤ) = m * 60 := by omega
  simp only [combine, hh, hm, Nat.zero_lt_succ, and_self, if_true, hsum, MINUTE]
  congr 2
  ring

theorem dailyTariff_day {tariffs : List Tariff} {station_id : ℕ} {day : ℤ} {r : DailyTariff}
    (hr : dailyTariff tariffs station_id day = .ok r) : r.day = day := by
  unfold dailyTariff at hr
  split at hr
  · cases hr
  split at hr
  · cases hr
  · cases hr; rfl

theorem find?_of_forall₂ {tariffs : List Tariff} {station_id : ℕ} {d : ℤ} :
    ∀ {days : List ℤ} {daily : List DailyTariff},
      List.Forall₂ (fun day r => dailyTariff tariffs station_id day = .ok r) days daily →
      d ∈ days → ∃ r, dailyTariff tariffs station_id d = .ok r ∧ daily.find? (·.day = d) = some r
  | _, _, .nil, h => by cases h
  | day :: days, r :: daily, .cons hr hrest, h => by
    have hday : r.day = day := dailyTariff_day hr
    by_cases hd : day = d
    · exact ⟨r, hd ▸ hr, by simp [hday, hd]⟩
    · have hmem : d ∈ days := by
        rcases List.mem_cons.mp h with rfl | h
        · exact absurd rfl hd
        · exact h
      obtain ⟨r', h1, h2⟩ := find?_of_forall₂ hrest hmem
      exact ⟨r', h1, by simpa [hday, hd] using h2⟩

end DailyTariffsLemmas

open DailyTariffsLemmas

/-- The frame of a band starts and ends at the band's minutes of the day. -/
theorem frameEdges_frameOf {b : BandInput} (h0 : 0 ≤ b.start_min) (h1 : b.start_min < b.end_min)
    (h2 : b.end_min ≤ 1440) (id : ℕ) (day : ℤ) :
    frameEdges day (frameOf id b) =
      .ok (day * DAY + b.start_min * MINUTE, day * DAY + b.end_min * MINUTE) := by
  have hs : combine day (b.start_min / 60).toNat (b.start_min % 60).toNat 0 =
      .ok (day * DAY + b.start_min * MINUTE) := combine_ok h0 (by omega)
  have he : combineEnd day (b.end_min / 60).toNat (b.end_min % 60).toNat 0 =
      .ok (day * DAY + b.end_min * MINUTE) := by
    unfold combineEnd
    split
    · next h24 =>
      have : b.end_min = 1440 := by omega
      rw [this]
      simp only [DAY, MINUTE]
      congr 1
      ring
    · exact combine_ok (by omega) (by omega)
  simp only [frameEdges, frameOf, clockNumbers, clockParts, List.headD_nil, bind, Except.bind, hs, he,
    pure, Except.pure]

/-- Each day of the range has the tariff in force and the frames of its validated bands. -/
theorem _daily_tariffs_frames {tariffs : List Tariff} {station_id : ℕ} {tz : Zone} {start stop : ℤ}
    {daily : List DailyTariff} (h : _daily_tariffs tariffs station_id tz start stop = .ok daily)
    {d : ℤ} (h1 : tz.localDate start ≤ d) (h2 : d ≤ tz.localDate (stop - 1)) :
    ∃ t bands, lay_bieu_gia_hieu_luc tariffs station_id d = some t ∧ versionOf daily d = some t ∧
      kiem_khung_gio (storedBands t) = .ok bands ∧ framesOf daily d = bands.map (frameOf t.id) := by
  obtain ⟨r, hr, hfind⟩ := find?_of_forall₂ (forall₂_of_mapM_ok h) (mem_dateRange.mpr ⟨h1, h2⟩)
  unfold dailyTariff at hr
  split at hr
  · cases hr
  next t ht =>
  unfold tariffFrames at hr
  split at hr
  · cases hr
  next frames hframes =>
  split at hframes
  · cases hframes
  next bands hbands =>
  cases hframes
  cases hr
  exact ⟨t, bands, ht, by simp [versionOf, hfind], hbands, by simp [framesOf, hfind]⟩


/-- The frames of a day come from validated bands of the tariff in force on it. -/
theorem exists_band_of_mem_framesOf {tariffs : List Tariff} {station_id : ℕ} {tz : Zone}
    {start stop : ℤ} {daily : List DailyTariff}
    (h : _daily_tariffs tariffs station_id tz start stop = .ok daily) {d : ℤ} {tf : TariffFrame}
    (htf : tf ∈ framesOf daily d) :
    ∃ t bands, lay_bieu_gia_hieu_luc tariffs station_id d = some t ∧
      kiem_khung_gio (storedBands t) = .ok bands ∧ ∃ b ∈ bands, tf = frameOf t.id b := by
  have hd : ∃ r ∈ daily, r.day = d := by
    unfold framesOf at htf
    cases hfind : daily.find? (·.day = d) with
    | none => simp [hfind] at htf
    | some r => exact ⟨r, List.mem_of_find?_eq_some hfind, by simpa using List.find?_some hfind⟩
  obtain ⟨r, hr, hrd⟩ := hd
  obtain ⟨d', hd', hday⟩ := (mem_of_mapM_ok h).mp hr
  have hdd : d' = d := by rw [← hrd, dailyTariff_day hday]
  subst hdd
  obtain ⟨h1, h2⟩ := mem_dateRange.mp hd'
  obtain ⟨t, bands, ht, -, hbands, hframes⟩ := _daily_tariffs_frames h h1 h2
  rw [hframes] at htf
  obtain ⟨b, hb, rfl⟩ := List.mem_map.mp htf
  exact ⟨t, bands, ht, hbands, b, hb, rfl⟩

/-- Every frame of a session has edges, in order and inside its day. -/
theorem framesOk_framesOf {tariffs : List Tariff} {station_id : ℕ} {tz : Zone} {start stop : ℤ}
    {daily : List DailyTariff} (h : _daily_tariffs tariffs station_id tz start stop = .ok daily) :
    FramesOk (framesOf daily) := by
  intro day tf htf
  obtain ⟨t, bands, -, hbands, b, hb, rfl⟩ := exists_band_of_mem_framesOf h htf
  obtain ⟨h0, h1, h2⟩ := (kiem_khung_gio_covers hbands).proper b hb
  refine ⟨_, _, frameEdges_frameOf h0 h1 h2 _ _, ?_⟩
  unfold DAY MINUTE
  omega

/-- The frames of a day of the range cover every wall time of the day. -/
theorem exists_frame_covering {tariffs : List Tariff} {station_id : ℕ} {tz : Zone} {start stop : ℤ}
    {daily : List DailyTariff} (h : _daily_tariffs tariffs station_id tz start stop = .ok daily)
    {d : ℤ} (h1 : tz.localDate start ≤ d) (h2 : d ≤ tz.localDate (stop - 1)) {w : ℤ}
    (hw1 : d * DAY ≤ w) (hw2 : w < (d + 1) * DAY) :
    ∃ tf ∈ framesOf daily d, ∃ s e, frameEdges d tf = .ok (s, e) ∧ s ≤ w ∧ w < e := by
  obtain ⟨t, bands, -, -, hbands, hframes⟩ := _daily_tariffs_frames h h1 h2
  have hcov := kiem_khung_gio_covers hbands
  have hm0 : 0 ≤ (w - d * DAY) / MINUTE := by unfold DAY MINUTE at *; omega
  have hm1 : (w - d * DAY) / MINUTE < 1440 := by unfold DAY MINUTE at *; omega
  obtain ⟨b, hb, hbs, hbe⟩ := hcov.cover _ hm0 hm1
  obtain ⟨h0, h1, h2⟩ := hcov.proper b hb
  refine ⟨frameOf t.id b, hframes ▸ List.mem_map_of_mem hb, _, _, frameEdges_frameOf h0 h1 h2 _ _, ?_⟩
  unfold DAY MINUTE at *
  omega

end Csms.Billing
