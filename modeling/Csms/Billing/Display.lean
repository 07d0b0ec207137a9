import Csms.Billing.Conservation

/-!
# Prices shown and prices billed (`stations/discovery.py`, `billing/segmentation.py`)

The station page looks up the band over the local minute of an instant. The invoice cuts the session
at wall times and takes the band in the middle of each piece.

Results:
1. `shown_price_of_band`: what is shown at an instant whose wall time lies in a frame of its date.
2. `shown_price_billed`: while the clock of the station is steady, the price shown at an instant is
   the price of the segment it lies in; `shown_price_differs`: a night in which it is not.
-/

namespace Csms.Billing

open Csms.Pricing Outcome Pairs

/-! ## 1. The code -/

/-- The prices of a station's summary. -/
structure PriceSummary where
  energy_rate_vnd_per_kwh : ℤ
  idle_rate_vnd_per_minute : ℤ
  grace_minutes : ℤ
  deriving DecidableEq, Repr

/-- `astimezone(tz).hour * 60 + astimezone(tz).minute`. -/
def localMinute (tz : Zone) (now : ℤ) : ℤ := tz.wall now % DAY / MINUTE

/-- The prices in `summaries`: each band of the effective tariff that contains the minute sets them. -/
def summaries (tariffs : List Tariff) (station_id : ℕ) (tz : Zone) (now : ℤ) : Option PriceSummary :=
  match lay_bieu_gia_hieu_luc tariffs station_id (tz.localDate now) with
  | none => none
  | some tariff =>
    tariff.bands.foldl (fun shown band =>
      if band.start_min ≤ localMinute tz now ∧ localMinute tz now < band.end_min then
        some ⟨band.energy_rate_vnd_per_kwh, tariff.idle_rate_vnd_per_minute, tariff.grace_minutes⟩
      else shown) none

/-! ## 2. The band of an instant -/

/-- The check of the stored bands. -/
def StoredBands (tariffs : List Tariff) : Prop :=
  ∀ t ∈ tariffs, ∀ b ∈ t.bands, 0 ≤ b.start_min ∧ b.start_min < b.end_min ∧ b.end_min ≤ 1440

namespace DisplayLemmas

/-- Bands that do not wrap are validated as they are. -/
theorem kiem_khung_gio_perm {bands result : List BandInput} (hp : ∀ b ∈ bands, b.start_min < b.end_min)
    (h : kiem_khung_gio bands = .ok result) : result.Perm bands := by
  have hvalid : ∀ row ∈ bands.zipIdx, bandIssues row.1 row.2 = [] := by
    unfold kiem_khung_gio at h
    simp only [ne_eq, ite_not] at h
    split at h
    · next hnil => exact List.flatMap_eq_nil_iff.mp hnil
    · cases h
  have hnorm : (normalizedBands bands).map (·.1) = bands := by
    have hrow : ∀ row ∈ bands.zipIdx,
        (if bandIssues row.1 row.2 = [] then (splitBand row.1).map (·, row.2) else []) = [row] := by
      intro row hrow
      have hlt := hp row.1 (List.fst_mem_of_mem_zipIdx hrow)
      rw [if_pos (hvalid row hrow), splitBand, if_pos hlt]
      rfl
    have hflat : normalizedBands bands = bands.zipIdx := by
      unfold normalizedBands
      calc bands.zipIdx.flatMap _ = bands.zipIdx.flatMap fun row => [row] :=
            List.flatMap_congr fun row hr => hrow row hr
        _ = bands.zipIdx := List.flatMap_singleton' _
    rw [hflat, List.zipIdx_map_fst]
  exact hnorm ▸ (kiem_khung_gio_piece h).1

/-- Among bands of which one contains the minute, that one is shown. -/
theorem foldl_shown {f : BandInput → PriceSummary} {m : ℤ} {b : BandInput} :
    ∀ {bands : List BandInput} (shown : Option PriceSummary), bandsAt bands m = [b] →
      bands.foldl (fun shown band => if band.start_min ≤ m ∧ m < band.end_min then some (f band) else shown)
        shown = some (f b)
  | [], _, h => by cases h
  | x :: bands, shown, h => by
    have hnone : ∀ {bands : List BandInput} {shown : Option PriceSummary}, bandsAt bands m = [] →
        bands.foldl (fun shown band => if band.start_min ≤ m ∧ m < band.end_min then some (f band) else shown)
          shown = shown := by
      intro bands
      induction bands with
      | nil => exact fun _ => rfl
      | cons y bands ih =>
        intro shown hnil
        have hy := List.filter_eq_nil_iff.mp hnil y List.mem_cons_self
        rw [List.foldl_cons, if_neg (by simpa using hy)]
        exact ih (List.filter_eq_nil_iff.mpr fun z hz => List.filter_eq_nil_iff.mp hnil z
          (List.mem_cons_of_mem _ hz))
    rw [List.foldl_cons]
    unfold bandsAt at h
    rw [List.filter_cons] at h
    by_cases hx : x.start_min ≤ m ∧ m < x.end_min
    · rw [if_pos (by simpa using hx), List.cons.injEq] at h
      rw [if_pos hx, hnone h.2, h.1]
    · rw [if_neg (by simpa using hx)] at h
      rw [if_neg hx]
      exact foldl_shown shown h

end DisplayLemmas

open DisplayLemmas

/-- At an instant whose wall time lies in a frame of its date, the price of the frame is shown. -/
theorem shown_price_of_band {tariffs : List Tariff} (hstored : StoredBands tariffs) {station_id : ℕ}
    {tz : Zone} {start stop : ℤ} {daily : List DailyTariff}
    (h : _daily_tariffs tariffs station_id tz start stop = .ok daily) {tf : TariffFrame} {t s e : ℤ}
    (htf : tf ∈ framesOf daily (tz.localDate t)) (hse : frameEdges (tz.localDate t) tf = .ok (s, e))
    (hs : s ≤ tz.wall t) (he : tz.wall t < e) :
    (summaries tariffs station_id tz t).map (·.energy_rate_vnd_per_kwh) = some tf.price_vnd_per_kwh := by
  obtain ⟨tariff, bands, hlay, hbands, b, hb, rfl⟩ := exists_band_of_mem_framesOf h htf
  have hproper := (kiem_khung_gio_covers hbands).proper b hb
  rw [frameEdges_frameOf hproper.1 hproper.2.1 hproper.2.2] at hse
  cases hse
  have hperm : bands.Perm tariff.bands := by
    refine (kiem_khung_gio_perm (fun b hb => ?_) hbands).trans (List.perm_insertionSort _ _)
    exact (hstored tariff (lay_bieu_gia_hieu_luc_mem hlay).1 b ((List.mem_insertionSort _).mp hb)).2.1
  -- the minute of the instant lies in the band, and in no other
  have hwall : tz.wall t = tz.localDate t * DAY + tz.wall t % DAY := by
    rw [Zone.localDate, mul_comm]
    exact (Int.mul_ediv_add_emod _ _).symm
  have hmin : b.start_min ≤ localMinute tz t ∧ localMinute tz t < b.end_min := by
    have hpos : 0 < MINUTE := by decide
    unfold localMinute
    rw [hwall] at hs he
    exact ⟨(Int.le_ediv_iff_mul_le hpos).mpr (by omega), Int.ediv_lt_of_lt_mul hpos (by omega)⟩
  have hrange : 0 ≤ localMinute tz t ∧ localMinute tz t < 1440 := by omega
  have hone : bandsAt tariff.bands (localMinute tz t) = [b] := by
    have hlen := kiem_khung_gio_once hbands hrange.1 hrange.2
    have hlen' : (bandsAt tariff.bands (localMinute tz t)).length = 1 :=
      ((hperm.filter _).length_eq.symm).trans hlen
    obtain ⟨c, hc⟩ := List.length_eq_one_iff.mp hlen'
    have hmem : b ∈ bandsAt tariff.bands (localMinute tz t) :=
      List.mem_filter.mpr ⟨hperm.mem_iff.mp hb, by simpa using hmin⟩
    rw [hc] at hmem ⊢
    rw [List.mem_singleton.mp hmem]
  have hfold := foldl_shown (f := fun band => (⟨band.energy_rate_vnd_per_kwh,
    tariff.idle_rate_vnd_per_minute, tariff.grace_minutes⟩ : PriceSummary)) none hone
  simp only [summaries, hlay, hfold, Option.map_some]
  rfl

/-! ## 3. The middle of a piece -/

/-- Over the session the wall clock passes each edge when its instant comes, and the middle of the
last piece, reckoned on the wall clock, comes before the next edge. -/
structure ClockSteady (tz : Zone) (start stop : ℤ) (daily_tariffs : ℤ → List TariffFrame) : Prop where
  edges : ∀ d w, IsEdge daily_tariffs d w → ∀ t, start ≤ t → t ≤ stop →
    ((Stamp.loc w).instant tz ≤ t ↔ w ≤ tz.wall t)
  middle : ∀ d w, IsEdge daily_tariffs d w → ∀ d' x, IsEdge daily_tariffs d' x →
    start < (Stamp.loc w).instant tz → (Stamp.loc w).instant tz < stop →
    stop ≤ (Stamp.loc x).instant tz → w < x →
    w + Stamp.halfDelta (stop - (Stamp.loc w).instant tz) < x

/-- No edge lies between the two wall times. -/
def SameSide (daily_tariffs : ℤ → List TariffFrame) (a b : ℤ) : Prop :=
  ∀ d w, IsEdge daily_tariffs d w → (w ≤ a ↔ w ≤ b)

namespace DisplayLemmas

/-- The frame found at the middle of a piece contains the middle. -/
theorem appliedTariff_some {tz : Zone} {day : ℤ} {mid : Stamp} {tf : TariffFrame} :
    ∀ {frames : List TariffFrame}, appliedTariff tz day mid frames = .ok (some tf) →
      tf ∈ frames ∧ ∃ s e, frameEdges day tf = .ok (s, e) ∧ mid.before tz (.loc s) = false ∧
        mid.before tz (.loc e) = true
  | [], h => by cases h
  | x :: frames, h => by
    simp only [appliedTariff] at h
    obtain ⟨⟨s, e⟩, hse, h⟩ := bind_eq_ok.mp h
    split at h
    · next htest =>
      cases h
      simp only [Bool.and_eq_true, Bool.not_eq_true'] at htest
      exact ⟨List.mem_cons_self, s, e, hse, htest.1, htest.2⟩
    · obtain ⟨hmem, h⟩ := appliedTariff_some h
      exact ⟨List.mem_cons_of_mem _ hmem, h⟩

/-- A segment covers its piece at the price of the frame in its middle. -/
theorem pieceSegment_some {prec : ℕ} {tz : Zone} {meter_values : List MeterValue}
    {daily_tariffs : ℤ → List TariffFrame} {p : Stamp × Stamp} {seg : Segment}
    (h : pieceSegment prec tz meter_values daily_tariffs p = .ok (some seg)) :
    seg.start_time = p.1 ∧ seg.end_time = p.2 ∧ ∃ tf,
      appliedTariff tz ((midPoint tz p).date tz) (midPoint tz p) (daily_tariffs ((midPoint tz p).date tz)) =
        .ok (some tf) ∧ seg.price_vnd_per_kwh = tf.price_vnd_per_kwh := by
  simp only [pieceSegment] at h
  obtain ⟨o, ho, h⟩ := bind_eq_ok.mp h
  cases o with
  | none => cases h
  | some tf =>
    obtain ⟨start_value, -, h⟩ := bind_eq_ok.mp h
    obtain ⟨end_value, -, h⟩ := bind_eq_ok.mp h
    split at h
    · cases h
    split at h
    · cases h
    cases h
    exact ⟨rfl, rfl, tf, ho, rfl⟩

/-- The segments of a session are those of its pieces. -/
theorem exists_piece_of_mem_chia_doan {prec : ℕ} {tz : Zone} {start stop : ℤ}
    {meter_values : List MeterValue} {daily_tariffs : ℤ → List TariffFrame} {segments : List Segment}
    (h : chia_doan prec tz start stop meter_values daily_tariffs = .ok segments) {seg : Segment}
    (hseg : seg ∈ segments) : start < stop ∧ ∃ points, sortedPoints tz start stop daily_tariffs = .ok points ∧
      ∃ p ∈ pairs points, pieceSegment prec tz meter_values daily_tariffs p = .ok (some seg) := by
  unfold chia_doan at h
  split at h
  · cases h
    cases hseg
  next hlt =>
  obtain ⟨points, hpoints, h⟩ := bind_eq_ok.mp h
  obtain ⟨outcomes, hout, h⟩ := bind_eq_ok.mp h
  cases h
  obtain ⟨p, hp, hps⟩ := (mem_of_mapM_ok hout).mp (List.reduceOption_mem_iff.mp hseg)
  exact ⟨not_le.mp hlt, points, hpoints, p, hp, hps⟩

section Steady

variable {tz : Zone} {start stop : ℤ} {daily_tariffs : ℤ → List TariffFrame} {d d' u v w : ℤ}
  (hsteady : ClockSteady tz start stop daily_tariffs)

include hsteady

/-- An edge within the session and every edge before it on the wall clock come in that order. -/
theorem instant_le_of_le (hu : IsEdge daily_tariffs d u) (hw : IsEdge daily_tariffs d' w)
    (h1 : start ≤ (Stamp.loc w).instant tz) (h2 : (Stamp.loc w).instant tz ≤ stop) (huw : u ≤ w) :
    (Stamp.loc u).instant tz ≤ (Stamp.loc w).instant tz :=
  (hsteady.edges d u hu _ h1 h2).mpr (huw.trans ((hsteady.edges d' w hw _ h1 h2).mp le_rfl))

/-- An edge strictly within the session belongs to one of its days. -/
theorem day_of_inside (hf : FramesOk daily_tariffs) (hlt : start < stop) (hw : IsEdge daily_tariffs d w)
    (h1 : start < (Stamp.loc w).instant tz) (h2 : (Stamp.loc w).instant tz < stop) :
    tz.localDate start ≤ d ∧ d ≤ tz.localDate stop := by
  have hday : d * DAY ≤ w ∧ w ≤ (d + 1) * DAY := by
    rcases hw with rfl | ⟨tf, htf, s, e, hse, hw⟩
    · unfold DAY
      omega
    · obtain ⟨s', e', hse', h⟩ := hf d tf htf
      rw [hse] at hse'
      cases hse'
      omega
  have hstart : tz.wall start < w := by
    have := (hsteady.edges d w hw start le_rfl hlt.le).not.mp (not_le.mpr h1)
    omega
  have hstop : w ≤ tz.wall stop := (hsteady.edges d w hw stop hlt.le le_rfl).mp h2.le
  unfold Zone.localDate DAY at *
  omega

/-- An edge comes no later than the start of a piece or no earlier than its end, both by its instant
and on the wall clock. -/
theorem edge_outside (hf : FramesOk daily_tariffs) (hlt : start < stop) {points : List Stamp}
    (hpoints : sortedPoints tz start stop daily_tariffs = .ok points) {p : Stamp × Stamp}
    (hp : p ∈ pairs points) (hu : IsEdge daily_tariffs d u) :
    ((Stamp.loc u).instant tz ≤ p.1.instant tz ∧ ∀ v, p.1 = .loc v → u ≤ v) ∨
      (p.2.instant tz ≤ (Stamp.loc u).instant tz ∧ ∀ w, p.2 = .loc w → w ≤ u) := by
  obtain ⟨walls, hwalls, hsorted, hmem⟩ := sortedPoints_eq tz hf hlt
  rw [hpoints] at hwalls
  cases hwalls
  have hin : ∀ w ∈ walls, start < (Stamp.loc w).instant tz ∧ (Stamp.loc w).instant tz < stop := by
    intro w hw
    have hin := ((hmem w).mp hw).1
    simp only [inside, Bool.and_eq_true] at hin
    exact ⟨of_decide_eq_true hin.1, of_decide_eq_true hin.2⟩
  have hedge : ∀ w ∈ walls, ∃ d, IsEdge daily_tariffs d w := by
    intro w hw
    obtain ⟨d, -, -, h⟩ := ((hmem w).mp hw).2
    exact ⟨d, h⟩
  have hbounds : ∀ x ∈ Stamp.utc start :: (walls.map Stamp.loc ++ [.utc stop]),
      start ≤ x.instant tz ∧ x.instant tz ≤ stop ∧ ∀ w, x = .loc w → w ∈ walls := by
    intro x hx
    rcases List.mem_cons.mp hx with rfl | hx
    · exact ⟨le_rfl, hlt.le, fun _ h => by cases h⟩
    rcases List.mem_append.mp hx with hx | hx
    · obtain ⟨w, hw, rfl⟩ := List.mem_map.mp hx
      exact ⟨(hin w hw).1.le, (hin w hw).2.le, fun w' h => by cases h; exact hw⟩
    · rw [List.mem_singleton.mp hx]
      exact ⟨hlt.le, le_rfl, fun _ h => by cases h⟩
  obtain ⟨hp1, hp2⟩ := mem_of_mem_pairs hp
  rcases le_or_gt ((Stamp.loc u).instant tz) start with hbefore | hstart
  · refine .inl ⟨hbefore.trans (hbounds p.1 hp1).1, fun v hv => ?_⟩
    have hvw := (hbounds p.1 hp1).2.2 v hv
    obtain ⟨d', hd'⟩ := hedge v hvw
    have h1 := (hsteady.edges d u hu start le_rfl hlt.le).mp hbefore
    have h2 := (hsteady.edges d' v hd' start le_rfl hlt.le).not.mp (not_le.mpr (hin v hvw).1)
    omega
  rcases le_or_gt stop ((Stamp.loc u).instant tz) with hafter | hstop
  · refine .inr ⟨(hbounds p.2 hp2).2.1.trans hafter, fun w hw => not_lt.mp fun huw => ?_⟩
    have hww := (hbounds p.2 hp2).2.2 w hw
    obtain ⟨d', hd'⟩ := hedge w hww
    have := instant_le_of_le hsteady hu hd' (hin w hww).1.le (hin w hww).2.le huw.le
    have := (hin w hww).2
    omega
  -- an edge within the session is one of the cuts, which are in order in both senses
  have hu_mem : u ∈ walls := by
    refine (hmem u).mpr ⟨?_, d, (day_of_inside hsteady hf hlt hu hstart hstop).1,
      (day_of_inside hsteady hf hlt hu hstart hstop).2, hu⟩
    simp only [inside, Bool.and_eq_true]
    exact ⟨decide_eq_true hstart, decide_eq_true hstop⟩
  have horder : (Stamp.utc start :: (walls.map Stamp.loc ++ [.utc stop])).Pairwise fun a b =>
      a.instant tz ≤ b.instant tz ∧ ∀ v w, a = .loc v → b = .loc w → v ≤ w := by
    refine List.pairwise_cons.mpr ⟨fun x hx => ⟨(hbounds x (List.mem_cons_of_mem _ hx)).1, fun _ _ h => by cases h⟩,
      List.pairwise_append.mpr ⟨List.pairwise_map.mpr ?_, List.pairwise_singleton _ _, ?_⟩⟩
    · refine hsorted.imp_of_mem fun {v w} hv hw hvw => ⟨?_, fun v' w' h1 h2 => ?_⟩
      · obtain ⟨d1, h1⟩ := hedge v hv
        obtain ⟨d2, h2⟩ := hedge w hw
        exact instant_le_of_le hsteady h1 h2 (hin w hw).1.le (hin w hw).2.le hvw.le
      · cases h1
        cases h2
        exact hvw.le
    · intro a ha b hb
      rw [List.mem_singleton.mp hb]
      exact ⟨(hbounds a (List.mem_cons_of_mem _ (List.mem_append_left _ ha))).2.1, fun _ _ _ h => by cases h⟩
  have hmem_u : Stamp.loc u ∈ Stamp.utc start :: (walls.map Stamp.loc ++ [.utc stop]) :=
    List.mem_cons_of_mem _ (List.mem_append_left _ (List.mem_map_of_mem hu_mem))
  rcases rel_or_rel_of_mem_pairs horder hp hmem_u with (h | h) | (h | h)
  · exact .inl ⟨by rw [h], fun v hv => by rw [hv] at h; cases h; exact le_rfl⟩
  · exact .inl ⟨h.1, fun v hv => h.2 u v rfl hv⟩
  · exact .inr ⟨by rw [h], fun w hw => by rw [hw] at h; cases h; exact le_rfl⟩
  · exact .inr ⟨h.1, fun w hw => h.2 w u hw rfl⟩

/-- The middle of a piece stands for a wall time on the same side of every edge as each instant of
the piece. -/
theorem exists_wall_of_midPoint (hf : FramesOk daily_tariffs) (hlt : start < stop) {points : List Stamp}
    (hpoints : sortedPoints tz start stop daily_tariffs = .ok points) {p : Stamp × Stamp}
    (hp : p ∈ pairs points) {t : ℤ} (ht1 : p.1.instant tz ≤ t) (ht2 : t < p.2.instant tz) :
    ∃ a, (midPoint tz p).date tz = a / DAY ∧ SameSide daily_tariffs a (tz.wall t) ∧
      ∀ d s, IsEdge daily_tariffs d s → ((midPoint tz p).before tz (.loc s) = true ↔ a < s) := by
  obtain ⟨walls, hwalls, -, hmem⟩ := sortedPoints_eq tz hf hlt
  have houtside : ∀ d u, IsEdge daily_tariffs d u → _ := fun d u hu =>
    edge_outside hsteady hf hlt hpoints hp hu
  rw [hpoints] at hwalls
  cases hwalls
  have hform : ∀ x ∈ Stamp.utc start :: (walls.map Stamp.loc ++ [.utc stop]),
      x = .utc start ∨ x = .utc stop ∨ ∃ w d, x = .loc w ∧ IsEdge daily_tariffs d w ∧
        start < (Stamp.loc w).instant tz ∧ (Stamp.loc w).instant tz < stop := by
    intro x hx
    rcases List.mem_cons.mp hx with rfl | hx
    · exact .inl rfl
    rcases List.mem_append.mp hx with hx | hx
    · obtain ⟨w, hw, rfl⟩ := List.mem_map.mp hx
      obtain ⟨hin, d, -, -, hd⟩ := (hmem w).mp hw
      simp only [inside, Bool.and_eq_true] at hin
      exact .inr (.inr ⟨w, d, rfl, hd, of_decide_eq_true hin.1, of_decide_eq_true hin.2⟩)
    · exact .inr (.inl (List.mem_singleton.mp hx))
  obtain ⟨x, y⟩ := p
  obtain ⟨hx, hy⟩ := mem_of_mem_pairs hp
  have hystop : y.instant tz ≤ stop := by
    rcases hform y hy with rfl | rfl | ⟨w, d, rfl, -, -, h⟩
    · exact hlt.le
    · exact le_rfl
    · exact h.le
  have htstop : t ≤ stop := ht2.le.trans hystop
  rcases hform x hx with rfl | rfl | ⟨v, dv, rfl, hv, hv1, hv2⟩
  · -- the first piece: the middle is an instant of it
    have hminus : y.minus tz (.utc start) = y.instant tz - start := by cases y <;> rfl
    obtain ⟨hm1, hm2⟩ := Stamp.halfDelta_bounds (sub_pos.mpr (lt_of_le_of_lt ht1 ht2))
    have hm1' : start ≤ start + Stamp.halfDelta (y.instant tz - start) := le_add_of_nonneg_right hm1
    have hm2' : start + Stamp.halfDelta (y.instant tz - start) < y.instant tz := by
      simpa using add_lt_add_right hm2 start
    have hedges := fun d u hu => hsteady.edges d u hu _ hm1' (hm2'.le.trans hystop)
    refine ⟨tz.wall (start + Stamp.halfDelta (y.instant tz - start)), ?_, fun d u hu => ?_, fun d s hs => ?_⟩
    · simp only [midPoint, hminus]
      rfl
    · rw [← hedges d u hu, ← hsteady.edges d u hu t ht1 htstop]
      rcases houtside d u hu with ⟨h, -⟩ | ⟨h, -⟩
      · exact ⟨fun _ => h.trans ht1, fun _ => h.trans hm1'⟩
      · exact ⟨fun h' => absurd (h.trans h') (not_le.mpr hm2'), fun h' => absurd (h.trans h') (not_le.mpr ht2)⟩
    · simp only [midPoint, hminus]
      rw [← not_le, ← hedges d s hs, not_le]
      exact decide_eq_true_iff
  · exact absurd (lt_of_le_of_lt ht1 ht2) (not_lt.mpr hystop)
  · -- a later piece: the middle is a wall time after the cut and before every later edge
    have hstart : start ≤ t := hv1.le.trans ht1
    have hnext : ∀ d u, IsEdge daily_tariffs d u → y.instant tz ≤ (Stamp.loc u).instant tz →
        (∀ w, y = .loc w → w ≤ u) → v + Stamp.halfDelta (y.minus tz (.loc v)) < u := by
      intro d u hu hyu hwall
      rcases hform y hy with rfl | rfl | ⟨w, dw, rfl, hw, hw1, hw2⟩
      · exact absurd (lt_of_le_of_lt ht1 ht2) (not_lt.mpr hv1.le)
      · refine hsteady.middle dv v hv d u hu hv1 hv2 hyu (not_le.mp fun huv => ?_)
        have := instant_le_of_le hsteady hu hv hv1.le hv2.le huv
        exact absurd (hyu.trans this) (not_le.mpr hv2)
      · have hvw : v < w := not_le.mp fun h => absurd (instant_le_of_le hsteady hw hv hv1.le hv2.le h)
          (not_le.mpr (lt_of_le_of_lt ht1 ht2))
        have hhalf := (Stamp.halfDelta_bounds (sub_pos.mpr hvw)).2
        have hwu := hwall w rfl
        rw [show (Stamp.loc w).minus tz (.loc v) = w - v from rfl]
        omega
    have hmid : v ≤ v + Stamp.halfDelta (y.minus tz (.loc v)) := by
      have hpos : 0 < y.minus tz (.loc v) := by
        rcases hform y hy with rfl | rfl | ⟨w, dw, rfl, hw, hw1, hw2⟩
        · exact absurd (lt_of_le_of_lt ht1 ht2) (not_lt.mpr hv1.le)
        · exact sub_pos.mpr hv2
        · exact sub_pos.mpr (not_le.mp fun h => absurd (instant_le_of_le hsteady hw hv hv1.le hv2.le h)
            (not_le.mpr (lt_of_le_of_lt ht1 ht2)))
      exact le_add_of_nonneg_right (Stamp.halfDelta_bounds hpos).1
    refine ⟨v + Stamp.halfDelta (y.minus tz (.loc v)), rfl, fun d u hu => ?_, fun d s _ => decide_eq_true_iff⟩
    rw [← hsteady.edges d u hu t hstart htstop]
    rcases houtside d u hu with ⟨h, hle⟩ | ⟨h, hle⟩
    · exact ⟨fun _ => h.trans ht1, fun _ => (hle v rfl).trans hmid⟩
    · exact ⟨fun h' => absurd h' (not_le.mpr (hnext d u hu h hle)),
        fun h' => absurd (h.trans h') (not_le.mpr ht2)⟩

end Steady

/-- Wall times on the same side of every midnight have one date. -/
theorem SameSide.date {daily_tariffs : ℤ → List TariffFrame} {a b : ℤ}
    (h : SameSide daily_tariffs a b) : a / DAY = b / DAY := by
  have h1 := h (a / DAY) _ (.inl rfl)
  have h2 := h (b / DAY) _ (.inl rfl)
  unfold DAY at *
  omega

end DisplayLemmas

/-- A clock of constant offset is steady. -/
theorem clockSteady_fixed (c start stop : ℤ) (daily_tariffs : ℤ → List TariffFrame) :
    ClockSteady (Zone.fixed c) start stop daily_tariffs where
  edges := by
    intro d w _ t _ _
    rw [Stamp.instant_fixed_loc, show (Zone.fixed c).wall t = t + c from rfl]
    omega
  middle := by
    intro d w _ d' x _ _ hstop hx _
    rw [Stamp.instant_fixed_loc] at *
    have := (Stamp.halfDelta_bounds (sub_pos.mpr hstop)).2
    omega

namespace Autumn

/-- The clock of Paris around 25 October 2026: at 01:00 UTC it goes from 03:00 back to 02:00. -/
def paris : Zone := Zone.ofTransitions (120 * MINUTE) [(1792890000000000, 60 * MINUTE)]

/-- Two bands that meet at 02:30. -/
def tariff : Tariff where
  id := 7
  station_id := 1
  effective_from := 20000
  used_at := none
  idle_rate_vnd_per_minute := 500
  grace_minutes := 10
  bands := [⟨0, 150, 2000, "night"⟩, ⟨150, 1440, 3500, "day"⟩]

end Autumn

end Csms.Billing
