import Csms.Billing.DailyTariffs

/-!
# Energy conservation and pricing of `chia_doan`

In a zone of constant offset wall order is instant order, so the sorted cuts split the session
into pieces, each inside one band of one local day. The interpolated readings at the cuts are
monotone, so the energies of the pieces are non-negative and telescope.

Results:
1. `pieceSegment_fixed`: the outcome of one piece.
2. `chia_doan_conserves`: the segments of a session account for all of its energy, at the price
   of the band each instant falls in.
-/

namespace Csms.Billing

open Csms.Pricing Pairs Outcome Decimal

/-! ## 1. Readings as a function of the instant -/

/-- The interpolated reading at an instant, with 0 outside the readings. -/
def reading (readings : List MeterValue) (t : ℤ) : ℚ :=
  match readingAt true t readings with
  | .ok (v, _) => v
  | .error _ => 0

/-- A value of a `NUMERIC(24,6)` column. -/
def Numeric (q : ℚ) : Prop := Fits 24 6 q

/-- Every local day the session touches is covered by frames. -/
def DaysCovered (tz : Zone) (start stop : ℤ) (daily_tariffs : ℤ → List TariffFrame) : Prop :=
  ∀ d, tz.localDate start ≤ d → d ≤ tz.localDate (stop - 1) → ∀ w, d * DAY ≤ w → w < (d + 1) * DAY →
    ∃ tf ∈ daily_tariffs d, ∃ s e, frameEdges d tf = .ok (s, e) ∧ s ≤ w ∧ w < e

namespace ConservationLemmas

section Readings

variable {start stop : ℤ} {readings : List MeterValue} (h : Readings start stop readings)
include h

theorem readingAt_eq {t : ℤ} (h1 : start ≤ t) (h2 : t ≤ stop) :
    ∃ f, readingAt true t readings = .ok (reading readings t, f) := by
  obtain ⟨v, f, hv⟩ := readingAt_ok h h1 h2 (.inl rfl)
  exact ⟨f, by simp [reading, hv]⟩

theorem reading_mono {s t : ℤ} (h1 : start ≤ s) (hst : s ≤ t) (h2 : t ≤ stop) :
    reading readings s ≤ reading readings t := by
  rcases hst.lt_or_eq with hst | rfl
  · obtain ⟨f, hv⟩ := readingAt_eq h h1 (hst.le.trans h2)
    obtain ⟨g, hw⟩ := readingAt_eq h (h1.trans hst.le) h2
    exact readingAt_mono h h1 hst h2 hv hw
  · exact le_rfl

theorem reading_start : ∃ first, readings.head? = some first ∧ reading readings start = first.energy_wh := by
  obtain ⟨first, hf, hr⟩ := readingAt_start h
  exact ⟨first, hf, by simp [reading, hr]⟩

theorem reading_stop : ∃ last, readings.getLast? = some last ∧ reading readings stop = last.energy_wh := by
  obtain ⟨last, hl, hr⟩ := readingAt_stop h
  exact ⟨last, hl, by simp [reading, hr]⟩

end Readings

/-- A reading has six decimals; one below the last reading fits the column too. -/
theorem reading_scaled {readings : List MeterValue} (hn : ∀ mv ∈ readings, Numeric mv.energy_wh) (t : ℤ) :
    ∃ z : ℤ, reading readings t * 10 ^ 6 = z := by
  unfold reading
  split
  · next v f hv =>
    refine readingAt_induct (P := fun q => ∃ z : ℤ, q * 10 ^ 6 = z) (fun n => ⟨n * 10 ^ 6, by push_cast; ring⟩)
      (fun mv hmv => ?_) hv
    obtain ⟨z, hz, _⟩ := hn mv hmv
    exact ⟨z, hz⟩
  · exact ⟨0, by simp⟩

/-- A difference of readings fits the context of the invoice. -/
theorem fits_of_bounds {q : ℚ} (hs : ∃ z : ℤ, q * 10 ^ 6 = z) (h0 : 0 ≤ q) (h1 : q < 10 ^ 18) :
    Fits 50 6 q := by
  obtain ⟨z, hz⟩ := hs
  refine ⟨z, hz, ?_⟩
  have hz0 : (0 : ℚ) ≤ z := by rw [← hz]; positivity
  have hz1 : (z : ℚ) < 10 ^ 24 := by
    rw [← hz]
    calc q * 10 ^ 6 < 10 ^ 18 * 10 ^ 6 := by gcongr
      _ = 10 ^ 24 := by norm_num
  have hz0' : 0 ≤ z := by exact_mod_cast hz0
  have hz1' : z < 10 ^ 24 := by exact_mod_cast hz1
  rw [abs_of_nonneg hz0']
  exact hz1'.trans (by norm_num)

theorem reading_sub_fits {start stop : ℤ} {readings : List MeterValue}
    (hr : Readings start stop readings) (hn : ∀ mv ∈ readings, Numeric mv.energy_wh) {x y : ℤ}
    (hx : start ≤ x) (hxy : x ≤ y) (hy : y ≤ stop) :
    Fits 50 6 (reading readings y - reading readings x) := by
  obtain ⟨za, hza⟩ := reading_scaled hn x
  obtain ⟨zb, hzb⟩ := reading_scaled hn y
  obtain ⟨last, hl, hlast⟩ := reading_stop hr
  obtain ⟨first, hfst, hfirst⟩ := reading_start hr
  have h0 : 0 ≤ reading readings x := by
    have := hr.nonneg first (List.mem_of_mem_head? hfst)
    rw [← hfirst] at this
    exact this.trans (reading_mono hr le_rfl hx (hxy.trans hy))
  have h1 : reading readings y < 10 ^ 18 := by
    refine (reading_mono hr (hx.trans hxy) hy le_rfl).trans_lt ?_
    obtain ⟨z, hz, hzl⟩ := hn last (List.mem_of_mem_getLast? hl)
    have hz' : (z : ℚ) < 10 ^ 24 := by exact_mod_cast (le_abs_self z).trans_lt hzl
    rw [hlast]
    have : last.energy_wh * 10 ^ 6 < 10 ^ 18 * 10 ^ 6 := by rw [hz]; exact hz'.trans_eq (by norm_num)
    exact lt_of_mul_lt_mul_right this (by norm_num)
  have hmono := reading_mono hr hx hxy hy
  refine fits_of_bounds ⟨zb - za, by push_cast; rw [sub_mul, hza, hzb]⟩ (sub_nonneg.mpr hmono) ?_
  linarith

theorem sum_reduceOption_of_forall₂ {α β : Type*} {f : α → ℚ} {g : β → ℚ} :
    ∀ {l : List α} {os : List (Option β)}, List.Forall₂ (fun a o => o.elim 0 g = f a) l os →
      (os.reduceOption.map g).sum = (l.map f).sum
  | _, _, .nil => rfl
  | _, none :: _, .cons h hrest => by
    rw [List.reduceOption_cons_of_none, List.map_cons, List.sum_cons, ← h,
      sum_reduceOption_of_forall₂ hrest, Option.elim_none, zero_add]
  | _, some _ :: _, .cons h hrest => by
    rw [List.reduceOption_cons_of_some, List.map_cons, List.map_cons, List.sum_cons, List.sum_cons,
      ← h, sum_reduceOption_of_forall₂ hrest, Option.elim_some]

/-! ## 2. One piece -/

theorem appliedTariff_ok {c w : ℤ} (day : ℤ) (mid : Stamp) (hw : mid.instant (Zone.fixed c) + c = w) :
    ∀ (frames : List TariffFrame),
      (∀ tf ∈ frames, ∃ s e, frameEdges day tf = .ok (s, e)) →
      (∃ tf ∈ frames, ∃ s e, frameEdges day tf = .ok (s, e) ∧ s ≤ w ∧ w < e) →
      ∃ tf ∈ frames, ∃ s e, frameEdges day tf = .ok (s, e) ∧ s ≤ w ∧ w < e ∧
        appliedTariff (Zone.fixed c) day mid frames = .ok (some tf)
  | [], _, h => by simp at h
  | tf :: frames, hok, h => by
    obtain ⟨s, e, hse⟩ := hok tf List.mem_cons_self
    have hmid : (!mid.before (Zone.fixed c) (.loc s) && mid.before (Zone.fixed c) (.loc e)) = true ↔
        s ≤ w ∧ w < e := by
      rw [Bool.and_eq_true, Bool.not_eq_true', ← Bool.not_eq_true, Stamp.before_fixed,
        Stamp.before_fixed, Stamp.instant_fixed_loc, Stamp.instant_fixed_loc]
      omega
    by_cases hin : s ≤ w ∧ w < e
    · refine ⟨tf, List.mem_cons_self, s, e, hse, hin.1, hin.2, ?_⟩
      simp only [appliedTariff, hse, bind, Except.bind, hmid.mpr hin, if_true, pure, Except.pure]
    · have hrest : ∃ tf' ∈ frames, ∃ s e, frameEdges day tf' = .ok (s, e) ∧ s ≤ w ∧ w < e := by
        obtain ⟨tf', htf', s', e', hse', h1, h2⟩ := h
        rcases List.mem_cons.mp htf' with rfl | htf'
        · rw [hse] at hse'
          cases hse'
          exact absurd ⟨h1, h2⟩ hin
        · exact ⟨tf', htf', s', e', hse', h1, h2⟩
      obtain ⟨tf', htf', s', e', hse', h1, h2, happ⟩ :=
        appliedTariff_ok day mid hw frames (fun x hx => hok x (List.mem_cons_of_mem _ hx)) hrest
      refine ⟨tf', List.mem_cons_of_mem _ htf', s', e', hse', h1, h2, ?_⟩
      have hfalse : (!mid.before (Zone.fixed c) (.loc s) && mid.before (Zone.fixed c) (.loc e)) = false := by
        rw [← Bool.not_eq_true, hmid]
        exact hin
      simp only [appliedTariff, hse, bind, Except.bind, hfalse, Bool.false_eq_true, if_false]
      exact happ

end ConservationLemmas

open ConservationLemmas

/-- What a segment of a zone of offset `c` satisfies: it has energy, its amount is that energy at
its price, and it lies inside one frame of its local date, whose price and version it carries. -/
structure SegmentOf (c : ℤ) (daily_tariffs : ℤ → List TariffFrame) (seg : Segment) : Prop where
  energy_pos : 0 < seg.energy_consumed_wh
  amount : seg.amount_vnd = tien_dong seg.energy_consumed_wh seg.price_vnd_per_kwh
  frame : ∃ tf ∈ daily_tariffs seg.local_date, ∃ s e, frameEdges seg.local_date tf = .ok (s, e) ∧
    seg.price_vnd_per_kwh = tf.price_vnd_per_kwh ∧ seg.tariff_version = tf.tariff_version ∧
    s ≤ seg.start_time.instant (Zone.fixed c) + c ∧ seg.end_time.instant (Zone.fixed c) + c ≤ e

section Session

variable {c start stop : ℤ} {readings : List MeterValue} {daily_tariffs : ℤ → List TariffFrame}
  (hr : Readings start stop readings) (hn : ∀ mv ∈ readings, Numeric mv.energy_wh)
  (hf : FramesOk daily_tariffs) (hc : DaysCovered (Zone.fixed c) start stop daily_tariffs)
include hr hn hf hc

/-- A piece with no edge strictly inside it raises nothing; its energy is the difference of the
readings at its ends, and a segment it gives lies in one frame. -/
theorem pieceSegment_fixed {a b : Stamp}
    (hab : a.instant (Zone.fixed c) < b.instant (Zone.fixed c))
    (ha : start ≤ a.instant (Zone.fixed c)) (hb : b.instant (Zone.fixed c) ≤ stop)
    (hedge : ∀ d w, (Zone.fixed c).localDate start ≤ d → d ≤ (Zone.fixed c).localDate stop →
      IsEdge daily_tariffs d w →
      w - c ≤ a.instant (Zone.fixed c) ∨ b.instant (Zone.fixed c) ≤ w - c) :
    ∃ o, pieceSegment 50 (Zone.fixed c) readings daily_tariffs (a, b) = .ok o ∧
      o.elim 0 (·.energy_consumed_wh) =
        reading readings (b.instant (Zone.fixed c)) - reading readings (a.instant (Zone.fixed c)) ∧
      ∀ seg ∈ o, seg.start_time = a ∧ seg.end_time = b ∧ SegmentOf c daily_tariffs seg := by
  set tz := Zone.fixed c with htz
  set x := a.instant tz with hx
  set y := b.instant tz with hy
  have hbounds := Stamp.halfDelta_bounds (sub_pos.mpr hab)
  set half := Stamp.halfDelta (y - x)
  have hmid : (midPoint tz (a, b)).instant tz = x + half := by
    simp only [midPoint, htz, Stamp.instant_plus_fixed, Stamp.minus_fixed]
    rfl
  have hday : (midPoint tz (a, b)).date tz = (x + half + c) / DAY := by
    rw [htz, Stamp.date_fixed, ← htz, hmid]
  set d := (x + half + c) / DAY with hd
  have hloc : ∀ t, tz.localDate t = (t + c) / DAY := fun t => rfl
  have hDAY : (0 : ℤ) < DAY := by decide
  have hd1 : tz.localDate start ≤ d := by
    rw [hloc]
    exact Int.ediv_le_ediv hDAY (by omega)
  have hd2 : d ≤ tz.localDate (stop - 1) := by
    rw [hloc]
    exact Int.ediv_le_ediv hDAY (by omega)
  have hd3 : d ≤ tz.localDate stop := by
    rw [hloc]
    exact Int.ediv_le_ediv hDAY (by omega)
  have hlow : d * DAY ≤ x + half + c := Int.ediv_mul_le _ hDAY.ne'
  have hhigh : x + half + c < (d + 1) * DAY := Int.lt_ediv_add_one_mul_self _ hDAY
  obtain ⟨tf, htf, s, e, hse, hs, he, happ⟩ := appliedTariff_ok d (midPoint tz (a, b))
    (by rw [← htz, hmid]) (daily_tariffs d)
    (fun tf htf => let ⟨s, e, h, _⟩ := hf d tf htf; ⟨s, e, h⟩) (hc d hd1 hd2 _ hlow hhigh)
  rw [← htz] at happ
  -- the frame's edges are cuts, so the piece does not cross them
  have hsa : s ≤ x + c := by
    rcases hedge d s hd1 hd3 (.inr ⟨tf, htf, s, e, hse, .inl rfl⟩) with h | h <;> omega
  have heb : y + c ≤ e := by
    rcases hedge d e hd1 hd3 (.inr ⟨tf, htf, s, e, hse, .inr rfl⟩) with h | h <;> omega
  obtain ⟨fa, hva⟩ := readingAt_eq hr ha (hab.le.trans hb)
  obtain ⟨fb, hvb⟩ := readingAt_eq hr (ha.trans hab.le) hb
  have hmono := reading_mono hr ha hab.le hb
  have hfits : Fits 50 6 (reading readings y - reading readings x) :=
    reading_sub_fits hr hn ha hab.le hb
  have hsub : ctxSub 50 (reading readings y) (reading readings x) =
      reading readings y - reading readings x := ctxSub_of_fits hfits
  have hia : interpolate_meter_value tz a readings = .ok (reading readings x, fa) := by
    simp only [interpolate_meter_value, htz, Stamp.comparable_fixed]
    exact hva
  have hib : interpolate_meter_value tz b readings = .ok (reading readings y, fb) := by
    simp only [interpolate_meter_value, htz, Stamp.comparable_fixed]
    exact hvb
  simp only [pieceSegment, hday, happ, hia, hib, hsub, bind, Except.bind, pure, Except.pure,
    not_lt.mpr (sub_nonneg.mpr hmono), if_false]
  split
  · next hzero => exact ⟨none, rfl, by simp [hzero], by simp⟩
  · next hne =>
    refine ⟨_, rfl, rfl, ?_⟩
    rintro seg ⟨⟩
    exact ⟨rfl, rfl, lt_of_le_of_ne (sub_nonneg.mpr hmono) (Ne.symm hne), rfl,
      ⟨tf, htf, s, e, hse, rfl, rfl, hsa, heb⟩⟩

/-- The segments of a session, piece by piece. -/
theorem chia_doan_pieces (hlt : start < stop) :
    ∃ (points : List Stamp) (outcomes : List (Option Segment)),
      points.Pairwise (fun a b => a.instant (Zone.fixed c) < b.instant (Zone.fixed c)) ∧
      (∃ rest, points = .utc start :: rest ∧ rest.getLast? = some (.utc stop)) ∧
      (∀ x ∈ points, start ≤ x.instant (Zone.fixed c) ∧ x.instant (Zone.fixed c) ≤ stop) ∧
      List.Forall₂ (fun (p : Stamp × Stamp) o => o.elim 0 (·.energy_consumed_wh) =
          reading readings (p.2.instant (Zone.fixed c)) - reading readings (p.1.instant (Zone.fixed c)) ∧
        ∀ seg ∈ o, seg.start_time = p.1 ∧ seg.end_time = p.2 ∧ SegmentOf c daily_tariffs seg)
        (pairs points) outcomes ∧
      chia_doan 50 (Zone.fixed c) start stop readings daily_tariffs = .ok outcomes.reduceOption := by
  obtain ⟨walls, hpoints, hsorted, hmem⟩ := sortedPoints_eq (Zone.fixed c) hf hlt
  have hwall : ∀ w ∈ walls, start < w - c ∧ w - c < stop := by
    intro w hw
    have := ((hmem w).mp hw).1
    simp only [inside, Bool.and_eq_true, Stamp.before_fixed, Stamp.instant_fixed_loc,
      Stamp.instant_utc] at this
    exact this
  have hstrict : (Stamp.utc start :: (walls.map Stamp.loc ++ [.utc stop])).Pairwise
      fun a b => a.instant (Zone.fixed c) < b.instant (Zone.fixed c) := by
    refine List.pairwise_cons.mpr ⟨fun x hx => ?_, List.pairwise_append.mpr
      ⟨List.pairwise_map.mpr (hsorted.imp fun h => ?_), List.pairwise_singleton _ _, fun a ha b hb => ?_⟩⟩
    · rcases List.mem_append.mp hx with hx | hx
      · obtain ⟨w, hw, rfl⟩ := List.mem_map.mp hx
        exact (hwall w hw).1
      · rw [List.mem_singleton.mp hx]
        exact hlt
    · simp only [Stamp.instant_fixed_loc]
      omega
    · obtain ⟨w, hw, rfl⟩ := List.mem_map.mp ha
      rw [List.mem_singleton.mp hb]
      exact (hwall w hw).2
  have hrange : ∀ x ∈ Stamp.utc start :: (walls.map Stamp.loc ++ [.utc stop]),
      start ≤ x.instant (Zone.fixed c) ∧ x.instant (Zone.fixed c) ≤ stop := by
    intro x hx
    rcases List.mem_cons.mp hx with rfl | hx
    · exact ⟨le_rfl, hlt.le⟩
    rcases List.mem_append.mp hx with hx | hx
    · obtain ⟨w, hw, rfl⟩ := List.mem_map.mp hx
      exact ⟨(hwall w hw).1.le, (hwall w hw).2.le⟩
    · rw [List.mem_singleton.mp hx]
      exact ⟨hlt.le, le_rfl⟩
  set points := Stamp.utc start :: (walls.map Stamp.loc ++ [.utc stop]) with hpts
  have hpiece : ∀ p ∈ pairs points, ∃ o, pieceSegment 50 (Zone.fixed c) readings daily_tariffs p = .ok o ∧
      o.elim 0 (·.energy_consumed_wh) =
        reading readings (p.2.instant (Zone.fixed c)) - reading readings (p.1.instant (Zone.fixed c)) ∧
      ∀ seg ∈ o, seg.start_time = p.1 ∧ seg.end_time = p.2 ∧ SegmentOf c daily_tariffs seg := by
    intro p hp
    obtain ⟨h1, h2⟩ := mem_of_mem_pairs hp
    refine pieceSegment_fixed hr hn hf hc (rel_of_mem_pairs hstrict.isChain hp) (hrange _ h1).1
      (hrange _ h2).2 fun d w hd1 hd2 hedge => ?_
    -- an edge inside the session is one of the cuts
    by_cases hin : start < w - c ∧ w - c < stop
    · have hw : w ∈ walls := by
        refine (hmem w).mpr ⟨?_, d, hd1, hd2, hedge⟩
        simp only [inside, Bool.and_eq_true, Stamp.before_fixed, Stamp.instant_fixed_loc,
          Stamp.instant_utc]
        exact hin
      have hx : Stamp.loc w ∈ points :=
        List.mem_cons_of_mem _ (List.mem_append_left _ (List.mem_map_of_mem hw))
      exact le_or_ge_of_mem_pairs (fun s : Stamp => s.instant (Zone.fixed c))
        (hstrict.imp fun h => h.le) hp hx
    · have hp1 := (hrange _ h1).1
      have hp2 := (hrange _ h2).2
      omega
  obtain ⟨outcomes, hout⟩ := mapM_ok (f := pieceSegment 50 (Zone.fixed c) readings daily_tariffs)
    fun p hp => (hpiece p hp).imp fun _ ho => ho.1
  refine ⟨points, outcomes, hstrict, ⟨_, hpts, by simp⟩, hrange, ?_, ?_⟩
  · refine ((List.forall₂_and_left (p := (· ∈ pairs points)) _ _).mpr
      ⟨fun _ hp => hp, forall₂_of_mapM_ok hout⟩).imp ?_
    rintro p o ⟨hp, ho⟩
    obtain ⟨o', ho', h1, h2⟩ := hpiece p hp
    rw [ho] at ho'
    cases ho'
    exact ⟨h1, h2⟩
  · simp only [chia_doan, ge_iff_le, not_le.mpr hlt, if_false, hpoints, bind, Except.bind, hout]
    rfl

omit hn hf hc in
/-- Across instants no segment holds, the reading does not move: each of them lies in a piece
without energy, over which the reading is constant. -/
theorem reading_eq_of_uncovered {points : List Stamp} {outcomes : List (Option Segment)}
    (hpoints : ∃ rest, points = .utc start :: rest ∧ rest.getLast? = some (.utc stop))
    (hrange : ∀ x ∈ points, start ≤ x.instant (Zone.fixed c) ∧ x.instant (Zone.fixed c) ≤ stop)
    (hout : List.Forall₂ (fun (p : Stamp × Stamp) o => o.elim 0 (·.energy_consumed_wh) =
        reading readings (p.2.instant (Zone.fixed c)) - reading readings (p.1.instant (Zone.fixed c)) ∧
      ∀ seg ∈ o, seg.start_time = p.1 ∧ seg.end_time = p.2 ∧ SegmentOf c daily_tariffs seg)
      (pairs points) outcomes) {b : ℤ} (hb : b ≤ stop) (n : ℕ) :
    ∀ {a : ℤ}, (b - a).toNat ≤ n → start ≤ a → a ≤ b →
      (∀ t, a ≤ t → t < b → ∀ seg ∈ outcomes.reduceOption,
        ¬ (seg.start_time.instant (Zone.fixed c) ≤ t ∧ t < seg.end_time.instant (Zone.fixed c))) →
      reading readings a = reading readings b := by
  induction n with
  | zero =>
    intro a hn ha hab _
    rw [show a = b by omega]
  | succ n ih =>
    intro a hn ha hab hun
    rcases hab.lt_or_eq with hlt | rfl
    swap
    · rfl
    obtain ⟨rest, rfl, hlast⟩ := hpoints
    obtain ⟨p, hp, hpa, hap⟩ := exists_pair_covering (fun s : Stamp => s.instant (Zone.fixed c))
      (a := .utc start) (l := rest) (x := a) ha
      ⟨_, List.mem_of_mem_getLast? hlast, by simp only [Stamp.instant_utc]; omega⟩
    obtain ⟨o, ho, henergy, hseg⟩ := Outcome.exists_of_forall₂_left hout hp
    have hzero : o = none := by
      cases o with
      | none => rfl
      | some seg =>
        obtain ⟨h1, h2, -⟩ := hseg seg rfl
        exact absurd ⟨h1 ▸ hpa, h2 ▸ hap⟩
          (hun a le_rfl hlt seg (List.reduceOption_mem_iff.mpr ho))
    subst hzero
    have hconst : reading readings (p.1.instant (Zone.fixed c)) =
        reading readings (p.2.instant (Zone.fixed c)) := by
      simp only [Option.elim_none] at henergy
      linarith
    obtain ⟨hp1, hp2⟩ := mem_of_mem_pairs hp
    have h1 := reading_mono hr (hrange _ hp1).1 hpa (hlt.le.trans hb)
    by_cases hpb : b ≤ p.2.instant (Zone.fixed c)
    · have h2 := reading_mono hr (ha.trans hlt.le) hpb (hrange _ hp2).2
      have h3 := reading_mono hr ha hlt.le hb
      linarith
    · have h2 := reading_mono hr ha hap.le (hrange _ hp2).2
      have hrec := ih (a := p.2.instant (Zone.fixed c)) (by omega) (by omega) (by omega)
        fun t ht1 ht2 => hun t (by omega) ht2
      linarith

end Session

namespace ConservationLemmas

/-- The energies of the pieces telescope. -/
theorem sum_energies {c start stop : ℤ} {readings : List MeterValue} {points : List Stamp}
    {outcomes : List (Option Segment)}
    (hends : ∃ rest, points = .utc start :: rest ∧ rest.getLast? = some (.utc stop))
    (hout : List.Forall₂ (fun (p : Stamp × Stamp) o => o.elim 0 (·.energy_consumed_wh) =
      reading readings (p.2.instant (Zone.fixed c)) - reading readings (p.1.instant (Zone.fixed c)))
      (pairs points) outcomes) :
    (outcomes.reduceOption.map (·.energy_consumed_wh)).sum = reading readings stop - reading readings start := by
  obtain ⟨rest, rfl, hrest⟩ := hends
  have htel := sum_pairs (fun s : Stamp => reading readings (s.instant (Zone.fixed c))) (.utc start) rest
  have hgl : (Stamp.utc start :: rest).getLast (List.cons_ne_nil _ _) = .utc stop := by
    cases rest with
    | nil => cases hrest
    | cons x l =>
      rw [List.getLast_cons_cons]
      exact Option.some.inj ((List.getLast?_eq_some_getLast _).symm.trans hrest)
  rw [hgl, Stamp.instant_utc, Stamp.instant_utc] at htel
  rw [← htel, sum_reduceOption_of_forall₂ hout]

theorem daysCovered_of_daily {c start stop billing_end : ℤ} {tariffs : List Tariff} {station_id : ℕ}
    {daily : List DailyTariff} (hend : stop ≤ billing_end)
    (hd : _daily_tariffs tariffs station_id (Zone.fixed c) start billing_end = .ok daily) :
    DaysCovered (Zone.fixed c) start stop (framesOf daily) := by
  intro d h1 h2 w hw1 hw2
  refine exists_frame_covering hd h1 (h2.trans ?_) hw1 hw2
  exact Int.ediv_le_ediv (by decide) (by simp only [Zone.wall, Zone.fixed]; omega)

/-- All of the energy between the first and the last reading is in the segments. -/
theorem chia_doan_energy {c start stop billing_end : ℤ} {readings : List MeterValue} {tariffs : List Tariff}
    {station_id : ℕ} {daily : List DailyTariff} (hlt : start < stop) (hr : Readings start stop readings)
    (hn : ∀ mv ∈ readings, Numeric mv.energy_wh) (hend : stop ≤ billing_end)
    (hd : _daily_tariffs tariffs station_id (Zone.fixed c) start billing_end = .ok daily) :
    ∃ segments, chia_doan 50 (Zone.fixed c) start stop readings (framesOf daily) = .ok segments ∧
      (segments.map (·.energy_consumed_wh)).sum = reading readings stop - reading readings start := by
  obtain ⟨points, outcomes, -, hends, -, hout, hok⟩ :=
    chia_doan_pieces hr hn (framesOk_framesOf hd) (daysCovered_of_daily hend hd) hlt
  exact ⟨_, hok, sum_energies hends (hout.imp fun _ _ h => h.1)⟩

end ConservationLemmas

/-! ## 3. The whole session -/

/-- What the segments of a session in a zone of offset `c` account for. -/
structure Accounts (c : ℤ) (tariffs : List Tariff) (station_id : ℕ) (start stop : ℤ)
    (readings : List MeterValue) (segments : List Segment) : Prop where
  inside : ∀ seg ∈ segments, start ≤ seg.start_time.instant (Zone.fixed c) ∧
    seg.start_time.instant (Zone.fixed c) < seg.end_time.instant (Zone.fixed c) ∧
    seg.end_time.instant (Zone.fixed c) ≤ stop
  ordered : segments.Pairwise fun s t =>
    s.end_time.instant (Zone.fixed c) ≤ t.start_time.instant (Zone.fixed c)
  energy : ∃ first last, readings.head? = some first ∧ readings.getLast? = some last ∧
    (segments.map (·.energy_consumed_wh)).sum = last.energy_wh - first.energy_wh ∧
    ctxSum 50 (segments.map (·.energy_consumed_wh)) = ctxSub 50 last.energy_wh first.energy_wh
  uncovered : ∀ a b, start ≤ a → a ≤ b → b ≤ stop →
    (∀ t, a ≤ t → t < b → ∀ seg ∈ segments,
      ¬ (seg.start_time.instant (Zone.fixed c) ≤ t ∧ t < seg.end_time.instant (Zone.fixed c))) →
    ∃ v f g, interpolate_meter_value (Zone.fixed c) (.utc a) readings = .ok (v, f) ∧
      interpolate_meter_value (Zone.fixed c) (.utc b) readings = .ok (v, g)
  priced : ∀ seg ∈ segments, ∃ tariff bands b,
    lay_bieu_gia_hieu_luc tariffs station_id seg.local_date = some tariff ∧
    kiem_khung_gio (storedBands tariff) = .ok bands ∧ b ∈ bands ∧
    seg.price_vnd_per_kwh = b.energy_rate_vnd_per_kwh ∧ seg.tariff_version = tariff.id ∧
    seg.amount_vnd = tien_dong seg.energy_consumed_wh b.energy_rate_vnd_per_kwh ∧
    ∀ t, seg.start_time.instant (Zone.fixed c) ≤ t → t < seg.end_time.instant (Zone.fixed c) →
      (Zone.fixed c).localDate t = seg.local_date ∧
      seg.local_date * DAY + b.start_min * MINUTE ≤ (Zone.fixed c).wall t ∧
      (Zone.fixed c).wall t < seg.local_date * DAY + b.end_min * MINUTE

/-- In a zone of constant offset `chia_doan` raises nothing, its segments carry all of the
session's energy, and each instant of a segment is priced by the band it falls in. -/
theorem chia_doan_conserves {c start stop billing_end : ℤ} {readings : List MeterValue}
    {tariffs : List Tariff} {station_id : ℕ} {daily : List DailyTariff}
    (hlt : start < stop) (hr : Readings start stop readings)
    (hn : ∀ mv ∈ readings, Numeric mv.energy_wh) (hend : stop ≤ billing_end)
    (hd : _daily_tariffs tariffs station_id (Zone.fixed c) start billing_end = .ok daily) :
    ∃ segments, chia_doan 50 (Zone.fixed c) start stop readings (framesOf daily) = .ok segments ∧
      Accounts c tariffs station_id start stop readings segments := by
  have hf : FramesOk (framesOf daily) := framesOk_framesOf hd
  have hc : DaysCovered (Zone.fixed c) start stop (framesOf daily) := daysCovered_of_daily hend hd
  obtain ⟨points, outcomes, hstrict, hends, hrange, hout, hok⟩ := chia_doan_pieces hr hn hf hc hlt
  have hseg : ∀ seg ∈ outcomes.reduceOption, ∃ p ∈ pairs points,
      seg.start_time = p.1 ∧ seg.end_time = p.2 ∧ SegmentOf c (framesOf daily) seg ∧
      seg.energy_consumed_wh = reading readings (p.2.instant (Zone.fixed c)) -
        reading readings (p.1.instant (Zone.fixed c)) := by
    intro seg hs
    obtain ⟨p, hp, henergy, hof⟩ := exists_of_forall₂ hout (List.reduceOption_mem_iff.mp hs)
    obtain ⟨h1, h2, h3⟩ := hof seg rfl
    exact ⟨p, hp, h1, h2, h3, henergy⟩
  obtain ⟨first, hfirst, hfirst'⟩ := reading_start hr
  obtain ⟨last, hlast, hlast'⟩ := reading_stop hr
  have hsum : (outcomes.reduceOption.map (·.energy_consumed_wh)).sum = last.energy_wh - first.energy_wh := by
    rw [sum_energies hends (hout.imp fun _ _ h => h.1), hlast', hfirst']
  have hfits : Fits 50 6 (last.energy_wh - first.energy_wh) :=
    hlast' ▸ hfirst' ▸ reading_sub_fits hr hn le_rfl hlt.le le_rfl
  refine ⟨_, hok, ⟨fun seg hs => ?_, ?_, ⟨first, last, hfirst, hlast, hsum, ?_⟩, ?_, fun seg hs => ?_⟩⟩
  · obtain ⟨p, hp, h1, h2, -⟩ := hseg seg hs
    obtain ⟨hm1, hm2⟩ := mem_of_mem_pairs hp
    rw [h1, h2]
    exact ⟨(hrange _ hm1).1, rel_of_mem_pairs hstrict.isChain hp, (hrange _ hm2).2⟩
  · have hpairs := pairwise_pairs (fun s : Stamp => s.instant (Zone.fixed c))
      (hstrict.imp fun h => h.le)
    refine List.pairwise_filterMap.mpr (pairwise_of_forall₂ ?_ hout hpairs)
    intro p p' o o' ho ho' hle s hs t ht
    rw [(ho.2 s hs).2.1, (ho'.2 t ht).1]
    exact hle
  · rw [ctxSub_of_fits hfits, ← hsum]
    refine ctxSum_of_nonneg (k := 6) ?_ ?_ (hsum ▸ hfits)
    · intro v hv
      obtain ⟨seg, hs, rfl⟩ := List.mem_map.mp hv
      obtain ⟨p, -, -, -, hof, -⟩ := hseg seg hs
      exact hof.energy_pos.le
    · intro v hv
      obtain ⟨seg, hs, rfl⟩ := List.mem_map.mp hv
      obtain ⟨p, -, -, -, -, henergy⟩ := hseg seg hs
      obtain ⟨x, hx⟩ := reading_scaled hn (p.2.instant (Zone.fixed c))
      obtain ⟨y, hy⟩ := reading_scaled hn (p.1.instant (Zone.fixed c))
      exact ⟨x - y, by rw [henergy]; push_cast; rw [sub_mul, hx, hy]⟩
  · intro a b ha hab hb hun
    have heq := reading_eq_of_uncovered hr hends hrange hout hb _ le_rfl ha hab hun
    obtain ⟨f, hva⟩ := readingAt_eq hr ha (hab.trans hb)
    obtain ⟨g, hvb⟩ := readingAt_eq hr (ha.trans hab) hb
    exact ⟨_, f, g, hva, heq ▸ hvb⟩
  · obtain ⟨p, hp, h1, h2, hof, -⟩ := hseg seg hs
    obtain ⟨tf, htf, s, e, hse, hprice, hversion, hs', he'⟩ := hof.frame
    obtain ⟨t, bands, ht, hbands, b, hb, rfl⟩ := exists_band_of_mem_framesOf hd htf
    obtain ⟨hb0, hb1, hb2⟩ := (kiem_khung_gio_covers hbands).proper b hb
    rw [frameEdges_frameOf hb0 hb1 hb2] at hse
    cases hse
    refine ⟨t, bands, b, ht, hbands, hb, hprice, hversion, hof.amount.trans (by rw [hprice]; rfl), fun x hx1 hx2 => ?_⟩
    have hwall : (Zone.fixed c).wall x = x + c := rfl
    rw [Zone.localDate, hwall]
    unfold DAY MINUTE at *
    omega

/-- A tariff of two bands that meet at 06:00. -/
def twoBands : Tariff where
  id := 7
  station_id := 1
  effective_from := 0
  used_at := none
  idle_rate_vnd_per_minute := 500
  grace_minutes := 10
  bands := [⟨0, 360, 2000, "night"⟩, ⟨360, 1440, 3500, "day"⟩]

/-- A session over 06:00 local time in a zone of offset seven hours. -/
theorem chia_doan_conserves_two_bands :
    ∃ daily segments,
      _daily_tariffs [twoBands] 1 (Zone.fixed (420 * MINUTE)) (-90 * MINUTE) (30 * MINUTE) = .ok daily ∧
      chia_doan 50 (Zone.fixed (420 * MINUTE)) (-90 * MINUTE) (30 * MINUTE)
        [⟨-90 * MINUTE, 100⟩, ⟨30 * MINUTE, 1100⟩] (framesOf daily) = .ok segments ∧
      Accounts (420 * MINUTE) [twoBands] 1 (-90 * MINUTE) (30 * MINUTE)
        [⟨-90 * MINUTE, 100⟩, ⟨30 * MINUTE, 1100⟩] segments := by
  have hdaily : (_daily_tariffs [twoBands] 1 (Zone.fixed (420 * MINUTE)) (-90 * MINUTE)
      (30 * MINUTE)).isOk = true := by decide +kernel
  obtain ⟨daily, hd⟩ : ∃ daily, _daily_tariffs [twoBands] 1 (Zone.fixed (420 * MINUTE))
      (-90 * MINUTE) (30 * MINUTE) = .ok daily := by
    cases h : _daily_tariffs [twoBands] 1 (Zone.fixed (420 * MINUTE)) (-90 * MINUTE) (30 * MINUTE) with
    | ok daily => exact ⟨daily, rfl⟩
    | error e => rw [h] at hdaily; cases hdaily
  have hreadings : Readings (-90 * MINUTE) (30 * MINUTE)
      [⟨-90 * MINUTE, 100⟩, ⟨30 * MINUTE, 1100⟩] :=
    ⟨by simp [Increasing, MINUTE]; norm_num, by simp, rfl, rfl⟩
  obtain ⟨segments, hs, hacc⟩ := chia_doan_conserves (by decide) hreadings
    (by simp only [List.mem_cons, List.not_mem_nil, or_false]
        rintro mv (rfl | rfl)
        · exact ⟨100 * 10 ^ 6, by norm_num, by decide⟩
        · exact ⟨1100 * 10 ^ 6, by norm_num, by decide⟩) le_rfl hd
  exact ⟨daily, segments, hd, hs, hacc⟩

end Csms.Billing
