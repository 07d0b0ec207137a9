import Csms.Billing.Conservation
import Csms.Billing.Invoicing

/-!
# Clocks that jump

The cuts of a session are wall times; they are sorted by wall time and read from the meter by
instant. Where the clock of the station jumps the two orders may disagree, and `chia_doan` raises
for a meter that seems to run backwards.

Results:
1. `pieceSegment_spec`: a piece raises when it has a band and the meter runs backwards over it.
2. `chia_doan_ok_iff`: in any zone `chia_doan` raises exactly when the meter moves between two cuts
   whose instants are out of order.
-/

namespace Csms.Billing

open Csms.Pricing Tx Decimal Pairs Outcome

/-! ## 1. The meter at a cut -/

/-- What the code reads from the meter at a datetime. -/
def stampReading (tz : Zone) (readings : List MeterValue) (x : Stamp) : ℚ :=
  match interpolate_meter_value tz x readings with
  | .ok (v, _) => v
  | .error _ => 0

/-- The energy of a piece, as the code computes it. -/
def pieceEnergy (tz : Zone) (readings : List MeterValue) (p : Stamp × Stamp) : ℚ :=
  stampReading tz readings p.2 - stampReading tz readings p.1

/-- Whether a band applies at the middle of a piece. -/
def hasBand (tz : Zone) (daily_tariffs : ℤ → List TariffFrame) (p : Stamp × Stamp) : Bool :=
  let mid_point := midPoint tz p
  match appliedTariff tz (mid_point.date tz) mid_point (daily_tariffs (mid_point.date tz)) with
  | .ok (some _) => true
  | _ => false

/-- The start, the end, or a datetime strictly between. -/
def Cut (tz : Zone) (start stop : ℤ) (x : Stamp) : Prop :=
  x = .utc start ∨ x = .utc stop ∨ (start < x.instant tz ∧ x.instant tz < stop)

namespace DaylightLemmas

section Meter

variable {tz : Zone} {start stop : ℤ} {readings : List MeterValue} {x y : Stamp}
  (hr : Readings start stop readings) (hlt : start < stop)

include hlt in
theorem Cut.instant (hx : Cut tz start stop x) : start ≤ x.instant tz ∧ x.instant tz ≤ stop := by
  rcases hx with rfl | rfl | ⟨h1, h2⟩
  · exact ⟨le_rfl, hlt.le⟩
  · exact ⟨hlt.le, le_rfl⟩
  · exact ⟨h1.le, h2.le⟩

include hr in
theorem stampReading_start (tz : Zone) : ∃ first, readings.head? = some first ∧
    stampReading tz readings (.utc start) = first.energy_wh := by
  obtain ⟨first, hf, h⟩ := readingAt_start hr
  exact ⟨first, hf, by rw [stampReading, interpolate_meter_value, Stamp.comparable_utc, Stamp.instant_utc, h]⟩

include hr in
theorem stampReading_stop (tz : Zone) : ∃ last, readings.getLast? = some last ∧
    stampReading tz readings (.utc stop) = last.energy_wh := by
  obtain ⟨last, hl, h⟩ := readingAt_stop hr
  exact ⟨last, hl, by rw [stampReading, interpolate_meter_value, Stamp.comparable_utc, Stamp.instant_utc, h]⟩

theorem stampReading_scaled (tz : Zone) (hn : ∀ mv ∈ readings, Numeric mv.energy_wh) (x : Stamp) :
    ∃ z : ℤ, stampReading tz readings x * 10 ^ 6 = z := by
  unfold stampReading
  split
  · next v f hv =>
    refine readingAt_induct (P := fun q => ∃ z : ℤ, q * 10 ^ 6 = z)
      (fun n => ⟨n * 10 ^ 6, by push_cast; ring⟩) (fun mv hmv => ?_) hv
    obtain ⟨z, hz, _⟩ := hn mv hmv
    exact ⟨z, hz⟩
  · exact ⟨0, by simp⟩

include hr hlt

theorem Cut.read (hx : Cut tz start stop x) :
    ∃ f, interpolate_meter_value tz x readings = .ok (stampReading tz readings x, f) := by
  have hok : ∃ v f, interpolate_meter_value tz x readings = .ok (v, f) := by
    rcases hx with rfl | rfl | ⟨h1, h2⟩
    · exact readingAt_ok hr le_rfl hlt.le (.inl rfl)
    · exact readingAt_ok hr hlt.le le_rfl (.inl rfl)
    · exact readingAt_ok hr h1.le h2.le (.inr h2)
  obtain ⟨v, f, hv⟩ := hok
  exact ⟨f, by simp [stampReading, hv]⟩

/-- Later instants have no smaller readings. -/
theorem Cut.mono (hx : Cut tz start stop x) (hy : Cut tz start stop y)
    (hxy : x.instant tz < y.instant tz) : stampReading tz readings x ≤ stampReading tz readings y := by
  obtain ⟨f, hv⟩ := Cut.read hr hlt hx
  obtain ⟨g, hw⟩ := Cut.read hr hlt hy
  exact readingAt_mono hr (Cut.instant hlt hx).1 hxy (Cut.instant hlt hy).2 hv hw

theorem Cut.bounds (hn : ∀ mv ∈ readings, Numeric mv.energy_wh) (hx : Cut tz start stop x) :
    0 ≤ stampReading tz readings x ∧ stampReading tz readings x < 10 ^ 18 := by
  obtain ⟨first, hf, hfirst⟩ := stampReading_start hr tz
  obtain ⟨last, hl, hlast⟩ := stampReading_stop hr tz
  have h0 : 0 ≤ stampReading tz readings (.utc start) :=
    hfirst ▸ hr.nonneg first (List.mem_of_mem_head? hf)
  have h1 : stampReading tz readings (.utc stop) < 10 ^ 18 := by
    obtain ⟨z, hz, hzl⟩ := hn last (List.mem_of_mem_getLast? hl)
    have hz' : (z : ℚ) < 10 ^ 24 := by exact_mod_cast (le_abs_self z).trans_lt hzl
    rw [hlast]
    have : last.energy_wh * 10 ^ 6 < 10 ^ 18 * 10 ^ 6 := by rw [hz]; exact hz'.trans_eq (by norm_num)
    exact lt_of_mul_lt_mul_right this (by norm_num)
  have hends : stampReading tz readings (.utc start) ≤ stampReading tz readings (.utc stop) :=
    Cut.mono hr hlt (.inl rfl) (.inr (.inl rfl)) hlt
  rcases hx with rfl | rfl | ⟨hx1, hx2⟩
  · exact ⟨h0, hends.trans_lt h1⟩
  · exact ⟨h0.trans hends, h1⟩
  · have hin : Cut tz start stop x := .inr (.inr ⟨hx1, hx2⟩)
    exact ⟨h0.trans (Cut.mono hr hlt (.inl rfl) hin hx1),
      (Cut.mono hr hlt hin (.inr (.inl rfl)) hx2).trans_lt h1⟩

/-- A difference of readings fits the context of the invoice. -/
theorem pieceEnergy_fits (hn : ∀ mv ∈ readings, Numeric mv.energy_wh) (hx : Cut tz start stop x)
    (hy : Cut tz start stop y) : Fits 50 6 (pieceEnergy tz readings (x, y)) := by
  obtain ⟨za, hza⟩ := stampReading_scaled tz hn x
  obtain ⟨zb, hzb⟩ := stampReading_scaled tz hn y
  obtain ⟨hx0, hx1⟩ := Cut.bounds hr hlt hn hx
  obtain ⟨hy0, hy1⟩ := Cut.bounds hr hlt hn hy
  refine ⟨zb - za, by push_cast; rw [pieceEnergy, sub_mul, hza, hzb], ?_⟩
  have hlow : (-(10 : ℚ) ^ 24) < zb - za := by rw [← hza, ← hzb]; linarith
  have hhigh : (zb - za : ℚ) < 10 ^ 24 := by rw [← hza, ← hzb]; linarith
  have hlow' : -(10 : ℤ) ^ 24 < zb - za := by exact_mod_cast hlow
  have hhigh' : zb - za < (10 : ℤ) ^ 24 := by exact_mod_cast hhigh
  exact (abs_lt.mpr ⟨hlow', hhigh'⟩).trans (by norm_num)

end Meter

theorem appliedTariff_total (tz : Zone) (day : ℤ) (mid : Stamp) :
    ∀ {frames : List TariffFrame}, (∀ tf ∈ frames, ∃ s e, frameEdges day tf = .ok (s, e)) →
      ∃ o, appliedTariff tz day mid frames = .ok o ∧ ∀ tf ∈ o, tf ∈ frames
  | [], _ => ⟨none, rfl, nofun⟩
  | tf :: frames, hok => by
    obtain ⟨s, e, hse⟩ := hok tf List.mem_cons_self
    simp only [appliedTariff, hse, bind, Except.bind, pure, Except.pure]
    split
    · exact ⟨some tf, rfl, fun x hx => by cases hx; exact List.mem_cons_self⟩
    · obtain ⟨o, ho, hmem⟩ := appliedTariff_total tz day mid fun x hx => hok x (List.mem_cons_of_mem _ hx)
      exact ⟨o, ho, fun x hx => List.mem_cons_of_mem _ (hmem x hx)⟩

end DaylightLemmas

open DaylightLemmas

/-! ## 2. Pieces and segments -/

/-- A segment of a piece: its energy, at the price and under the label of a frame of its day. -/
structure SegmentFrom (tz : Zone) (readings : List MeterValue) (daily_tariffs : ℤ → List TariffFrame)
    (p : Stamp × Stamp) (seg : Segment) : Prop where
  start_time : seg.start_time = p.1
  end_time : seg.end_time = p.2
  energy : seg.energy_consumed_wh = pieceEnergy tz readings p
  positive : 0 < seg.energy_consumed_wh
  amount : seg.amount_vnd = tien_dong seg.energy_consumed_wh seg.price_vnd_per_kwh
  frame : ∃ tf ∈ daily_tariffs seg.local_date, seg.price_vnd_per_kwh = tf.price_vnd_per_kwh ∧
    seg.frame_label = tf.frame_label

/-- Between two cuts whose instants are out of order the meter does not move, as far as a band
applies. -/
def MeterStill (tz : Zone) (readings : List MeterValue) (daily_tariffs : ℤ → List TariffFrame)
    (points : List Stamp) : Prop :=
  ∀ p ∈ pairs points, p.2.instant tz ≤ p.1.instant tz → hasBand tz daily_tariffs p = true →
    stampReading tz readings p.1 ≤ stampReading tz readings p.2

section Session

variable {tz : Zone} {start stop : ℤ} {readings : List MeterValue} {daily_tariffs : ℤ → List TariffFrame}
  (hr : Readings start stop readings) (hn : ∀ mv ∈ readings, Numeric mv.energy_wh)
  (hf : FramesOk daily_tariffs) (hlt : start < stop)
include hr hn hf hlt

/-- A piece raises when it has a band and the meter runs backwards over it. -/
theorem pieceSegment_spec {p : Stamp × Stamp} (h1 : Cut tz start stop p.1) (h2 : Cut tz start stop p.2) :
    (hasBand tz daily_tariffs p = true ∧ pieceEnergy tz readings p < 0 ∧
      pieceSegment 50 tz readings daily_tariffs p =
        .error (.valueError "Chỉ số công tơ giảm trong đoạn sạc.")) ∨
    ((hasBand tz daily_tariffs p = true → 0 ≤ pieceEnergy tz readings p) ∧
      ∃ o, pieceSegment 50 tz readings daily_tariffs p = .ok o ∧
      o.elim 0 (·.energy_consumed_wh) =
        (if hasBand tz daily_tariffs p then pieceEnergy tz readings p else 0) ∧
      ∀ seg ∈ o, SegmentFrom tz readings daily_tariffs p seg) := by
  obtain ⟨o, happ, hmem⟩ := appliedTariff_total tz ((midPoint tz p).date tz) (midPoint tz p) fun tf htf =>
    let ⟨s, e, h, _⟩ := hf ((midPoint tz p).date tz) tf htf
    ⟨s, e, h⟩
  obtain ⟨fa, hia⟩ := Cut.read hr hlt h1
  obtain ⟨fb, hib⟩ := Cut.read hr hlt h2
  have hsub : ctxSub 50 (stampReading tz readings p.2) (stampReading tz readings p.1) =
      pieceEnergy tz readings p := ctxSub_of_fits (pieceEnergy_fits hr hlt hn h1 h2)
  cases o with
  | none =>
    have hband : hasBand tz daily_tariffs p = false := by simp only [hasBand, happ]
    refine .inr ⟨fun h => by simp [hband] at h, none, ?_, by simp [hband], nofun⟩
    simp only [pieceSegment, happ, bind, Except.bind, pure, Except.pure]
  | some tf =>
    have hband : hasBand tz daily_tariffs p = true := by simp only [hasBand, happ]
    simp only [pieceSegment, happ, hia, hib, hsub, bind, Except.bind, pure, Except.pure]
    by_cases hneg : pieceEnergy tz readings p < 0
    · rw [if_pos hneg]
      exact .inl ⟨hband, hneg, rfl⟩
    · rw [if_neg hneg]
      refine .inr ⟨fun _ => not_lt.mp hneg, ?_⟩
      split
      · next hzero => exact ⟨none, rfl, by simp [hzero], nofun⟩
      · next hne =>
        refine ⟨_, rfl, by simp, ?_⟩
        rintro seg ⟨⟩
        exact ⟨rfl, rfl, rfl, lt_of_le_of_ne (not_lt.mp hneg) (Ne.symm hne), rfl, tf, hmem tf rfl, rfl, rfl⟩

omit hr hn hf hlt in
/-- The cuts of a session, in the order of the code: neighbours are in the order of their instants,
or two wall times in order. -/
theorem exists_points (tz : Zone) (hf : FramesOk daily_tariffs) (hlt : start < stop) :
    ∃ points, sortedPoints tz start stop daily_tariffs = .ok points ∧
    (∀ x ∈ points, Cut tz start stop x) ∧
    ∀ p ∈ pairs points, p.1.instant tz < p.2.instant tz ∨ ∃ v w, v < w ∧ p = (.loc v, .loc w) := by
  obtain ⟨walls, hpoints, hsorted, hmem⟩ := sortedPoints_eq tz hf hlt
  have hwall : ∀ w ∈ walls, start < (Stamp.loc w).instant tz ∧ (Stamp.loc w).instant tz < stop := by
    intro w hw
    have hin := ((hmem w).mp hw).1
    simp only [inside, Bool.and_eq_true] at hin
    exact ⟨of_decide_eq_true hin.1, of_decide_eq_true hin.2⟩
  refine ⟨_, hpoints, fun x hx => ?_, fun p hp => ?_⟩
  · rcases List.mem_cons.mp hx with rfl | hx
    · exact .inl rfl
    rcases List.mem_append.mp hx with hx | hx
    · obtain ⟨w, hw, rfl⟩ := List.mem_map.mp hx
      exact .inr (.inr (hwall w hw))
    · exact .inr (.inl (List.mem_singleton.mp hx))
  · have hchain : (Stamp.utc start :: (walls.map Stamp.loc ++ [.utc stop])).Pairwise fun a b =>
        a.instant tz < b.instant tz ∨ ∃ v w, v < w ∧ a = .loc v ∧ b = .loc w := by
      refine List.pairwise_cons.mpr ⟨fun x hx => .inl ?_, List.pairwise_append.mpr
        ⟨List.pairwise_map.mpr (hsorted.imp fun {v w} h => .inr ⟨v, w, h, rfl, rfl⟩),
          List.pairwise_singleton _ _, fun a ha b hb => .inl ?_⟩⟩
      · rcases List.mem_append.mp hx with hx | hx
        · obtain ⟨w, hw, rfl⟩ := List.mem_map.mp hx
          exact (hwall w hw).1
        · rw [List.mem_singleton.mp hx]
          exact hlt
      · obtain ⟨w, hw, rfl⟩ := List.mem_map.mp ha
        rw [List.mem_singleton.mp hb]
        exact (hwall w hw).2
    rcases rel_of_mem_pairs hchain.isChain hp with h | ⟨v, w, h, h1, h2⟩
    · exact .inl h
    · exact .inr ⟨v, w, h, Prod.ext h1 h2⟩

/-- `chia_doan` gives segments exactly when the meter stands still between cuts that are out of
order; otherwise it raises a plain `ValueError`. -/
theorem chia_doan_ok_iff {points : List Stamp} (hp : sortedPoints tz start stop daily_tariffs = .ok points)
    (hcut : ∀ x ∈ points, Cut tz start stop x) :
    (MeterStill tz readings daily_tariffs points → ∃ outcomes,
      chia_doan 50 tz start stop readings daily_tariffs = .ok outcomes.reduceOption ∧
      List.Forall₂ (fun p o => o.elim 0 (·.energy_consumed_wh) =
          (if hasBand tz daily_tariffs p then pieceEnergy tz readings p else 0) ∧
        ∀ seg ∈ o, SegmentFrom tz readings daily_tariffs p seg) (pairs points) outcomes) ∧
    (¬ MeterStill tz readings daily_tariffs points → ∃ message,
      chia_doan 50 tz start stop readings daily_tariffs = .error (.valueError message)) := by
  have hspec : ∀ p ∈ pairs points, _ := fun p h =>
    pieceSegment_spec hr hn hf hlt (hcut p.1 (mem_of_mem_pairs h).1) (hcut p.2 (mem_of_mem_pairs h).2)
  have hdef : chia_doan 50 tz start stop readings daily_tariffs =
      ((pairs points).mapM (pieceSegment 50 tz readings daily_tariffs)).bind
        fun segments => .ok segments.reduceOption := by
    simp only [chia_doan, not_le.mpr hlt, if_false, hp, bind, Except.bind, pure, Except.pure]
  constructor
  · intro hstill
    have hok : ∀ p ∈ pairs points, _ := fun p h => (hspec p h).resolve_left <| by
      rintro ⟨hband, hneg, -⟩
      by_cases hord : p.2.instant tz ≤ p.1.instant tz
      · exact absurd (hstill p h hord hband) (not_le.mpr (sub_neg.mp hneg))
      · have := Cut.mono hr hlt (hcut p.1 (mem_of_mem_pairs h).1) (hcut p.2 (mem_of_mem_pairs h).2)
          (not_le.mp hord)
        exact absurd this (not_le.mpr (sub_neg.mp hneg))
    obtain ⟨outcomes, hout⟩ := mapM_ok fun p h => (hok p h).2.imp fun _ ho => ho.1
    refine ⟨outcomes, by rw [hdef, hout]; rfl, ?_⟩
    refine forall₂_imp_of_mem (forall₂_of_mapM_ok hout) fun p h o ho => ?_
    obtain ⟨-, o', ho', he, hseg⟩ := hok p h
    rw [ho] at ho'
    cases ho'
    exact ⟨he, hseg⟩
  · intro hmoves
    simp only [MeterStill, not_forall, not_le] at hmoves
    obtain ⟨p, h, hord, hband, hdown⟩ := hmoves
    have herr : ∃ e, (pairs points).mapM (pieceSegment 50 tz readings daily_tariffs) = .error e := by
      cases hm : (pairs points).mapM (pieceSegment 50 tz readings daily_tariffs) with
      | error e => exact ⟨e, rfl⟩
      | ok outcomes =>
        obtain ⟨o, -, ho⟩ := exists_of_forall₂_left (forall₂_of_mapM_ok hm) h
        rcases hspec p h with ⟨-, -, he⟩ | ⟨hpos, -⟩
        · rw [he] at ho
          cases ho
        · exact absurd (hpos hband) (not_le.mpr (sub_neg.mpr hdown))
    obtain ⟨e, he⟩ := herr
    obtain ⟨q, hq, hqe⟩ := mem_of_mapM_error he
    rcases hspec q hq with ⟨-, -, hq'⟩ | ⟨-, o, ho, -⟩
    · rw [hqe] at hq'
      cases hq'
      exact ⟨_, by rw [hdef, he]; rfl⟩
    · rw [ho] at hqe
      cases hqe

end Session

end Csms.Billing
