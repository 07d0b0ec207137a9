import Csms.Lib.Decimal
import Csms.Lib.Outcome
import Csms.Lib.Pairs
import Csms.Billing.Interpolation
import Csms.Billing.Money

/-!
# Cutting a session into priced segments (`billing/segmentation.py`)

`chia_doan` cuts a session at the local midnights and band edges inside it, looks up the band at
the midpoint of each piece, and prices the energy between the interpolated readings at the two
ends. A piece without a band, and a piece without energy, gives no segment.
-/

namespace Csms.Billing

open Pairs Outcome

/-- A price band of one day. A clock text `HH:MM` or `HH:MM:SS` is the list of its numbers. -/
structure TariffFrame where
  start_time : List ℕ
  end_time : List ℕ
  price_vnd_per_kwh : ℤ
  tariff_version : ℕ
  frame_label : String
  deriving DecidableEq, Repr

structure Segment where
  local_date : ℤ
  start_time : Stamp
  end_time : Stamp
  energy_consumed_wh : ℚ
  price_vnd_per_kwh : ℤ
  amount_vnd : ℤ
  tariff_version : ℕ
  frame_label : String
  start_interpolated : Bool
  end_interpolated : Bool
  deriving DecidableEq, Repr

/-! ## 1. The edges of a frame -/

/-- Hours, minutes and optional seconds of a clock text. -/
def clockParts : List ℕ → Except BillingError (ℕ × ℕ × ℕ)
  | h :: m :: rest => .ok (h, m, rest.headD 0)
  | _ => .error .indexError

/-- `datetime.combine(day, time(h, m, s))` as a wall time. -/
def combine (day : ℤ) (h m s : ℕ) : Except BillingError ℤ :=
  if h < 24 ∧ m < 60 ∧ s < 60 then
    .ok (day * DAY + (h * 3600 + m * 60 + s : ℕ) * 1000000)
  else .error (.valueError "hour must be in 0..23")

/-- The end of a frame; `24:00` is the next midnight. -/
def combineEnd (day : ℤ) (h m s : ℕ) : Except BillingError ℤ :=
  if h = 24 then .ok ((day + 1) * DAY) else combine day h m s

/-- The wall times at which a frame starts and ends on a day. -/
def frameEdges (day : ℤ) (tf : TariffFrame) : Except BillingError (ℤ × ℤ) := do
  let (st_h, st_m, st_s) ← clockParts tf.start_time
  let (et_h, et_m, et_s) ← clockParts tf.end_time
  let st_dt ← combine day st_h st_m st_s
  let et_dt ← combineEnd day et_h et_m et_s
  return (st_dt, et_dt)

/-! ## 2. The cuts -/

/-- The days `current_date, ..., end_date`. -/
def dateRange (first last : ℤ) : List ℤ :=
  (List.range (last - first + 1).toNat).map fun i : ℕ => first + (i : ℤ)

/-- The midnight of a day and the edges of its frames. -/
def dayEdges (daily_tariffs : ℤ → List TariffFrame) (day : ℤ) : Except BillingError (List ℤ) := do
  let edges ← (daily_tariffs day).mapM (frameEdges day)
  return day * DAY :: edges.flatMap fun e => [e.1, e.2]

/-- `session_start < cut < session_end`. -/
def inside (tz : Zone) (session_start session_end : ℤ) (cut : Stamp) : Bool :=
  (Stamp.utc session_start).before tz cut && cut.before tz (Stamp.utc session_end)

/-- `sorted(cut_points)`. The set holds each datetime once. -/
def sortedPoints (tz : Zone) (session_start session_end : ℤ)
    (daily_tariffs : ℤ → List TariffFrame) : Except BillingError (List Stamp) := do
  let days := dateRange (tz.localDate session_start) (tz.localDate session_end)
  let edges ← days.mapM (dayEdges daily_tariffs)
  let cuts := (edges.flatten.map Stamp.loc).filter (inside tz session_start session_end)
  let cut_points := (Stamp.utc session_start :: Stamp.utc session_end :: cuts).dedup
  return cut_points.insertionSort fun a b => ¬ b.before tz a

/-! ## 3. The pieces -/

/-- The first frame of the day with `st_dt <= mid_point < et_dt`. -/
def appliedTariff (tz : Zone) (day : ℤ) (mid_point : Stamp) :
    List TariffFrame → Except BillingError (Option TariffFrame)
  | [] => .ok none
  | tf :: rest => do
    let (st_dt, et_dt) ← frameEdges day tf
    if !mid_point.before tz (.loc st_dt) && mid_point.before tz (.loc et_dt) then return some tf
    else appliedTariff tz day mid_point rest

/-- The midpoint of a piece, half of an odd number of microseconds going to even. -/
def midPoint (tz : Zone) (piece : Stamp × Stamp) : Stamp :=
  piece.1.plus (Stamp.halfDelta (piece.2.minus tz piece.1))

/-- One iteration of the segment loop, under a decimal context of `prec` digits. -/
def pieceSegment (prec : ℕ) (tz : Zone) (meter_values : List MeterValue)
    (daily_tariffs : ℤ → List TariffFrame) (piece : Stamp × Stamp) :
    Except BillingError (Option Segment) := do
  let mid_point := midPoint tz piece
  let seg_local_date := mid_point.date tz
  match ← appliedTariff tz seg_local_date mid_point (daily_tariffs seg_local_date) with
  | none => return none
  | some applied_tariff =>
    let (start_wh, start_interp) ← interpolate_meter_value tz piece.1 meter_values
    let (end_wh, end_interp) ← interpolate_meter_value tz piece.2 meter_values
    let energy_consumed_wh := Decimal.ctxSub prec end_wh start_wh
    if energy_consumed_wh < 0 then
      throw (.valueError "Chỉ số công tơ giảm trong đoạn sạc.")
    else if energy_consumed_wh = 0 then return none
    else
      return some
        { local_date := seg_local_date, start_time := piece.1, end_time := piece.2
          energy_consumed_wh
          price_vnd_per_kwh := applied_tariff.price_vnd_per_kwh
          amount_vnd := tien_dong energy_consumed_wh applied_tariff.price_vnd_per_kwh
          tariff_version := applied_tariff.tariff_version
          frame_label := applied_tariff.frame_label
          start_interpolated := start_interp, end_interpolated := end_interp }

/-- `chia_doan`. -/
def chia_doan (prec : ℕ) (tz : Zone) (session_start session_end : ℤ)
    (meter_values : List MeterValue) (daily_tariffs : ℤ → List TariffFrame) :
    Except BillingError (List Segment) := do
  if session_start ≥ session_end then return []
  else
    let sorted_points ← sortedPoints tz session_start session_end daily_tariffs
    let segments ← (pairs sorted_points).mapM (pieceSegment prec tz meter_values daily_tariffs)
    return segments.reduceOption

/-! ## 4. The sorted cuts -/

/-- The frames of every day have edges, in order and inside the day. -/
def FramesOk (daily_tariffs : ℤ → List TariffFrame) : Prop :=
  ∀ day, ∀ tf ∈ daily_tariffs day, ∃ s e, frameEdges day tf = .ok (s, e) ∧
    day * DAY ≤ s ∧ s < e ∧ e ≤ (day + 1) * DAY

/-- The wall time `w` is the midnight of `day` or an edge of one of its frames. -/
def IsEdge (daily_tariffs : ℤ → List TariffFrame) (day w : ℤ) : Prop :=
  w = day * DAY ∨ ∃ tf ∈ daily_tariffs day, ∃ s e, frameEdges day tf = .ok (s, e) ∧ (w = s ∨ w = e)

theorem mem_dateRange {first last d : ℤ} : d ∈ dateRange first last ↔ first ≤ d ∧ d ≤ last := by
  simp only [dateRange, List.mem_map, List.mem_range]
  constructor
  · rintro ⟨i, hi, rfl⟩
    omega
  · rintro ⟨h1, h2⟩
    exact ⟨(d - first).toNat, by omega, by omega⟩

namespace SegmentationLemmas

theorem orderedInsert_eq_append {α : Type*} {r : α → α → Prop} [DecidableRel r] {a : α} :
    ∀ {l : List α}, (∀ x ∈ l, ¬ r a x) → l.orderedInsert r a = l ++ [a]
  | [], _ => rfl
  | x :: l, h => by
    rw [List.orderedInsert_cons, if_neg (h x List.mem_cons_self),
      orderedInsert_eq_append fun y hy => h y (List.mem_cons_of_mem _ hy)]
    rfl

theorem orderedInsert_eq_cons {α : Type*} {r : α → α → Prop} [DecidableRel r] {a : α} {l : List α}
    (h : ∀ x ∈ l, r a x) : l.orderedInsert r a = a :: l := by
  cases l with
  | nil => rfl
  | cons x l => rw [List.orderedInsert_cons, if_pos (h x List.mem_cons_self)]

theorem dayEdges_ok {daily_tariffs : ℤ → List TariffFrame} (hf : FramesOk daily_tariffs) (day : ℤ) :
    ∃ es, dayEdges daily_tariffs day = .ok es ∧ ∀ w, w ∈ es ↔ IsEdge daily_tariffs day w := by
  obtain ⟨edges, hedges⟩ := mapM_ok (f := frameEdges day) (l := daily_tariffs day) fun tf htf =>
    let ⟨s, e, h, _⟩ := hf day tf htf
    ⟨(s, e), h⟩
  refine ⟨day * DAY :: edges.flatMap fun e => [e.1, e.2], ?_, fun w => ?_⟩
  · simp only [dayEdges, hedges]
    rfl
  · simp only [List.mem_cons, List.mem_flatMap, List.not_mem_nil, or_false, IsEdge,
      mem_of_mapM_ok hedges]
    refine or_congr_right ⟨?_, ?_⟩
    · rintro ⟨⟨s, e⟩, ⟨tf, htf, h⟩, hw⟩
      exact ⟨tf, htf, s, e, h, hw⟩
    · rintro ⟨tf, htf, s, e, h, hw⟩
      exact ⟨(s, e), ⟨tf, htf, h⟩, hw⟩

theorem before_utc_asymm {tz : Zone} {t : ℤ} {x : Stamp} (h : (Stamp.utc t).before tz x = true) :
    x.before tz (.utc t) = false := by
  cases x with
  | utc s => exact decide_eq_false (not_lt.mpr (of_decide_eq_true h).le)
  | loc w => exact decide_eq_false (not_lt.mpr (of_decide_eq_true h).le)

end SegmentationLemmas

open SegmentationLemmas

/-- In any zone the sorted cuts are the start, the inner edges in the order of their wall times,
and the end: edges are compared with the ends by instant and with one another by wall time. -/
theorem sortedPoints_eq (tz : Zone) {start stop : ℤ} {daily_tariffs : ℤ → List TariffFrame}
    (hf : FramesOk daily_tariffs) (hlt : start < stop) :
    ∃ walls : List ℤ, sortedPoints tz start stop daily_tariffs =
        .ok (.utc start :: (walls.map Stamp.loc ++ [.utc stop])) ∧
      walls.Pairwise (· < ·) ∧
      ∀ w, w ∈ walls ↔ inside tz start stop (.loc w) = true ∧
        ∃ d, tz.localDate start ≤ d ∧ d ≤ tz.localDate stop ∧ IsEdge daily_tariffs d w := by
  obtain ⟨edges, hedges⟩ := mapM_ok (f := dayEdges daily_tariffs)
    (l := dateRange (tz.localDate start) (tz.localDate stop)) fun d _ =>
      let ⟨es, h, _⟩ := dayEdges_ok hf d
      ⟨es, h⟩
  let inner := (edges.flatten.filter fun w => inside tz start stop (.loc w)).dedup
  let r : Stamp → Stamp → Prop := fun a b => ¬ b.before tz a
  have hinner : ∀ w, w ∈ inner ↔ inside tz start stop (.loc w) = true ∧
      ∃ d, tz.localDate start ≤ d ∧ d ≤ tz.localDate stop ∧ IsEdge daily_tariffs d w := by
    intro w
    simp only [inner, List.mem_dedup, List.mem_filter, List.mem_flatten, mem_of_mapM_ok hedges]
    constructor
    · rintro ⟨⟨es, ⟨d, hd, hes⟩, hw⟩, hin⟩
      obtain ⟨es', hes', hedge⟩ := dayEdges_ok hf d
      rw [hes] at hes'
      cases hes'
      exact ⟨hin, d, (mem_dateRange.mp hd).1, (mem_dateRange.mp hd).2, (hedge w).mp hw⟩
    · rintro ⟨hin, d, h1, h2, hw⟩
      obtain ⟨es, hes, hedge⟩ := dayEdges_ok hf d
      exact ⟨⟨es, ⟨d, mem_dateRange.mpr ⟨h1, h2⟩, hes⟩, (hedge w).mpr hw⟩, hin⟩
  refine ⟨inner.insertionSort (· ≤ ·), ?_, ?_, fun w => ?_⟩
  · have hmap : (inner.map Stamp.loc).insertionSort r = (inner.insertionSort (· ≤ ·)).map .loc := by
      refine (List.map_insertionSort (· ≤ ·) r Stamp.loc inner fun a _ b _ => ?_).symm
      simp [r, Stamp.before]
    have hmem : ∀ x ∈ (inner.insertionSort (· ≤ ·)).map Stamp.loc, inside tz start stop x = true := by
      intro x hx
      obtain ⟨w, hw, rfl⟩ := List.mem_map.mp hx
      exact ((hinner w).mp (List.mem_insertionSort _ |>.mp hw)).1
    have hcuts : (Stamp.utc start :: Stamp.utc stop ::
        (edges.flatten.map Stamp.loc).filter (inside tz start stop)).dedup =
        .utc start :: .utc stop :: inner.map .loc := by
      rw [List.dedup_cons_of_notMem, List.dedup_cons_of_notMem, List.filter_map,
        List.dedup_map_of_injective (fun a b h => by injection h)]
      · rfl
      · simp
      · simp [hlt.ne]
    have hstop : ((inner.insertionSort (· ≤ ·)).map Stamp.loc).orderedInsert r (.utc stop) =
        (inner.insertionSort (· ≤ ·)).map Stamp.loc ++ [.utc stop] := by
      refine orderedInsert_eq_append fun x hx => ?_
      have := hmem x hx
      simp only [inside, Bool.and_eq_true] at this
      simp [r, this.2]
    have hstart : ((inner.insertionSort (· ≤ ·)).map Stamp.loc ++ [Stamp.utc stop]).orderedInsert r
        (.utc start) = .utc start :: ((inner.insertionSort (· ≤ ·)).map Stamp.loc ++ [.utc stop]) := by
      refine orderedInsert_eq_cons fun x hx => ?_
      rcases List.mem_append.mp hx with hx | hx
      · have := hmem x hx
        simp only [inside, Bool.and_eq_true] at this
        simp [r, before_utc_asymm this.1]
      · simp only [List.mem_singleton] at hx
        subst hx
        simp [r, Stamp.before, hlt.le]
    simp only [sortedPoints, hedges, bind, Except.bind, pure, Except.pure, hcuts]
    rw [List.insertionSort_cons, List.insertionSort_cons]
    change Except.ok (List.orderedInsert r _ (List.orderedInsert r _ ((inner.map _).insertionSort r))) = _
    rw [hmap, hstop, hstart]
  · have hsorted : (inner.insertionSort (· ≤ ·)).Pairwise (· ≤ ·) := List.pairwise_insertionSort _ _
    have hnodup : (inner.insertionSort (· ≤ ·)).Nodup :=
      (List.perm_insertionSort _ _).nodup_iff.mpr (List.nodup_dedup _)
    exact (hsorted.and hnodup).imp fun h => lt_of_le_of_ne h.1 h.2
  · rw [List.mem_insertionSort]
    exact hinner w

end Csms.Billing
