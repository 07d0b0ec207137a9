import Csms.Billing.Rejections
import Csms.Lib.Transitions

/-!
# The lines of the idle fee

A run of the loop is a list of lines, one for each local date it reaches. The lines are contiguous and
have the started minutes of the whole idle time between them, whatever the zone.

A minute is charged at the rate of the date on which its line starts. In a zone that jumps from before a
midnight to after it, the minutes between the jump and the instant of the skipped midnight are charged
with the date before. `idle_fee_by_minute` says exactly when this does not happen.
-/

namespace Csms.Billing

open Csms.Pricing Outcome IdleFeeLemmas

/-! ## 1. Runs of the loop -/

/-- The minutes started from `anchor` to `stop`. -/
def startedMinutes (anchor stop : ℤ) : ℤ := max 0 ⌈((stop - anchor : ℤ) : ℚ) / 60000000⌉

/-- The started minutes of a line. -/
def InvoiceLine.minutes (line : InvoiceLine) : ℤ := startedMinutes line.started_at line.ended_at

/-- The idle rate in force on a date. -/
def idleRateOn (daily : List DailyTariff) (day : ℤ) : ℤ :=
  ((versionOf daily day).map (·.idle_rate_vnd_per_minute)).getD 0

/-- The line of a date, from its first charged minute. -/
def idleLine (tz : Zone) (stop anchor : ℤ) (tariff : Tariff) : InvoiceLine where
  line_type := .idle
  local_date := tz.localDate anchor
  started_at := anchor
  ended_at := min stop (anchor + minutesToMidnight tz anchor * MINUTE)
  energy_wh := 0
  rate_vnd := tariff.idle_rate_vnd_per_minute
  band_label := "Phí chiếm trụ"
  interpolated := false
  tariff_id := tariff.id
  amount_vnd := startedMinutes anchor (min stop (anchor + minutesToMidnight tz anchor * MINUTE)) *
    tariff.idle_rate_vnd_per_minute

/-- The lines of a run from `anchor` on. -/
inductive IdleRun (tz : Zone) (daily : List DailyTariff) (stop : ℤ) : ℤ → List InvoiceLine → Prop
  | done {anchor : ℤ} (le : stop ≤ anchor) : IdleRun tz daily stop anchor []
  | day {anchor : ℤ} {tariff : Tariff} {rest : List InvoiceLine} (lt : anchor < stop)
      (version : versionOf daily (tz.localDate anchor) = some tariff)
      (ahead : 1 ≤ minutesToMidnight tz anchor)
      (run : IdleRun tz daily stop (anchor + minutesToMidnight tz anchor * MINUTE) rest) :
      IdleRun tz daily stop anchor (idleLine tz stop anchor tariff :: rest)

namespace IdleLinesLemmas

theorem ceil_minutes (x : ℤ) : ⌈(x : ℚ) / 60000000⌉ = (x + MINUTE - 1) / MINUTE := by
  rw [Int.ceil_eq_iff]
  have hdiv := Int.mul_ediv_add_emod (x + MINUTE - 1) MINUTE
  have hmod := Int.emod_lt_of_pos (x + MINUTE - 1) (show (0 : ℤ) < MINUTE by decide)
  have hmod0 := Int.emod_nonneg (x + MINUTE - 1) (show MINUTE ≠ 0 by decide)
  generalize (x + MINUTE - 1) / MINUTE = q at hdiv
  simp only [MINUTE] at *
  constructor
  · rw [lt_div_iff₀ (by norm_num)]
    have : (q - 1) * 60000000 < x := by omega
    exact_mod_cast this
  · rw [div_le_iff₀ (by norm_num)]
    have : x ≤ q * 60000000 := by omega
    exact_mod_cast this

theorem startedMinutes_eq (anchor stop : ℤ) :
    startedMinutes anchor stop = max 0 ((stop - anchor + MINUTE - 1) / MINUTE) := by
  rw [startedMinutes, ceil_minutes]

theorem minutes_startedMinutes (anchor stop : ℤ) : Minutes anchor stop (startedMinutes anchor stop) := by
  rw [startedMinutes_eq]
  exact minutes_of_excess anchor stop

/-- There is one number of started minutes. -/
theorem Minutes.eq {anchor stop count : ℤ} (h : Minutes anchor stop count) : count = startedMinutes anchor stop := by
  have h' := minutes_startedMinutes anchor stop
  generalize startedMinutes anchor stop = n at h'
  unfold Minutes MINUTE at *
  omega

theorem startedMinutes_of_le {anchor stop : ℤ} (h : stop ≤ anchor) : startedMinutes anchor stop = 0 :=
  (Minutes.eq ⟨le_rfl, by simpa using h, .inl rfl⟩).symm

/-- The minutes of a date and those after it. -/
theorem startedMinutes_split {anchor stop span : ℤ} (hspan : 0 ≤ span) :
    startedMinutes anchor stop = startedMinutes anchor (min stop (anchor + span * MINUTE)) +
      startedMinutes (anchor + span * MINUTE) stop := by
  refine (Minutes.eq ?_).symm
  have h := minutes_startedMinutes anchor (min stop (anchor + span * MINUTE))
  have h' := minutes_startedMinutes (anchor + span * MINUTE) stop
  generalize startedMinutes anchor (min stop (anchor + span * MINUTE)) = m at h
  generalize startedMinutes (anchor + span * MINUTE) stop = n at h'
  unfold Minutes MINUTE at *
  rcases le_total stop (anchor + span * 60000000) with hle | hle
  · rw [min_eq_left hle] at h
    omega
  · rw [min_eq_right hle] at h
    omega

/-- The loop makes a run when every date it reaches has a tariff and a midnight ahead. -/
theorem idleDays_run {tz : Zone} {daily : List DailyTariff} {first last : ℤ} (hv : Versions daily first last)
    {stop : ℤ} {turns : ℕ} {anchor count : ℤ} (hturns : count ≤ turns) (hmin : Minutes anchor stop count)
    (hdays : ∀ t, ChargedDay tz anchor stop t → t < stop → DayAhead tz first last t) :
    ∃ lines, idleDays tz daily stop turns anchor count = .ok lines ∧ IdleRun tz daily stop anchor lines := by
  induction turns generalizing anchor count with
  | zero =>
    have hzero : count = 0 := le_antisymm (by exact_mod_cast hturns) hmin.1
    subst hzero
    exact ⟨[], by simp [idleDays], .done (by simpa using hmin.2.1)⟩
  | succ turns ih =>
    unfold idleDays
    by_cases hc : count = 0
    · subst hc
      exact ⟨[], by rw [if_pos rfl], .done (by simpa using hmin.2.1)⟩
    have hlt := hmin.anchor_lt hc
    have hday := hdays anchor .first hlt
    obtain ⟨tariff, htariff⟩ := (hv.dates _).mpr ⟨hday.lower, hday.upper⟩
    have hrate := (hv.stored _ tariff htariff).1
    have hq := minutes_pos.mpr hday.midnight
    have hpos := hmin.1
    -- the code stops at the last minute, the run at the midnight; both end at `stop` then
    have hnext : min stop (anchor + min count (minutesToMidnight tz anchor) * MINUTE) =
        min stop (anchor + minutesToMidnight tz anchor * MINUTE) := by
      have := hmin.2.1
      unfold MINUTE at *
      omega
    have hend : anchor < min stop (anchor + minutesToMidnight tz anchor * MINUTE) := by
      unfold MINUTE
      omega
    have hless : count - min count (minutesToMidnight tz anchor) ≤ turns := by
      push_cast at hturns
      omega
    have hrest : ∃ lines, idleDays tz daily stop turns (anchor + min count (minutesToMidnight tz anchor) * MINUTE)
        (count - min count (minutesToMidnight tz anchor)) = .ok lines ∧
        IdleRun tz daily stop (anchor + minutesToMidnight tz anchor * MINUTE) lines := by
      rcases le_total count (minutesToMidnight tz anchor) with hle | hle
      · have hover := hmin.2.1
        refine ⟨[], ?_, .done ?_⟩
        · rw [min_eq_left hle, sub_self]
          unfold idleDays
          simp
        · unfold MINUTE at *
          omega
      · rw [min_eq_right hle] at hless ⊢
        exact ih hless (hmin.sub (by omega) hle) fun t ht hts => hdays t (chargedDay_of_next hlt ht) hts
    obtain ⟨rest, hok, hrun⟩ := hrest
    refine ⟨_, ?_, .day hlt htariff hq hrun⟩
    rw [if_neg hc]
    simp only [htariff, hnext, tinh_phi_ok hend.le le_rfl hrate, hok, bind, Except.bind, pure, Except.pure]
    rw [zero_mul, sub_zero, ← startedMinutes_eq]
    rfl

end IdleLinesLemmas

open IdleLinesLemmas

/-! ## 2. What the lines of a run are -/

/-- Lines from `at_` on, each from the end of the one before it, none past `stop`. -/
def Contiguous (stop : ℤ) : ℤ → List InvoiceLine → Prop
  | _, [] => True
  | at_, line :: rest => line.started_at = at_ ∧ line.started_at < line.ended_at ∧ line.ended_at ≤ stop ∧
      Contiguous stop line.ended_at rest

/-- The lines charge the idle time from `anchor` to `stop` by started minutes, each at the rate of its
local date. -/
structure IdleCharged (tz : Zone) (daily : List DailyTariff) (anchor stop : ℤ) (lines : List InvoiceLine) : Prop where
  contiguous : Contiguous stop anchor lines
  minutes : (lines.map (·.minutes)).sum = startedMinutes anchor stop
  total : (lines.map (·.amount_vnd)).sum =
    ∑ k ∈ Finset.range (startedMinutes anchor stop).toNat, idleRateOn daily (tz.localDate (anchor + k * MINUTE))

/-- Every minute charged with a date starts on it. -/
def DatedRight (tz : Zone) (anchor stop : ℤ) : Prop :=
  ∀ t, ChargedDay tz anchor stop t → ∀ k : ℕ, t + k * MINUTE < stop →
    t + k * MINUTE < midnightAfter tz (tz.localDate t) → tz.localDate (t + k * MINUTE) = tz.localDate t

namespace IdleLinesLemmas

variable {tz : Zone} {daily : List DailyTariff} {stop anchor : ℤ} {lines : List InvoiceLine}

theorem IdleRun.contiguous (h : IdleRun tz daily stop anchor lines) : Contiguous stop anchor lines := by
  induction h with
  | done _ => trivial
  | @day anchor tariff rest lt version ahead run ih =>
    have hlt : anchor < min stop (anchor + minutesToMidnight tz anchor * MINUTE) := by
      unfold MINUTE
      omega
    refine ⟨rfl, hlt, min_le_left _ _, ?_⟩
    cases run with
    | done _ => trivial
    | day lt' version' ahead' run' =>
      have hend : (idleLine tz stop anchor tariff).ended_at = anchor + minutesToMidnight tz anchor * MINUTE :=
        min_eq_right lt'.le
      rw [hend]
      exact ih

theorem IdleRun.minutes (h : IdleRun tz daily stop anchor lines) :
    (lines.map (·.minutes)).sum = startedMinutes anchor stop := by
  induction h with
  | done le => exact (startedMinutes_of_le le).symm
  | @day anchor tariff rest lt version ahead run ih =>
    have hsplit := @startedMinutes_split anchor stop (minutesToMidnight tz anchor) (by omega)
    rw [List.map_cons, List.sum_cons, ih, hsplit]
    rfl

/-- A sum over the started minutes, line by line. -/
theorem IdleRun.sum_minutes (h : IdleRun tz daily stop anchor lines) (f : ℤ → ℤ) :
    ∑ k ∈ Finset.range (startedMinutes anchor stop).toNat, f (anchor + k * MINUTE) =
      (lines.map fun line => ∑ k ∈ Finset.range line.minutes.toNat, f (line.started_at + k * MINUTE)).sum := by
  induction h with
  | done le => simp [startedMinutes_of_le le]
  | @day anchor tariff rest lt version ahead run ih =>
    have hline : (idleLine tz stop anchor tariff).minutes =
        startedMinutes anchor (min stop (anchor + minutesToMidnight tz anchor * MINUTE)) := rfl
    have hm := (minutes_startedMinutes anchor (min stop (anchor + minutesToMidnight tz anchor * MINUTE))).1
    have hn := (minutes_startedMinutes (anchor + minutesToMidnight tz anchor * MINUTE) stop).1
    rw [List.map_cons, List.sum_cons, ← ih, hline, @startedMinutes_split anchor stop (minutesToMidnight tz anchor)
      (by omega), Int.toNat_add hm hn, Finset.sum_range_add]
    refine congrArg _ (Finset.sum_congr rfl fun k hk => congrArg f ?_)
    -- the line is full when minutes follow it
    have hfull : startedMinutes anchor (min stop (anchor + minutesToMidnight tz anchor * MINUTE)) =
        minutesToMidnight tz anchor := by
      have hlt : anchor + minutesToMidnight tz anchor * MINUTE < stop := by
        by_contra hge
        rw [startedMinutes_of_le (not_lt.mp hge)] at hk
        simp at hk
      rw [min_eq_right hlt.le]
      refine (Minutes.eq ⟨by omega, le_rfl, .inr ?_⟩).symm
      unfold MINUTE
      omega
    rw [hfull]
    push_cast
    rw [Int.toNat_of_nonneg (by omega)]
    ring

/-- The lines start where the loop reaches a date. -/
theorem IdleRun.line_of_day (h : IdleRun tz daily stop anchor lines) {t : ℤ} (ht : ChargedDay tz anchor stop t)
    (hlt : t < stop) : ∃ tariff, versionOf daily (tz.localDate t) = some tariff ∧ idleLine tz stop t tariff ∈ lines := by
  induction h with
  | done le => exact absurd (chargedDay_of_le le ht) (not_le.mpr hlt)
  | @day anchor tariff rest lt version ahead run ih =>
    rcases chargedDay_cases ht with rfl | ⟨-, hnext⟩
    · exact ⟨tariff, version, List.mem_cons_self⟩
    · obtain ⟨tariff', hversion, hmem⟩ := ih hnext
      exact ⟨tariff', hversion, List.mem_cons_of_mem _ hmem⟩

theorem IdleRun.day_of_line (h : IdleRun tz daily stop anchor lines) {line : InvoiceLine} (hline : line ∈ lines) :
    ∃ t tariff, ChargedDay tz anchor stop t ∧ t < stop ∧ versionOf daily (tz.localDate t) = some tariff ∧
      line = idleLine tz stop t tariff := by
  induction h with
  | done _ => exact absurd hline List.not_mem_nil
  | @day anchor tariff rest lt version ahead run ih =>
    rcases List.mem_cons.mp hline with rfl | hline
    · exact ⟨anchor, tariff, .first, lt, version, rfl⟩
    · obtain ⟨t, tariff', ht, hrest⟩ := ih hline
      exact ⟨t, tariff', chargedDay_of_next lt ht, hrest⟩

/-- The minutes of the line of `t` start before `stop` and before the midnight. -/
theorem lt_minutes_idleLine {t : ℤ} {tariff : Tariff} {k : ℕ} :
    k < (idleLine tz stop t tariff).minutes.toNat ↔
      t + k * MINUTE < stop ∧ t + k * MINUTE < midnightAfter tz (tz.localDate t) := by
  have h := minutes_startedMinutes t (min stop (t + minutesToMidnight tz t * MINUTE))
  rw [show (idleLine tz stop t tariff).minutes = startedMinutes t (min stop (t + minutesToMidnight tz t * MINUTE)) from rfl]
  generalize startedMinutes t (min stop (t + minutesToMidnight tz t * MINUTE)) = n at h
  unfold Minutes minutesToMidnight MINUTE at *
  generalize midnightAfter tz (tz.localDate t) = m at *
  omega

theorem idleLine_amount {t : ℤ} {tariff : Tariff} (hversion : versionOf daily (tz.localDate t) = some tariff) :
    (idleLine tz stop t tariff).amount_vnd =
      ∑ _k ∈ Finset.range (idleLine tz stop t tariff).minutes.toNat, idleRateOn daily (tz.localDate t) := by
  have h := (minutes_startedMinutes t (min stop (t + minutesToMidnight tz t * MINUTE))).1
  have hnat : ((idleLine tz stop t tariff).minutes.toNat : ℤ) = (idleLine tz stop t tariff).minutes :=
    Int.toNat_of_nonneg h
  rw [Finset.sum_const, Finset.card_range, nsmul_eq_mul, hnat, idleRateOn, hversion]
  rfl

/-- Minutes dated right are charged at the rates of their dates. -/
theorem IdleRun.total (h : IdleRun tz daily stop anchor lines) (hdated : DatedRight tz anchor stop) :
    (lines.map (·.amount_vnd)).sum =
      ∑ k ∈ Finset.range (startedMinutes anchor stop).toNat, idleRateOn daily (tz.localDate (anchor + k * MINUTE)) := by
  rw [IdleRun.sum_minutes h fun t => idleRateOn daily (tz.localDate t)]
  refine congrArg List.sum (List.map_congr_left fun line hline => ?_)
  obtain ⟨t, tariff, ht, hlt, hversion, rfl⟩ := IdleRun.day_of_line h hline
  rw [idleLine_amount hversion]
  refine Finset.sum_congr rfl fun k hk => ?_
  obtain ⟨hstop, hmidnight⟩ := lt_minutes_idleLine.mp (Finset.mem_range.mp hk)
  exact congrArg (idleRateOn daily) (hdated t ht k hstop hmidnight).symm

/-- When a minute is charged with an earlier date and the rates rise, less is charged. -/
theorem IdleRun.total_lt (h : IdleRun tz daily stop anchor lines) (hmono : tz.DateMonotone)
    (hrates : ∀ d d', d ≤ d' → (∃ v, versionOf daily d' = some v) → idleRateOn daily d ≤ idleRateOn daily d')
    (hcovered : ∀ t, anchor ≤ t → t < stop → ∃ v, versionOf daily (tz.localDate t) = some v)
    {t : ℤ} (ht : ChargedDay tz anchor stop t) (hanchor : ∀ u, ChargedDay tz anchor stop u → anchor ≤ u)
    {k : ℕ} (hstop : t + k * MINUTE < stop) (hmidnight : t + k * MINUTE < midnightAfter tz (tz.localDate t))
    (hrise : idleRateOn daily (tz.localDate t) < idleRateOn daily (tz.localDate (t + k * MINUTE))) :
    (lines.map (·.amount_vnd)).sum <
      ∑ k ∈ Finset.range (startedMinutes anchor stop).toNat, idleRateOn daily (tz.localDate (anchor + k * MINUTE)) := by
  have hk : (0 : ℤ) ≤ k * MINUTE := by
    unfold MINUTE
    omega
  rw [IdleRun.sum_minutes h fun t => idleRateOn daily (tz.localDate t)]
  have hminute : ∀ u tariff, ChargedDay tz anchor stop u → u < stop → versionOf daily (tz.localDate u) = some tariff →
      ∀ j ∈ Finset.range (idleLine tz stop u tariff).minutes.toNat,
        idleRateOn daily (tz.localDate u) ≤ idleRateOn daily (tz.localDate (u + j * MINUTE)) := by
    intro u tariff hu _ _ j hj
    obtain ⟨hjstop, -⟩ := lt_minutes_idleLine.mp (Finset.mem_range.mp hj)
    have hle : u ≤ u + j * MINUTE := by
      unfold MINUTE
      omega
    exact hrates _ _ (hmono _ _ hle) (hcovered _ ((hanchor u hu).trans hle) hjstop)
  refine List.sum_lt_sum _ _ (fun line hline => ?_) ?_
  · obtain ⟨u, tariff, hu, hult, hversion, rfl⟩ := IdleRun.day_of_line h hline
    rw [idleLine_amount hversion]
    exact Finset.sum_le_sum (hminute u tariff hu hult hversion)
  · obtain ⟨tariff, hversion, hmem⟩ := IdleRun.line_of_day h ht (by omega)
    refine ⟨_, hmem, ?_⟩
    rw [idleLine_amount hversion]
    exact Finset.sum_lt_sum (hminute t tariff ht (by omega) hversion)
      ⟨k, Finset.mem_range.mpr (lt_minutes_idleLine.mpr ⟨hstop, hmidnight⟩), hrise⟩

/-- The dates are reached in order when each has its midnight ahead. -/
theorem chargedDay_ge (hahead : ∀ t, t < midnightAfter tz (tz.localDate t)) {t : ℤ}
    (h : ChargedDay tz anchor stop t) : anchor ≤ t := by
  induction h with
  | first => exact le_rfl
  | @next u _ _ ih =>
    have := minutes_pos.mpr (hahead u)
    unfold MINUTE
    omega

/-- `_idle_lines` is a run from the end of the grace period. -/
theorem _idle_lines_run {from_ until_ started_at idle grace : ℤ} (hmono : tz.DateMonotone)
    (hahead : ∀ t, t < midnightAfter tz (tz.localDate t))
    (hv : Versions daily (tz.localDate from_) (tz.localDate (until_ - 1))) (hstarted : started_at ≤ idle)
    (hstop : idle ≤ stop) (hfrom : from_ ≤ idle) (huntil : stop ≤ until_) (hgrace : 0 ≤ grace)
    (hinitial : ∀ initial ∈ versionOf daily (tz.localDate idle), initial.grace_minutes = grace) :
    ∃ lines, _idle_lines tz started_at stop daily (some idle) = .ok lines ∧
      IdleRun tz daily stop (idle + grace * MINUTE) lines := by
  have hlate : idle ≤ idle + grace * MINUTE := by
    unfold MINUTE
    omega
  rcases hstop.eq_or_lt with rfl | hlt
  · exact ⟨[], by simp [_idle_lines, not_lt.mpr hstarted], .done hlate⟩
  obtain ⟨initial, hversion⟩ := (hv.dates (tz.localDate idle)).mpr
    ⟨hmono _ _ hfrom, hmono _ _ (by omega)⟩
  obtain rfl := hinitial initial hversion
  have hnot : ¬ (idle < started_at ∨ stop < idle) := by omega
  have hmin : Minutes (idle + initial.grace_minutes * MINUTE) stop
      (max 0 ((stop - idle - initial.grace_minutes * MINUTE + MINUTE - 1) / MINUTE)) := by
    have := minutes_of_excess (idle + initial.grace_minutes * MINUTE) stop
    rwa [← sub_sub] at this
  have hdays : ∀ t, ChargedDay tz (idle + initial.grace_minutes * MINUTE) stop t → t < stop →
      DayAhead tz (tz.localDate from_) (tz.localDate (until_ - 1)) t := fun t ht hts =>
    ⟨hmono _ _ (hfrom.trans (hlate.trans (chargedDay_ge hahead ht))), hmono _ _ (by omega), hahead t⟩
  obtain ⟨lines, hok, hrun⟩ := idleDays_run hv (Int.self_le_toNat _) hmin hdays
  refine ⟨lines, ?_, hrun⟩
  simp only [_idle_lines, hnot, hlt.ne, if_false, hversion, tinh_phi_ok hlt.le hgrace zero_le_one, bind, Except.bind]
  exact hok

/-- One price for the whole day. -/
def wholeDay : List BandInput := [⟨0, 1440, 0, "flat"⟩]

/-- Two versions with one grace period: free before a date, a dong a minute from it on. -/
def rising (first day grace : ℤ) : List Tariff :=
  [⟨0, 0, first, none, 0, grace, wholeDay⟩, ⟨1, 0, day, none, 1, grace, wholeDay⟩]

theorem lay_rising {first day grace d : ℤ} (hfirst : first ≤ d) (hlt : first < day) :
    lay_bieu_gia_hieu_luc (rising first day grace) 0 d =
      some (if day ≤ d then ⟨1, 0, day, none, 1, grace, wholeDay⟩ else ⟨0, 0, first, none, 0, grace, wholeDay⟩) := by
  unfold lay_bieu_gia_hieu_luc rising
  by_cases hd : day ≤ d
  · simp [hd, hfirst, List.orderedInsert, hlt.not_ge]
  · simp [hd, hfirst]

theorem storedTariffs_rising {first day grace : ℤ} (hgrace : 0 ≤ grace) : StoredTariffs (rising first day grace) := by
  intro t ht
  rcases List.mem_cons.mp ht with rfl | ht
  · exact ⟨le_rfl, hgrace⟩
  · obtain rfl := List.mem_singleton.mp ht
    exact ⟨zero_le_one, hgrace⟩

theorem daily_rising (tz : Zone) {first day grace from_ until_ : ℤ} (hfirst : first ≤ tz.localDate from_)
    (hlt : first < day) :
    ∃ daily, _daily_tariffs (rising first day grace) 0 tz from_ until_ = .ok daily := by
  have hbands : kiem_khung_gio wholeDay = .ok wholeDay := by decide +kernel
  have hframes : ∀ t : Tariff, t.bands = wholeDay → tariffFrames t = .ok (wholeDay.map (frameOf t.id)) := fun t ht => by
    rw [tariffFrames, storedBands, ht]
    exact hbands ▸ rfl
  refine mapM_ok fun d hd => ?_
  rw [dailyTariff, lay_rising (hfirst.trans (mem_dateRange.mp hd).1) hlt]
  by_cases hday : day ≤ d
  · simp only [if_pos hday]
    rw [hframes _ rfl]
    exact ⟨_, rfl⟩
  · simp only [if_neg hday]
    rw [hframes _ rfl]
    exact ⟨_, rfl⟩

/-- The versions of the rising prices, on the dates that have one. -/
theorem version_rising {first day grace from_ until_ d : ℤ}
    (hdaily : _daily_tariffs (rising first day grace) 0 tz from_ until_ = .ok daily)
    (hfirst : first ≤ tz.localDate from_) (hlt : first < day) (hgrace : 0 ≤ grace) {v : Tariff}
    (hv : versionOf daily d = some v) :
    v.grace_minutes = grace ∧ v.idle_rate_vnd_per_minute = if day ≤ d then 1 else 0 := by
  obtain ⟨h1, h2⟩ := ((versions_of_daily (storedTariffs_rising hgrace) hdaily).dates d).mp ⟨v, hv⟩
  obtain ⟨t, -, hlay, hversion, -⟩ := _daily_tariffs_frames hdaily h1 h2
  rw [lay_rising (hfirst.trans h1) hlt, ← hversion, hv, Option.some_inj] at hlay
  rw [← hlay]
  split <;> exact ⟨rfl, rfl⟩

theorem rate_rising {first day grace from_ until_ d : ℤ}
    (hdaily : _daily_tariffs (rising first day grace) 0 tz from_ until_ = .ok daily)
    (hfirst : first ≤ tz.localDate from_) (hlt : first < day) (hgrace : 0 ≤ grace)
    (hd : ∃ v, versionOf daily d = some v) : idleRateOn daily d = if day ≤ d then 1 else 0 := by
  obtain ⟨v, hv⟩ := hd
  rw [idleRateOn, hv]
  exact (version_rising hdaily hfirst hlt hgrace hv).2

/-- With rising prices a minute charged with an earlier date is charged too little. -/
theorem dated_of_rising {from_ until_ started_at idle grace : ℤ} (hmono : tz.DateMonotone)
    (hahead : ∀ t, t < midnightAfter tz (tz.localDate t)) (hstarted : started_at ≤ idle)
    (hstop : idle ≤ stop) (hfrom : from_ ≤ idle) (huntil : stop ≤ until_) (hgrace : 0 ≤ grace)
    (h : ∀ tariffs station_id daily, StoredTariffs tariffs →
      _daily_tariffs tariffs station_id tz from_ until_ = .ok daily →
      (∀ initial ∈ versionOf daily (tz.localDate idle), initial.grace_minutes = grace) →
      ∃ lines, _idle_lines tz started_at stop daily (some idle) = .ok lines ∧
        IdleCharged tz daily (idle + grace * MINUTE) stop lines) : DatedRight tz (idle + grace * MINUTE) stop := by
  intro t ht k hkstop hkmidnight
  by_contra hne
  have hk : (0 : ℤ) ≤ k * MINUTE ∧ 0 ≤ grace * MINUTE := by
    unfold MINUTE
    omega
  have hge : ∀ u, ChargedDay tz (idle + grace * MINUTE) stop u → idle + grace * MINUTE ≤ u := fun u hu =>
    chargedDay_ge hahead hu
  have hday : tz.localDate t < tz.localDate (t + k * MINUTE) :=
    lt_of_le_of_ne (hmono _ _ (by omega)) fun heq => hne heq.symm
  have hbegin : tz.localDate from_ ≤ tz.localDate t := hmono _ _ (by have := hge t ht; omega)
  obtain ⟨daily, hdaily⟩ := @daily_rising tz _ (tz.localDate (t + k * MINUTE)) grace from_ until_ le_rfl
    (hbegin.trans_lt hday)
  have hv := versions_of_daily (storedTariffs_rising hgrace) hdaily
  have hinitial : ∀ initial ∈ versionOf daily (tz.localDate idle), initial.grace_minutes = grace := fun v hv =>
    (version_rising hdaily le_rfl (hbegin.trans_lt hday) hgrace hv).1
  have hrate : ∀ d, (∃ v, versionOf daily d = some v) →
      idleRateOn daily d = if tz.localDate (t + k * MINUTE) ≤ d then 1 else 0 := fun d hd =>
    rate_rising hdaily le_rfl (hbegin.trans_lt hday) hgrace hd
  have hcovered : ∀ u, idle + grace * MINUTE ≤ u → u < stop → ∃ v, versionOf daily (tz.localDate u) = some v :=
    fun u hu hus => (hv.dates _).mpr ⟨hmono _ _ (by omega), hmono _ _ (by omega)⟩
  have hrates : ∀ d d', d ≤ d' → (∃ v, versionOf daily d' = some v) → idleRateOn daily d ≤ idleRateOn daily d' := by
    intro d d' hdd hd'
    rw [hrate d' hd']
    by_cases hd : ∃ v, versionOf daily d = some v
    · rw [hrate d hd]
      split <;> split <;> omega
    · have hnone : versionOf daily d = none := by
        cases hvd : versionOf daily d with
        | none => rfl
        | some v => exact absurd ⟨v, hvd⟩ hd
      rw [idleRateOn, hnone]
      split <;> simp
  have hrise : idleRateOn daily (tz.localDate t) < idleRateOn daily (tz.localDate (t + k * MINUTE)) := by
    rw [hrate _ (hcovered t (hge t ht) (by omega)), hrate _ (hcovered _ (by have := hge t ht; omega) hkstop),
      if_neg (not_le.mpr hday), if_pos le_rfl]
    exact zero_lt_one
  obtain ⟨lines, hok, hcharged⟩ := h _ 0 daily (storedTariffs_rising hgrace) hdaily hinitial
  obtain ⟨lines', hok', hrun⟩ := _idle_lines_run hmono hahead hv hstarted hstop hfrom huntil hgrace hinitial
  obtain rfl : lines = lines' := Except.ok.inj (hok.symm.trans hok')
  exact absurd hcharged.total (IdleRun.total_lt hrun hmono hrates hcovered ht hge hkstop hkmidnight hrise).ne

end IdleLinesLemmas

namespace IdleLinesLemmas

/-- A zone without transitions dates every minute right. -/
theorem datedRight_constant (base anchor stop : ℤ) : DatedRight (Zone.ofTransitions base []) anchor stop := by
  intro t _ k _ hmidnight
  simp only [Zone.localDate, Zone.wall, Zone.ofTransitions, Zone.offsetFrom, midnightAfter, Stamp.instant,
    Zone.wallOffsetFrom, DAY, MINUTE] at *
  omega

theorem dateMonotone_constant (base : ℤ) : (Zone.ofTransitions base []).DateMonotone := by
  intro t t' h
  simp only [Zone.localDate, Zone.wall, Zone.ofTransitions, Zone.offsetFrom]
  exact Int.ediv_le_ediv (by decide) (by omega)

/-- A clock that is only set forward keeps the local date from going back. -/
theorem dateMonotone_forward {base at_ after : ℤ} (h : base ≤ after) :
    (Zone.ofTransitions base [(at_, after)]).DateMonotone := by
  intro t t' ht
  simp only [Zone.localDate, Zone.wall, Zone.ofTransitions, Zone.offsetFrom]
  refine Int.ediv_le_ediv (by decide) ?_
  split <;> split <;> omega

end IdleLinesLemmas

/-! ## 3. The idle fee by the minute -/

/-- In a zone whose local date never goes back, the idle time from `idle` to `stop` is charged by started
minutes at the rates of their local dates, whatever the tariffs, exactly when no minute that is charged
with a date starts after the date has changed. -/
theorem idle_fee_by_minute (base : ℤ) (transitions : List (ℤ × ℤ)) (hsorted : transitions.Pairwise (·.1 < ·.1))
    (hmono : (Zone.ofTransitions base transitions).DateMonotone) (from_ until_ started_at idle stop grace : ℤ)
    (hstarted : started_at ≤ idle) (hstop : idle ≤ stop) (hfrom : from_ ≤ idle) (huntil : stop ≤ until_)
    (hgrace : 0 ≤ grace) :
    (∀ tariffs station_id daily, StoredTariffs tariffs →
      _daily_tariffs tariffs station_id (Zone.ofTransitions base transitions) from_ until_ = .ok daily →
      (∀ initial ∈ versionOf daily ((Zone.ofTransitions base transitions).localDate idle),
        initial.grace_minutes = grace) →
      ∃ lines, _idle_lines (Zone.ofTransitions base transitions) started_at stop daily (some idle) = .ok lines ∧
        IdleCharged (Zone.ofTransitions base transitions) daily (idle + grace * MINUTE) stop lines) ↔
      DatedRight (Zone.ofTransitions base transitions) (idle + grace * MINUTE) stop := by
  have hahead : ∀ t, t < midnightAfter (Zone.ofTransitions base transitions)
      ((Zone.ofTransitions base transitions).localDate t) := fun t => Zone.lt_midnight hsorted hmono le_rfl
  refine ⟨dated_of_rising hmono hahead hstarted hstop hfrom huntil hgrace,
    fun hdated tariffs station_id daily htariffs hdaily hinitial => ?_⟩
  obtain ⟨lines, hok, hrun⟩ := _idle_lines_run hmono hahead (versions_of_daily htariffs hdaily) hstarted hstop hfrom
    huntil hgrace hinitial
  exact ⟨lines, hok, IdleRun.contiguous hrun, IdleRun.minutes hrun, IdleRun.total hrun hdated⟩

/-- Half an hour from 23:30 on, seven hours ahead of UTC, with ten minutes of grace. -/
theorem idle_fee_by_minute_saigon :
    DatedRight (Zone.ofTransitions (420 * MINUTE) []) (990 * MINUTE + 10 * MINUTE) (1050 * MINUTE) ∧
    ∀ tariffs station_id daily, StoredTariffs tariffs →
      _daily_tariffs tariffs station_id (Zone.ofTransitions (420 * MINUTE) []) 0 DAY = .ok daily →
      (∀ initial ∈ versionOf daily ((Zone.ofTransitions (420 * MINUTE) []).localDate (990 * MINUTE)),
        initial.grace_minutes = 10) →
      ∃ lines, _idle_lines (Zone.ofTransitions (420 * MINUTE) []) 0 (1050 * MINUTE) daily (some (990 * MINUTE)) = .ok lines ∧
        IdleCharged (Zone.ofTransitions (420 * MINUTE) []) daily (990 * MINUTE + 10 * MINUTE) (1050 * MINUTE) lines := by
  have hdated := datedRight_constant (420 * MINUTE) (990 * MINUTE + 10 * MINUTE) (1050 * MINUTE)
  exact ⟨hdated, (idle_fee_by_minute (420 * MINUTE) [] .nil (dateMonotone_constant _) 0 DAY 0 (990 * MINUTE)
    (1050 * MINUTE) 10 (by decide) (by decide) (by decide) (by decide) (by decide)).mpr hdated⟩

/-- The clock of Toronto on 30 March 1919, which went from 23:30 to 00:30. -/
def toronto : Zone := Zone.ofTransitions (-300 * MINUTE) [(-26695890 * MINUTE, -240 * MINUTE)]

/-- The hour from 23:00 on is charged with 30 March, though its second half is on the 31st. -/
theorem minutes_dated_wrong :
    ¬ ∀ (base : ℤ) (transitions : List (ℤ × ℤ)), transitions.Pairwise (·.1 < ·.1) →
      (Zone.ofTransitions base transitions).DateMonotone → ∀ from_ until_ started_at idle stop grace : ℤ,
      started_at ≤ idle → idle ≤ stop → from_ ≤ idle → stop ≤ until_ → 0 ≤ grace →
      ∀ tariffs station_id daily, StoredTariffs tariffs →
        _daily_tariffs tariffs station_id (Zone.ofTransitions base transitions) from_ until_ = .ok daily →
        (∀ initial ∈ versionOf daily ((Zone.ofTransitions base transitions).localDate idle),
          initial.grace_minutes = grace) →
        ∃ lines, _idle_lines (Zone.ofTransitions base transitions) started_at stop daily (some idle) = .ok lines ∧
          IdleCharged (Zone.ofTransitions base transitions) daily (idle + grace * MINUTE) stop lines := by
  intro h
  have hmono : toronto.DateMonotone := dateMonotone_forward (by decide)
  have hahead : ∀ t, t < midnightAfter toronto (toronto.localDate t) := fun t =>
    Zone.lt_midnight (List.pairwise_singleton _ _) hmono le_rfl
  have hdated : DatedRight toronto (-26695920 * MINUTE + 0 * MINUTE) (-26695860 * MINUTE) :=
    dated_of_rising hmono hahead le_rfl (by decide) le_rfl le_rfl le_rfl
      (h _ _ (List.pairwise_singleton _ _) hmono _ _ _ _ _ _ le_rfl (by decide) le_rfl le_rfl le_rfl)
  -- 30 minutes on, the local date has changed
  exact absurd (hdated _ .first 30 (by decide) (by decide)) (by decide)

end Csms.Billing
