import Csms.Billing.Invoicing

/-!
# The days of the idle fee

The idle fee is charged by started minutes, one line for each local date. The line of a date ends
at the midnight after it, read with fold 0; in a zone that sets its clock back over midnight that
midnight may lie in the past, and the loop then raises or never ends.

Results:
1. `idleDays_ok`, `idleDays_raises`: the loop ends with lines exactly when every date it reaches has
   a tariff and a midnight ahead.
2. `_idle_lines_ok`, `_idle_lines_raises`: the same for the whole idle time.
-/

namespace Csms.Billing

open Csms.Pricing Outcome

/-- The first minutes of the dates that the loop reaches: `anchor`, and after each of them the first
minute not before the midnight that follows. -/
inductive ChargedDay (tz : Zone) (anchor stop : ℤ) : ℤ → Prop
  | first : ChargedDay tz anchor stop anchor
  | next {t : ℤ} (day : ChargedDay tz anchor stop t) (lt : t < stop) :
      ChargedDay tz anchor stop (t + minutesToMidnight tz t * MINUTE)

/-- The date of `t` lies between `first` and `last`, and its midnight is ahead. -/
structure DayAhead (tz : Zone) (first last t : ℤ) : Prop where
  lower : first ≤ tz.localDate t
  upper : tz.localDate t ≤ last
  midnight : t < midnightAfter tz (tz.localDate t)

/-- Nothing a review reason is made of. -/
def Stray (e : BillingError) : Prop := ∀ reason, e ≠ .invalidInvoice reason

/-- The versions cover the dates from `first` to `last`, with rates that are not negative. -/
structure Versions (daily : List DailyTariff) (first last : ℤ) : Prop where
  dates : ∀ d, (∃ t, versionOf daily d = some t) ↔ first ≤ d ∧ d ≤ last
  stored : ∀ d, ∀ t ∈ versionOf daily d, 0 ≤ t.idle_rate_vnd_per_minute ∧ 0 ≤ t.grace_minutes

/-- A line that satisfies the checks of its table. -/
def LineOk (line : InvoiceLine) : Prop := lineViolated line = none

namespace IdleFeeLemmas

theorem tinh_phi_ok {idle stop grace rate : ℤ} (hle : idle ≤ stop) (hg : 0 ≤ grace) (hrate : 0 ≤ rate) :
    tinh_phi_chiem_tru (some idle) stop grace rate =
      .ok (max 0 ((stop - idle - grace * MINUTE + MINUTE - 1) / MINUTE),
        max 0 ((stop - idle - grace * MINUTE + MINUTE - 1) / MINUTE) * rate) := by
  simp only [tinh_phi_chiem_tru, not_lt.mpr hg, not_lt.mpr hrate, not_lt.mpr (sub_nonneg.mpr hle), if_false]

theorem tinh_phi_raises {idle stop rate : ℤ} (hlt : stop < idle) (hrate : 0 ≤ rate) :
    tinh_phi_chiem_tru (some idle) stop 0 rate = .error (.valueError "session_end precedes idle_since") := by
  simp only [tinh_phi_chiem_tru, lt_irrefl, not_lt.mpr hrate, if_false, sub_neg.mpr hlt, if_true]

theorem minutes_pos {tz : Zone} {t : ℤ} :
    1 ≤ minutesToMidnight tz t ↔ t < midnightAfter tz (tz.localDate t) := by
  unfold minutesToMidnight
  omega

/-- After its first minute the loop goes on from the next day. -/
theorem chargedDay_cases {tz : Zone} {anchor stop t : ℤ} (h : ChargedDay tz anchor stop t) :
    t = anchor ∨ (anchor < stop ∧
      ChargedDay tz (anchor + minutesToMidnight tz anchor * MINUTE) stop t) := by
  induction h with
  | first => exact .inl rfl
  | @next u _ lt ih =>
    rcases ih with rfl | ⟨ha, hu⟩
    · exact .inr ⟨lt, .first⟩
    · exact .inr ⟨ha, hu.next lt⟩

theorem chargedDay_of_next {tz : Zone} {anchor stop t : ℤ} (ha : anchor < stop)
    (h : ChargedDay tz (anchor + minutesToMidnight tz anchor * MINUTE) stop t) :
    ChargedDay tz anchor stop t := by
  induction h with
  | first => exact ChargedDay.first.next ha
  | next _ lt ih => exact ih.next lt

/-- No day is reached after the stop. -/
theorem chargedDay_of_le {tz : Zone} {anchor stop t : ℤ} (hle : stop ≤ anchor)
    (h : ChargedDay tz anchor stop t) : stop ≤ t := by
  rcases chargedDay_cases h with rfl | ⟨ha, -⟩
  · exact hle
  · omega

/-- `count` is the number of minutes started between `anchor` and `stop`. -/
def Minutes (anchor stop count : ℤ) : Prop :=
  0 ≤ count ∧ stop ≤ anchor + count * MINUTE ∧ (count = 0 ∨ anchor + (count - 1) * MINUTE < stop)

theorem minutes_of_excess (anchor stop : ℤ) :
    Minutes anchor stop (max 0 ((stop - anchor + MINUTE - 1) / MINUTE)) := by
  unfold Minutes MINUTE
  omega

theorem Minutes.anchor_lt {anchor stop count : ℤ} (h : Minutes anchor stop count) (hc : count ≠ 0) :
    anchor < stop := by
  obtain ⟨h0, -, h2⟩ := h
  unfold MINUTE at h2
  omega

theorem Minutes.sub {anchor stop count span : ℤ} (h : Minutes anchor stop count) (h0 : 0 ≤ span)
    (hle : span ≤ count) :
    Minutes (anchor + span * MINUTE) stop (count - span) := by
  obtain ⟨-, h1, h2⟩ := h
  unfold Minutes MINUTE at *
  omega

end IdleFeeLemmas

open IdleFeeLemmas

section Days

variable {tz : Zone} {daily : List DailyTariff} {first last : ℤ} (hv : Versions daily first last) {stop : ℤ}
include hv

/-- The loop gives lines when every day it reaches has a tariff and a midnight ahead. -/
theorem idleDays_ok {turns : ℕ} {anchor count : ℤ} (hturns : count ≤ turns)
    (hmin : Minutes anchor stop count)
    (hdays : ∀ t, ChargedDay tz anchor stop t → t < stop → DayAhead tz first last t) :
    ∃ lines, idleDays tz daily stop turns anchor count = .ok lines ∧ ∀ line ∈ lines, LineOk line := by
  induction turns generalizing anchor count with
  | zero =>
    have hzero : count = 0 := le_antisymm (by exact_mod_cast hturns) hmin.1
    exact ⟨[], by simp [idleDays, hzero], nofun⟩
  | succ turns ih =>
    unfold idleDays
    by_cases hc : count = 0
    · exact ⟨[], by rw [if_pos hc], nofun⟩
    have hlt := hmin.anchor_lt hc
    have hday := hdays anchor .first hlt
    obtain ⟨tariff, htariff⟩ := (hv.dates _).mpr ⟨hday.lower, hday.upper⟩
    have hrate := (hv.stored _ tariff htariff).1
    have hq := minutes_pos.mpr hday.midnight
    have hpos := hmin.1
    set span := min count (minutesToMidnight tz anchor) with hspan
    have hs1 : 1 ≤ span := le_min (by omega) hq
    have hend : anchor < min stop (anchor + span * MINUTE) := by
      refine lt_min hlt ?_
      unfold MINUTE
      omega
    have hafter : ∀ t, ChargedDay tz (anchor + span * MINUTE) stop t → t < stop →
        DayAhead tz first last t := by
      intro t ht hts
      rcases min_choice count (minutesToMidnight tz anchor) with hmc | hmc
      · -- all minutes lie before the midnight, so no other day is reached
        have hover : stop ≤ anchor + span * MINUTE := by rw [hspan, hmc]; exact hmin.2.1
        exact absurd (chargedDay_of_le hover ht) (not_le.mpr hts)
      · rw [hspan, hmc] at ht
        exact hdays t (chargedDay_of_next hlt ht) hts
    have hless : count - span ≤ turns := by
      push_cast at hturns
      omega
    obtain ⟨rest, hrest, hlines⟩ := ih hless (hmin.sub (by omega) (min_le_left _ _)) hafter
    rw [if_neg hc]
    simp only [htariff, tinh_phi_ok hend.le le_rfl hrate, hrest, bind, Except.bind, pure, Except.pure]
    refine ⟨_, rfl, fun line hline => ?_⟩
    rcases List.mem_cons.mp hline with rfl | hline
    · have hamount : 0 ≤ max 0 ((min stop (anchor + span * MINUTE) - anchor - 0 * MINUTE + MINUTE - 1) /
          MINUTE) * tariff.idle_rate_vnd_per_minute := mul_nonneg (le_max_left _ _) hrate
      have hlabel : ("Phí chiếm trụ".toList.all (· = ' ')) = false := by decide
      simp only [LineOk, lineViolated, hend, hrate, hamount, le_refl, and_self, not_true_eq_false,
        if_false, ne_eq, and_false, hlabel, Bool.false_eq_true]
    · exact hlines line hline

/-- Otherwise it raises, or never ends. -/
theorem idleDays_raises {turns : ℕ} {anchor count : ℤ} (hmin : Minutes anchor stop count) {t : ℤ}
    (ht : ChargedDay tz anchor stop t) (hts : t < stop) (hbad : ¬ DayAhead tz first last t) :
    ∃ e, idleDays tz daily stop turns anchor count = .error e ∧ Stray e := by
  have hcount : ∀ {anchor count : ℤ}, Minutes anchor stop count → ChargedDay tz anchor stop t → count ≠ 0 := by
    rintro anchor count hmin ht rfl
    have := chargedDay_of_le (by simpa using hmin.2.1) ht
    omega
  induction turns generalizing anchor count with
  | zero => exact ⟨.diverges, by simp [idleDays, hcount hmin ht], nofun⟩
  | succ turns ih =>
    have hc := hcount hmin ht
    have hlt := hmin.anchor_lt hc
    unfold idleDays
    rw [if_neg hc]
    cases htariff : versionOf daily (tz.localDate anchor) with
    | none => exact ⟨.keyError, by simp only [htariff], nofun⟩
    | some tariff =>
      have hrate := (hv.stored _ tariff htariff).1
      have hpos := hmin.1
      set span := min count (minutesToMidnight tz anchor) with hspan
      simp only [htariff]
      by_cases hneg : span < 0
      · have hend : min stop (anchor + span * MINUTE) < anchor := by
          refine min_lt_of_right_lt ?_
          unfold MINUTE
          omega
        exact ⟨.valueError "session_end precedes idle_since",
          by simp only [tinh_phi_raises hend hrate, bind, Except.bind], fun _ h => by cases h⟩
      have hend : anchor ≤ min stop (anchor + span * MINUTE) := by
        refine le_min hlt.le ?_
        unfold MINUTE
        omega
      -- the bad day is still ahead after this turn
      have hstill : ChargedDay tz (anchor + span * MINUTE) stop t := by
        by_cases hq : 1 ≤ minutesToMidnight tz anchor
        · have hgood : DayAhead tz first last anchor :=
            ⟨((hv.dates _).mp ⟨tariff, htariff⟩).1, ((hv.dates _).mp ⟨tariff, htariff⟩).2, minutes_pos.mp hq⟩
          rcases chargedDay_cases ht with rfl | ⟨-, hnext⟩
          · exact absurd hgood hbad
          rcases min_choice count (minutesToMidnight tz anchor) with hmc | hmc
          · have hle : count ≤ minutesToMidnight tz anchor := min_eq_left_iff.mp hmc
            have hover : stop ≤ anchor + minutesToMidnight tz anchor * MINUTE := by
              have := hmin.2.1
              unfold MINUTE at this ⊢
              omega
            exact absurd (chargedDay_of_le hover hnext) (not_le.mpr hts)
          · rw [hspan, hmc]
            exact hnext
        · have hzero : span = 0 := by
            rw [hspan] at hneg ⊢
            omega
          rw [hzero, zero_mul, add_zero]
          exact ht
      obtain ⟨e, he, hstray⟩ := ih (hmin.sub (not_lt.mp hneg) (min_le_left _ _)) hstill
      exact ⟨e, by simp only [tinh_phi_ok hend le_rfl hrate, bind, Except.bind, he], hstray⟩

/-- The idle time from `idle` to `stop` can be charged: every date the loop reaches has a tariff and a
midnight ahead. -/
def DatesAhead (tz : Zone) (daily : List DailyTariff) (first last idle stop : ℤ) : Prop :=
  (first ≤ tz.localDate idle ∧ tz.localDate idle ≤ last) ∧
  ∀ initial ∈ versionOf daily (tz.localDate idle), ∀ t,
    ChargedDay tz (idle + initial.grace_minutes * MINUTE) stop t → t < stop → DayAhead tz first last t

omit hv in
theorem _idle_lines_spec (hv : Versions daily first last) (tz : Zone) (started_at stop : ℤ) (idle : Option ℤ) :
    ((∀ i ∈ idle, started_at ≤ i → i < stop → DatesAhead tz daily first last i stop) →
      Raises (fun e => ¬ Stray e) (_idle_lines tz started_at stop daily idle) ∧
      ∀ lines, _idle_lines tz started_at stop daily idle = .ok lines → ∀ line ∈ lines, LineOk line) ∧
    (∀ i ∈ idle, started_at ≤ i → i < stop → ¬ DatesAhead tz daily first last i stop →
      ∃ e, _idle_lines tz started_at stop daily idle = .error e ∧ Stray e) := by
  cases idle with
  | none => exact ⟨fun _ => ⟨raises_ok, fun lines h => by cases h; nofun⟩, nofun⟩
  | some i =>
    simp only [Option.mem_def, Option.some.injEq, forall_eq']
    by_cases hin : started_at ≤ i ∧ i < stop
    · have hnot : ¬ (i < started_at ∨ stop < i) := by omega
      have hcode : ∀ initial, versionOf daily (tz.localDate i) = some initial →
          _idle_lines tz started_at stop daily (some i) =
            let count := max 0 ((stop - i - initial.grace_minutes * MINUTE + MINUTE - 1) / MINUTE)
            idleDays tz daily stop count.toNat (i + initial.grace_minutes * MINUTE) count := by
        intro initial hi
        have hgrace := (hv.stored _ initial hi).2
        simp only [_idle_lines, hnot, hin.2.ne, if_false, hi, tinh_phi_ok hin.2.le hgrace zero_le_one, bind,
          Except.bind]
      have hmin : ∀ grace : ℤ, Minutes (i + grace * MINUTE) stop
          (max 0 ((stop - i - grace * MINUTE + MINUTE - 1) / MINUTE)) := fun grace => by
        have := minutes_of_excess (i + grace * MINUTE) stop
        rwa [← sub_sub] at this
      refine ⟨fun hdates => ?_, fun h1 h2 hdates => ?_⟩
      · obtain ⟨hrange, hdays⟩ := hdates hin.1 hin.2
        obtain ⟨initial, hi⟩ := (hv.dates _).mpr hrange
        obtain ⟨lines, hlines, hok⟩ := idleDays_ok hv (Int.self_le_toNat _)
          (hmin initial.grace_minutes) (hdays initial hi)
        rw [hcode initial hi]
        refine ⟨?_, fun l hl => ?_⟩
        · rw [hlines]
          exact raises_ok
        · rw [hlines] at hl
          cases hl
          exact hok
      · cases hi : versionOf daily (tz.localDate i) with
        | none =>
          refine ⟨.keyError, ?_, nofun⟩
          simp only [_idle_lines, hnot, hin.2.ne, if_false, hi]
        | some initial =>
          have hex : ∃ t, ChargedDay tz (i + initial.grace_minutes * MINUTE) stop t ∧ t < stop ∧
              ¬ DayAhead tz first last t := by
            by_contra hnone
            push Not at hnone
            refine hdates ⟨(hv.dates _).mp ⟨initial, hi⟩, fun initial' hi' t ht hts => ?_⟩
            rw [hi] at hi'
            cases hi'
            exact hnone t ht hts
          obtain ⟨t, ht, hts, hbad⟩ := hex
          rw [hcode initial hi]
          exact idleDays_raises hv (hmin initial.grace_minutes) ht hts hbad
    · refine ⟨fun _ => ?_, fun h1 h2 => absurd ⟨h1, h2⟩ hin⟩
      by_cases hout : i < started_at ∨ stop < i
      · have hcode : _idle_lines tz started_at stop daily (some i) =
            .error (.invalidInvoice "invoice_invalid_idle_interval") := by
          simp only [_idle_lines, hout, if_true]
        rw [hcode]
        exact ⟨raises_error.mpr fun h => h _ rfl, nofun⟩
      · have hcode : _idle_lines tz started_at stop daily (some i) = .ok [] := by
          have heq : i = stop := by omega
          simp only [_idle_lines, heq ▸ hout, heq, if_false, if_true]
        rw [hcode]
        exact ⟨raises_ok, fun lines h => by cases h; nofun⟩

end Days

end Csms.Billing
