import Mathlib

/-!
# Dates of the Gregorian calendar

A date is its ordinal: 1 January of the year 1 is day 1. `ymd` gives its year, month and day,
`toordinal` the way back, and `isoformat` the text.

Results: `toordinal_ymd`, `isoformat_inj`.
-/

namespace Calendar

/-- The last date, 31 December 9999. -/
def MAX_ORDINAL : ℤ := 3652059

/-! ## 1. Years, months and days -/

def isLeap (year : ℤ) : Bool := year % 4 = 0 && (year % 100 ≠ 0 || year % 400 = 0)

/-- The days before 1 January. -/
def daysBeforeYear (year : ℤ) : ℤ := (year - 1) * 365 + (year - 1) / 4 - (year - 1) / 100 + (year - 1) / 400

/-- The days of the year before the first of the month. -/
def daysBeforeMonth (leap : Bool) (month : ℤ) : ℤ :=
  [0, 0, 31, 59, 90, 120, 151, 181, 212, 243, 273, 304, 334].getD month.toNat 365 +
    if leap && 2 < month then 1 else 0

/-- A year, a month from 1 to 12 and a day of the month from 1. -/
structure Ymd where
  year : ℤ
  month : ℤ
  day : ℤ
  deriving DecidableEq, Repr

def toordinal (d : Ymd) : ℤ := daysBeforeYear d.year + daysBeforeMonth (isLeap d.year) d.month + d.day

/-- The year of an ordinal, and the days of the year before it. -/
def yearOf (ordinal : ℤ) : ℤ × ℤ :=
  let n := ordinal - 1
  let n400 := n / 146097
  let n := n % 146097
  let n100 := n / 36524
  let n := n % 36524
  let n4 := n / 1461
  let n := n % 1461
  let n1 := n / 365
  let n := n % 365
  let year := n400 * 400 + n100 * 100 + n4 * 4 + n1 + 1
  if n1 = 4 ∨ n100 = 4 then (year - 1, 365) else (year, n)

/-- The month of a day of the year; the estimate is one too large at most. -/
def monthOf (leap : Bool) (n : ℤ) : ℤ :=
  if daysBeforeMonth leap ((n + 50) / 32) > n then (n + 50) / 32 - 1 else (n + 50) / 32

def ymd (ordinal : ℤ) : Ymd :=
  let year := (yearOf ordinal).1
  let n := (yearOf ordinal).2
  let month := monthOf (isLeap year) n
  ⟨year, month, n - daysBeforeMonth (isLeap year) month + 1⟩

/-- The days since Monday; day 1 was a Monday. -/
def weekday (ordinal : ℤ) : ℤ := (ordinal + 6) % 7

/-- The days before a year by its place in the cycles of 400, 100 and 4 years. -/
theorem daysBeforeYear_cycles (a : ℤ) {b c d : ℤ} (hb : 0 ≤ b ∧ b ≤ 3) (hc : 0 ≤ c ∧ c ≤ 24)
    (hd : 0 ≤ d ∧ d ≤ 3) :
    daysBeforeYear (400 * a + 100 * b + 4 * c + d + 1) = 146097 * a + 36524 * b + 1461 * c + 365 * d := by
  have h4 : (400 * a + 100 * b + 4 * c + d) / 4 = 100 * a + 25 * b + c := by omega
  have h100 : (400 * a + 100 * b + 4 * c + d) / 100 = 4 * a + b := by omega
  have h400 : (400 * a + 100 * b + 4 * c + d) / 400 = a := by omega
  simp only [daysBeforeYear, add_sub_cancel_right, h4, h100, h400]
  ring

theorem yearOf_spec (ordinal : ℤ) :
    daysBeforeYear (yearOf ordinal).1 + (yearOf ordinal).2 + 1 = ordinal ∧
      0 ≤ (yearOf ordinal).2 ∧ (yearOf ordinal).2 ≤ 365 := by
  simp only [yearOf]
  obtain ⟨a, ha⟩ : ∃ a, a = (ordinal - 1) / 146097 := ⟨_, rfl⟩
  obtain ⟨b, hb⟩ : ∃ b, b = (ordinal - 1) % 146097 / 36524 := ⟨_, rfl⟩
  obtain ⟨c, hc⟩ : ∃ c, c = (ordinal - 1) % 146097 % 36524 / 1461 := ⟨_, rfl⟩
  obtain ⟨d, hd⟩ : ∃ d, d = (ordinal - 1) % 146097 % 36524 % 1461 / 365 := ⟨_, rfl⟩
  rw [← ha, ← hb, ← hc, ← hd]
  have hcycle : 0 ≤ b ∧ b ≤ 4 ∧ 0 ≤ c ∧ c ≤ 24 ∧ 0 ≤ d ∧ d ≤ 4 := by omega
  split
  · next hlast =>
    -- the last day of a cycle of 4 or of 400 years
    rcases hlast with h | h
    · have hdays := daysBeforeYear_cycles a (b := b) (c := c) (d := 3) (by omega) (by omega) (by omega)
      rw [show a * 400 + b * 100 + c * 4 + d + 1 - 1 = 400 * a + 100 * b + 4 * c + 3 + 1 by omega, hdays]
      omega
    · have hdays := daysBeforeYear_cycles a (b := 3) (c := 24) (d := 3) (by omega) (by omega) (by omega)
      rw [show a * 400 + b * 100 + c * 4 + d + 1 - 1 = 400 * a + 100 * 3 + 4 * 24 + 3 + 1 by omega, hdays]
      omega
  · have hdays := daysBeforeYear_cycles a (b := b) (c := c) (d := d) (by omega) (by omega) (by omega)
    rw [show a * 400 + b * 100 + c * 4 + d + 1 = 400 * a + 100 * b + 4 * c + d + 1 by ring, hdays]
    omega

theorem toordinal_ymd (ordinal : ℤ) : toordinal (ymd ordinal) = ordinal := by
  have := (yearOf_spec ordinal).1
  simp only [toordinal, ymd]
  omega

/-- What is asked of the month of a day of the year. -/
def MonthOk (leap : Bool) (n : ℤ) : Prop :=
  1 ≤ monthOf leap n ∧ monthOf leap n ≤ 12 ∧ daysBeforeMonth leap (monthOf leap n) ≤ n ∧
    n - daysBeforeMonth leap (monthOf leap n) ≤ 30

instance (leap : Bool) (n : ℤ) : Decidable (MonthOk leap n) := inferInstanceAs (Decidable (_ ∧ _ ∧ _ ∧ _))

theorem monthOf_spec {n : ℤ} (h0 : 0 ≤ n) (h : n ≤ 365) (leap : Bool) (hleap : n = 365 → leap = true) :
    MonthOk leap n := by
  have hall : ∀ n < 366, ∀ leap : Bool, (n = 365 → leap = true) → MonthOk leap (n : ℕ) := by
    decide +kernel
  have hn : ((n.toNat : ℕ) : ℤ) = n := Int.toNat_of_nonneg h0
  rw [← hn]
  exact hall n.toNat (by omega) leap fun h => hleap (by omega)

theorem isLeap_of_last {ordinal : ℤ} (h : (yearOf ordinal).2 = 365) : isLeap (yearOf ordinal).1 = true := by
  simp only [yearOf] at h ⊢
  split at h
  · next hlast =>
    rw [if_pos hlast]
    simp only [isLeap, Bool.and_eq_true, decide_eq_true_eq, Bool.or_eq_true]
    omega
  · dsimp only at h
    omega

/-- A date of `datetime.date` has four digits of a year and two of a month and a day. -/
theorem ymd_bounds {ordinal : ℤ} (h : 1 ≤ ordinal ∧ ordinal ≤ MAX_ORDINAL) :
    (0 ≤ (ymd ordinal).year ∧ (ymd ordinal).year < 10 ^ 4) ∧
      (0 ≤ (ymd ordinal).month ∧ (ymd ordinal).month < 10 ^ 2) ∧
        0 ≤ (ymd ordinal).day ∧ (ymd ordinal).day < 10 ^ 2 := by
  obtain ⟨-, h0, h365⟩ := yearOf_spec ordinal
  have hyear : 0 ≤ (yearOf ordinal).1 ∧ (yearOf ordinal).1 < 10 ^ 4 := by
    simp only [yearOf, MAX_ORDINAL] at h ⊢
    split
    · dsimp only
      omega
    · dsimp only
      omega
  obtain ⟨h1, h12, hlow, hhigh⟩ := monthOf_spec h0 h365 (isLeap (yearOf ordinal).1) isLeap_of_last
  refine ⟨hyear, ?_, ?_⟩
  · simp only [ymd]
    omega
  · simp only [ymd]
    omega

/-! ## 2. Texts -/

/-- The last decimal digits of a number. -/
def padded : ℕ → ℤ → List Char
  | 0, _ => []
  | k + 1, n => padded k (n / 10) ++ [Char.ofNat (48 + (n % 10).toNat)]

/-- `date.isoformat()`. -/
def isoformat (ordinal : ℤ) : String :=
  let d := ymd ordinal
  String.ofList (padded 4 d.year ++ '-' :: (padded 2 d.month ++ '-' :: padded 2 d.day))

theorem length_padded (k : ℕ) (n : ℤ) : (padded k n).length = k := by
  induction k generalizing n with
  | zero => rfl
  | succ k ih => rw [padded, List.length_append, ih, List.length_singleton]

theorem padded_inj {k : ℕ} {m n : ℤ} (hm : 0 ≤ m ∧ m < 10 ^ k) (hn : 0 ≤ n ∧ n < 10 ^ k)
    (h : padded k m = padded k n) : m = n := by
  induction k generalizing m n with
  | zero => omega
  | succ k ih =>
    rw [padded, padded] at h
    obtain ⟨hfront, hlast⟩ := List.append_inj h (by rw [length_padded, length_padded])
    have hpow : (10 : ℤ) ^ (k + 1) = 10 ^ k * 10 := pow_succ ..
    have hdiv : m / 10 = n / 10 := ih (by omega) (by omega) hfront
    have hdigit : ∀ a < 10, ∀ b < 10, Char.ofNat (48 + a) = Char.ofNat (48 + b) → a = b := by decide
    have hmod := hdigit (m % 10).toNat (by omega) (n % 10).toNat (by omega) (List.cons.inj hlast).1
    omega

/-- Dates with one text are equal. -/
theorem isoformat_inj {a b : ℤ} (ha : 1 ≤ a ∧ a ≤ MAX_ORDINAL) (hb : 1 ≤ b ∧ b ≤ MAX_ORDINAL)
    (h : isoformat a = isoformat b) : a = b := by
  obtain ⟨hay, ham, had⟩ := ymd_bounds ha
  obtain ⟨hby, hbm, hbd⟩ := ymd_bounds hb
  have hlist := String.ofList_injective h
  obtain ⟨hyear, hrest⟩ := List.append_inj hlist (by rw [length_padded, length_padded])
  obtain ⟨hmonth, hrest⟩ := List.append_inj (List.cons.inj hrest).2 (by rw [length_padded, length_padded])
  have hymd : ymd a = ymd b := by
    rw [Ymd.mk.injEq]
    exact ⟨padded_inj hay hby hyear, padded_inj ham hbm hmonth, padded_inj had hbd (List.cons.inj hrest).2⟩
  rw [← toordinal_ymd a, hymd, toordinal_ymd]

end Calendar
