import Csms.Lib.DecimalBounds
import Csms.Charging.Samples

/-!
# The normalized values of samples

`numeric_sample` multiplies, checks the range and rounds, in this order. A product beyond the exponents
of the context raises, and one just below the bound is rounded up to it. `numeric_sample_normalises` says
for which samples neither happens.
-/

namespace Csms.Charging

open DecimalText Decimal Rounding

/-- The exact product of the value and the factor of its unit, for a sample that is a finite number in a
unit of its measurand. -/
def exactValue (sample : SamplePayload) : Option ℚ :=
  match UNITS sample.measurand with
  | none => none
  | some (unit, conversions) =>
    if sample.raw = false then none
    else
      match conversions.lookup (if sample.unit.getD "" = "" then unit else sample.unit.getD "") with
      | none => none
      | some factor =>
        match parse sample.value with
        | some (.finite negative coefficient exponent) =>
          if Convertible coefficient exponent then some (exactProduct negative coefficient exponent factor) else none
        | _ => none

/-- What `numeric_sample` is to return: nothing, or a number of the canonical unit with six decimals
and 18 digits before them, less than a millionth from the exact product. -/
def Normalised (sample : SamplePayload) : Prop :=
  ∃ result, numeric_sample sample = .ok result ∧ ∀ v unit, result = some (v, unit) →
    (∃ z : ℤ, v * 10 ^ 6 = z) ∧ |v| < 10 ^ 18 ∧ (∃ conversions, UNITS sample.measurand = some (unit, conversions)) ∧
    ∃ x, exactValue sample = some x ∧ |v - x| < 1 / 10 ^ 6

/-- Neither rounded up to `10 ^ 18` after the check, nor beyond the context. -/
def InRange (x : ℚ) : Prop :=
  |x| < 10 ^ 18 - 50005 / 10 ^ 11 ∨ (10 ^ 18 - 5 / 10 ^ 11 ≤ |x| ∧ |x| < (10 ^ 28 - 1 / 2) * (10 : ℚ) ^ (EMAX - 27))

namespace UnitsLemmas

/-- Every factor is 1 or 1000. -/
theorem factor_bounds {measurand unit key : String} {conversions : List (String × ℕ)} {factor : ℕ}
    (h : UNITS measurand = some (unit, conversions)) (hf : conversions.lookup key = some factor) :
    0 < factor ∧ factor ≤ 1000 := by
  have hall : ∀ p ∈ conversions, 0 < p.2 ∧ p.2 ≤ 1000 := by
    unfold UNITS at h
    split at h <;> cases h <;> decide
  have hmem : (key, factor) ∈ conversions := by
    clear h hall
    induction conversions with
    | nil => cases hf
    | cons p rest ih =>
      rw [List.lookup_cons] at hf
      split at hf
      · next heq =>
        obtain rfl : factor = p.2 := (Option.some_inj.mp hf).symm
        rw [eq_of_beq heq]
        exact List.mem_cons_self
      · exact List.mem_cons_of_mem _ (ih hf)
  exact hall _ hmem

theorem micro_decimals (v : ℚ) : ∃ z : ℤ, micro v * 10 ^ 6 = z :=
  ⟨_, div_mul_cancel₀ _ (by norm_num)⟩

theorem abs_micro_sub_le (v : ℚ) : |micro v - v| ≤ 1 / 2 / 10 ^ 6 := by
  have h := (roundHalfEven_nearest (v * 10 ^ 6)).dist_le
  have heq : micro v - v = -((v * 10 ^ 6 - roundHalfEven (v * 10 ^ 6)) / 10 ^ 6) := by
    unfold micro
    field_simp
    ring
  rw [heq, abs_neg, abs_div, abs_of_pos (show (0 : ℚ) < 10 ^ 6 by norm_num)]
  exact div_le_div_of_nonneg_right h (by norm_num)

/-- The rounded value stays below the bound when it is half a millionth below it. -/
theorem abs_micro_lt_iff (v : ℚ) : |micro v| < 10 ^ 18 ↔ |v| < 10 ^ 18 - 5 / 10 ^ 7 := by
  have habs : |micro v| = micro |v| := by
    rcases le_total 0 v with h | h
    · rw [abs_of_nonneg h, abs_of_nonneg]
      have h0 := (le_roundHalfEven_iff (n := 0) rfl (q := v * 10 ^ 6)).mpr (by push_cast; linarith)
      have h0' : (0 : ℚ) ≤ roundHalfEven (v * 10 ^ 6) := by exact_mod_cast h0
      exact div_nonneg h0' (by norm_num)
    · have hneg : micro (-v) = -micro v := by
        unfold micro
        rw [neg_mul, roundHalfEven_neg]
        push_cast
        ring
      rw [abs_of_nonpos h, hneg, abs_of_nonpos]
      have h0 := (le_roundHalfEven_iff (n := 0) rfl (q := -v * 10 ^ 6)).mpr (by push_cast; linarith)
      have h0' : (0 : ℚ) ≤ roundHalfEven (-v * 10 ^ 6) := by exact_mod_cast h0
      have := div_nonneg h0' (show (0 : ℚ) ≤ 10 ^ 6 by norm_num)
      rw [show (roundHalfEven (-v * 10 ^ 6) : ℚ) / 10 ^ 6 = micro (-v) from rfl, hneg] at this
      linarith
  have hiff := le_roundHalfEven_iff (n := 10 ^ 24) (by norm_num) (q := |v| * 10 ^ 6)
  rw [habs, ← not_le, ← not_le, micro, le_div_iff₀ (by norm_num)]
  refine not_congr (Iff.trans ?_ (hiff.trans ?_))
  · rw [show ((10 : ℚ) ^ 18 * 10 ^ 6) = ((10 ^ 24 : ℤ) : ℚ) by norm_num, Int.cast_le]
  · push_cast
    constructor <;> intro h <;> linarith

/-- When a product rounded to the context reaches `n` units of the tenth decimal. -/
theorem reaches_decimal_iff {y : ℚ} (hy : 0 ≤ y) {n : ℤ} (heven : n % 2 = 0) (hlow : 2 * 10 ^ 27 ≤ n)
    (hhigh : n ≤ 10 ^ 28) : (n : ℚ) / 10 ^ 10 ≤ ctxRound 28 y ↔ (n - 1 / 2 : ℚ) / 10 ^ 10 ≤ y := by
  have hn1 : (2 * 10 ^ 27 : ℚ) ≤ n := by exact_mod_cast hlow
  have hn2 : (n : ℚ) ≤ 10 ^ 28 := by exact_mod_cast hhigh
  rcases hy.eq_or_lt with rfl | hpos
  · rw [ctxRound, if_pos rfl]
    constructor <;> intro h <;> rw [div_le_iff₀ (by norm_num)] at h <;> linarith
  rcases lt_or_ge y (10 ^ 17) with hsmall | hge
  · -- a quantum is at most `10 ^ -11` here
    have hlog : Int.log 10 y < 17 := by
      refine (Int.lt_zpow_iff_log_lt (b := 10) (by norm_num) hpos).mp ?_
      exact_mod_cast hsmall
    have hquantum : quantum 28 y ≤ 1 := by
      rw [quantum, abs_of_pos hpos]
      exact zpow_le_one_of_nonpos₀ (by norm_num) (by push_cast; omega)
    have herr := (abs_le.mp (abs_ctxRound_sub_le 28 y)).2
    constructor <;> intro h <;> rw [div_le_iff₀ (by norm_num)] at h <;> exfalso <;> linarith
  rcases lt_or_ge y (10 ^ 18) with hlt | hbig
  · have hlog : Int.log 10 y = 17 := log_eq hpos (by exact_mod_cast hge) (by exact_mod_cast hlt)
    have hquantum : quantum 28 y = 1 / 10 ^ 10 := by
      rw [quantum, abs_of_pos hpos, hlog]
      norm_num
    have hiff := @le_ctxRound_iff 28 y hpos n heven
    rw [hquantum] at hiff
    rw [div_eq_mul_one_div (n : ℚ), hiff, div_eq_mul_one_div ((n : ℚ) - 1 / 2)]
  · have hlog : 18 ≤ Int.log 10 y := by
      refine (Int.zpow_le_iff_le_log (b := 10) (by norm_num) hpos).mp ?_
      exact_mod_cast hbig
    have hpow : (10 : ℚ) ^ Int.log 10 y = 10 ^ 27 * quantum 28 y := by
      rw [quantum, abs_of_pos hpos, ← zpow_natCast, ← zpow_add₀ (by norm_num)]
      congr 1
      push_cast
      ring
    have hself : (10 : ℚ) ^ Int.log 10 y ≤ y := by
      exact_mod_cast Int.zpow_log_le_self (b := 10) (by norm_num) hpos
    have hround := (@le_ctxRound_iff 28 y hpos (10 ^ 27) (by norm_num)).mpr (by
      have := quantum_pos 28 y
      push_cast
      rw [hpow] at hself
      nlinarith)
    have hten : (10 : ℚ) ^ 18 ≤ 10 ^ Int.log 10 y := by
      rw [← zpow_natCast]
      exact zpow_le_zpow_right₀ (by norm_num) (by push_cast; omega)
    rw [show (((10 : ℤ) ^ 27 : ℤ) : ℚ) = 10 ^ 27 by norm_num, ← hpow] at hround
    constructor <;> intro _ <;> rw [div_le_iff₀ (by norm_num)] <;> linarith

/-- A sample that is no finite number in a unit of its measurand is ignored. -/
theorem numeric_sample_none {sample : SamplePayload} (h : exactValue sample = none) :
    numeric_sample sample = .ok none := by
  unfold exactValue at h
  unfold numeric_sample
  cases hu : UNITS sample.measurand with
  | none => rfl
  | some entry =>
    obtain ⟨unit, conversions⟩ := entry
    rw [hu] at h
    simp only at h ⊢
    by_cases hraw : sample.raw = false
    · rw [if_pos hraw]
    rw [if_neg hraw] at h ⊢
    cases hf : conversions.lookup (if sample.unit.getD "" = "" then unit else sample.unit.getD "") with
    | none => rfl
    | some factor =>
      rw [hf] at h
      simp only at h ⊢
      have hmul : ctxMul sample.value factor = .error .invalidOperation ∨ ctxMul sample.value factor = .ok none := by
        unfold ctxMul
        cases hp : parse sample.value with
        | none => exact .inl rfl
        | some literal =>
          cases literal with
          | special => exact .inr rfl
          | finite negative coefficient exponent =>
            rw [hp] at h
            simp only at h ⊢
            refine .inl (if_pos ?_)
            by_contra hconv
            have hconv : Convertible coefficient exponent := hconv
            rw [if_pos hconv] at h
            cases h
      rcases hmul with hmul | hmul <;> rw [hmul]

/-- What becomes of a finite number in a unit of its measurand. -/
theorem numeric_sample_some {sample : SamplePayload} {x : ℚ} (h : exactValue sample = some x) :
    ∃ unit conversions, UNITS sample.measurand = some (unit, conversions) ∧
      (Overflows x → numeric_sample sample = .error .decimalOverflow) ∧
      (¬ Overflows x → ∃ r, (r = ctxRound 28 x ∨ (r = 0 ∧ |x| < 10 ^ (-27 : ℤ))) ∧
        numeric_sample sample = if 10 ^ 18 ≤ |r| then .ok none else .ok (some (micro r, unit))) := by
  unfold exactValue at h
  unfold numeric_sample
  cases hu : UNITS sample.measurand with
  | none =>
    rw [hu] at h
    cases h
  | some entry =>
    obtain ⟨unit, conversions⟩ := entry
    rw [hu] at h
    refine ⟨unit, conversions, rfl, ?_⟩
    simp only at h ⊢
    by_cases hraw : sample.raw = false
    · rw [if_pos hraw] at h
      cases h
    rw [if_neg hraw] at h ⊢
    cases hf : conversions.lookup (if sample.unit.getD "" = "" then unit else sample.unit.getD "") with
    | none =>
      rw [hf] at h
      cases h
    | some factor =>
    rw [hf] at h
    simp only at h ⊢
    split at h
    swap
    · cases h
    next negative coefficient exponent hp =>
    split at h
    swap
    · cases h
    next hconv =>
    cases h
    obtain ⟨hpos, hle⟩ := factor_bounds hu hf
    obtain ⟨hover, hfine⟩ := ctxMul_finite hp hconv hpos hle
    refine ⟨fun ho => ?_, fun ho => ?_⟩
    · simp only [hover ho]
    · obtain ⟨r, hr, hcases⟩ := hfine ho
      exact ⟨r, hcases, by simp only [hr]⟩

/-- A product below the bound is rounded by less than a millionth. -/
theorem micro_close {x r : ℚ} (hr : r = ctxRound 28 x ∨ (r = 0 ∧ |x| < 10 ^ (-27 : ℤ))) (hlt : |r| < 10 ^ 18) :
    |micro r - x| < 1 / 10 ^ 6 := by
  have hmicro := abs_micro_sub_le r
  have hround : |r - x| < 1 / 2 / 10 ^ 6 := by
    rcases hr with rfl | ⟨rfl, hx⟩
    · by_cases h0 : x = 0
      · subst h0
        simp [ctxRound]
      have hx : |x| < 10 ^ 18 := by
        have h := (reaches_decimal_iff (abs_nonneg x) (n := 10 ^ 28) (by norm_num) (by norm_num) le_rfl).not.mp (by
          rw [← abs_ctxRound]
          push_cast
          linarith)
        push_cast at h
        linarith
      have hlog : Int.log 10 |x| < 18 := by
        refine (Int.lt_zpow_iff_log_lt (b := 10) (by norm_num) (abs_pos.mpr h0)).mp ?_
        exact_mod_cast hx
      have hquantum : quantum 28 x ≤ 10 ^ (-10 : ℤ) := zpow_le_zpow_right₀ (by norm_num) (by push_cast; omega)
      refine (abs_ctxRound_sub_le 28 x).trans_lt ?_
      norm_num at hquantum ⊢
      linarith
    · rw [zero_sub, abs_neg]
      refine hx.trans ?_
      norm_num
  calc |micro r - x| = |(micro r - r) + (r - x)| := by ring_nf
    _ ≤ |micro r - r| + |r - x| := abs_add_le _ _
    _ < 1 / 2 / 10 ^ 6 + 1 / 2 / 10 ^ 6 := by linarith
    _ = 1 / 10 ^ 6 := by norm_num

/-- The check and the rounding go together unless the rounding reaches the bound. -/
theorem inRange_iff {x r : ℚ} (hr : r = ctxRound 28 x ∨ (r = 0 ∧ |x| < 10 ^ (-27 : ℤ))) (ho : ¬ Overflows x) :
    InRange x ↔ (|r| < 10 ^ 18 → |micro r| < 10 ^ 18) := by
  rw [abs_micro_lt_iff]
  have hno : |x| < (10 ^ 28 - 1 / 2) * (10 : ℚ) ^ (EMAX - 27) := not_le.mp ho
  rcases hr with rfl | ⟨rfl, hx⟩
  · have hbound : 10 ^ 18 ≤ |ctxRound 28 x| ↔ 10 ^ 18 - 5 / 10 ^ 11 ≤ |x| := by
      have h := reaches_decimal_iff (abs_nonneg x) (n := 10 ^ 28) (by norm_num) (by norm_num) le_rfl
      rw [← abs_ctxRound] at h
      norm_num at h ⊢
      exact h
    have hround : 10 ^ 18 - 5 / 10 ^ 7 ≤ |ctxRound 28 x| ↔ 10 ^ 18 - 50005 / 10 ^ 11 ≤ |x| := by
      have h := reaches_decimal_iff (abs_nonneg x) (n := 10 ^ 28 - 5000) (by norm_num) (by norm_num) (by norm_num)
      rw [← abs_ctxRound] at h
      norm_num at h ⊢
      exact h
    have hbelow : |ctxRound 28 x| < 10 ^ 18 ↔ |x| < 10 ^ 18 - 5 / 10 ^ 11 := by
      rw [← not_le, hbound, not_le]
    have hkept : |ctxRound 28 x| < 10 ^ 18 - 5 / 10 ^ 7 ↔ |x| < 10 ^ 18 - 50005 / 10 ^ 11 := by
      rw [← not_le, hround, not_le]
    rw [InRange, hbelow, hkept]
    constructor
    · rintro (h | ⟨h, -⟩) h'
      · exact h
      · linarith
    · intro h
      by_cases h' : |x| < 10 ^ 18 - 5 / 10 ^ 11
      · exact .inl (h h')
      · exact .inr ⟨not_lt.mp h', hno⟩
  · refine iff_of_true (.inl (hx.trans ?_)) fun _ => ?_
    · norm_num
    · norm_num

end UnitsLemmas

open UnitsLemmas

/-- `numeric_sample` normalises a sample within range exactly when its exact product, if it has one, is
below 999999999999999999.99999949995 in size, or at least 999999999999999999.99999999995 and not rounded
beyond the exponents of the context. -/
theorem numeric_sample_normalises (sample : SamplePayload) :
    Normalised sample ↔ ∀ x, exactValue sample = some x → InRange x := by
  cases hx : exactValue sample with
  | none =>
    refine iff_of_true ⟨none, numeric_sample_none hx, nofun⟩ nofun
  | some x =>
    simp only [Option.some.injEq, forall_eq']
    obtain ⟨unit, conversions, hu, hover, hfine⟩ := numeric_sample_some hx
    by_cases ho : Overflows x
    · refine iff_of_false ?_ ?_
      · rintro ⟨result, hok, -⟩
        rw [hover ho] at hok
        cases hok
      · rintro (h | ⟨-, h⟩)
        · have hone : (1 : ℚ) ≤ 10 ^ (EMAX - 27) := one_le_zpow₀ (by norm_num) (by decide)
          refine absurd ho (not_le.mpr (h.trans ?_))
          nlinarith
        · exact absurd ho (not_le.mpr h)
    · obtain ⟨r, hr, hcode⟩ := hfine ho
      rw [inRange_iff hr ho]
      constructor
      · rintro ⟨result, hok, hresult⟩ hlt
        rw [hcode, if_neg (not_le.mpr hlt)] at hok
        cases hok
        exact (hresult _ _ rfl).2.1
      · intro h
        by_cases hlt : |r| < 10 ^ 18
        · refine ⟨some (micro r, unit), by rw [hcode, if_neg (not_le.mpr hlt)], fun v u heq => ?_⟩
          cases heq
          exact ⟨micro_decimals r, h hlt, ⟨conversions, hu⟩, x, hx, micro_close hr hlt⟩
        · exact ⟨none, by rw [hcode, if_pos (not_lt.mp hlt)], nofun⟩

/-- A power of ten beyond the exponents of the context raises `decimal.Overflow`, and a register 0.0000001 Wh
short of the bound passes the check and is rounded up to it. -/
theorem number_out_of_range :
    ¬ (∀ sample : SamplePayload, sample.value.length ≤ 100 → Normalised sample) ∧
      numeric_sample { value := "1e1000000" } = .error .decimalOverflow ∧
      numeric_sample { value := "999999999999999999.9999999" } = .ok (some (10 ^ 18, "Wh")) := by
  have hover : numeric_sample { value := "1e1000000" } = .error .decimalOverflow := by decide +kernel
  refine ⟨fun h => ?_, hover, by decide +kernel⟩
  obtain ⟨result, hok, -⟩ := h { value := "1e1000000" } (by decide)
  rw [hover] at hok
  cases hok

end Csms.Charging
