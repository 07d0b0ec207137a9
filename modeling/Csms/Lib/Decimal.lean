import Csms.Lib.Rounding

/-!
# Decimal arithmetic under a context

A finite decimal number is represented by its value in `ℚ`. An operation computes the exact
result and rounds it to the context's precision, half to even (`ctxRound`). Comparisons,
`min`, `max` and the conversion to a fraction do not round.

Results:
1. `ctxRound_of_fits`: a value with `k` decimals and at most `prec` digits is not rounded.
2. `ctxSum_of_fits`: a running sum is exact while its partial sums fit.
-/

namespace Decimal

open Rounding

/-- The unit in the last place of a `prec`-digit decimal of the size of `q`. -/
def quantum (prec : ℕ) (q : ℚ) : ℚ := (10 : ℚ) ^ (Int.log 10 |q| + 1 - prec)

/-- The exact value `q` rounded to `prec` significant digits. -/
def ctxRound (prec : ℕ) (q : ℚ) : ℚ :=
  if q = 0 then 0 else roundHalfEven (q / quantum prec q) * quantum prec q

/-- Subtraction under a context. -/
def ctxSub (prec : ℕ) (a b : ℚ) : ℚ := ctxRound prec (a - b)

/-- `sum(values, Decimal(0))` under a context: every partial sum is rounded. -/
def ctxSum (prec : ℕ) (values : List ℚ) : ℚ :=
  values.foldl (fun total value => ctxRound prec (total + value)) 0

/-- `q` has at most `k` decimals and its digits up to them number at most `prec`. -/
def Fits (prec k : ℕ) (q : ℚ) : Prop := ∃ z : ℤ, q * 10 ^ k = z ∧ |z| < 10 ^ prec

/-- A value that fits the precision is not rounded. -/
theorem ctxRound_of_fits {prec k : ℕ} {q : ℚ} (h : Fits prec k q) : ctxRound prec q = q := by
  obtain ⟨z, hz, hlt⟩ := h
  unfold ctxRound
  split
  · next h0 => exact h0.symm
  next h0 =>
  have hpos : 0 < |q| := abs_pos.mpr h0
  have hk : (0 : ℚ) < 10 ^ k := by positivity
  -- the size of `q` bounds the exponent of its quantum by `-k`
  have hbound : |q| < (10 : ℚ) ^ ((prec : ℤ) - k) := by
    have habs : |q| * 10 ^ k = |(z : ℚ)| := by rw [← hz, abs_mul, abs_of_pos hk]
    have hzq : |(z : ℚ)| < 10 ^ prec := by
      have : ((|z| : ℤ) : ℚ) < ((10 ^ prec : ℤ) : ℚ) := by exact_mod_cast hlt
      simpa using this
    rw [zpow_sub₀ (by norm_num), zpow_natCast, zpow_natCast, lt_div_iff₀ hk, habs]
    exact hzq
  have hlog : Int.log 10 |q| < (prec : ℤ) - k := by
    have hle : (10 : ℚ) ^ Int.log 10 |q| ≤ |q| := by
      simpa using Int.zpow_log_le_self (b := 10) (by norm_num) hpos
    exact (zpow_lt_zpow_iff_right₀ (by norm_num : (1 : ℚ) < 10)).mp (hle.trans_lt hbound)
  obtain ⟨j, hj⟩ : ∃ j : ℕ, Int.log 10 |q| + 1 - (prec : ℤ) = -(k : ℤ) - j :=
    ⟨((prec : ℤ) - k - (Int.log 10 |q| + 1)).toNat, by omega⟩
  have hq : quantum prec q ≠ 0 := by unfold quantum; positivity
  have hint : q / quantum prec q = ((z * 10 ^ j : ℤ) : ℚ) := by
    unfold quantum
    rw [hj, zpow_sub₀ (by norm_num), zpow_neg, zpow_natCast, zpow_natCast]
    push_cast
    rw [← hz]
    field_simp
  rw [hint, roundHalfEven_intCast, ← hint, div_mul_cancel₀ _ hq]

theorem ctxSub_of_fits {prec k : ℕ} {a b : ℚ} (h : Fits prec k (a - b)) :
    ctxSub prec a b = a - b :=
  ctxRound_of_fits h

theorem ctxSum_append_singleton (prec : ℕ) (values : List ℚ) (v : ℚ) :
    ctxSum prec (values ++ [v]) = ctxRound prec (ctxSum prec values + v) := by
  simp [ctxSum]

/-- A running sum is exact when every partial sum fits the precision. -/
theorem ctxSum_of_fits {prec k : ℕ} (values : List ℚ)
    (h : ∀ front, front <+: values → Fits prec k front.sum) : ctxSum prec values = values.sum := by
  induction values using List.reverseRecOn with
  | nil => rfl
  | append_singleton front v ih =>
    have hfront : ctxSum prec front = front.sum :=
      ih fun p hp => h p (hp.trans (List.prefix_append _ _))
    have hall : Fits prec k (front.sum + v) := by
      simpa using h (front ++ [v]) (List.prefix_refl _)
    rw [ctxSum_append_singleton, hfront, ctxRound_of_fits hall]
    simp

/-- Non-negative values with `k` decimals whose sum fits are summed exactly. -/
theorem ctxSum_of_nonneg {prec k : ℕ} {values : List ℚ} (h0 : ∀ v ∈ values, 0 ≤ v)
    (hk : ∀ v ∈ values, ∃ z : ℤ, v * 10 ^ k = z) (hsum : Fits prec k values.sum) :
    ctxSum prec values = values.sum := by
  refine ctxSum_of_fits (k := k) values fun front hfront => ?_
  obtain ⟨back, rfl⟩ := hfront
  obtain ⟨z, hz, hlt⟩ := hsum
  have hscaled : ∀ l : List ℚ, (∀ v ∈ l, ∃ z : ℤ, v * 10 ^ k = z) → ∃ z : ℤ, l.sum * 10 ^ k = z := by
    intro l hl
    induction l with
    | nil => exact ⟨0, by simp⟩
    | cons v l ih =>
      obtain ⟨y, hy⟩ := hl v List.mem_cons_self
      obtain ⟨x, hx⟩ := ih fun u hu => hl u (List.mem_cons_of_mem _ hu)
      exact ⟨y + x, by push_cast; rw [List.sum_cons, add_mul, hy, hx]⟩
  obtain ⟨y, hy⟩ := hscaled front fun v hv => hk v (List.mem_append_left _ hv)
  have hy0 : (0 : ℚ) ≤ y := by
    rw [← hy]
    exact mul_nonneg (List.sum_nonneg fun v hv => h0 v (List.mem_append_left _ hv)) (by positivity)
  have hyz : (y : ℚ) ≤ z := by
    rw [← hy, ← hz, List.sum_append]
    have : 0 ≤ back.sum := List.sum_nonneg fun v hv => h0 v (List.mem_append_right _ hv)
    gcongr
    linarith
  have hy0' : 0 ≤ y := by exact_mod_cast hy0
  have hyz' : y ≤ z := by exact_mod_cast hyz
  refine ⟨y, hy, ?_⟩
  rw [abs_of_nonneg hy0']
  exact (hyz'.trans (le_abs_self z)).trans_lt hlt

end Decimal
