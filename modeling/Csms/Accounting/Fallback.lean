import Csms.Billing.Invoicing
import Csms.Lib.Decimal

/-!
# The price fallback of reconciliation (`accounting/service.py`)

Where the tariffs of a session are not found, `execute_reconciliation_run` prices the energy lines of its
invoice again with three operations of the default decimal context, and compares the sum with the total.

Result: `fallback_rounds_like_billing`.
-/

namespace Csms.Accounting

open Decimal Rounding Csms.Billing

/-! ## 1. The code -/

/-- The digits of Python's default context. -/
def PRECISION : ℕ := 28

inductive DecimalFailure where
  | invalidOperation
  deriving DecidableEq, Repr

/-- `quantize(Decimal(1), rounding=ROUND_HALF_UP)`: a result with too many digits is invalid. -/
def quantize (prec : ℕ) (q : ℚ) : Except DecimalFailure ℤ :=
  if 10 ^ prec ≤ |halfUp q| then .error .invalidOperation else .ok (halfUp q)

/-- `int((e_wh * r_vnd / Decimal(1000)).quantize(...))`. -/
def recomputeLine (energy_wh : ℚ) (rate_vnd : ℤ) : Except DecimalFailure ℤ :=
  quantize PRECISION (ctxRound PRECISION (ctxRound PRECISION (energy_wh * rate_vnd) / 1000))

/-- The sum of the lines, from the left. -/
def lines_recomputed (lines : List InvoiceLine) : Except DecimalFailure ℤ :=
  lines.foldlM (fun total line =>
    match line.line_type with
    | .energy => do return total + (← recomputeLine line.energy_wh line.rate_vnd)
    | .idle => return total + line.amount_vnd) 0

/-- The test for an issue `pricing_mismatch`. -/
def pricingMismatch (inv_total : ℤ) (lines : List InvoiceLine) : Except DecimalFailure Bool := do
  return inv_total ≠ (← lines_recomputed lines)

/-- An energy line that the columns hold, with an amount they hold. -/
structure Storable (energy_wh : ℚ) (rate_vnd : ℤ) : Prop where
  energy : Fits 24 6 energy_wh
  nonneg : 0 ≤ energy_wh
  rate : 0 ≤ rate_vnd ∧ rate_vnd ≤ Wallets.MAX_VND
  amount : tien_dong energy_wh rate_vnd ≤ Wallets.MAX_VND

/-! ## 2. No operation rounds -/

namespace FallbackLemmas

variable {energy_wh : ℚ} {rate_vnd : ℤ}

/-- The product has 28 digits at most, since the amount has 63 bits. -/
theorem product_fits (h : Storable energy_wh rate_vnd) :
    ∃ z : ℤ, energy_wh * rate_vnd * 10 ^ 6 = z ∧ |z| < 10 ^ 28 := by
  obtain ⟨n, hn, -⟩ := h.energy
  have hscaled : energy_wh * rate_vnd * 10 ^ 6 = ((n * rate_vnd : ℤ) : ℚ) := by
    push_cast
    rw [← hn]
    ring
  have hrate : (0 : ℚ) ≤ rate_vnd := by exact_mod_cast h.rate.1
  have hnonneg : (0 : ℚ) ≤ ((n * rate_vnd : ℤ) : ℚ) := by
    rw [← hscaled]
    have := mul_nonneg h.nonneg hrate
    positivity
  have hamount : ⌊exactPrice energy_wh rate_vnd + 1 / 2⌋ < (2 : ℤ) ^ 63 := by
    rw [← tien_dong_eq_floor h.nonneg h.rate.1]
    have := h.amount
    unfold Wallets.MAX_VND at this
    omega
  have hbound : ((n * rate_vnd : ℤ) : ℚ) < ((10 ^ 28 : ℤ) : ℚ) := by
    have hprice := Int.floor_lt.mp hamount
    unfold exactPrice at hprice
    rw [← hscaled]
    push_cast at hprice ⊢
    linarith
  refine ⟨n * rate_vnd, hscaled, ?_⟩
  rw [abs_of_nonneg (by exact_mod_cast hnonneg)]
  exact_mod_cast hbound

theorem recomputeLine_eq (h : Storable energy_wh rate_vnd) :
    recomputeLine energy_wh rate_vnd = .ok (tien_dong energy_wh rate_vnd) := by
  obtain ⟨z, hz, hlt⟩ := product_fits h
  have hproduct : ctxRound PRECISION (energy_wh * rate_vnd) = energy_wh * rate_vnd := ctxRound_of_fits ⟨z, hz, hlt⟩
  have hquotient : ctxRound PRECISION (energy_wh * rate_vnd / 1000) = exactPrice energy_wh rate_vnd := by
    have hscaled : energy_wh * rate_vnd / 1000 * 10 ^ 9 = z := by
      rw [← hz]
      ring
    exact ctxRound_of_fits ⟨z, hscaled, hlt⟩
  have hrate : (0 : ℚ) ≤ rate_vnd := by exact_mod_cast h.rate.1
  have hnonneg : 0 ≤ exactPrice energy_wh rate_vnd := by
    unfold exactPrice
    have := mul_nonneg h.nonneg hrate
    positivity
  have hround : halfUp (exactPrice energy_wh rate_vnd) = tien_dong energy_wh rate_vnd := by
    rw [halfUp_eq_floor hnonneg, tien_dong_eq_floor h.nonneg h.rate.1]
  have hdigits : ¬ 10 ^ PRECISION ≤ |tien_dong energy_wh rate_vnd| := by
    have hmax := h.amount
    rw [abs_of_nonneg (tien_dong_nonneg h.nonneg h.rate.1), not_le]
    unfold Wallets.MAX_VND at hmax
    unfold PRECISION
    omega
  unfold recomputeLine
  rw [hproduct, hquotient]
  unfold quantize
  rw [hround, if_neg hdigits]

theorem foldlM_lines {lines : List InvoiceLine}
    (h : ∀ line ∈ lines, line.line_type = .energy →
      Storable line.energy_wh line.rate_vnd ∧ line.amount_vnd = tien_dong line.energy_wh line.rate_vnd) (total : ℤ) :
    lines.foldlM (fun total line =>
      match line.line_type with
      | .energy => do return total + (← recomputeLine line.energy_wh line.rate_vnd)
      | .idle => return total + line.amount_vnd) total = .ok (total + (lines.map (·.amount_vnd)).sum) := by
  induction lines generalizing total with
  | nil => simp [pure, Except.pure]
  | cons line lines ih =>
    have hrest := ih fun x hx => h x (List.mem_cons_of_mem _ hx)
    rw [List.foldlM_cons, List.map_cons, List.sum_cons, ← add_assoc]
    cases htype : line.line_type with
    | energy =>
      obtain ⟨hstorable, hamount⟩ := h line List.mem_cons_self htype
      simp only [recomputeLine_eq hstorable, ← hamount]
      exact hrest _
    | idle => exact hrest _

end FallbackLemmas

open FallbackLemmas

/-- The fallback gives every storable energy line the amount that billing gives it, so an invoice whose lines
have their amounts and whose total is their sum has no pricing mismatch. -/
theorem fallback_rounds_like_billing :
    (∀ energy_wh rate_vnd, Storable energy_wh rate_vnd →
      recomputeLine energy_wh rate_vnd = .ok (tien_dong energy_wh rate_vnd)) ∧
    ∀ lines : List InvoiceLine, (∀ line ∈ lines, line.line_type = .energy →
        Storable line.energy_wh line.rate_vnd ∧ line.amount_vnd = tien_dong line.energy_wh line.rate_vnd) →
      pricingMismatch (lines.map (·.amount_vnd)).sum lines = .ok false := by
  refine ⟨fun _ _ => recomputeLine_eq, fun lines h => ?_⟩
  have hsum := foldlM_lines h 0
  rw [zero_add] at hsum
  unfold pricingMismatch lines_recomputed
  rw [hsum]
  simp [bind, Except.bind, pure, Except.pure]

/-- The largest energy at one VND per kWh, and the largest rate at a quarter of a Wh. -/
theorem fallback_rounds_like_billing_largest :
    recomputeLine (999999999999999999999999 / 10 ^ 6) 1 = .ok 1000000000000000 ∧
    recomputeLine (1 / 4) (2 ^ 63 - 1) = .ok 2305843009213694 := by
  have hlarge : Storable (999999999999999999999999 / 10 ^ 6) 1 :=
    ⟨⟨999999999999999999999999, by norm_num, by norm_num⟩, by norm_num, by decide, by decide +kernel⟩
  have hrate : Storable (1 / 4) (2 ^ 63 - 1) :=
    ⟨⟨250000, by norm_num, by norm_num⟩, by norm_num, by decide, by decide +kernel⟩
  have h₁ := fallback_rounds_like_billing.1 _ _ hlarge
  have h₂ := fallback_rounds_like_billing.1 _ _ hrate
  have hvalue₁ : tien_dong (999999999999999999999999 / 10 ^ 6) 1 = 1000000000000000 := by decide +kernel
  have hvalue₂ : tien_dong (1 / 4) (2 ^ 63 - 1) = 2305843009213694 := by decide +kernel
  exact ⟨hvalue₁ ▸ h₁, hvalue₂ ▸ h₂⟩

end Csms.Accounting
