import Csms.Lib.Rounding

/-!
# Whole-dong amounts (`billing/money.py`)
-/

namespace Csms.Billing

open Rounding

/-- `tien_dong`: Wh times VND per kWh over 1000, rounded half up to whole VND. A finite decimal
is its value, so `as_integer_ratio` is the numerator and denominator in lowest terms. -/
def tien_dong (energy_wh : ℚ) (price_vnd_per_kwh : ℤ) : ℤ :=
  divHalfUp (energy_wh.num * price_vnd_per_kwh) (energy_wh.den * 1000)

theorem tien_dong_nonneg {energy : ℚ} {price : ℤ} (he : 0 ≤ energy) (hp : 0 ≤ price) :
    0 ≤ tien_dong energy price :=
  divHalfUp_nonneg (mul_nonneg (Rat.num_nonneg.mpr he) hp)

/-- The exact price of an energy, in VND. -/
def exactPrice (energy_wh : ℚ) (price_vnd_per_kwh : ℤ) : ℚ := energy_wh * price_vnd_per_kwh / 1000

variable {energy : ℚ} {price : ℤ}

theorem exactPrice_eq (energy : ℚ) (price : ℤ) :
    exactPrice energy price = ((energy.num * price : ℤ) : ℚ) / ((energy.den * 1000 : ℕ) : ℚ) := by
  have hden : (energy.den : ℚ) ≠ 0 := by exact_mod_cast energy.den_pos.ne'
  have henergy : energy * energy.den = energy.num := Rat.mul_den_eq_num energy
  unfold exactPrice
  push_cast
  rw [← henergy]
  field_simp

theorem tien_dong_eq_floor (he : 0 ≤ energy) (hp : 0 ≤ price) :
    tien_dong energy price = ⌊exactPrice energy price + 1 / 2⌋ := by
  have hden : 0 < energy.den * 1000 := Nat.mul_pos energy.den_pos (by norm_num)
  rw [exactPrice_eq]
  exact divHalfUp_eq_floor hden (mul_nonneg (Rat.num_nonneg.mpr he) hp)

theorem tien_dong_neg (energy : ℚ) (price : ℤ) : tien_dong (-energy) price = -tien_dong energy price := by
  unfold tien_dong
  rw [Rat.num_neg_eq_neg_num, Rat.den_neg_eq_den, neg_mul]
  exact divHalfUp_neg _ (Nat.mul_pos energy.den_pos (by norm_num))

/-- The amount is at most half a dong above the exact price, and less than that below. -/
theorem tien_dong_error (he : 0 ≤ energy) (hp : 0 ≤ price) :
    (tien_dong energy price : ℚ) - exactPrice energy price ≤ 1 / 2 ∧
      -(1 / 2) < (tien_dong energy price : ℚ) - exactPrice energy price := by
  rw [exactPrice_eq]
  exact divHalfUp_error (Nat.mul_pos energy.den_pos (by norm_num)) (mul_nonneg (Rat.num_nonneg.mpr he) hp)

/-- More energy does not cost less. -/
theorem tien_dong_mono {a b : ℚ} (hp : 0 ≤ price) (h : a ≤ b) : tien_dong a price ≤ tien_dong b price := by
  have hmono : ∀ {x y : ℚ}, 0 ≤ x → x ≤ y → tien_dong x price ≤ tien_dong y price := by
    intro x y hx hxy
    have hpq : (0 : ℚ) ≤ price := by exact_mod_cast hp
    rw [tien_dong_eq_floor hx hp, tien_dong_eq_floor (hx.trans hxy) hp]
    refine Int.floor_le_floor ?_
    unfold exactPrice
    gcongr
  rcases le_total 0 a with ha | ha
  · exact hmono ha h
  · have hneg : tien_dong a price = -tien_dong (-a) price := by rw [← tien_dong_neg, neg_neg]
    rcases le_total 0 b with hb | hb
    · have h₁ := tien_dong_nonneg (neg_nonneg.mpr ha) hp
      have h₂ := tien_dong_nonneg hb hp
      omega
    · have hneg' : tien_dong b price = -tien_dong (-b) price := by rw [← tien_dong_neg, neg_neg]
      have h₁ := hmono (neg_nonneg.mpr hb) (neg_le_neg h)
      omega

/-- A higher price does not cost less. -/
theorem tien_dong_mono_price {a b : ℤ} (he : 0 ≤ energy) (ha : 0 ≤ a) (h : a ≤ b) :
    tien_dong energy a ≤ tien_dong energy b := by
  have hab : (a : ℚ) ≤ b := by exact_mod_cast h
  rw [tien_dong_eq_floor he ha, tien_dong_eq_floor he (ha.trans h)]
  refine Int.floor_le_floor ?_
  unfold exactPrice
  gcongr

end Csms.Billing
