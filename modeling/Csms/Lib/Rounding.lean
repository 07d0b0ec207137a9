import Mathlib

/-!
# Rounding of exact quotients

Two roundings of exact fractions to integers:

* `divHalfUp`: half away from zero, computed with `divmod` of the absolute numerator;
* `roundHalfEven`: half to even, the default rounding of decimal contexts.

Results:
1. `divHalfUp_eq_floor`: on a non-negative numerator `divHalfUp` is `⌊n / d + 1/2⌋`.
2. `divHalfUp_mono`: it is monotone in the fraction.
3. `divHalfUp_neg`: it is odd; `divHalfUp_error`: it is never further than a half away.
4. `roundHalfEven_intCast`: an integer is its own rounding.
-/

namespace Rounding

/-! ## 1. Half up -/

/-- `divmod(abs(n), d)`, one more when twice the remainder reaches `d`, with the sign of `n`. -/
def divHalfUp (n : ℤ) (d : ℕ) : ℤ :=
  let whole := n.natAbs / d
  let remainder := n.natAbs % d
  let rounded : ℕ := whole + if d ≤ 2 * remainder then 1 else 0
  if n < 0 then -(rounded : ℤ) else rounded

theorem divHalfUp_of_nonneg {n : ℤ} {d : ℕ} (hd : 0 < d) (hn : 0 ≤ n) :
    divHalfUp n d = (2 * n + d) / (2 * d) := by
  obtain ⟨m, rfl⟩ := Int.eq_ofNat_of_zero_le hn
  have hdm := Nat.div_add_mod m d
  have hlt := Nat.mod_lt m hd
  have hkey : ∀ r : ℕ, 2 * m + d = 2 * d * (m / d) + r → (2 * m + d) / (2 * d) = m / d + r / (2 * d) := by
    intro r hr
    rw [hr, Nat.mul_add_div (by omega)]
  have hsum : 2 * m + d = 2 * d * (m / d) + (2 * (m % d) + d) := by
    have : 2 * d * (m / d) = 2 * (d * (m / d)) := by ring
    omega
  have hdiv := hkey _ hsum
  have hcast : (2 * (m : ℤ) + d) / (2 * d) = ((2 * m + d) / (2 * d) : ℕ) := by push_cast; rfl
  simp only [divHalfUp, Int.natAbs_natCast, Int.natCast_nonneg, not_lt_of_ge, if_false]
  rw [hcast, hdiv]
  split
  · have : (2 * (m % d) + d) / (2 * d) = 1 := by
      rw [Nat.div_eq_iff (by omega)]; omega
    rw [this]
  · have : (2 * (m % d) + d) / (2 * d) = 0 := by
      rw [Nat.div_eq_iff (by omega)]; omega
    rw [this]

theorem divHalfUp_nonneg {n : ℤ} {d : ℕ} (hn : 0 ≤ n) : 0 ≤ divHalfUp n d := by
  simp only [divHalfUp, not_lt_of_ge hn, if_false]
  exact Int.natCast_nonneg _

/-- Half up is the floor of the quotient plus one half. -/
theorem divHalfUp_eq_floor {n : ℤ} {d : ℕ} (hd : 0 < d) (hn : 0 ≤ n) :
    divHalfUp n d = ⌊(n : ℚ) / d + 1 / 2⌋ := by
  rw [divHalfUp_of_nonneg hd hn]
  have hd' : (d : ℚ) ≠ 0 := by exact_mod_cast hd.ne'
  have : (n : ℚ) / d + 1 / 2 = ((2 * n + d : ℤ) : ℚ) / ((2 * d : ℕ) : ℚ) := by
    push_cast; field_simp
  rw [this, Rat.floor_intCast_div_natCast]
  push_cast; rfl

/-- Half up does not depend on the representation of the fraction and is monotone in it. -/
theorem divHalfUp_mono {n m : ℤ} {d e : ℕ} (hd : 0 < d) (he : 0 < e) (hn : 0 ≤ n)
    (h : (n : ℚ) / d ≤ (m : ℚ) / e) : divHalfUp n d ≤ divHalfUp m e := by
  have hm : 0 ≤ m := by
    have h0 : (0 : ℚ) ≤ (n : ℚ) / d := by positivity
    have h1 : (0 : ℚ) ≤ (m : ℚ) / e := h0.trans h
    have he' : (0 : ℚ) < e := by exact_mod_cast he
    have h2 : (0 : ℚ) ≤ m := by
      have := mul_nonneg h1 he'.le
      rwa [div_mul_cancel₀ _ he'.ne'] at this
    exact_mod_cast h2
  rw [divHalfUp_eq_floor hd hn, divHalfUp_eq_floor he hm]
  exact Int.floor_le_floor (by linarith)

theorem divHalfUp_neg (n : ℤ) {d : ℕ} (hd : 0 < d) : divHalfUp (-n) d = -divHalfUp n d := by
  rcases lt_trichotomy n 0 with hn | rfl | hn
  · have hpos : ¬ -n < 0 := by omega
    simp only [divHalfUp, Int.natAbs_neg, hn, hpos, if_true, if_false, neg_neg]
  · have hzero : ¬ d ≤ 0 := by omega
    simp [divHalfUp, hzero]
  · have hneg : -n < 0 := by omega
    have hpos : ¬ n < 0 := by omega
    simp only [divHalfUp, Int.natAbs_neg, hneg, hpos, if_true, if_false]

/-- On a non-negative fraction a half is the most that is added, and less is taken away. -/
theorem divHalfUp_error {n : ℤ} {d : ℕ} (hd : 0 < d) (hn : 0 ≤ n) :
    (divHalfUp n d : ℚ) - n / d ≤ 1 / 2 ∧ -(1 / 2) < (divHalfUp n d : ℚ) - n / d := by
  rw [divHalfUp_eq_floor hd hn]
  have hle := Int.floor_le ((n : ℚ) / d + 1 / 2)
  have hlt := Int.lt_floor_add_one ((n : ℚ) / d + 1 / 2)
  constructor <;> linarith

/-- A fraction in lowest terms rounded half up. -/
def halfUp (q : ℚ) : ℤ := divHalfUp q.num q.den

theorem halfUp_mono {p q : ℚ} (hp : 0 ≤ p) (h : p ≤ q) : halfUp p ≤ halfUp q := by
  refine divHalfUp_mono (Rat.den_pos p) (Rat.den_pos q) (Rat.num_nonneg.mpr hp) ?_
  rw [Rat.num_div_den, Rat.num_div_den]
  exact h

theorem halfUp_eq_floor {q : ℚ} (h : 0 ≤ q) : halfUp q = ⌊q + 1 / 2⌋ := by
  unfold halfUp
  rw [divHalfUp_eq_floor (Rat.den_pos q) (Rat.num_nonneg.mpr h), Rat.num_div_den]

/-! ## 2. Half even -/

/-- Round to the nearest integer, a half to the even neighbour. -/
def roundHalfEven (q : ℚ) : ℤ :=
  let f := ⌊q⌋
  let r := q - f
  if r < 1 / 2 then f else if 1 / 2 < r then f + 1 else if f % 2 = 0 then f else f + 1

@[simp] theorem roundHalfEven_intCast (z : ℤ) : roundHalfEven z = z := by
  simp [roundHalfEven]

end Rounding
