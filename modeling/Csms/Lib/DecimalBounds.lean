import Csms.Lib.DecimalText

/-!
# How far a decimal operation rounds

Rounding half to even is odd, moves a number by half a unit at most and reaches an even unit from half a
unit below it (`Rounding.le_roundHalfEven_iff`). From these follow the bounds on `ctxRound`, and when a
rounded number reaches a power of ten.
-/

namespace Rounding

/-- The nearest integer, the even one of two. -/
def Nearest (q : ℚ) (z : ℤ) : Prop := |q - z| < 1 / 2 ∨ (|q - z| = 1 / 2 ∧ z % 2 = 0)

theorem Nearest.dist_le {q : ℚ} {z : ℤ} (h : Nearest q z) : |q - z| ≤ 1 / 2 := h.elim le_of_lt fun h => h.1.le

theorem Nearest.unique {q : ℚ} {a b : ℤ} (ha : Nearest q a) (hb : Nearest q b) : a = b := by
  wlog hlt : a < b generalizing a b
  · rcases eq_or_lt_of_not_gt hlt with h | h
    · exact h.symm
    · exact (this hb ha h).symm
  obtain ⟨ha1, ha2⟩ := abs_le.mp ha.dist_le
  obtain ⟨hb1, hb2⟩ := abs_le.mp hb.dist_le
  have hle : (a : ℚ) + 1 ≤ b := by exact_mod_cast hlt
  -- both are half a unit away, so both are even
  have hqa : q - a = 1 / 2 := by linarith
  have hqb : q - b = -(1 / 2) := by linarith
  have heven : a % 2 = 0 ∧ b % 2 = 0 := by
    refine ⟨(ha.resolve_left fun h => ?_).2, (hb.resolve_left fun h => ?_).2⟩
    · rw [hqa, abs_of_pos (by norm_num)] at h
      exact lt_irrefl _ h
    · rw [hqb, abs_neg, abs_of_pos (by norm_num)] at h
      exact lt_irrefl _ h
  have hnext : (b : ℚ) = a + 1 := by linarith
  have hnext' : b = a + 1 := by exact_mod_cast hnext
  omega

theorem roundHalfEven_nearest (q : ℚ) : Nearest q (roundHalfEven q) := by
  have h0 : 0 ≤ q - ⌊q⌋ := sub_nonneg.mpr (Int.floor_le q)
  have h1 : q - ⌊q⌋ < 1 := by linarith [Int.lt_floor_add_one q]
  unfold roundHalfEven
  simp only
  split
  · next h => exact .inl (by rwa [abs_of_nonneg h0])
  next hlow =>
  have hup : |q - ((⌊q⌋ + 1 : ℤ) : ℚ)| = 1 - (q - ⌊q⌋) := by
    rw [abs_of_nonpos (by push_cast; linarith)]
    push_cast
    ring
  split
  · next h => exact .inl (by rw [hup]; linarith)
  next hhigh =>
  have hhalf : q - ⌊q⌋ = 1 / 2 := le_antisymm (not_lt.mp hhigh) (not_lt.mp hlow)
  split
  · next h => exact .inr ⟨by rw [abs_of_nonneg h0, hhalf], h⟩
  · next h => exact .inr ⟨by rw [hup, hhalf]; norm_num, by omega⟩

/-- An even integer is reached from half a unit below it. -/
theorem le_roundHalfEven_iff {n : ℤ} (hn : n % 2 = 0) {q : ℚ} : n ≤ roundHalfEven q ↔ (n : ℚ) - 1 / 2 ≤ q := by
  have hspec := roundHalfEven_nearest q
  have hle := abs_le.mp hspec.dist_le
  constructor
  · intro h
    have : (n : ℚ) ≤ roundHalfEven q := by exact_mod_cast h
    linarith [hle.1]
  · intro h
    by_contra hlt
    have hlt' : (roundHalfEven q : ℚ) ≤ n - 1 := by
      have : roundHalfEven q ≤ n - 1 := by omega
      exact_mod_cast this
    -- the rounded number is half a unit away and odd
    have heq : q - roundHalfEven q = 1 / 2 := le_antisymm hle.2 (by linarith)
    have hprev : (roundHalfEven q : ℚ) = n - 1 := by linarith
    have hprev' : roundHalfEven q = n - 1 := by exact_mod_cast hprev
    rcases hspec with hs | ⟨-, heven⟩
    · rw [heq, abs_of_pos (by norm_num)] at hs
      exact lt_irrefl _ hs
    · omega

theorem roundHalfEven_neg (q : ℚ) : roundHalfEven (-q) = -roundHalfEven q := by
  refine (roundHalfEven_nearest (-q)).unique ?_
  have habs : |-q - ((-roundHalfEven q : ℤ) : ℚ)| = |q - roundHalfEven q| := by
    rw [← abs_neg]
    push_cast
    ring_nf
  rcases roundHalfEven_nearest q with h | ⟨h, heven⟩
  · exact .inl (habs ▸ h)
  · exact .inr ⟨habs ▸ h, by omega⟩

end Rounding

namespace Decimal

open Rounding

/-! ## 1. Rounding to the context -/

theorem quantum_pos (prec : ℕ) (q : ℚ) : 0 < quantum prec q := by
  unfold quantum
  positivity

theorem quantum_neg (prec : ℕ) (q : ℚ) : quantum prec (-q) = quantum prec q := by
  rw [quantum, quantum, abs_neg]

theorem ctxRound_neg (prec : ℕ) (q : ℚ) : ctxRound prec (-q) = -ctxRound prec q := by
  unfold ctxRound
  by_cases h : q = 0
  · simp [h]
  · rw [if_neg (neg_ne_zero.mpr h), if_neg h, quantum_neg, neg_div, roundHalfEven_neg]
    push_cast
    ring

theorem abs_ctxRound_sub_le (prec : ℕ) (q : ℚ) : |ctxRound prec q - q| ≤ quantum prec q / 2 := by
  have hpos := quantum_pos prec q
  unfold ctxRound
  split
  · next h =>
    subst h
    rw [sub_zero, abs_zero]
    exact (half_pos hpos).le
  · have h := (roundHalfEven_nearest (q / quantum prec q)).dist_le
    have heq : ↑(roundHalfEven (q / quantum prec q)) * quantum prec q - q =
        -((q / quantum prec q - roundHalfEven (q / quantum prec q)) * quantum prec q) := by
      field_simp
      ring
    rw [heq, abs_neg, abs_mul, abs_of_pos hpos]
    nlinarith

/-- A positive number reaches an even multiple of its quantum from half a quantum below. -/
theorem le_ctxRound_iff {prec : ℕ} {q : ℚ} (hq : 0 < q) {n : ℤ} (hn : n % 2 = 0) :
    n * quantum prec q ≤ ctxRound prec q ↔ (n - 1 / 2) * quantum prec q ≤ q := by
  have hpos := quantum_pos prec q
  rw [ctxRound, if_neg hq.ne', mul_le_mul_iff_left₀ hpos, Int.cast_le, le_roundHalfEven_iff hn, le_div_iff₀ hpos]

theorem ctxRound_nonneg {prec : ℕ} {q : ℚ} (hq : 0 ≤ q) : 0 ≤ ctxRound prec q := by
  rcases hq.eq_or_lt with rfl | hq
  · simp [ctxRound]
  · have hquantum := quantum_pos prec q
    have h := (@le_ctxRound_iff prec q hq 0 rfl).mpr (by push_cast; nlinarith)
    simpa using h

theorem abs_ctxRound (prec : ℕ) (q : ℚ) : |ctxRound prec q| = ctxRound prec |q| := by
  rcases le_total 0 q with h | h
  · rw [abs_of_nonneg h, abs_of_nonneg (ctxRound_nonneg h)]
  · rw [abs_of_nonpos h, ctxRound_neg, abs_of_nonpos]
    have := @ctxRound_nonneg prec (-q) (neg_nonneg.mpr h)
    rw [ctxRound_neg] at this
    linarith

theorem log_eq {q : ℚ} (hq : 0 < q) {e : ℤ} (hlow : (10 : ℚ) ^ e ≤ q) (hhigh : q < 10 ^ (e + 1)) :
    Int.log 10 q = e := by
  have h1 := (Int.zpow_le_iff_le_log (b := 10) (by norm_num) hq).mp (by exact_mod_cast hlow)
  have h2 := (Int.lt_zpow_iff_log_lt (b := 10) (by norm_num) hq).mp (by exact_mod_cast hhigh)
  omega

end Decimal

namespace DecimalText

open Decimal Rounding

/-! ## 2. Products -/

theorem width_spec {n : ℕ} (hn : 0 < n) : (10 : ℚ) ^ (width n - 1) ≤ n ∧ (n : ℚ) < 10 ^ width n := by
  have hpos : 0 < (Nat.toDigits 10 n).length := Nat.length_toDigits_pos
  have hhigh : n < 10 ^ (Nat.toDigits 10 n).length := (Nat.length_toDigits_le_iff (by norm_num) hpos).mp le_rfl
  have hlow : 10 ^ ((Nat.toDigits 10 n).length - 1) ≤ n := by
    rcases Nat.eq_zero_or_pos ((Nat.toDigits 10 n).length - 1) with h0 | h0
    · rw [h0, pow_zero]
      exact hn
    · by_contra hlt
      have := (Nat.length_toDigits_le_iff (by norm_num) h0).mpr (not_le.mp hlt)
      omega
  unfold width
  refine ⟨?_, ?_⟩
  · have hcast : ((Nat.toDigits 10 n).length : ℤ) - 1 = (((Nat.toDigits 10 n).length - 1 : ℕ) : ℤ) := by omega
    rw [hcast, zpow_natCast]
    exact_mod_cast hlow
  · rw [zpow_natCast]
    exact_mod_cast hhigh

/-- The exponent of the first digit of a product. -/
theorem log_product {n : ℕ} (hn : 0 < n) (e : ℤ) : Int.log 10 ((n : ℚ) * 10 ^ e) = e + width n - 1 := by
  obtain ⟨hlow, hhigh⟩ := width_spec hn
  have hten : (0 : ℚ) < 10 ^ e := by positivity
  refine log_eq (by positivity) ?_ ?_
  · rw [show e + width n - 1 = (width n - 1) + e by ring, zpow_add₀ (by norm_num)]
    exact mul_le_mul_of_nonneg_right hlow hten.le
  · rw [show e + width n - 1 + 1 = width n + e by ring, zpow_add₀ (by norm_num)]
    exact mul_lt_mul_of_pos_right hhigh hten

/-- The literals that become a decimal; the others are an `InvalidOperation`. -/
def Convertible (coefficient : ℕ) (exponent : ℤ) : Prop :=
  ¬ (MAX_EMAX < exponent + width coefficient - 1 ∨ exponent < MIN_ETINY)

instance (coefficient : ℕ) (exponent : ℤ) : Decidable (Convertible coefficient exponent) :=
  inferInstanceAs (Decidable (¬ _))

/-- The exact product of a literal and a factor. -/
def exactProduct (negative : Bool) (coefficient : ℕ) (exponent : ℤ) (factor : ℕ) : ℚ :=
  let product : ℚ := (coefficient * factor : ℕ) * (10 : ℚ) ^ exponent
  if negative then -product else product

/-- The numbers that round to `10 ^ (EMAX + 1)` or more. -/
def Overflows (x : ℚ) : Prop := (10 ^ 28 - 1 / 2) * (10 : ℚ) ^ (EMAX - 27) ≤ |x|

theorem abs_exactProduct (negative : Bool) (coefficient : ℕ) (exponent : ℤ) (factor : ℕ) :
    |exactProduct negative coefficient exponent factor| = (coefficient * factor : ℕ) * (10 : ℚ) ^ exponent := by
  have hpos : (0 : ℚ) ≤ (coefficient * factor : ℕ) * (10 : ℚ) ^ exponent := by positivity
  unfold exactProduct
  cases negative with
  | true => exact (abs_neg _).trans (abs_of_nonneg hpos)
  | false => exact abs_of_nonneg hpos

/-- A number rounds to `10 ^ (m + 1)` or more when its first digit is beyond `m`, or is carried there. -/
theorem reaches_iff {x : ℚ} (hx : x ≠ 0) (m : ℤ) :
    (10 ^ 28 - 1 / 2) * (10 : ℚ) ^ (m - 27) ≤ |x| ↔
      m < Int.log 10 |x| ∨ (Int.log 10 |x| = m ∧ (10 : ℚ) ^ (m + 1) ≤ |ctxRound 28 x|) := by
  have hpos : 0 < |x| := abs_pos.mpr hx
  have hscale : (0 : ℚ) < 10 ^ (m - 27) := by positivity
  have hpow : (10 : ℚ) ^ (m + 1) = 10 ^ 28 * 10 ^ (m - 27) := by
    rw [show m + 1 = (28 : ℤ) + (m - 27) by ring, zpow_add₀ (by norm_num)]
    rfl
  have hpow' : (10 : ℚ) ^ m = 10 ^ 27 * 10 ^ (m - 27) := by
    rw [show (10 : ℚ) ^ m = 10 ^ ((27 : ℤ) + (m - 27)) by congr 1; ring, zpow_add₀ (by norm_num)]
    rfl
  rw [abs_ctxRound]
  rcases lt_trichotomy (Int.log 10 |x|) m with hlt | heq | hgt
  · have hsmall : |x| < 10 ^ m := by
      exact_mod_cast (Int.lt_zpow_iff_log_lt (b := 10) (by norm_num) hpos).mpr hlt
    rw [hpow'] at hsmall
    constructor
    · intro h
      nlinarith
    · rintro (h | ⟨h, -⟩) <;> omega
  · have hquantum : quantum 28 |x| = 10 ^ (m - 27) := by
      rw [quantum, abs_abs, heq]
      congr 1
      push_cast
      ring
    have hiff := @le_ctxRound_iff 28 |x| hpos (10 ^ 28) (by norm_num)
    rw [hquantum, show (((10 : ℤ) ^ 28 : ℤ) : ℚ) = 10 ^ 28 by norm_num] at hiff
    rw [hpow, hiff]
    constructor
    · exact fun h => .inr ⟨heq, h⟩
    · rintro (h | ⟨-, h⟩)
      · omega
      · exact h
  · have hbig : (10 : ℚ) ^ (m + 1) ≤ |x| := by
      exact_mod_cast (Int.zpow_le_iff_le_log (b := 10) (by norm_num) hpos).mpr (by omega)
    rw [hpow] at hbig
    exact ⟨fun _ => .inl hgt, fun _ => by nlinarith⟩

/-- What the product of a finite text and a factor up to 1000 is. -/
theorem ctxMul_finite {text : String} {negative : Bool} {coefficient : ℕ} {exponent : ℤ} {factor : ℕ}
    (hparse : parse text = some (.finite negative coefficient exponent)) (hconv : Convertible coefficient exponent)
    (hfactor : 0 < factor) (hle : factor ≤ 1000) :
    (Overflows (exactProduct negative coefficient exponent factor) → ctxMul text factor = .error .overflow) ∧
    (¬ Overflows (exactProduct negative coefficient exponent factor) → ∃ r, ctxMul text factor = .ok (some r) ∧
      (r = ctxRound 28 (exactProduct negative coefficient exponent factor) ∨
        (r = 0 ∧ |exactProduct negative coefficient exponent factor| < 10 ^ (-27 : ℤ)))) := by
  have habs := abs_exactProduct negative coefficient exponent factor
  have hsmall : ∀ {y : ℚ}, y < 10 ^ (-27 : ℤ) → y < (10 ^ 28 - 1 / 2) * (10 : ℚ) ^ (EMAX - 27) := fun {y} hy => by
    have hmono : (10 : ℚ) ^ (-27 : ℤ) ≤ 10 ^ (EMAX - 27) := zpow_le_zpow_right₀ (by norm_num) (by decide)
    have hpos : (0 : ℚ) < 10 ^ (EMAX - 27) := by positivity
    nlinarith
  unfold ctxMul
  rw [hparse]
  simp only
  rw [if_neg hconv]
  by_cases hzero : coefficient = 0
  · rw [if_pos hzero]
    have hx : |exactProduct negative coefficient exponent factor| < 10 ^ (-27 : ℤ) := by
      rw [habs, hzero]
      simp
    exact ⟨fun h => absurd (hsmall hx) (not_lt.mpr h), fun _ => ⟨0, rfl, .inr ⟨rfl, hx⟩⟩⟩
  rw [if_neg hzero]
  have hcoeff : 0 < coefficient := Nat.pos_of_ne_zero hzero
  by_cases htiny : exponent + width coefficient < -30
  · rw [if_pos htiny]
    have hx : |exactProduct negative coefficient exponent factor| < 10 ^ (-27 : ℤ) := by
      have hten : (0 : ℚ) < 10 ^ exponent := by positivity
      have hfac : (factor : ℚ) ≤ 1000 := by exact_mod_cast hle
      have hfac0 : (0 : ℚ) < factor := by exact_mod_cast hfactor
      have hmono : (10 : ℚ) ^ (exponent + width coefficient) ≤ 10 ^ (-31 : ℤ) :=
        zpow_le_zpow_right₀ (by norm_num) (by omega)
      have hcoef : (coefficient : ℚ) * 10 ^ exponent < 10 ^ (-31 : ℤ) := by
        refine lt_of_lt_of_le ?_ hmono
        rw [add_comm, zpow_add₀ (by norm_num)]
        exact mul_lt_mul_of_pos_right (width_spec hcoeff).2 hten
      calc |exactProduct negative coefficient exponent factor|
          = (coefficient : ℚ) * 10 ^ exponent * factor := by rw [habs]; push_cast; ring
        _ < 10 ^ (-31 : ℤ) * factor := mul_lt_mul_of_pos_right hcoef hfac0
        _ ≤ 10 ^ (-31 : ℤ) * 1000 := mul_le_mul_of_nonneg_left hfac (by positivity)
        _ < 10 ^ (-27 : ℤ) := by norm_num
    exact ⟨fun h => absurd (hsmall hx) (not_lt.mpr h), fun _ => ⟨0, rfl, .inr ⟨rfl, hx⟩⟩⟩
  rw [if_neg htiny]
  have hn : 0 < coefficient * factor := Nat.mul_pos hcoeff hfactor
  have hne : exactProduct negative coefficient exponent factor ≠ 0 := by
    rw [← abs_pos, habs]
    positivity
  have hlog := log_product hn exponent
  rw [← habs] at hlog
  have hiff := reaches_iff hne EMAX
  rw [hlog] at hiff
  refine ⟨fun h => if_pos (hiff.mp h), fun h => ⟨_, if_neg fun h' => h (hiff.mpr h'), .inl rfl⟩⟩

end DecimalText
