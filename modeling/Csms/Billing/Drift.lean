import Csms.Billing.Display

/-!
# How far rounding drifts (`billing/money.py`, `billing/segmentation.py`)

Each segment is rounded by itself. The amounts of `n` segments are at most `n / 2` dong away from the exact
price of their energy, and rounding the total once adds a half.

Results:
1. `drift_le`, `drift_gt`: the sum of the amounts against the exact price.
2. `rounding_drift`: the bound of the drift, and that it is the bound of splitting a session.
-/

namespace Csms.Billing

open Outcome

/-- The amounts of some energies at one price, each rounded. -/
def splitAmount (energies : List ℚ) (price : ℤ) : ℤ := (energies.map (tien_dong · price)).sum

namespace DriftLemmas

variable {energies : List ℚ} {price : ℤ}

theorem exactPrice_add (a b : ℚ) (price : ℤ) : exactPrice (a + b) price = exactPrice a price + exactPrice b price := by
  unfold exactPrice
  ring

theorem splitAmount_cons (e : ℚ) (energies : List ℚ) (price : ℤ) :
    splitAmount (e :: energies) price = tien_dong e price + splitAmount energies price := by
  unfold splitAmount
  rw [List.map_cons, List.sum_cons]

/-- What all the segments together are rounded up. -/
theorem drift_le (he : ∀ e ∈ energies, 0 ≤ e) (hp : 0 ≤ price) :
    (splitAmount energies price : ℚ) - exactPrice energies.sum price ≤ energies.length / 2 := by
  induction energies with
  | nil => simp [splitAmount, exactPrice]
  | cons e energies ih =>
    have hrest := ih fun x hx => he x (List.mem_cons_of_mem _ hx)
    have hfirst := (tien_dong_error (he e List.mem_cons_self) hp).1
    rw [splitAmount_cons, List.sum_cons, List.length_cons, exactPrice_add]
    push_cast
    linarith

/-- What all the segments together are rounded down. -/
theorem drift_ge (he : ∀ e ∈ energies, 0 ≤ e) (hp : 0 ≤ price) :
    -(energies.length / 2 : ℚ) ≤ (splitAmount energies price : ℚ) - exactPrice energies.sum price := by
  induction energies with
  | nil => simp [splitAmount, exactPrice]
  | cons e energies ih =>
    have hrest := ih fun x hx => he x (List.mem_cons_of_mem _ hx)
    have hfirst := (tien_dong_error (he e List.mem_cons_self) hp).2
    rw [splitAmount_cons, List.sum_cons, List.length_cons, exactPrice_add]
    push_cast
    linarith

/-- Splitting moves an amount by less than half a dong for each segment and one more for the total. -/
theorem split_drift (he : ∀ e ∈ energies, 0 ≤ e) (hp : 0 ≤ price) :
    |(splitAmount energies price : ℚ) - tien_dong energies.sum price| < (energies.length + 1) / 2 := by
  have hup := drift_le he hp
  have hdown := drift_ge he hp
  obtain ⟨htotal, htotal'⟩ := tien_dong_error (List.sum_nonneg he) hp
  rw [abs_lt]
  constructor
  · cases energies with
    | nil =>
      simp only [splitAmount, List.map_nil, List.sum_nil, List.length_nil] at *
      simp only [exactPrice, zero_mul, zero_div, sub_zero] at htotal htotal'
      have hzero : tien_dong 0 price = 0 := by simp [tien_dong, Rounding.divHalfUp]
      rw [hzero]
      norm_num
    | cons e energies =>
      -- the first segment is rounded down by less than a half
      have hrest := drift_ge (fun x hx => he x (List.mem_cons_of_mem e hx)) hp
      have hfirst := (tien_dong_error (he e List.mem_cons_self) hp).2
      rw [List.sum_cons, exactPrice_add] at htotal
      rw [splitAmount_cons, List.sum_cons, List.length_cons]
      push_cast
      linarith
  · linarith

/-- Every segment is priced by itself, and takes no energy back. -/
theorem chia_doan_amounts {prec : ℕ} {tz : Zone} {start stop : ℤ} {readings : List MeterValue}
    {daily_tariffs : ℤ → List TariffFrame} {segments : List Segment}
    (h : chia_doan prec tz start stop readings daily_tariffs = .ok segments) {seg : Segment} (hseg : seg ∈ segments) :
    0 ≤ seg.energy_consumed_wh ∧ seg.amount_vnd = tien_dong seg.energy_consumed_wh seg.price_vnd_per_kwh := by
  obtain ⟨-, points, -, piece, -, hpiece⟩ := DisplayLemmas.exists_piece_of_mem_chia_doan h hseg
  simp only [pieceSegment] at hpiece
  obtain ⟨applied, -, hpiece⟩ := bind_eq_ok.mp hpiece
  cases applied with
  | none => cases hpiece
  | some tf =>
    obtain ⟨start_value, -, hpiece⟩ := bind_eq_ok.mp hpiece
    obtain ⟨end_value, -, hpiece⟩ := bind_eq_ok.mp hpiece
    split at hpiece
    · cases hpiece
    next hnonneg =>
    split at hpiece
    · cases hpiece
    · cases hpiece
      exact ⟨not_lt.mp hnonneg, rfl⟩

end DriftLemmas

open DriftLemmas

/-- The amounts of `n` energies at one price are within `500 n` thousandths of the exact price; an amount does
not fall with the energy or the price, and is odd in the energy; and the segments of a session at one price
differ by less than `(n + 1) / 2` dong from the price of their total energy. -/
theorem rounding_drift {energies : List ℚ} {price : ℤ} (he : ∀ e ∈ energies, 0 ≤ e) (hp : 0 ≤ price) :
    |1000 * ((energies.map (tien_dong · price)).sum : ℤ) - price * energies.sum| ≤ 500 * energies.length ∧
    (∀ a b, a ≤ b → tien_dong a price ≤ tien_dong b price) ∧
    (∀ e ∈ energies, ∀ p, price ≤ p → tien_dong e price ≤ tien_dong e p) ∧
    (∀ e p, tien_dong (-e) p = -tien_dong e p) ∧
    |(((energies.map (tien_dong · price)).sum - tien_dong energies.sum price : ℤ) : ℚ)| < (energies.length + 1) / 2 ∧
    ∀ prec tz start stop readings daily_tariffs segments,
      chia_doan prec tz start stop readings daily_tariffs = .ok segments →
      (∀ seg ∈ segments, seg.price_vnd_per_kwh = price) →
      |(((segments.map (·.amount_vnd)).sum - tien_dong (segments.map (·.energy_consumed_wh)).sum price : ℤ) : ℚ)| <
        (segments.length + 1) / 2 := by
  refine ⟨?_, fun a b => tien_dong_mono hp, fun e hmem p => tien_dong_mono_price (he e hmem) hp, tien_dong_neg,
    ?_, ?_⟩
  · have hup := drift_le he hp
    have hdown := drift_ge he hp
    unfold splitAmount exactPrice at hup hdown
    rw [abs_le]
    constructor <;> linarith
  · have hdrift := split_drift he hp
    unfold splitAmount at hdrift
    rwa [Int.cast_sub]
  · intro prec tz start stop readings daily_tariffs segments hrun hprice
    have hnonneg : ∀ e ∈ segments.map (·.energy_consumed_wh), 0 ≤ e := by
      intro e hmem
      obtain ⟨seg, hseg, rfl⟩ := List.mem_map.mp hmem
      exact (chia_doan_amounts hrun hseg).1
    have hamounts : segments.map (·.amount_vnd) =
        (segments.map (·.energy_consumed_wh)).map (tien_dong · price) := by
      rw [List.map_map]
      refine List.map_congr_left fun seg hseg => ?_
      rw [Function.comp_apply, ← hprice seg hseg]
      exact (chia_doan_amounts hrun hseg).2
    have hdrift := split_drift hnonneg hp
    unfold splitAmount at hdrift
    rw [← hamounts, List.length_map] at hdrift
    rwa [Int.cast_sub]

/-- Two halves of a Wh at 1000 VND are rounded up twice. -/
theorem rounding_drift_halves : |(1000 : ℚ) * (([1 / 2, 1 / 2].map (tien_dong · 1000)).sum : ℤ) - 1000 * 1| ≤ 500 * 2 := by
  have h := (@rounding_drift [1 / 2, 1 / 2] 1000 (by intro e he; fin_cases he <;> norm_num) (by norm_num)).1
  norm_num at h ⊢
  exact h

end Csms.Billing
