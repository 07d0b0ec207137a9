import Csms.Lib.Rounding
import Csms.Lib.Datetime

/-!
# Interpolated meter readings (`billing/segmentation.py`)

`interpolate_meter_value` walks the readings of a session to the first one at or after the
target. A reading at the target itself is returned as it is; between two readings the exact
linear interpolation is rounded half up to a whole Wh and clamped between the two.

Results:
1. `readingAt_ok`: inside the readings the walk returns a value between its neighbours.
2. `readingAt_mono`: a later target has no smaller value.
-/

namespace Csms.Billing

open Rounding

/-- The exceptions of the billing path, with the message or the reason code they carry.
`diverges` stands for a loop that never ends. -/
inductive BillingError where
  | invalidInvoice (reason : String)
  | valueError (message : String)
  | keyError
  | indexError
  | zeroDivisionError
  | assertionError
  | sessionNotFound
  | integrityError (constraint : String)
  | diverges
  deriving DecidableEq, Repr

structure MeterValue where
  timestamp : ℤ
  energy_wh : ℚ
  deriving DecidableEq, Repr

/-! ## 1. The code -/

/-- The exact linear interpolation between the readings `a` and `b` at the instant `target`. -/
def interpolated (a b : MeterValue) (target : ℤ) : ℚ :=
  a.energy_wh + (b.energy_wh - a.energy_wh) *
    (((target - a.timestamp : ℤ) : ℚ) / ((b.timestamp - a.timestamp : ℤ) : ℚ))

/-- The interpolation rounded half up to a whole Wh; rounding must not leave the interval. -/
def roundedReading (a b : MeterValue) (target : ℤ) : ℚ :=
  min b.energy_wh (max a.energy_wh (halfUp (interpolated a b target)))

/-- The value between the readings `a` and `b` at the instant `target`. -/
def interpolateBetween (a b : MeterValue) (target : ℤ) : Except BillingError (ℚ × Bool) :=
  if b.energy_wh < a.energy_wh then
    .error (.valueError "Chỉ số công tơ giảm giữa hai số đo.")
  else if b.timestamp - a.timestamp = 0 then .error .zeroDivisionError
  else .ok (roundedReading a b target, true)

/-- The loop over the readings. `exact` tells whether `==` with a reading may hold at all;
`previous` is `meter_values[i - 1]`. -/
def scanReadings (exact : Bool) (target : ℤ) :
    MeterValue → List MeterValue → Except BillingError (ℚ × Bool)
  | _, [] => .error (.valueError "Không thể nội suy.")
  | previous, mv :: rest =>
    if exact && mv.timestamp == target then .ok (mv.energy_wh, false)
    else if target < mv.timestamp then interpolateBetween previous mv target
    else scanReadings exact target mv rest

/-- The reading at the instant `target`. In the first iteration index `i - 1` is the last
reading, as in Python. -/
def readingAt (exact : Bool) (target : ℤ) : List MeterValue → Except BillingError (ℚ × Bool)
  | [] => .error (.valueError "Danh sách meter_values trống.")
  | first :: rest =>
    let last := (first :: rest).getLast (List.cons_ne_nil _ _)
    if target < first.timestamp || last.timestamp < target then
      .error (.valueError "Thời điểm cắt nằm ngoài khoảng số đo.")
    else scanReadings exact target last (first :: rest)

/-- `interpolate_meter_value`. -/
def interpolate_meter_value (tz : Zone) (target_time : Stamp) (meter_values : List MeterValue) :
    Except BillingError (ℚ × Bool) :=
  readingAt (target_time.comparable tz) (target_time.instant tz) meter_values

/-! ## 2. Well-formed readings -/

/-- Strictly increasing timestamps and nondecreasing energies. -/
def Increasing (readings : List MeterValue) : Prop :=
  readings.IsChain fun a b => a.timestamp < b.timestamp ∧ a.energy_wh ≤ b.energy_wh

/-- The readings of a session: increasing and non-negative, the first at its start and the last
at its end. -/
structure Readings (start stop : ℤ) (readings : List MeterValue) : Prop where
  increasing : Increasing readings
  nonneg : ∀ mv ∈ readings, 0 ≤ mv.energy_wh
  first : readings.head?.map (·.timestamp) = some start
  last : readings.getLast?.map (·.timestamp) = some stop

namespace InterpolationLemmas

theorem interpolateBetween_ok {a b : MeterValue} (ht : a.timestamp < b.timestamp)
    (he : a.energy_wh ≤ b.energy_wh) (target : ℤ) :
    interpolateBetween a b target = .ok (roundedReading a b target, true) := by
  simp only [interpolateBetween, not_lt_of_ge he, if_false, (sub_pos.mpr ht).ne']

theorem roundedReading_bounds {a b : MeterValue} (he : a.energy_wh ≤ b.energy_wh) (target : ℤ) :
    a.energy_wh ≤ roundedReading a b target ∧ roundedReading a b target ≤ b.energy_wh :=
  ⟨le_min he (le_max_left _ _), min_le_left _ _⟩

theorem roundedReading_mono {a b : MeterValue} (ht : a.timestamp < b.timestamp)
    (he : a.energy_wh ≤ b.energy_wh) (ha : 0 ≤ a.energy_wh) {s t : ℤ} (has : a.timestamp ≤ s)
    (hst : s ≤ t) : roundedReading a b s ≤ roundedReading a b t := by
  have hd : (0 : ℚ) < ((b.timestamp - a.timestamp : ℤ) : ℚ) := by exact_mod_cast sub_pos.mpr ht
  have hs : (0 : ℚ) ≤ ((s - a.timestamp : ℤ) : ℚ) := by exact_mod_cast sub_nonneg.mpr has
  have hle : ((s - a.timestamp : ℤ) : ℚ) ≤ ((t - a.timestamp : ℤ) : ℚ) := by
    exact_mod_cast sub_le_sub_right hst _
  have hgap : 0 ≤ b.energy_wh - a.energy_wh := sub_nonneg.mpr he
  have hp : 0 ≤ interpolated a b s := by unfold interpolated; positivity
  have hpq : interpolated a b s ≤ interpolated a b t := by unfold interpolated; gcongr
  have hround : (halfUp (interpolated a b s) : ℚ) ≤ halfUp (interpolated a b t) := by
    exact_mod_cast halfUp_mono hp hpq
  exact min_le_min_left _ (max_le_max_left _ hround)

theorem increasing_tail {a : MeterValue} {l : List MeterValue} (h : Increasing (a :: l)) :
    Increasing l :=
  List.IsChain.tail h

theorem increasing_head {a b : MeterValue} {l : List MeterValue} (h : Increasing (a :: b :: l)) :
    a.timestamp < b.timestamp ∧ a.energy_wh ≤ b.energy_wh :=
  (List.isChain_cons_cons.mp h).1

theorem scanReadings_ge {exact : Bool} {target : ℤ} :
    ∀ {previous : MeterValue} {l : List MeterValue} {v : ℚ} {f : Bool},
      Increasing (previous :: l) → scanReadings exact target previous l = .ok (v, f) →
      previous.energy_wh ≤ v
  | _, [], _, _, _, h => by simp [scanReadings] at h
  | previous, mv :: rest, v, f, hi, h => by
    obtain ⟨ht, he⟩ := increasing_head hi
    unfold scanReadings at h
    split at h
    · simp only [Except.ok.injEq, Prod.mk.injEq] at h
      exact h.1 ▸ he
    split at h
    · rw [interpolateBetween_ok ht he] at h
      simp only [Except.ok.injEq, Prod.mk.injEq] at h
      exact h.1 ▸ (roundedReading_bounds he target).1
    · exact he.trans (scanReadings_ge (increasing_tail hi) h)

/-- The walk ends at the first reading after the target, or at the target when `==` holds. -/
theorem scanReadings_ok {exact : Bool} {target : ℤ} :
    ∀ {previous : MeterValue} {l : List MeterValue}, Increasing (previous :: l) →
      (∃ mv ∈ l, target < mv.timestamp ∨ (exact = true ∧ target = mv.timestamp)) →
      ∃ v f, scanReadings exact target previous l = .ok (v, f)
  | _, [], _, h => by simp at h
  | previous, mv :: rest, hi, h => by
    obtain ⟨ht, he⟩ := increasing_head hi
    unfold scanReadings
    split
    · exact ⟨_, _, rfl⟩
    next hne =>
    split
    · exact ⟨_, _, interpolateBetween_ok ht he target⟩
    next hge =>
    refine scanReadings_ok (increasing_tail hi) ?_
    obtain ⟨b, hb, hbt⟩ := h
    rcases List.mem_cons.mp hb with rfl | hb
    · rcases hbt with hbt | ⟨hx, hbt⟩
      · exact absurd hbt hge
      · simp [hx, hbt] at hne
    · exact ⟨b, hb, hbt⟩

/-- A property of the readings and of whole numbers that `min` and `max` keep holds of every
value of the walk. -/
theorem scanReadings_induct {P : ℚ → Prop} (hint : ∀ n : ℤ, P n)
    {exact : Bool} {target : ℤ} :
    ∀ {previous : MeterValue} {l : List MeterValue} {v : ℚ} {f : Bool},
      (∀ mv ∈ previous :: l, P mv.energy_wh) → scanReadings exact target previous l = .ok (v, f) →
      P v
  | _, [], _, _, _, h => by simp [scanReadings] at h
  | previous, mv :: rest, v, f, hP, h => by
    unfold scanReadings at h
    split at h
    · simp only [Except.ok.injEq, Prod.mk.injEq] at h
      exact h.1 ▸ hP mv (by simp)
    split at h
    · unfold interpolateBetween at h
      split at h
      · cases h
      split at h
      · cases h
      simp only [Except.ok.injEq, Prod.mk.injEq] at h
      obtain ⟨rfl, -⟩ := h
      unfold roundedReading
      rcases min_choice mv.energy_wh (max previous.energy_wh (halfUp (interpolated previous mv target)))
        with hm | hm <;> rw [hm]
      · exact hP mv (by simp)
      · rcases max_choice previous.energy_wh (halfUp (interpolated previous mv target) : ℚ)
          with hx | hx <;> rw [hx]
        · exact hP previous (by simp)
        · exact hint _
    · exact scanReadings_induct hint (fun b hb => hP b (List.mem_cons_of_mem _ hb)) h

/-- A later target has no smaller value. Both walks stay together up to the first reading after
the earlier target; that reading separates the values when the walks part. -/
theorem scanReadings_mono {ex ey : Bool} {s t : ℤ} (hst : s < t) :
    ∀ {previous : MeterValue} {l : List MeterValue} {v w : ℚ} {f g : Bool},
      Increasing (previous :: l) → 0 ≤ previous.energy_wh → previous.timestamp ≤ s →
      scanReadings ex s previous l = .ok (v, f) → scanReadings ey t previous l = .ok (w, g) →
      v ≤ w
  | _, [], _, _, _, _, _, _, _, h, _ => by simp [scanReadings] at h
  | previous, mv :: rest, v, w, f, g, hi, h0, hp, hv, hw => by
    obtain ⟨ht, he⟩ := increasing_head hi
    -- the later walk, once past `mv`, is at least `mv`'s energy
    have hpast : mv.timestamp ≤ t → mv.energy_wh ≤ w := by
      intro hle
      unfold scanReadings at hw
      split at hw
      · simp only [Except.ok.injEq, Prod.mk.injEq] at hw; exact hw.1.le
      split at hw
      · next h => exact absurd hle (not_le.mpr h)
      · exact scanReadings_ge (increasing_tail hi) hw
    unfold scanReadings at hv
    split at hv
    · next hs =>
      simp only [Except.ok.injEq, Prod.mk.injEq] at hv
      simp only [Bool.and_eq_true, beq_iff_eq] at hs
      exact hv.1 ▸ hpast (by omega)
    split at hv
    · next hs =>
      rw [interpolateBetween_ok ht he] at hv
      simp only [Except.ok.injEq, Prod.mk.injEq] at hv
      obtain ⟨rfl, -⟩ := hv
      by_cases hmt : mv.timestamp ≤ t
      · exact (roundedReading_bounds he s).2.trans (hpast hmt)
      · unfold scanReadings at hw
        split at hw
        · next h => simp only [Bool.and_eq_true, beq_iff_eq] at h; omega
        rw [if_pos (not_le.mp hmt), interpolateBetween_ok ht he] at hw
        simp only [Except.ok.injEq, Prod.mk.injEq] at hw
        exact hw.1 ▸ roundedReading_mono ht he h0 hp hst.le
    · next hs =>
      unfold scanReadings at hw
      split at hw
      · next h => simp only [Bool.and_eq_true, beq_iff_eq] at h; omega
      split at hw
      · omega
      · exact scanReadings_mono hst (increasing_tail hi) (h0.trans he) (not_lt.mp hs) hv hw

/-- A reading at the target itself is the least value there. -/
theorem scanReadings_exact_le {ex : Bool} {t : ℤ} :
    ∀ {previous : MeterValue} {l : List MeterValue} {v w : ℚ} {f g : Bool},
      Increasing (previous :: l) → scanReadings true t previous l = .ok (v, f) →
      scanReadings ex t previous l = .ok (w, g) → v ≤ w
  | _, [], _, _, _, _, _, h, _ => by simp [scanReadings] at h
  | previous, mv :: rest, v, w, f, g, hi, hv, hw => by
    by_cases heq : mv.timestamp = t
    · have hve : mv.energy_wh = v := by
        simp only [scanReadings, heq, Bool.true_and, beq_self_eq_true, if_true, Except.ok.injEq,
          Prod.mk.injEq] at hv
        exact hv.1
      unfold scanReadings at hw
      split at hw
      · simp only [Except.ok.injEq, Prod.mk.injEq] at hw
        exact (hve.symm.trans hw.1).le
      · rw [if_neg (by omega)] at hw
        exact hve ▸ scanReadings_ge (increasing_tail hi) hw
    · simp only [scanReadings, beq_eq_false_iff_ne.mpr heq, Bool.and_false, Bool.false_eq_true, if_false]
        at hv hw
      split at hv
      · next hlt =>
        rw [if_pos hlt, hv] at hw
        simp only [Except.ok.injEq, Prod.mk.injEq] at hw
        exact hw.1.le
      · next hlt =>
        rw [if_neg hlt] at hw
        exact scanReadings_exact_le (increasing_tail hi) hv hw

/-- The first iteration only compares for equality: the target is not before the readings. -/
theorem readingAt_cons {exact : Bool} {target : ℤ} {first : MeterValue} {rest : List MeterValue}
    (h1 : first.timestamp ≤ target)
    (h2 : target ≤ ((first :: rest).getLast (List.cons_ne_nil _ _)).timestamp) :
    readingAt exact target (first :: rest) =
      if exact && first.timestamp == target then .ok (first.energy_wh, false)
      else scanReadings exact target first rest := by
  simp only [readingAt, scanReadings, not_lt.mpr h1, not_lt.mpr h2, decide_false, Bool.or_self,
    Bool.false_eq_true, if_false]

theorem increasing_pairwise {l : List MeterValue} (h : Increasing l) :
    l.Pairwise fun a b => a.timestamp < b.timestamp :=
  List.isChain_iff_pairwise.mp (List.IsChain.imp (fun _ _ hab => hab.1) h)

theorem scanReadings_last :
    ∀ (previous : MeterValue) {l : List MeterValue} (hne : l ≠ []), Increasing l →
      scanReadings true (l.getLast hne).timestamp previous l = .ok ((l.getLast hne).energy_wh, false)
  | _, [mv], _, _ => by simp [scanReadings]
  | previous, a :: b :: rest, _, hi => by
    have hlt : a.timestamp < ((b :: rest).getLast (List.cons_ne_nil _ _)).timestamp :=
      (List.pairwise_cons.mp (increasing_pairwise hi)).1 _ (List.getLast_mem _)
    rw [List.getLast_cons (List.cons_ne_nil _ _), scanReadings]
    simp only [Bool.true_and, beq_iff_eq, hlt.ne, if_false, not_lt.mpr hlt.le]
    exact scanReadings_last _ _ (increasing_tail hi)

theorem increasing_le_last {a : MeterValue} {l : List MeterValue} (h : Increasing (a :: l)) :
    a.timestamp ≤ ((a :: l).getLast (List.cons_ne_nil _ _)).timestamp := by
  rcases List.mem_cons.mp (List.getLast_mem (List.cons_ne_nil a l)) with hl | hl
  · rw [hl]
  · exact ((List.pairwise_cons.mp (increasing_pairwise h)).1 _ hl).le

end InterpolationLemmas

open InterpolationLemmas

/-! ## 3. The readings between start and end -/

section Session

variable {start stop : ℤ} {readings : List MeterValue}

/-- The readings of a session as a first reading and a rest, with both ends named. -/
theorem Readings.exists_cons (h : Readings start stop readings) :
    ∃ first rest, readings = first :: rest ∧ first.timestamp = start ∧
      ((first :: rest).getLast (List.cons_ne_nil _ _)).timestamp = stop ∧ start ≤ stop := by
  cases readings with
  | nil => simpa using h.first
  | cons first rest =>
    have hs : first.timestamp = start := by simpa using h.first
    have he : ((first :: rest).getLast (List.cons_ne_nil _ _)).timestamp = stop := by
      have := h.last
      rw [List.getLast?_eq_some_getLast (List.cons_ne_nil first rest)] at this
      simpa using this
    exact ⟨first, rest, rfl, hs, he, hs ▸ he ▸ increasing_le_last h.increasing⟩

/-- Between the first and the last reading the walk returns a value. At the last reading itself
it does so only when the target can be equal to it. -/
theorem readingAt_ok (h : Readings start stop readings) {exact : Bool} {t : ℤ} (h1 : start ≤ t)
    (h2 : t ≤ stop) (hx : exact = true ∨ t < stop) :
    ∃ v f, readingAt exact t readings = .ok (v, f) := by
  obtain ⟨first, rest, rfl, hs, he, hse⟩ := h.exists_cons
  rw [readingAt_cons (by omega) (by omega)]
  split
  · exact ⟨_, _, rfl⟩
  next hne =>
  refine scanReadings_ok h.increasing ?_
  rcases List.mem_cons.mp (List.getLast_mem (List.cons_ne_nil first rest)) with hl | hl
  · rw [hl] at he
    rcases hx with hx | hx
    · simp [hx] at hne; omega
    · omega
  · refine ⟨_, hl, ?_⟩
    rcases hx with hx | hx
    · rcases h2.lt_or_eq with h2 | h2
      · exact .inl (by omega)
      · exact .inr ⟨hx, by omega⟩
    · exact .inl (by omega)

/-- A later target has no smaller value. -/
theorem readingAt_mono (h : Readings start stop readings) {ex ey : Bool} {s t : ℤ}
    (h1 : start ≤ s) (hst : s < t) (h2 : t ≤ stop) {v w : ℚ} {f g : Bool}
    (hv : readingAt ex s readings = .ok (v, f)) (hw : readingAt ey t readings = .ok (w, g)) :
    v ≤ w := by
  obtain ⟨first, rest, rfl, hs, he, hse⟩ := h.exists_cons
  rw [readingAt_cons (by omega) (by omega)] at hv hw
  have hw' : scanReadings ey t first rest = .ok (w, g) := by
    split at hw
    · next hx => simp only [Bool.and_eq_true, beq_iff_eq] at hx; omega
    · exact hw
  split at hv
  · simp only [Except.ok.injEq, Prod.mk.injEq] at hv
    exact hv.1 ▸ scanReadings_ge h.increasing hw'
  · exact scanReadings_mono hst h.increasing (h.nonneg first (by simp)) (by omega) hv hw'

/-- At one instant the exact comparison gives the least value. -/
theorem readingAt_exact_le (h : Readings start stop readings) {ex : Bool} {t : ℤ} (h1 : start ≤ t)
    (h2 : t ≤ stop) {v w : ℚ} {f g : Bool} (hv : readingAt true t readings = .ok (v, f))
    (hw : readingAt ex t readings = .ok (w, g)) : v ≤ w := by
  obtain ⟨first, rest, rfl, hs, he, hse⟩ := h.exists_cons
  rw [readingAt_cons (by omega) (by omega)] at hv hw
  by_cases heq : first.timestamp = t
  · simp only [heq, Bool.true_and, beq_self_eq_true, if_true, Except.ok.injEq, Prod.mk.injEq] at hv
    split at hw
    · simp only [Except.ok.injEq, Prod.mk.injEq] at hw
      exact (hv.1.symm.trans hw.1).le
    · exact hv.1 ▸ scanReadings_ge h.increasing hw
  · simp only [beq_eq_false_iff_ne.mpr heq, Bool.and_false, Bool.false_eq_true, if_false] at hv hw
    exact scanReadings_exact_le h.increasing hv hw

/-- The first reading at the start of the session. -/
theorem readingAt_start (h : Readings start stop readings) :
    ∃ first, readings.head? = some first ∧
      readingAt true start readings = .ok (first.energy_wh, false) := by
  obtain ⟨first, rest, rfl, hs, he, hse⟩ := h.exists_cons
  refine ⟨first, rfl, ?_⟩
  rw [readingAt_cons (by omega) (by omega)]
  simp [hs]

/-- The last reading at the end of the session. -/
theorem readingAt_stop (h : Readings start stop readings) :
    ∃ last, readings.getLast? = some last ∧
      readingAt true stop readings = .ok (last.energy_wh, false) := by
  obtain ⟨first, rest, rfl, hs, he, hse⟩ := h.exists_cons
  refine ⟨_, List.getLast?_eq_some_getLast (List.cons_ne_nil first rest), ?_⟩
  have hlast := scanReadings_last ((first :: rest).getLast (List.cons_ne_nil _ _))
    (List.cons_ne_nil first rest) h.increasing
  rw [he] at hlast
  have hne : ¬ (stop < first.timestamp) := by omega
  simp only [readingAt, he, hne, lt_irrefl, decide_false, Bool.or_self, Bool.false_eq_true, if_false]
  exact hlast

/-- What holds of the readings and of whole numbers holds of every interpolated reading. -/
theorem readingAt_induct {P : ℚ → Prop} (hint : ∀ n : ℤ, P n)
    (hP : ∀ mv ∈ readings, P mv.energy_wh) {exact : Bool} {t : ℤ} {v : ℚ} {f : Bool}
    (hv : readingAt exact t readings = .ok (v, f)) : P v := by
  cases readings with
  | nil => simp [readingAt] at hv
  | cons first rest =>
    simp only [readingAt] at hv
    split at hv
    · cases hv
    · refine scanReadings_induct hint (fun mv hmv => ?_) hv
      rcases List.mem_cons.mp hmv with rfl | hmv
      · exact hP _ (List.getLast_mem _)
      · exact hP mv hmv

end Session

end Csms.Billing
