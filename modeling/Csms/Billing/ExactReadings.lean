import Csms.Billing.Display
import Csms.Lib.Table

/-!
# What an interpolated reading is (`billing/segmentation.py`)

At a sample the reading is the stored one, unless the target is a wall time that is skipped or repeated: such
a datetime equals no other, so the walk goes past the sample and interpolates from it. A reading with a half
Wh or more is then rounded up, and behind the last sample there is nothing to interpolate.

The energies are `Decimal`s, but the walk compares them and computes with `Fraction`s, so there is no decimal
context to depend on.

Result: `interpolation_exact_iff`.
-/

namespace Csms.Billing

open Rounding InterpolationLemmas

/-- Two readings that follow each other. -/
def Neighbours (readings : List MeterValue) (a b : MeterValue) : Prop :=
  ∃ front back, readings = front ++ a :: b :: back

/-- The stored reading at a sample; between two samples the interpolation rounded half up, within the two. -/
def ReadsTrue (tz : Zone) (readings : List MeterValue) (target : Stamp) : Prop :=
  ∃ v flag, interpolate_meter_value tz target readings = .ok (v, flag) ∧
    (∀ mv ∈ readings, mv.timestamp = target.instant tz → v = mv.energy_wh) ∧
    ∀ a b, Neighbours readings a b → a.timestamp < target.instant tz → target.instant tz < b.timestamp →
      v = min b.energy_wh (max a.energy_wh (⌊a.energy_wh + (b.energy_wh - a.energy_wh) *
        ((target.instant tz - a.timestamp) / (b.timestamp - a.timestamp)) + 1 / 2⌋ : ℤ))

/-- The target is not at a sample, or can be equal to it, or rounding leaves the sample's reading. -/
def Recognised (tz : Zone) (readings : List MeterValue) (target : Stamp) : Prop :=
  target.comparable tz = true ∨ ∀ a ∈ readings, a.timestamp = target.instant tz →
    ∃ b, Neighbours readings a b ∧ (b.energy_wh = a.energy_wh ∨ (⌊a.energy_wh + 1 / 2⌋ : ℚ) ≤ a.energy_wh)

namespace ExactReadingsLemmas

variable {exact : Bool} {t : ℤ} {previous a b : MeterValue} {l : List MeterValue}

theorem neighbours_tail (h : Neighbours l a b) : Neighbours (previous :: l) a b := by
  obtain ⟨front, back, rfl⟩ := h
  exact ⟨previous :: front, back, rfl⟩

/-- The neighbours in a list are its first two, or those of its rest. -/
theorem neighbours_cons {mv : MeterValue} (h : Neighbours (previous :: mv :: l) a b) :
    (a = previous ∧ b = mv) ∨ Neighbours (mv :: l) a b := by
  obtain ⟨front, back, heq⟩ := h
  cases front with
  | nil =>
    cases heq
    exact .inl ⟨rfl, rfl⟩
  | cons x front =>
    simp only [List.cons_append, List.cons.injEq] at heq
    exact .inr ⟨front, back, heq.2⟩

theorem neighbours_mem (h : Neighbours l a b) : a ∈ l ∧ b ∈ l := by
  obtain ⟨front, back, rfl⟩ := h
  simp

theorem neighbours_increasing (hi : Increasing l) (h : Neighbours l a b) :
    a.timestamp < b.timestamp ∧ a.energy_wh ≤ b.energy_wh := by
  obtain ⟨front, back, rfl⟩ := h
  exact increasing_head (List.isChain_append.mp hi).2.1

/-- One sample at most is at an instant. -/
theorem timestamp_inj (hi : Increasing l) (ha : a ∈ l) (hb : b ∈ l) (h : a.timestamp = b.timestamp) : a = b := by
  have hkeyed : Table.Keyed MeterValue.timestamp l := (increasing_pairwise hi).imp fun hlt => hlt.ne
  exact hkeyed.eq ha hb h

/-- Between neighbours the walk interpolates, from a sample at the target too if `==` fails there. -/
theorem scan_between : ∀ {l : List MeterValue} {previous : MeterValue}, Increasing (previous :: l) →
    Neighbours (previous :: l) a b → a.timestamp ≤ t → t < b.timestamp →
    (exact = true → a.timestamp = t → a = previous) →
    scanReadings exact t previous l = .ok (roundedReading a b t, true)
  | [], _, _, h, _, _, _ => by
    obtain ⟨front, back, heq⟩ := h
    have := congrArg List.length heq
    simp only [List.length_append, List.length_cons, List.length_nil] at this
    omega
  | mv :: l, previous, hi, h, hat, htb, hfirst => by
    obtain ⟨hlt, hle⟩ := increasing_head hi
    rcases neighbours_cons h with ⟨rfl, rfl⟩ | hrest
    · have hne : ¬ (exact && b.timestamp == t) = true := by
        simp only [Bool.and_eq_true, beq_iff_eq]
        omega
      rw [scanReadings, if_neg hne, if_pos htb, interpolateBetween_ok hlt hle]
    · have hmv : mv.timestamp ≤ a.timestamp := by
        rcases List.mem_cons.mp (neighbours_mem hrest).1 with rfl | ha
        · exact le_rfl
        · exact ((List.pairwise_cons.mp (increasing_pairwise (increasing_tail hi))).1 a ha).le
      have hne : ¬ (exact && mv.timestamp == t) = true := by
        simp only [Bool.and_eq_true, beq_iff_eq]
        rintro ⟨hexact, heq⟩
        have hprevious := hfirst hexact (by omega)
        rw [hprevious] at hmv
        omega
      rw [scanReadings, if_neg hne, if_neg (by omega)]
      refine scan_between (increasing_tail hi) hrest hat htb fun hexact heq => ?_
      have hprevious := hfirst hexact heq
      rw [hprevious] at hmv
      omega

/-- At a sample that can be equal to the target the walk stops. -/
theorem scan_sample : ∀ {l : List MeterValue} {previous : MeterValue}, Increasing (previous :: l) → a ∈ l →
    scanReadings true a.timestamp previous l = .ok (a.energy_wh, false)
  | mv :: l, previous, hi, ha => by
    rcases List.mem_cons.mp ha with rfl | ha
    · simp [scanReadings]
    · have hlt := (List.pairwise_cons.mp (increasing_pairwise (increasing_tail hi))).1 a ha
      have hne : ¬ (true && mv.timestamp == a.timestamp) = true := by
        simp only [Bool.true_and, beq_iff_eq]
        omega
      rw [scanReadings, if_neg hne, if_neg (by omega)]
      exact scan_sample (increasing_tail hi) ha

/-- Behind the last sample the walk raises. -/
theorem scan_past : ∀ {l : List MeterValue} {previous : MeterValue}, (∀ mv ∈ l, mv.timestamp ≤ t) →
    scanReadings false t previous l = .error (.valueError "Không thể nội suy.")
  | [], _, _ => rfl
  | mv :: l, previous, h => by
    have hle := h mv List.mem_cons_self
    rw [scanReadings, Bool.false_and, if_neg (by simp), if_neg (by omega)]
    exact scan_past fun x hx => h x (List.mem_cons_of_mem _ hx)

/-- An instant before the last sample has a neighbour on each side. -/
theorem exists_neighbours : ∀ {l : List MeterValue} {previous : MeterValue}, previous.timestamp ≤ t →
    t < ((previous :: l).getLast (List.cons_ne_nil _ _)).timestamp →
    ∃ a b, Neighbours (previous :: l) a b ∧ a.timestamp ≤ t ∧ t < b.timestamp
  | [], previous, hle, hlt => by
    rw [List.getLast_singleton] at hlt
    omega
  | mv :: l, previous, hle, hlt => by
    by_cases h : t < mv.timestamp
    · exact ⟨previous, mv, ⟨[], l, rfl⟩, hle, h⟩
    · rw [List.getLast_cons (List.cons_ne_nil _ _)] at hlt
      obtain ⟨a, b, hab, ha, hb⟩ := exists_neighbours (not_lt.mp h) hlt
      exact ⟨a, b, neighbours_tail hab, ha, hb⟩

/-- The rounded interpolation between two readings. -/
theorem roundedReading_eq (ht : a.timestamp < b.timestamp) (he : a.energy_wh ≤ b.energy_wh) (ha : 0 ≤ a.energy_wh)
    (hat : a.timestamp ≤ t) :
    roundedReading a b t = min b.energy_wh (max a.energy_wh (⌊a.energy_wh + (b.energy_wh - a.energy_wh) *
      ((t - a.timestamp) / (b.timestamp - a.timestamp)) + 1 / 2⌋ : ℤ)) := by
  have hd : (0 : ℚ) < ((b.timestamp - a.timestamp : ℤ) : ℚ) := by exact_mod_cast sub_pos.mpr ht
  have hs : (0 : ℚ) ≤ ((t - a.timestamp : ℤ) : ℚ) := by exact_mod_cast sub_nonneg.mpr hat
  have hgap : 0 ≤ b.energy_wh - a.energy_wh := sub_nonneg.mpr he
  have hnonneg : 0 ≤ interpolated a b t := by
    unfold interpolated
    positivity
  unfold roundedReading
  rw [halfUp_eq_floor hnonneg]
  unfold interpolated
  push_cast
  rfl

/-- From a sample itself the interpolation is its reading, rounded. -/
theorem roundedReading_sample (ht : a.timestamp < b.timestamp) (he : a.energy_wh ≤ b.energy_wh)
    (ha : 0 ≤ a.energy_wh) : roundedReading a b a.timestamp = a.energy_wh ↔
      b.energy_wh = a.energy_wh ∨ (⌊a.energy_wh + 1 / 2⌋ : ℚ) ≤ a.energy_wh := by
  rw [roundedReading_eq ht he ha le_rfl, sub_self, zero_div, mul_zero, add_zero]
  constructor
  · intro h
    rcases min_choice b.energy_wh (max a.energy_wh (⌊a.energy_wh + 1 / 2⌋ : ℤ)) with hm | hm <;> rw [hm] at h
    · exact .inl h
    · exact .inr ((le_max_right _ _).trans_eq h)
  · rintro (h | h)
    · rw [h]
      exact min_eq_left (le_max_left _ _)
    · rw [max_eq_left h, min_eq_right he]

/-- No sample lies between neighbours. -/
theorem outside_neighbours (hi : Increasing l) (h : Neighbours l a b) {mv : MeterValue} (hmem : mv ∈ l) :
    mv.timestamp ≤ a.timestamp ∨ b.timestamp ≤ mv.timestamp := by
  obtain ⟨front, back, rfl⟩ := h
  have hpair := List.pairwise_append.mp (increasing_pairwise hi)
  obtain ⟨hfirst, hsecond⟩ := List.pairwise_cons.mp hpair.2.1
  rcases List.mem_append.mp hmem with hmem | hmem
  · exact .inl (hpair.2.2 mv hmem a List.mem_cons_self).le
  · rcases List.mem_cons.mp hmem with rfl | hmem
    · exact .inl le_rfl
    · rcases List.mem_cons.mp hmem with rfl | hmem
      · exact .inr le_rfl
      · exact .inr ((List.pairwise_cons.mp hsecond).1 mv hmem).le

/-- The neighbours of an instant are unique. -/
theorem neighbours_unique (hi : Increasing l) {a' b' : MeterValue} (h : Neighbours l a b) (h' : Neighbours l a' b')
    (ha : a.timestamp ≤ t) (hb : t < b.timestamp) (ha' : a'.timestamp ≤ t) (hb' : t < b'.timestamp) :
    a = a' ∧ b = b' := by
  obtain ⟨hma, hmb⟩ := neighbours_mem h
  obtain ⟨hma', hmb'⟩ := neighbours_mem h'
  have h₁ := outside_neighbours hi h hma'
  have h₂ := outside_neighbours hi h' hma
  have h₃ := outside_neighbours hi h hmb'
  have h₄ := outside_neighbours hi h' hmb
  exact ⟨timestamp_inj hi hma hma' (by omega), timestamp_inj hi hmb hmb' (by omega)⟩

/-- The samples lie between the first and the last. -/
theorem within {first : MeterValue} {rest : List MeterValue} (hi : Increasing (first :: rest)) {mv : MeterValue}
    (hmv : mv ∈ first :: rest) : first.timestamp ≤ mv.timestamp ∧
      mv.timestamp ≤ ((first :: rest).getLast (List.cons_ne_nil _ _)).timestamp := by
  constructor
  · rcases List.mem_cons.mp hmv with rfl | hmv
    · exact le_rfl
    · exact ((List.pairwise_cons.mp (increasing_pairwise hi)).1 mv hmv).le
  · obtain ⟨front, back, hsplit⟩ := List.append_of_mem hmv
    have hlast : (first :: rest).getLast (List.cons_ne_nil _ _) = (mv :: back).getLast (List.cons_ne_nil _ _) := by
      simp only [hsplit, List.getLast_append_of_ne_nil _ (List.cons_ne_nil mv back)]
    rw [hlast]
    rw [hsplit] at hi
    exact increasing_le_last (List.isChain_append.mp hi).2.1

section Session

variable {start stop : ℤ} {readings : List MeterValue} (hr : Readings start stop readings)

include hr

theorem read_between (hab : Neighbours readings a b) (ha : a.timestamp ≤ t) (hb : t < b.timestamp)
    (hne : exact = true → a.timestamp ≠ t) : readingAt exact t readings = .ok (roundedReading a b t, true) := by
  obtain ⟨first, rest, rfl, hs, he, -⟩ := hr.exists_cons
  obtain ⟨hma, hmb⟩ := neighbours_mem hab
  have hfirst := within hr.increasing hma
  have hlast := within hr.increasing hmb
  rw [readingAt_cons (by omega) (by omega), if_neg, scan_between hr.increasing hab ha hb]
  · exact fun hexact heq => absurd heq (hne hexact)
  · simp only [Bool.and_eq_true, beq_iff_eq]
    rintro ⟨hexact, heq⟩
    exact hne hexact (by omega)

theorem read_sample (ha : a ∈ readings) (h1 : start ≤ a.timestamp) (h2 : a.timestamp ≤ stop) :
    readingAt true a.timestamp readings = .ok (a.energy_wh, false) := by
  obtain ⟨first, rest, rfl, hs, he, -⟩ := hr.exists_cons
  rw [readingAt_cons (by omega) (by omega)]
  rcases List.mem_cons.mp ha with rfl | ha
  · simp
  · have hlt := (List.pairwise_cons.mp (increasing_pairwise hr.increasing)).1 a ha
    have hne : ¬ (true && first.timestamp == a.timestamp) = true := by
      simp only [Bool.true_and, beq_iff_eq]
      omega
    rw [if_neg hne]
    exact scan_sample hr.increasing ha

theorem read_past : readingAt false stop readings = .error (.valueError "Không thể nội suy.") := by
  obtain ⟨first, rest, rfl, hs, he, hse⟩ := hr.exists_cons
  rw [readingAt_cons (by omega) (by omega), Bool.false_and, if_neg (by simp)]
  refine scan_past fun mv hmv => ?_
  have := (within hr.increasing (List.mem_cons_of_mem _ hmv)).2
  omega

theorem exists_neighbours_of_lt (h1 : start ≤ t) (h2 : t < stop) :
    ∃ a b, Neighbours readings a b ∧ a.timestamp ≤ t ∧ t < b.timestamp := by
  obtain ⟨first, rest, rfl, hs, he, -⟩ := hr.exists_cons
  exact exists_neighbours (by omega) (by omega)

theorem exists_last : ∃ mv ∈ readings, mv.timestamp = stop := by
  obtain ⟨first, rest, rfl, hs, he, -⟩ := hr.exists_cons
  exact ⟨_, List.getLast_mem _, he⟩

end Session

end ExactReadingsLemmas

open ExactReadingsLemmas

variable {start stop : ℤ} {readings : List MeterValue} {tz : Zone} {target : Stamp}

/-- Off the samples the reading is the rounded interpolation between the neighbours. -/
theorem reads_true_between (hr : Readings start stop readings) (h1 : start ≤ target.instant tz)
    (h2 : target.instant tz ≤ stop) (hoff : ∀ mv ∈ readings, mv.timestamp ≠ target.instant tz) :
    ReadsTrue tz readings target := by
  obtain ⟨last, hlast, hstop⟩ := exists_last hr
  have hlt : target.instant tz < stop := lt_of_le_of_ne h2 fun h => hoff last hlast (hstop.trans h.symm)
  obtain ⟨a, b, hab, ha, hb⟩ := exists_neighbours_of_lt hr h1 hlt
  refine ⟨_, _, read_between hr hab ha hb fun _ => hoff a (neighbours_mem hab).1, fun mv hmv heq => ?_, ?_⟩
  · exact absurd heq (hoff mv hmv)
  · intro a' b' hab' ha' hb'
    obtain ⟨rfl, rfl⟩ := neighbours_unique hr.increasing hab hab' ha hb ha'.le hb'
    obtain ⟨ht, he⟩ := neighbours_increasing hr.increasing hab
    exact roundedReading_eq ht he (hr.nonneg a (neighbours_mem hab).1) ha

/-- At a sample the reading is true exactly if it is the stored one. -/
theorem reads_true_sample (hr : Readings start stop readings) {a : MeterValue} (ha : a ∈ readings)
    (hat : a.timestamp = target.instant tz) :
    ReadsTrue tz readings target ↔ ∃ flag, interpolate_meter_value tz target readings = .ok (a.energy_wh, flag) := by
  constructor
  · rintro ⟨v, flag, hrun, hsample, -⟩
    exact ⟨flag, hsample a ha hat ▸ hrun⟩
  · rintro ⟨flag, hrun⟩
    refine ⟨_, flag, hrun, fun mv hmv heq => ?_, fun b c hbc hb hc => ?_⟩
    · rw [timestamp_inj hr.increasing hmv ha (heq.trans hat.symm)]
    · have := outside_neighbours hr.increasing hbc ha
      omega

theorem reads_true_iff (hr : Readings start stop readings) (h1 : start ≤ target.instant tz)
    (h2 : target.instant tz ≤ stop) : ReadsTrue tz readings target ↔ Recognised tz readings target := by
  by_cases hoff : ∀ mv ∈ readings, mv.timestamp ≠ target.instant tz
  · exact iff_of_true (reads_true_between hr h1 h2 hoff) (.inr fun a ha hat => absurd hat (hoff a ha))
  push Not at hoff
  obtain ⟨a, ha, hat⟩ := hoff
  rw [reads_true_sample hr ha hat]
  unfold interpolate_meter_value Recognised
  rw [← hat] at h1 h2 ⊢
  cases hexact : target.comparable tz with
  | true => exact iff_of_true ⟨false, read_sample hr ha h1 h2⟩ (.inl rfl)
  | false =>
    rcases h2.lt_or_eq with hlt | heq
    · obtain ⟨a', b, hab, ha', hb⟩ := exists_neighbours_of_lt hr h1 hlt
      obtain ⟨hma, hmb⟩ := neighbours_mem hab
      obtain rfl : a' = a := by
        have := outside_neighbours hr.increasing hab ha
        exact timestamp_inj hr.increasing hma ha (by omega)
      obtain ⟨ht, he⟩ := neighbours_increasing hr.increasing hab
      have hstored := roundedReading_sample ht he (hr.nonneg a' ha)
      have hread : readingAt false a'.timestamp readings = .ok (roundedReading a' b a'.timestamp, true) :=
        read_between hr hab le_rfl hb fun h => by cases h
      rw [hread]
      constructor
      · rintro ⟨flag, hrun⟩
        simp only [Except.ok.injEq, Prod.mk.injEq] at hrun
        refine .inr fun x hx heq => ?_
        rw [timestamp_inj hr.increasing hx ha heq]
        exact ⟨b, hab, hstored.mp hrun.1⟩
      · rintro (h | h)
        · cases h
        · obtain ⟨b', hab', hround⟩ := h a' ha rfl
          obtain ⟨-, rfl⟩ := neighbours_unique hr.increasing hab hab' le_rfl hb le_rfl
            (neighbours_increasing hr.increasing hab').1
          exact ⟨true, by rw [hstored.mpr hround]⟩
    · rw [heq, read_past hr]
      refine iff_of_false (fun ⟨_, h⟩ => by cases h) ?_
      rintro (h | h)
      · cases h
      · obtain ⟨b, hab, -⟩ := h a ha heq
        obtain ⟨first, rest, rfl, -, hlast, -⟩ := hr.exists_cons
        have hwithin := (within hr.increasing (neighbours_mem hab).2).2
        have := (neighbours_increasing hr.increasing hab).1
        omega

/-! ## 2. The whole range -/

/-- Exactly at the targets that are recognised the reading is the one promised, and among these a later one
has no smaller reading. -/
theorem interpolation_exact_iff (hr : Readings start stop readings) :
    (∀ target : Stamp, start ≤ target.instant tz → target.instant tz ≤ stop →
      (ReadsTrue tz readings target ↔ Recognised tz readings target)) ∧
    ∀ s t : Stamp, start ≤ s.instant tz → s.instant tz ≤ t.instant tz → t.instant tz ≤ stop →
      Recognised tz readings s → Recognised tz readings t →
      ∃ v w f g, interpolate_meter_value tz s readings = .ok (v, f) ∧
        interpolate_meter_value tz t readings = .ok (w, g) ∧ v ≤ w := by
  refine ⟨fun target h1 h2 => reads_true_iff hr h1 h2, fun s t h1 hst h2 hs ht => ?_⟩
  obtain ⟨v, f, hv, hvs, hvo⟩ := (reads_true_iff hr h1 (hst.trans h2)).mpr hs
  obtain ⟨w, g, hw, hws, hwo⟩ := (reads_true_iff hr (h1.trans hst) h2).mpr ht
  refine ⟨v, w, f, g, hv, hw, ?_⟩
  rcases hst.lt_or_eq with hlt | heq
  · exact readingAt_mono hr h1 hlt h2 hv hw
  -- at one instant both are the sample, or both the same interpolation
  by_cases hoff : ∃ mv ∈ readings, mv.timestamp = s.instant tz
  · obtain ⟨mv, hmv, hat⟩ := hoff
    rw [hvs mv hmv hat, hws mv hmv (hat.trans heq)]
  · push Not at hoff
    obtain ⟨last, hlast, hstop⟩ := exists_last hr
    have hlt : s.instant tz < stop :=
      lt_of_le_of_ne (hst.trans h2) fun h => hoff last hlast (hstop.trans h.symm)
    obtain ⟨a, b, hab, ha, hb⟩ := exists_neighbours_of_lt hr h1 hlt
    have hlt' : a.timestamp < s.instant tz := lt_of_le_of_ne ha (hoff a (neighbours_mem hab).1)
    rw [hvo a b hab hlt' hb, hwo a b hab (heq ▸ hlt') (heq ▸ hb), heq]

namespace Autumn

/-- Half past two, the first time, in the night of the change. -/
def halfPastTwo : ℤ := 1792888200000000

/-- A sample of half a Wh at that instant, one an hour before and one an hour after. -/
def samples : List MeterValue :=
  [⟨halfPastTwo - 60 * MINUTE, 0⟩, ⟨halfPastTwo, 1 / 2⟩, ⟨halfPastTwo + 60 * MINUTE, 2⟩]

theorem samples_readings : Readings (halfPastTwo - 60 * MINUTE) (halfPastTwo + 60 * MINUTE) samples where
  increasing := by norm_num [Increasing, samples, halfPastTwo, MINUTE]
  nonneg := by norm_num [samples]
  first := rfl
  last := rfl

end Autumn

theorem interpolation_exact_iff_autumn :
    ∃ v w f g, interpolate_meter_value Autumn.paris (.utc Autumn.halfPastTwo) Autumn.samples = .ok (v, f) ∧
      interpolate_meter_value Autumn.paris (.utc (Autumn.halfPastTwo + MINUTE)) Autumn.samples = .ok (w, g) ∧
      v ≤ w :=
  (interpolation_exact_iff Autumn.samples_readings).2 (.utc Autumn.halfPastTwo)
    (.utc (Autumn.halfPastTwo + MINUTE)) (by decide) (by decide) (by decide) (.inl rfl) (.inl rfl)

/-- At 02:30, which comes twice, the stored half Wh is read as one Wh. -/
theorem interpolation_not_exact :
    ¬ ∀ (tz : Zone) (start stop : ℤ) (readings : List MeterValue) (target : Stamp), Readings start stop readings →
      start ≤ target.instant tz → target.instant tz ≤ stop → ReadsTrue tz readings target := by
  intro hall
  obtain ⟨v, flag, hrun, hstored, -⟩ := hall Autumn.paris _ _ _ (.loc (Autumn.halfPastTwo + 120 * MINUTE))
    Autumn.samples_readings (by decide +kernel) (by decide +kernel)
  have hv : v = 1 / 2 := hstored ⟨Autumn.halfPastTwo, 1 / 2⟩ (by simp [Autumn.samples]) (by decide +kernel)
  have hone : (interpolate_meter_value Autumn.paris (.loc (Autumn.halfPastTwo + 120 * MINUTE))
      Autumn.samples).toOption = some (1, true) := by decide +kernel
  rw [hrun, hv] at hone
  simp only [Except.toOption, Option.some.injEq, Prod.mk.injEq] at hone
  exact absurd hone.1 (by norm_num)

end Csms.Billing
