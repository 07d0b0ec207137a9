import Csms.Lib.Datetime

/-!
# Zones with transitions

In a zone whose local date never goes back, the midnight that ends a date is ahead of every instant of
the date (`Zone.lt_midnight`). It may lie after the first instants of the next date, when the clock
jumps from before that midnight to after it.
-/

namespace Zone

/-- The local date never goes back. -/
def DateMonotone (tz : Zone) : Prop := ∀ t t', t ≤ t' → tz.localDate t ≤ tz.localDate t'

namespace TransitionsLemmas

theorem offsetFrom_of_lt {before t : ℤ} : ∀ {transitions : List (ℤ × ℤ)}, (∀ p ∈ transitions, t < p.1) →
    offsetFrom before transitions t = before
  | [], _ => rfl
  | (at_, after) :: _, h => if_neg (not_le.mpr (h (at_, after) List.mem_cons_self))

/-- A wall time after the wall of an instant has its instant after it. -/
theorem le_instant {transitions : List (ℤ × ℤ)} (hsorted : transitions.Pairwise (·.1 < ·.1)) :
    ∀ {before from_ w : ℤ}, (∀ p ∈ transitions, from_ < p.1) → from_ + before ≤ w →
      from_ ≤ w - wallOffsetFrom false before transitions w := by
  induction transitions with
  | nil =>
    intro before from_ w _ h
    simp only [wallOffsetFrom]
    omega
  | cons p rest ih =>
    intro before from_ w hfrom h
    obtain ⟨at_, after⟩ := p
    obtain ⟨hrest, hsorted⟩ := List.pairwise_cons.mp hsorted
    simp only [wallOffsetFrom, Bool.false_eq_true, if_false]
    split
    · next hpast =>
      have hnext := @ih hsorted after at_ w hrest (by omega)
      have := hfrom (at_, after) List.mem_cons_self
      omega
    · omega

theorem lt_instant {transitions : List (ℤ × ℤ)} (hsorted : transitions.Pairwise (·.1 < ·.1)) :
    ∀ {before from_ t day : ℤ}, (∀ p ∈ transitions, from_ < p.1) →
      (∀ s s', from_ ≤ s → s ≤ s' → (s + offsetFrom before transitions s) / DAY ≤
        (s' + offsetFrom before transitions s') / DAY) →
      from_ ≤ t → (t + offsetFrom before transitions t) / DAY ≤ day →
      t < (day + 1) * DAY - wallOffsetFrom false before transitions ((day + 1) * DAY) := by
  induction transitions with
  | nil =>
    intro before from_ t day _ _ _ h
    simp only [offsetFrom, wallOffsetFrom, DAY] at h ⊢
    omega
  | cons p rest ih =>
    intro before from_ t day hfrom hmono hle hdate
    obtain ⟨at_, after⟩ := p
    obtain ⟨hrest, hsorted⟩ := List.pairwise_cons.mp hsorted
    have hlt : from_ < at_ := hfrom (at_, after) List.mem_cons_self
    have hat : offsetFrom before ((at_, after) :: rest) at_ = after := by
      rw [offsetFrom, if_pos le_rfl, offsetFrom_of_lt hrest]
    have hpre : offsetFrom before ((at_, after) :: rest) (at_ - 1) = before := if_neg (by omega)
    have hfirst : wallOffsetFrom false before ((at_, after) :: rest) ((day + 1) * DAY) =
        if at_ + max before after ≤ (day + 1) * DAY then wallOffsetFrom false after rest ((day + 1) * DAY)
        else before := by
      simp only [wallOffsetFrom, Bool.false_eq_true, if_false]
    rw [hfirst]
    by_cases hpast : at_ + max before after ≤ (day + 1) * DAY
    · rw [if_pos hpast]
      by_cases hta : at_ ≤ t
      · refine ih hsorted hrest (fun s s' hs hss => ?_) hta ?_
        · have := hmono s s' (hlt.le.trans hs) hss
          rwa [offsetFrom, if_pos hs, offsetFrom, if_pos (hs.trans hss)] at this
        · rwa [offsetFrom, if_pos hta] at hdate
      · have hafter := @le_instant rest hsorted after at_ ((day + 1) * DAY) hrest (by omega)
        omega
    · rw [if_neg hpast]
      by_cases hta : at_ ≤ t
      · -- the date has already changed when the transition comes
        exfalso
        rcases le_total before after with hba | hab
        · have := hmono at_ t hlt.le hta
          rw [hat] at this
          simp only [DAY] at *
          omega
        · have := hmono (at_ - 1) t (by omega) (by omega)
          rw [hpre] at this
          simp only [DAY] at *
          omega
      · rw [offsetFrom, if_neg hta] at hdate
        simp only [DAY] at *
        omega

end TransitionsLemmas

open TransitionsLemmas

/-- The midnight that ends a date is ahead of every instant of it. -/
theorem lt_midnight {base : ℤ} {transitions : List (ℤ × ℤ)} (hsorted : transitions.Pairwise (·.1 < ·.1))
    (hmono : (ofTransitions base transitions).DateMonotone) {t day : ℤ}
    (h : (ofTransitions base transitions).localDate t ≤ day) :
    t < (Stamp.loc ((day + 1) * DAY)).instant (ofTransitions base transitions) := by
  obtain ⟨from_, hle, hfrom⟩ : ∃ from_, from_ ≤ t ∧ ∀ p ∈ transitions, from_ < p.1 := by
    cases transitions with
    | nil => exact ⟨t, le_rfl, nofun⟩
    | cons p rest =>
      refine ⟨min t (p.1 - 1), min_le_left _ _, fun q hq => ?_⟩
      rcases List.mem_cons.mp hq with rfl | hq
      · omega
      · have := (List.pairwise_cons.mp hsorted).1 q hq
        omega
  exact lt_instant hsorted hfrom (fun s s' _ hss => hmono s s' hss) hle h

end Zone
