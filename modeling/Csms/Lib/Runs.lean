import Csms.Lib.Pairs

/-!
# Maximal runs of a function of the integers

A sweep over the pieces between boundaries, on each of which the function is constant, collects the
pieces where its value is marked. A piece is joined to the one before it when the value is the same.

Results: `Swept.mem_iff`, `sweep_swept`: the collected runs are the maximal ones, in order.
-/

namespace Runs

open Pairs

variable {γ : Type*} (value : ℤ → γ) (marked : γ → Bool)

/-- One piece of the sweep. -/
def extend [DecidableEq γ] (runs : List (ℤ × ℤ)) (piece : ℤ × ℤ) : List (ℤ × ℤ) :=
  if marked (value piece.1) = false then runs
  else match runs.getLast? with
    | some last =>
      if value last.1 = value piece.1 ∧ last.2 = piece.1 then runs.dropLast ++ [(last.1, piece.2)]
      else runs ++ [piece]
    | none => runs ++ [piece]

/-- A run of one marked value that cannot be extended inside `[low, high)`. -/
structure Maximal (low high : ℤ) (run : ℤ × ℤ) : Prop where
  lower : low ≤ run.1
  lt : run.1 < run.2
  upper : run.2 ≤ high
  mark : marked (value run.1) = true
  const : ∀ m, run.1 ≤ m → m < run.2 → value m = value run.1
  left : run.1 = low ∨ value (run.1 - 1) ≠ value run.1
  right : run.2 = high ∨ value run.2 ≠ value run.1

/-- The runs collected in `[low, high)`. -/
structure Swept (low high : ℤ) (runs : List (ℤ × ℤ)) : Prop where
  maximal : ∀ run ∈ runs, Maximal value marked low high run
  sorted : runs.Pairwise fun a b => a.2 ≤ b.1
  cover : ∀ m, low ≤ m → m < high → marked (value m) = true → ∃ run ∈ runs, run.1 ≤ m ∧ m < run.2

variable {value marked} {low high : ℤ} {runs : List (ℤ × ℤ)}

theorem swept_nil : Swept value marked low low [] where
  maximal := by simp
  sorted := List.Pairwise.nil
  cover m h0 h1 := absurd h1 (not_lt.mpr h0)

/-- Maximal runs that share a point are equal. -/
theorem Maximal.eq {a b : ℤ × ℤ} (ha : Maximal value marked low high a) (hb : Maximal value marked low high b)
    {m : ℤ} (ham : a.1 ≤ m ∧ m < a.2) (hbm : b.1 ≤ m ∧ m < b.2) : a = b := by
  have hvalue : value a.1 = value b.1 := (ha.const m ham.1 ham.2).symm.trans (hb.const m hbm.1 hbm.2)
  have hstart : a.1 = b.1 := by
    by_contra hne
    rcases lt_or_gt_of_ne hne with h | h
    · rcases hb.left with heq | hleft
      · exact absurd ha.lower (by omega)
      · exact hleft (by rw [ha.const (b.1 - 1) (by omega) (by omega), hvalue])
    · rcases ha.left with heq | hleft
      · exact absurd hb.lower (by omega)
      · exact hleft (by rw [hb.const (a.1 - 1) (by omega) (by omega), hvalue])
  have hend : a.2 = b.2 := by
    by_contra hne
    rcases lt_or_gt_of_ne hne with h | h
    · rcases ha.right with heq | hright
      · exact absurd hb.upper (by omega)
      · exact hright (by rw [hb.const a.2 (by omega) h, hvalue])
    · rcases hb.right with heq | hright
      · exact absurd ha.upper (by omega)
      · exact hright (by rw [ha.const b.2 (by omega) h, hvalue])
  exact Prod.ext hstart hend

theorem Swept.mem_iff (h : Swept value marked low high runs) {run : ℤ × ℤ} :
    run ∈ runs ↔ Maximal value marked low high run := by
  refine ⟨h.maximal run, fun hrun => ?_⟩
  obtain ⟨r, hr, hle, hlt⟩ := h.cover run.1 hrun.lower (hrun.lt.trans_le hrun.upper) hrun.mark
  rwa [hrun.eq (h.maximal r hr) ⟨le_rfl, hrun.lt⟩ ⟨hle, hlt⟩]

/-- Functions that agree on the interval have the same maximal runs. -/
theorem Maximal.congr {value' : ℤ → γ} (heq : ∀ m, low ≤ m → m < high → value m = value' m) {run : ℤ × ℤ}
    (h : Maximal value marked low high run) : Maximal value' marked low high run := by
  have hlower := h.lower
  have hlt := h.lt
  have hupper := h.upper
  have hstart : value run.1 = value' run.1 := heq _ h.lower (by omega)
  refine ⟨h.lower, h.lt, h.upper, hstart ▸ h.mark, fun m h0 h1 => ?_, ?_, ?_⟩
  · rw [← heq m (by omega) (by omega), ← hstart]
    exact h.const m h0 h1
  · by_cases hl : run.1 = low
    · exact .inl hl
    · rw [← heq (run.1 - 1) (by omega) (by omega), ← hstart]
      exact .inr (h.left.resolve_left hl)
  · by_cases hr : run.2 = high
    · exact .inl hr
    · rw [← heq run.2 (by omega) (by omega), ← hstart]
      exact .inr (h.right.resolve_left hr)

theorem Swept.congr {value' : ℤ → γ} (heq : ∀ m, low ≤ m → m < high → value m = value' m)
    (h : Swept value marked low high runs) : Swept value' marked low high runs where
  maximal run hrun := (h.maximal run hrun).congr heq
  sorted := h.sorted
  cover m h0 h1 hm := h.cover m h0 h1 (heq m h0 h1 ▸ hm)

section Extend

variable {p q : ℤ}

/-- A run that ends before the piece, or at it with another value, stays maximal. -/
theorem Maximal.extend {run : ℤ × ℤ} (h : Maximal value marked low p run) (hpq : p < q)
    (hend : run.2 = p → value run.1 ≠ value p) : Maximal value marked low q run where
  lower := h.lower
  lt := h.lt
  upper := h.upper.trans hpq.le
  mark := h.mark
  const := h.const
  left := h.left
  right := .inr <| by
    rcases h.right with heq | hne
    · rw [heq]
      exact (hend heq).symm
    · exact hne

/-- A piece that no run joins is a run of its own. -/
theorem Swept.append (h : Swept value marked low p runs) (hlow : low ≤ p) (hpq : p < q)
    (hconst : ∀ m, p ≤ m → m < q → value m = value p) (hmarked : marked (value p) = true)
    (hend : ∀ run ∈ runs, run.2 = p → value run.1 ≠ value p) : Swept value marked low q (runs ++ [(p, q)]) where
  maximal run hrun := by
    rcases List.mem_append.mp hrun with hrun | hrun
    · exact (h.maximal run hrun).extend hpq (hend run hrun)
    rw [List.mem_singleton.mp hrun]
    refine ⟨hlow, hpq, le_rfl, hmarked, hconst, ?_, .inl rfl⟩
    by_contra hleft
    simp only [not_or, ne_eq, not_not] at hleft
    obtain ⟨hne, heq⟩ := hleft
    have hlt : low < p := lt_of_le_of_ne hlow (Ne.symm hne)
    -- the run before the piece would have its value
    obtain ⟨r, hr, hle, hlt⟩ := h.cover (p - 1) (by omega) (by omega) (by rw [heq]; exact hmarked)
    have hr' := h.maximal r hr
    have hrp : r.2 = p := by
      have := hr'.upper
      omega
    exact hend r hr hrp ((hr'.const (p - 1) hle hlt).symm.trans heq)
  sorted := by
    refine List.pairwise_append.mpr ⟨h.sorted, List.pairwise_singleton _ _, fun a ha b hb => ?_⟩
    rw [List.mem_singleton.mp hb]
    exact (h.maximal a ha).upper
  cover m h0 h1 hm := by
    rcases lt_or_ge m p with hmp | hmp
    · obtain ⟨r, hr, hrm⟩ := h.cover m h0 hmp hm
      exact ⟨r, List.mem_append_left _ hr, hrm⟩
    · exact ⟨(p, q), List.mem_append_right _ List.mem_cons_self, hmp, h1⟩

/-- A piece with the value of the run before it prolongs that run. -/
theorem Swept.prolong {front : List (ℤ × ℤ)} {last : ℤ × ℤ} (h : Swept value marked low p (front ++ [last]))
    (hpq : p < q) (hconst : ∀ m, p ≤ m → m < q → value m = value p) (heq : value last.1 = value p)
    (hlast : last.2 = p) : Swept value marked low q (front ++ [(last.1, q)]) := by
  have hl := h.maximal last (List.mem_append_right _ List.mem_cons_self)
  have hlt := hl.lt
  obtain ⟨hfront, -, hbefore⟩ := List.pairwise_append.mp h.sorted
  refine ⟨fun run hrun => ?_, ?_, fun m h0 h1 hm => ?_⟩
  · rcases List.mem_append.mp hrun with hrun | hrun
    · refine (h.maximal run (List.mem_append_left _ hrun)).extend hpq fun hend => ?_
      have := hbefore run hrun last List.mem_cons_self
      omega
    rw [List.mem_singleton.mp hrun]
    refine ⟨hl.lower, by dsimp only; omega, le_rfl, hl.mark, fun m hm hmq => ?_, hl.left, .inl rfl⟩
    rcases lt_or_ge m p with hmp | hmp
    · exact hl.const m hm (hlast ▸ hmp)
    · exact (hconst m hmp hmq).trans heq.symm
  · refine List.pairwise_append.mpr ⟨hfront, List.pairwise_singleton _ _, fun a ha b hb => ?_⟩
    rw [List.mem_singleton.mp hb]
    exact hbefore a ha last List.mem_cons_self
  · rcases lt_or_ge m p with hmp | hmp
    · obtain ⟨r, hr, hrm⟩ := h.cover m h0 hmp hm
      rcases List.mem_append.mp hr with hr | hr
      · exact ⟨r, List.mem_append_left _ hr, hrm⟩
      · rw [List.mem_singleton.mp hr] at hrm
        exact ⟨_, List.mem_append_right _ List.mem_cons_self, hrm.1, h1⟩
    · exact ⟨_, List.mem_append_right _ List.mem_cons_self, by dsimp only; omega, h1⟩

theorem Swept.extend [DecidableEq γ] (h : Swept value marked low p runs) (hlow : low ≤ p) (hpq : p < q)
    (hconst : ∀ m, p ≤ m → m < q → value m = value p) :
    Swept value marked low q (extend value marked runs (p, q)) := by
  unfold Runs.extend
  split
  · next hgood =>
    refine ⟨fun run hrun => (h.maximal run hrun).extend hpq fun _ heq => ?_, h.sorted, fun m h0 h1 hm => ?_⟩
    · have := (h.maximal run hrun).mark
      rw [heq, hgood] at this
      cases this
    · refine h.cover m h0 (lt_of_not_ge fun hmp => ?_) hm
      rw [hconst m hmp h1, hgood] at hm
      cases hm
  next hmarked =>
  have hmarked := Bool.of_not_eq_false hmarked
  rcases List.eq_nil_or_concat runs with rfl | ⟨front, last, rfl⟩
  · exact h.append hlow hpq hconst hmarked (by simp)
  rw [List.concat_eq_append] at h ⊢
  simp only [List.getLast?_append, List.getLast?_singleton, Option.some_or, List.dropLast_concat]
  split
  · next hjoin => exact h.prolong hpq hconst hjoin.1 hjoin.2
  · next hjoin =>
    refine h.append hlow hpq hconst hmarked fun run hrun hend heq => ?_
    rcases List.mem_append.mp hrun with hrun | hrun
    · have hbefore := (List.pairwise_append.mp h.sorted).2.2 run hrun last List.mem_cons_self
      have hl := h.maximal last (List.mem_append_right _ List.mem_cons_self)
      have := hl.lt
      have := hl.upper
      omega
    · rw [List.mem_singleton.mp hrun] at hend heq
      exact hjoin ⟨heq, hend⟩

end Extend

/-- A sweep over boundaries between which the function is constant finds the maximal runs. -/
theorem sweep_swept [DecidableEq γ] : ∀ {l : List ℤ} {p : ℤ} {runs : List (ℤ × ℤ)}, Swept value marked low p runs → low ≤ p →
    (p :: l).Pairwise (· < ·) → (∀ piece ∈ pairs (p :: l), ∀ m, piece.1 ≤ m → m < piece.2 → value m = value piece.1) →
    Swept value marked low ((p :: l).getLast (List.cons_ne_nil _ _))
      ((pairs (p :: l)).foldl (extend value marked) runs)
  | [], _, _, h, _, _, _ => h
  | q :: l, p, runs, h, hlow, hsorted, hconst => by
    obtain ⟨hp, hl⟩ := List.pairwise_cons.mp hsorted
    have hpq := hp q List.mem_cons_self
    rw [pairs_cons_cons] at hconst ⊢
    rw [List.foldl_cons, List.getLast_cons_cons]
    exact sweep_swept (h.extend hlow hpq (hconst (p, q) List.mem_cons_self)) (hlow.trans hpq.le) hl
      fun piece hpiece => hconst piece (List.mem_cons_of_mem _ hpiece)

end Runs
