import Mathlib

/-!
# Points of a series in time

A series is a list of points, in any order, each with its time. `latest` and `earliest` pick the ends,
`before` and `after` the neighbours of a time.

Results: `latest_spec`, `earliest_spec`, and `Rising.append`: a point that lies between its neighbours
keeps a series rising.
-/

namespace Points

variable {τ β : Type*} [LinearOrder τ]

/-- The later of two points; the first of two at one time. -/
def laterOf (best : Option (τ × β)) (p : τ × β) : Option (τ × β) :=
  match best with
  | some b => if b.1 < p.1 then some p else some b
  | none => some p

/-- The point with the largest time. -/
def latest (points : List (τ × β)) : Option (τ × β) := points.foldl laterOf none

/-- The point with the smallest time. -/
def earliest (points : List (τ × β)) : Option (τ × β) := @latest τᵒᵈ β _ points

def before (points : List (τ × β)) (t : τ) : Option (τ × β) := latest (points.filter (·.1 < t))

def after (points : List (τ × β)) (t : τ) : Option (τ × β) := earliest (points.filter (t < ·.1))

/-- What the loop has picked: a point it was given, and no other is later. -/
theorem foldl_laterOf (points : List (τ × β)) : ∀ best,
    match points.foldl laterOf best with
    | none => best = none ∧ points = []
    | some p => (best = some p ∨ p ∈ points) ∧ (∀ b, best = some b → b.1 ≤ p.1) ∧ ∀ q ∈ points, q.1 ≤ p.1 := by
  induction points with
  | nil =>
    intro best
    cases best with
    | none => exact ⟨rfl, rfl⟩
    | some b => exact ⟨.inl rfl, fun b' h => by cases h; exact le_rfl, nofun⟩
  | cons a points ih =>
    intro best
    rw [List.foldl_cons]
    have h := ih (laterOf best a)
    have hnew : ∃ b, laterOf best a = some b ∧ (b = a ∨ best = some b) ∧ a.1 ≤ b.1 ∧
        ∀ c, best = some c → c.1 ≤ b.1 := by
      cases best with
      | none => exact ⟨a, rfl, .inl rfl, le_rfl, nofun⟩
      | some c =>
        by_cases hc : c.1 < a.1
        · exact ⟨a, if_pos hc, .inl rfl, le_rfl, fun d hd => by cases hd; exact hc.le⟩
        · exact ⟨c, if_neg hc, .inr rfl, not_lt.mp hc, fun d hd => by cases hd; exact le_rfl⟩
    obtain ⟨b, hb, hfrom, hab, hbest⟩ := hnew
    rw [hb] at h ⊢
    split at h
    · next hnone => exact absurd h.1 nofun
    · next p hp =>
      obtain ⟨hmem, hle, hall⟩ := h
      have hbp : b.1 ≤ p.1 := hle b rfl
      rw [hp]
      refine ⟨?_, fun c hc => (hbest c hc).trans hbp, fun q hq => ?_⟩
      · rcases hmem with hmem | hmem
        · cases hmem
          rcases hfrom with rfl | hfrom
          · exact .inr List.mem_cons_self
          · exact .inl hfrom
        · exact .inr (List.mem_cons_of_mem _ hmem)
      · rcases List.mem_cons.mp hq with rfl | hq
        · exact hab.trans hbp
        · exact hall q hq

theorem latest_eq_none {points : List (τ × β)} (h : latest points = none) : points = [] := by
  have := foldl_laterOf points none
  unfold latest at h
  rw [h] at this
  exact this.2

theorem latest_spec {points : List (τ × β)} {p : τ × β} (h : latest points = some p) :
    p ∈ points ∧ ∀ q ∈ points, q.1 ≤ p.1 := by
  have := foldl_laterOf points none
  unfold latest at h
  rw [h] at this
  exact ⟨this.1.resolve_left nofun, this.2.2⟩

theorem earliest_eq_none {points : List (τ × β)} (h : earliest points = none) : points = [] :=
  @latest_eq_none τᵒᵈ β _ points h

theorem earliest_spec {points : List (τ × β)} {p : τ × β} (h : earliest points = some p) :
    p ∈ points ∧ ∀ q ∈ points, p.1 ≤ q.1 :=
  @latest_spec τᵒᵈ β _ points p h

/-- A point later than all others is the latest. -/
theorem latest_append {points : List (τ × β)} {p : τ × β} (h : ∀ q ∈ points, q.1 < p.1) :
    latest (points ++ [p]) = some p := by
  unfold latest
  rw [List.foldl_append, List.foldl_cons, List.foldl_nil]
  cases hl : points.foldl laterOf none with
  | none => rfl
  | some q => exact if_pos (h q (latest_spec hl).1)

/-- Where no point is later than `t`, the latest one is all there is to find at `t`. -/
theorem find_eq_latest_filter {points : List (τ × β)} {t : τ} (h : ∀ q ∈ points, q.1 ≤ t) :
    points.find? (·.1 = t) = (latest points).filter (·.1 = t) := by
  induction points using List.reverseRecOn with
  | nil => rfl
  | append_singleton points p ih =>
    have ih := ih fun q hq => h q (List.mem_append_left _ hq)
    have hp : p.1 ≤ t := h p (List.mem_append_right _ List.mem_cons_self)
    rw [List.find?_append, ih]
    unfold latest
    rw [List.foldl_append, List.foldl_cons, List.foldl_nil]
    cases hl : points.foldl laterOf none with
    | none => by_cases hpt : p.1 = t <;> simp [laterOf, Option.filter, hpt]
    | some b =>
      have hb : b.1 ≤ t := h b (List.mem_append_left _ (latest_spec hl).1)
      rcases hb.eq_or_lt with hbt | hbt
      · simp [laterOf, Option.filter, not_lt.mpr hp, hbt]
      · by_cases hpt : p.1 = t
        · simp [laterOf, Option.filter, hpt, hbt, hbt.ne]
        · by_cases hnext : b.1 < p.1 <;> simp [laterOf, Option.filter, hnext, hpt, hbt.ne]

/-- Behind the last point there is nothing, and before it everything. -/
theorem before_after_of_lt {points : List (τ × β)} {t : τ} (h : ∀ q ∈ points, q.1 < t) :
    before points t = latest points ∧ after points t = none := by
  have hbefore : points.filter (·.1 < t) = points := List.filter_eq_self.mpr fun q hq => decide_eq_true (h q hq)
  have hafter : points.filter (t < ·.1) = [] :=
    List.filter_eq_nil_iff.mpr fun q hq => by simpa using (h q hq).le
  rw [before, after, hbefore, hafter]
  exact ⟨rfl, rfl⟩

variable [Preorder β]

/-- Later points are not lower. -/
def Rising (points : List (τ × β)) : Prop := ∀ p ∈ points, ∀ q ∈ points, p.1 ≤ q.1 → p.2 ≤ q.2

theorem Rising.append {points : List (τ × β)} (h : Rising points) {t : τ} {v : β}
    (hnew : ∀ q ∈ points, q.1 ≠ t)
    (hbefore : ∀ p, before points t = some p → p.2 ≤ v)
    (hafter : ∀ p, after points t = some p → v ≤ p.2) : Rising (points ++ [(t, v)]) := by
  have hlow : ∀ p ∈ points, p.1 < t → p.2 ≤ v := by
    intro p hp hlt
    have hmem : p ∈ points.filter (·.1 < t) := List.mem_filter.mpr ⟨hp, by simpa using hlt⟩
    cases hb : before points t with
    | none =>
      rw [latest_eq_none hb] at hmem
      cases hmem
    | some q =>
      obtain ⟨hq, hmax⟩ := latest_spec hb
      exact (h p hp q (List.mem_filter.mp hq).1 (hmax p hmem)).trans (hbefore q hb)
  have hhigh : ∀ p ∈ points, t < p.1 → v ≤ p.2 := by
    intro p hp hlt
    have hmem : p ∈ points.filter (t < ·.1) := List.mem_filter.mpr ⟨hp, by simpa using hlt⟩
    cases ha : after points t with
    | none =>
      rw [earliest_eq_none ha] at hmem
      cases hmem
    | some q =>
      obtain ⟨hq, hmin⟩ := earliest_spec ha
      exact (hafter q ha).trans (h q (List.mem_filter.mp hq).1 p hp (hmin p hmem))
  intro p hp q hq hle
  rcases List.mem_append.mp hp with hp | hp <;> rcases List.mem_append.mp hq with hq | hq
  · exact h p hp q hq hle
  · rw [List.mem_singleton] at hq
    subst hq
    exact hlow p hp (lt_of_le_of_ne hle (hnew p hp))
  · rw [List.mem_singleton] at hp
    subst hp
    exact hhigh q hq (lt_of_le_of_ne hle (hnew q hq).symm)
  · rw [List.mem_singleton] at hp hq
    subst hp hq
    exact le_rfl

/-- Somewhere a later point is lower. -/
def Falls (points : List (τ × β)) : Prop := ∃ p ∈ points, ∃ q ∈ points, p.1 < q.1 ∧ q.2 < p.2

theorem Rising.not_falls {points : List (τ × β)} (h : Rising points) : ¬ Falls points := by
  rintro ⟨p, hp, q, hq, hlt, hfall⟩
  exact absurd (h p hp q hq hlt.le) (not_le_of_gt hfall)

theorem Falls.mono {points points' : List (τ × β)} (h : Falls points) (hsub : ∀ p ∈ points, p ∈ points') :
    Falls points' := by
  obtain ⟨p, hp, q, hq, hlt, hfall⟩ := h
  exact ⟨p, hsub p hp, q, hsub q hq, hlt, hfall⟩

/-- One value at a time, and none falls. -/
theorem rising_of_not_falls {β : Type*} [LinearOrder β] {points : List (τ × β)} (h : ¬ Falls points)
    (hone : ∀ p ∈ points, ∀ q ∈ points, p.1 = q.1 → p.2 = q.2) : Rising points := by
  intro p hp q hq hle
  rcases hle.eq_or_lt with heq | hlt
  · exact (hone p hp q hq heq).le
  · exact not_lt.mp fun hfall => h ⟨p, hp, q, hq, hlt, hfall⟩

end Points
