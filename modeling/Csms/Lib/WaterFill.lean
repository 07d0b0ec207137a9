import Mathlib

/-!
# Water filling

A budget of whole units is shared out under caps: at a level, each member takes its cap or the level,
whichever is smaller. `Level` says that a level fits and that the next one would not. What each member
takes is then determined (`Level.unique`).

The level is found in rounds. A round divides the budget equally, takes out the members whose cap is
within the share (`Level.round`) and ends when no cap is (`Level.last`). The share never falls from
one round to the next (`mul_le_left_over`).
-/

namespace WaterFill

/-- What the members take together at a level. -/
def fill (caps : Multiset ℤ) (level : ℤ) : ℤ := (caps.map (min · level)).sum

/-- The number of members that would take more. -/
def above (caps : Multiset ℤ) (level : ℤ) : ℕ := caps.countP (level < ·)

structure Level (budget : ℤ) (caps : Multiset ℤ) (level : ℤ) : Prop where
  fits : fill caps level ≤ budget
  tight : 0 < above caps level → budget - fill caps level < above caps level

/-! ## 1. Levels -/

@[simp] theorem fill_zero (level : ℤ) : fill 0 level = 0 := rfl

@[simp] theorem fill_cons (cap : ℤ) (caps : Multiset ℤ) (level : ℤ) :
    fill (cap ::ₘ caps) level = min cap level + fill caps level := by
  simp [fill]

@[simp] theorem above_zero (level : ℤ) : above 0 level = 0 := rfl

theorem above_cons (cap : ℤ) (caps : Multiset ℤ) (level : ℤ) :
    above (cap ::ₘ caps) level = above caps level + if level < cap then 1 else 0 := by
  simp [above, Multiset.countP_cons]

theorem above_pos {caps : Multiset ℤ} {level : ℤ} : 0 < above caps level ↔ ∃ cap ∈ caps, level < cap :=
  Multiset.countP_pos

theorem fill_mono (caps : Multiset ℤ) {level level' : ℤ} (h : level ≤ level') :
    fill caps level ≤ fill caps level' := by
  induction caps using Multiset.induction with
  | empty => exact le_rfl
  | cons cap caps ih =>
    rw [fill_cons, fill_cons]
    exact add_le_add (min_le_min_left cap h) ih

/-- One unit more goes to each member that would take more. -/
theorem fill_succ (caps : Multiset ℤ) (level : ℤ) : fill caps (level + 1) = fill caps level + above caps level := by
  induction caps using Multiset.induction with
  | empty => rfl
  | cons cap caps ih =>
    rw [fill_cons, fill_cons, above_cons, ih]
    split <;> push_cast <;> omega

/-- A level that some member exceeds is the highest that fits. -/
theorem Level.le_of_fits {budget : ℤ} {caps : Multiset ℤ} {level level' : ℤ} (h : Level budget caps level)
    (habove : 0 < above caps level) (hfits : fill caps level' ≤ budget) : level' ≤ level := by
  by_contra hlt
  have hnext : fill caps (level + 1) ≤ fill caps level' := fill_mono caps (by omega)
  have htight := h.tight habove
  rw [fill_succ] at hnext
  omega

/-- A member gets at least what it asks for when everyone can have that much. -/
theorem Level.le_of_fill {budget : ℤ} {caps : Multiset ℤ} {level want cap : ℤ} (h : Level budget caps level)
    (hcap : cap ∈ caps) (hwant : want ≤ cap) (hfits : fill caps want ≤ budget) : want ≤ min cap level := by
  refine le_min hwant ?_
  by_contra hlt
  have habove : 0 < above caps level := above_pos.mpr ⟨cap, hcap, by omega⟩
  exact hlt (h.le_of_fits habove hfits)

/-- Two levels of one budget give every member the same. -/
theorem Level.unique {budget : ℤ} {caps : Multiset ℤ} {level level' cap : ℤ} (h : Level budget caps level)
    (h' : Level budget caps level') (hcap : cap ∈ caps) : min cap level = min cap level' := by
  wlog hle : level ≤ level' generalizing level level'
  · exact (this h' h (by omega)).symm
  by_cases hlt : level < cap
  · have := h.le_of_fits (above_pos.mpr ⟨cap, hcap, hlt⟩) h'.fits
    rw [le_antisymm hle this]
  · omega

/-! ## 2. Rounds -/

/-- The members within the share, and the others. -/
def capped (caps : Multiset ℤ) (share : ℤ) : Multiset ℤ := caps.filter (· ≤ share)

def rest (caps : Multiset ℤ) (share : ℤ) : Multiset ℤ := caps.filter (share < ·)

theorem capped_add_rest (caps : Multiset ℤ) (share : ℤ) : capped caps share + rest caps share = caps := by
  have h := Multiset.filter_add_not (· ≤ share) caps
  simpa only [capped, rest, not_le] using h

theorem fill_capped (caps : Multiset ℤ) {share level : ℤ} (h : share ≤ level) :
    fill (capped caps share) level = (capped caps share).sum := by
  have hmin : ∀ cap ∈ capped caps share, min cap level = cap := fun cap hcap =>
    min_eq_left ((Multiset.mem_filter.mp hcap).2.trans h)
  rw [fill, Multiset.map_congr rfl hmin, Multiset.map_id']

theorem fill_eq_capped_add_rest (caps : Multiset ℤ) {share level : ℤ} (h : share ≤ level) :
    fill caps level = (capped caps share).sum + fill (rest caps share) level := by
  rw [← fill_capped caps h, fill, fill, fill, ← Multiset.sum_add, ← Multiset.map_add, capped_add_rest]

theorem above_eq_rest (caps : Multiset ℤ) {share level : ℤ} (h : share ≤ level) :
    above caps level = above (rest caps share) level := by
  rw [above, above, rest, Multiset.countP_filter]
  exact Multiset.countP_congr rfl fun cap _ => by simp; omega

/-- A level of what a round leaves is a level of the whole. -/
theorem Level.round {budget : ℤ} {caps : Multiset ℤ} {share level : ℤ} (hle : share ≤ level)
    (h : Level (budget - (capped caps share).sum) (rest caps share) level) : Level budget caps level := by
  have hfill := fill_eq_capped_add_rest caps hle
  refine ⟨by linarith [h.fits], fun hpos => ?_⟩
  rw [above_eq_rest caps hle] at hpos ⊢
  have htight := h.tight hpos
  linarith

theorem card_capped_add_rest (caps : Multiset ℤ) (share : ℤ) :
    ((capped caps share).card : ℤ) + (rest caps share).card = caps.card := by
  have h := congrArg Multiset.card (capped_add_rest caps share)
  rw [Multiset.card_add] at h
  exact_mod_cast h

theorem sum_capped_le (caps : Multiset ℤ) (share : ℤ) :
    (capped caps share).sum ≤ (capped caps share).card * share := by
  have h := Multiset.sum_le_card_nsmul (capped caps share) share fun cap hcap => (Multiset.mem_filter.mp hcap).2
  simpa using h

/-- What a round leaves is an equal share or more for each of the others. -/
theorem mul_le_left_over {budget : ℤ} {caps : Multiset ℤ} {share : ℤ} (h : share * caps.card ≤ budget) :
    share * (rest caps share).card ≤ budget - (capped caps share).sum := by
  have hsum := sum_capped_le caps share
  have hcard := card_capped_add_rest caps share
  calc share * ((rest caps share).card : ℤ)
      = share * caps.card - (capped caps share).card * share := by rw [← hcard]; ring
    _ ≤ budget - (capped caps share).sum := by linarith

/-- The last round: no cap is within the share. -/
theorem Level.last {budget : ℤ} {caps : Multiset ℤ} (hne : caps ≠ 0)
    (h : ∀ cap ∈ caps, budget / caps.card < cap) : Level budget caps (budget / caps.card) := by
  have hcard : 0 < (caps.card : ℤ) := by exact_mod_cast Multiset.card_pos.mpr hne
  have hfill : fill caps (budget / caps.card) = caps.card * (budget / caps.card) := by
    rw [fill, Multiset.map_congr rfl fun cap hcap => min_eq_right (h cap hcap).le]
    simp
  have habove : above caps (budget / caps.card) = caps.card := Multiset.countP_eq_card.mpr h
  have hdiv := Int.mul_ediv_add_emod budget caps.card
  have hmod := Int.emod_lt_of_pos budget hcard
  have hmod0 := Int.emod_nonneg budget hcard.ne'
  refine ⟨by omega, fun _ => ?_⟩
  rw [habove]
  omega

theorem Level.empty {budget : ℤ} (h : 0 ≤ budget) (level : ℤ) : Level budget 0 level :=
  ⟨h, fun hpos => absurd hpos (lt_irrefl 0)⟩

/-! ## 3. Rounds over a list of members -/

section Members

variable {α : Type*} {cap : α → ℤ}

/-- The caps of a list of members. -/
def capsOf (cap : α → ℤ) (members : List α) : Multiset ℤ := members.map cap

/-- What a round takes out of the budget. -/
def spent (cap : α → ℤ) (share : ℤ) (members : List α) : ℤ := ((members.filter (cap · ≤ share)).map cap).sum

theorem card_capsOf (members : List α) : (capsOf cap members).card = members.length := by
  simp [capsOf]

theorem capsOf_perm {members members' : List α} (h : members.Perm members') :
    capsOf cap members = capsOf cap members' :=
  Multiset.coe_eq_coe.mpr (h.map _)

theorem fill_capsOf (members : List α) (level : ℤ) :
    fill (capsOf cap members) level = (members.map fun a => min (cap a) level).sum := by
  simp [fill, capsOf, Function.comp_def]

theorem sum_capped_capsOf (members : List α) (share : ℤ) :
    (capped (capsOf cap members) share).sum = spent cap share members := by
  simp [capped, capsOf, spent, List.filter_map, Function.comp_def]

theorem rest_capsOf (members : List α) (share : ℤ) :
    rest (capsOf cap members) share = capsOf cap (members.filter (share < cap ·)) := by
  simp [rest, capsOf, List.filter_map, Function.comp_def]

theorem share_mul_length_le {budget share : ℤ} {members : List α} (h : share * members.length ≤ budget) :
    share * (members.filter (share < cap ·)).length ≤ budget - spent cap share members := by
  have hleft := @mul_le_left_over budget (capsOf cap members) share (by rwa [card_capsOf])
  rwa [rest_capsOf, card_capsOf, sum_capped_capsOf] at hleft

theorem Level.of_round {budget share level : ℤ} {members : List α} (hle : share ≤ level)
    (h : Level (budget - spent cap share members) (capsOf cap (members.filter (share < cap ·))) level) :
    Level budget (capsOf cap members) level := by
  refine Level.round hle ?_
  rwa [rest_capsOf, sum_capped_capsOf]

theorem Level.of_last {budget : ℤ} {members : List α} (hne : members ≠ [])
    (h : ∀ a ∈ members, budget / members.length < cap a) :
    Level budget (capsOf cap members) (budget / members.length) := by
  have hlast := @Level.last budget (capsOf cap members)
  rw [card_capsOf] at hlast
  refine hlast (by simpa [capsOf] using hne) fun c hc => ?_
  obtain ⟨a, ha, rfl⟩ := List.mem_map.mp (Multiset.mem_coe.mp hc)
  exact h a ha

/-- Nobody gets a unit when there are fewer than members. -/
theorem Level.of_few {budget : ℤ} {members : List α} (hpos : 0 < budget) (hlt : budget < members.length)
    (h : ∀ a ∈ members, 1 ≤ cap a) : Level budget (capsOf cap members) 0 := by
  have hzero : budget / (members.length : ℤ) = 0 := Int.ediv_eq_zero_of_lt hpos.le hlt
  have hne : members ≠ [] := by
    rintro rfl
    simp at hlt
    omega
  have hlast := @Level.of_last α cap budget members hne fun a ha => by
    rw [hzero]
    exact h a ha
  rwa [hzero] at hlast

end Members

end WaterFill
