import Csms.Power.Engine

/-!
# What the allocators compute

The preemption drops the newest sessions until the minima fit, the distribution fills the others up to
one level, and the classification compares each target with what the session has.
-/

namespace Csms.Power

open WaterFill

variable {ι τ : Type}

/-- The ids of sessions. -/
def ids (sessions : List (SessionDemand ι τ)) : List ι := sessions.map (·.session_id)

/-- The nominal powers, as caps. -/
def caps (sessions : List (SessionDemand ι τ)) : Multiset ℤ := capsOf (·.nominal_w) sessions

/-- How many of the newest sessions are dropped before the minima of the others fit. -/
def dropCount (limit_w : ℤ) : List (SessionDemand ι τ) → ℕ
  | [] => 0
  | s :: rest => if limit_w < totalMin (s :: rest) then dropCount limit_w rest + 1 else 0

/-- The sessions that stay, newest first. -/
def survivors [LinearOrder ι] [LinearOrder τ] (limit_w : ℤ) (sessions : List (SessionDemand ι τ)) : List (SessionDemand ι τ) :=
  (newest_first sessions).drop (dropCount limit_w (newest_first sessions))

/-- The target of a session, as `_reconcile` looks it up. -/
def AllocationResult.target [DecidableEq ι] (r : AllocationResult ι) (id : ι) : Option ℤ :=
  (r.to_decrease.lookup id).or ((r.to_increase.lookup id).or (r.unchanged.lookup id))

/-! ## 1. Preemption -/

namespace EngineLemmas

/-- With distinct ids the age tells sessions apart. -/
theorem eq_of_age {sessions : List (SessionDemand ι τ)} (hids : (ids sessions).Nodup) {a b : SessionDemand ι τ}
    (ha : a ∈ sessions) (hb : b ∈ sessions) (h : a.age = b.age) : a = b :=
  List.inj_on_of_nodup_map hids ha hb (Prod.ext_iff.mp (toLex.injective h)).2

theorem totalMin_perm {l l' : List (SessionDemand ι τ)} (h : l.Perm l') : totalMin l = totalMin l' :=
  (h.map _).sum_eq

/-- The minima of the sessions that stay fit, if any stays. -/
theorem totalMin_drop_le {limit_w : ℤ} : ∀ {l : List (SessionDemand ι τ)},
    l.drop (dropCount limit_w l) ≠ [] → totalMin (l.drop (dropCount limit_w l)) ≤ limit_w
  | [], hne => absurd rfl hne
  | s :: rest, hne => by
    by_cases h : limit_w < totalMin (s :: rest)
    · rw [dropCount, if_pos h, List.drop_succ_cons] at hne ⊢
      exact totalMin_drop_le hne
    · rw [dropCount, if_neg h]
      exact not_lt.mp h

/-- No fewer sessions can be dropped. -/
theorem lt_totalMin_drop {limit_w : ℤ} : ∀ {l : List (SessionDemand ι τ)} {j : ℕ},
    j < dropCount limit_w l → limit_w < totalMin (l.drop j)
  | [], _, hj => absurd hj (Nat.not_lt_zero _)
  | s :: rest, j, hj => by
    by_cases h : limit_w < totalMin (s :: rest)
    · cases j with
      | zero => exact h
      | succ j =>
        rw [dropCount, if_pos h] at hj
        have hj' : j < dropCount limit_w rest := by omega
        rw [List.drop_succ_cons]
        exact lt_totalMin_drop hj'
    · rw [dropCount, if_neg h] at hj
      exact absurd hj (Nat.not_lt_zero _)

section Order

variable [LinearOrder ι] [LinearOrder τ]

theorem newest_first_perm (sessions : List (SessionDemand ι τ)) : (newest_first sessions).Perm sessions :=
  List.perm_insertionSort _ _

theorem newest_first_sorted (sessions : List (SessionDemand ι τ)) :
    (newest_first sessions).Pairwise fun a b => b.age ≤ a.age := by
  have htotal : Std.Total fun a b : SessionDemand ι τ => b.age ≤ a.age := ⟨fun a b => le_total b.age a.age⟩
  have htrans : IsTrans (SessionDemand ι τ) fun a b => b.age ≤ a.age := ⟨fun _ _ _ h h' => h'.trans h⟩
  exact List.pairwise_insertionSort _ _

/-- The newest session comes first, then the others in their order. -/
theorem newest_first_eq_cons {active : List (SessionDemand ι τ)} (hids : (ids active).Nodup)
    {c : SessionDemand ι τ} (hc : newest active = some c) :
    newest_first active = c :: newest_first (active.erase c) := by
  have hmem : c ∈ active := List.argmax_mem hc
  have hperm : (newest_first active).Perm (c :: newest_first (active.erase c)) :=
    (newest_first_perm active).trans
      ((List.perm_cons_erase hmem).trans ((newest_first_perm _).symm.cons c))
  refine List.Perm.eq_of_pairwise ?_ (newest_first_sorted active) ?_ hperm
  · intro a b ha hb hba hab
    have hb' : b ∈ newest_first active := hperm.symm.subset hb
    exact eq_of_age hids ((newest_first_perm active).subset ha) ((newest_first_perm active).subset hb')
      (le_antisymm hab hba)
  · refine List.pairwise_cons.mpr ⟨fun b hb => ?_, newest_first_sorted _⟩
    exact List.le_of_mem_argmax (List.mem_of_mem_erase ((newest_first_perm _).subset hb)) hc

theorem ids_erase_nodup {active : List (SessionDemand ι τ)} (hids : (ids active).Nodup) (c : SessionDemand ι τ) :
    (ids (active.erase c)).Nodup :=
  hids.sublist (List.erase_sublist.map _)

/-- What the loop of preemption returns. -/
theorem preempt_spec {limit_w : ℤ} {active : List (SessionDemand ι τ)} (hids : (ids active).Nodup)
    (preempted : List ι) :
    (preempt limit_w active preempted).1.Perm (survivors limit_w active) ∧
      (preempt limit_w active preempted).2 =
        preempted ++ ids ((newest_first active).take (dropCount limit_w (newest_first active))) := by
  fun_induction preempt limit_w active preempted with
  | case1 active preempted hlt hnone =>
    have hnil : active = [] := List.argmax_eq_none.mp hnone
    subst hnil
    exact ⟨.refl _, (List.append_nil _).symm⟩
  | case2 active preempted hlt c hc ih =>
    have heq := newest_first_eq_cons hids hc
    have hdrop : dropCount limit_w (newest_first active) =
        dropCount limit_w (newest_first (active.erase c)) + 1 := by
      rw [heq, dropCount, if_pos]
      rwa [← heq, totalMin_perm (newest_first_perm active)]
    obtain ⟨hkept, hgone⟩ := ih (ids_erase_nodup hids c)
    refine ⟨?_, ?_⟩
    · rw [survivors, hdrop, heq, List.drop_succ_cons]
      exact hkept
    · rw [hgone, hdrop, heq, List.take_succ_cons]
      simp [ids]
  | case3 active preempted hfits =>
    have hzero : dropCount limit_w (newest_first active) = 0 := by
      cases hn : newest_first active with
      | nil => rfl
      | cons s rest =>
        rw [dropCount, if_neg]
        rwa [← hn, totalMin_perm (newest_first_perm active)]
    rw [survivors, hzero]
    exact ⟨(newest_first_perm active).symm, by simp [ids]⟩

end Order

end EngineLemmas

/-! ## 2. Distribution -/

namespace EngineLemmas

theorem ids_filter_nodup {sessions : List (SessionDemand ι τ)} (hids : (ids sessions).Nodup)
    (p : SessionDemand ι τ → Bool) : (ids (sessions.filter p)).Nodup :=
  hids.sublist (List.filter_sublist.map _)

section Distribution

variable [LinearOrder ι]

/-- A dictionary that gives the sessions their targets and leaves the other ids as they were. -/
structure Gives (sessions : List (SessionDemand ι τ)) (target : SessionDemand ι τ → ℤ) (before d : Dict ι ℤ) :
    Prop where
  given : ∀ s ∈ sessions, d.lookup s.session_id = some (target s)
  other : ∀ id ∉ ids sessions, d.lookup id = before.lookup id

theorem gives_setAll {sessions : List (SessionDemand ι τ)} (hids : (ids sessions).Nodup)
    (target : SessionDemand ι τ → ℤ) (d : Dict ι ℤ) :
    Gives sessions target d (Dict.setAll (·.session_id) target sessions d) where
  given _ hs := Dict.lookup_setAll hids hs
  other _ hid := Dict.lookup_setAll_of_notMem fun _ ha heq => hid (heq ▸ List.mem_map_of_mem ha)

/-- The sessions within the share are settled first, the others later. -/
theorem Gives.later {sessions : List (SessionDemand ι τ)} (hids : (ids sessions).Nodup)
    {target : SessionDemand ι τ → ℤ} {p q : SessionDemand ι τ → Bool} (hpq : ∀ s ∈ sessions, p s = !q s)
    {d d' d'' : Dict ι ℤ} (h : Gives (sessions.filter p) target d d')
    (h' : Gives (sessions.filter q) target d' d'') : Gives sessions target d d'' where
  given s hs := by
    by_cases hq : q s = true
    · exact h'.given s (List.mem_filter.mpr ⟨hs, hq⟩)
    · have hp : p s = true := by rw [hpq s hs]; simp [hq]
      have hnot : s.session_id ∉ ids (sessions.filter q) := by
        intro hmem
        obtain ⟨t, ht, heq⟩ := List.mem_map.mp hmem
        obtain ⟨ht, hqt⟩ := List.mem_filter.mp ht
        exact hq (List.inj_on_of_nodup_map hids ht hs heq ▸ hqt)
      rw [h'.other _ hnot]
      exact h.given s (List.mem_filter.mpr ⟨hs, hp⟩)
  other id hid := by
    have hsub : ∀ r : SessionDemand ι τ → Bool, id ∉ ids (sessions.filter r) := fun r hmem =>
      hid ((List.filter_sublist.map _).subset hmem)
    rw [h'.other id (hsub q), h.other id (hsub p)]

theorem Gives.congr {sessions : List (SessionDemand ι τ)} {target target' : SessionDemand ι τ → ℤ}
    {d d' : Dict ι ℤ} (h : Gives sessions target d d') (heq : ∀ s ∈ sessions, target s = target' s) :
    Gives sessions target' d d' :=
  ⟨fun s hs => heq s hs ▸ h.given s hs, h.other⟩

/-- When every session can have a watt, the loop fills to a level. The share of each round is a lower
bound of the level. -/
theorem distribute_level {remaining_budget : ℤ} {unassigned : List (SessionDemand ι τ)} {allocated : Dict ι ℤ}
    (hids : (ids unassigned).Nodup) {share : ℤ} (hshare : 1 ≤ share)
    (hbudget : share * unassigned.length ≤ remaining_budget) :
    ∃ level, share ≤ level ∧ Level remaining_budget (caps unassigned) level ∧
      Gives unassigned (fun s => min s.nominal_w level) allocated
        (distribute remaining_budget unassigned allocated) := by
  induction hn : unassigned.length using Nat.strong_induction_on generalizing remaining_budget unassigned
    allocated share with
  | h n ih =>
    subst hn
    by_cases hnil : unassigned = []
    · subst hnil
      refine ⟨share, le_rfl, .empty (by simpa using hbudget) share, ?_⟩
      rw [distribute, if_neg (by simp)]
      exact ⟨nofun, fun _ _ => rfl⟩
    have hlen : 0 < (unassigned.length : ℤ) := by exact_mod_cast List.length_pos_iff.mpr hnil
    have hpos : 0 < remaining_budget := by nlinarith
    have hge : share ≤ remaining_budget / unassigned.length := (Int.le_ediv_iff_mul_le hlen).mpr hbudget
    have hmul : remaining_budget / unassigned.length * unassigned.length ≤ remaining_budget :=
      Int.ediv_mul_le _ hlen.ne'
    rw [distribute, if_pos ⟨hnil, hpos⟩]
    simp only
    rw [if_neg (by omega)]
    split
    · next hprogress =>
      have hlt := playRound_length_lt hprogress
      rw [playRound_eq] at hlt ⊢
      obtain ⟨level, hle, hlevel, hgives⟩ :=
        ih _ hlt (ids_filter_nodup hids _) (hshare.trans hge) (share_mul_length_le hmul) rfl
      refine ⟨level, hge.trans hle, Level.of_round hle hlevel, ?_⟩
      have hcapped := gives_setAll (ids_filter_nodup hids fun s => s.nominal_w ≤ remaining_budget / unassigned.length)
        (·.nominal_w) allocated
      have hsplit : ∀ s ∈ unassigned, decide (s.nominal_w ≤ remaining_budget / unassigned.length) =
          !decide (remaining_budget / unassigned.length < s.nominal_w) := fun s _ => by
        simp only [← not_lt, decide_not]
      refine Gives.later hids hsplit (hcapped.congr fun s hs => ?_) hgives
      have hs' := of_decide_eq_true (List.mem_filter.mp hs).2
      exact (min_eq_left (hs'.trans hle)).symm
    · next hprogress =>
      rw [playRound_eq] at hprogress ⊢
      have hall : ∀ s ∈ unassigned, remaining_budget / unassigned.length < s.nominal_w := by
        intro s hs
        by_contra hle
        exact hprogress (List.any_eq_true.mpr ⟨s, hs, decide_eq_true (not_lt.mp hle)⟩)
      refine ⟨_, hge, Level.of_last hnil hall, ?_⟩
      have hnone : unassigned.filter (·.nominal_w ≤ remaining_budget / unassigned.length) = [] :=
        List.filter_eq_nil_iff.mpr fun s hs => by simpa using hall s hs
      have hsame : unassigned.filter (remaining_budget / unassigned.length < ·.nominal_w) = unassigned :=
        List.filter_eq_self.mpr fun s hs => by simpa using hall s hs
      simp only [hnone, hsame]
      exact (gives_setAll hids _ allocated).congr fun s hs => (min_eq_right (hall s hs).le).symm

theorem foldl_keep {sessions : List (SessionDemand ι τ)} (hids : (ids sessions).Nodup) : ∀ d : Dict ι ℤ,
    Gives sessions (fun s => (d.lookup s.session_id).getD 0) d
      (sessions.foldl (fun d s => d.insert s.session_id ((d.lookup s.session_id).getD 0)) d) := by
  induction sessions with
  | nil => exact fun _ => ⟨nofun, fun _ _ => rfl⟩
  | cons s sessions ih =>
    intro d
    obtain ⟨hs, hrest⟩ := List.nodup_cons.mp hids
    have h := ih hrest (d.insert s.session_id ((d.lookup s.session_id).getD 0))
    refine ⟨fun t ht => ?_, fun id hid => ?_⟩
    · rcases List.mem_cons.mp ht with rfl | ht
      · exact (h.other _ hs).trans (AList.lookup_insert d)
      · have hne : t.session_id ≠ s.session_id := fun heq => hs (List.mem_map.mpr ⟨t, ht, heq⟩)
        rw [List.foldl_cons, h.given t ht, AList.lookup_insert_ne hne]
    · obtain ⟨hne, hid⟩ := not_or.mp (List.mem_cons.not.mp hid)
      exact (h.other id hid).trans (AList.lookup_insert_ne hne)

/-- When some session cannot have a watt, nobody gets any. -/
theorem distribute_zero {limit_w : ℤ} {active : List (SessionDemand ι τ)} (hids : (ids active).Nodup)
    (hpos : 0 < limit_w) (hlt : limit_w < active.length) :
    Gives active (fun _ => 0) ∅ (distribute limit_w active ∅) := by
  have hne : active ≠ [] := by
    rintro rfl
    simp at hlt
    omega
  rw [distribute, if_pos ⟨hne, hpos⟩]
  simp only
  rw [if_pos (Int.ediv_eq_zero_of_lt hpos.le hlt)]
  exact (foldl_keep hids ∅).congr fun s _ => by simp

/-- Nothing is missing from a dictionary that gives every session a target. -/
theorem fillMissing_eq {active : List (SessionDemand ι τ)} {d : Dict ι ℤ}
    (h : ∀ s ∈ active, (d.lookup s.session_id).isSome) : fillMissing active d = d := by
  induction active with
  | nil => rfl
  | cons s active ih =>
    rw [fillMissing, List.foldl_cons, if_pos (h s List.mem_cons_self)]
    exact ih fun t ht => h t (List.mem_cons_of_mem s ht)

theorem Gives.mem_iff {active : List (SessionDemand ι τ)} {target : SessionDemand ι τ → ℤ} {d : Dict ι ℤ}
    (h : Gives active target ∅ d) (id : ι) : id ∈ d ↔ id ∈ ids active := by
  by_cases hid : id ∈ ids active
  · obtain ⟨s, hs, rfl⟩ := List.mem_map.mp hid
    exact ⟨fun _ => hid, fun _ => Dict.mem_of_lookup (h.given s hs)⟩
  · exact ⟨fun hmem => absurd ((h.other id hid).trans (AList.lookup_empty id)) (fun hnone =>
      AList.lookup_eq_none.mp hnone hmem), fun hmem => absurd hmem hid⟩

theorem Gives.sum_values {active : List (SessionDemand ι τ)} (hids : (ids active).Nodup)
    {target : SessionDemand ι τ → ℤ} {d : Dict ι ℤ} (h : Gives active target ∅ d) :
    (Dict.values d).sum = (active.map target).sum := by
  have hvalues := Dict.values_eq hids h.mem_iff (f := fun id => (d.lookup id).getD 0) fun id hid => by
    obtain ⟨s, hs, rfl⟩ := List.mem_map.mp hid
    rw [h.given s hs]
    rfl
  have hsum := congrArg Multiset.sum hvalues
  rw [Multiset.sum_coe, Multiset.sum_coe, ids, List.map_map] at hsum
  rw [hsum]
  refine congrArg List.sum (List.map_congr_left fun s hs => ?_)
  rw [Function.comp_apply, h.given s hs]
  rfl

end Distribution

end EngineLemmas

/-! ## 3. Classification -/

section Classification

variable [LinearOrder ι]

/-- The three dictionaries give the sessions their targets: each to the one its comparison with
`current_w` names. -/
structure Sorted (active : List (SessionDemand ι τ)) (target : SessionDemand ι τ → ℤ)
    (to_decrease to_increase unchanged : Dict ι ℤ) : Prop where
  decrease : ∀ s ∈ active, to_decrease.lookup s.session_id = if target s < s.current_w then some (target s) else none
  increase : ∀ s ∈ active, to_increase.lookup s.session_id = if s.current_w < target s then some (target s) else none
  same : ∀ s ∈ active, unchanged.lookup s.session_id = if target s = s.current_w then some (target s) else none
  other : ∀ id ∉ ids active, to_decrease.lookup id = none ∧ to_increase.lookup id = none ∧ unchanged.lookup id = none

namespace EngineLemmas

theorem foldl_classes (allocated : Dict ι ℤ) (active : List (SessionDemand ι τ)) : ∀ c : Classes ι,
    active.foldl (Classes.visit allocated) c =
      { to_decrease := Dict.setAll (·.session_id) (fun s => (allocated.lookup s.session_id).getD 0)
          (active.filter fun s => (allocated.lookup s.session_id).getD 0 < s.current_w) c.to_decrease
        to_increase := Dict.setAll (·.session_id) (fun s => (allocated.lookup s.session_id).getD 0)
          (active.filter fun s => s.current_w < (allocated.lookup s.session_id).getD 0) c.to_increase
        unchanged := Dict.setAll (·.session_id) (fun s => (allocated.lookup s.session_id).getD 0)
          (active.filter fun s => (allocated.lookup s.session_id).getD 0 = s.current_w) c.unchanged } := by
  induction active with
  | nil => exact fun _ => rfl
  | cons s active ih =>
    intro c
    rw [List.foldl_cons, ih]
    rcases lt_trichotomy ((allocated.lookup s.session_id).getD 0) s.current_w with h | h | h
    · simp [Classes.visit, h, h.not_gt, h.ne, Dict.setAll]
    · simp [Classes.visit, h, Dict.setAll]
    · simp [Classes.visit, h, h.not_gt, h.ne', Dict.setAll]

/-- A dictionary made of some of the sessions. -/
theorem lookup_setAll_filter {active : List (SessionDemand ι τ)} (hids : (ids active).Nodup)
    (target : SessionDemand ι τ → ℤ) (p : SessionDemand ι τ → Prop) [DecidablePred p] {s : SessionDemand ι τ}
    (hs : s ∈ active) :
    (Dict.setAll (·.session_id) target (active.filter fun s => p s) ∅).lookup s.session_id =
      if p s then some (target s) else none := by
  have h := gives_setAll (ids_filter_nodup hids fun s => decide (p s)) target ∅
  split
  · next hp => exact h.given s (List.mem_filter.mpr ⟨hs, decide_eq_true hp⟩)
  · next hp =>
    refine (h.other _ fun hmem => hp ?_).trans (AList.lookup_empty _)
    obtain ⟨t, ht, heq⟩ := List.mem_map.mp hmem
    obtain ⟨ht, hpt⟩ := List.mem_filter.mp ht
    exact List.inj_on_of_nodup_map hids ht hs heq ▸ of_decide_eq_true hpt

theorem lookup_setAll_filter_of_notMem {active : List (SessionDemand ι τ)} {target : SessionDemand ι τ → ℤ}
    {p : SessionDemand ι τ → Bool} {id : ι} (hid : id ∉ ids active) :
    (Dict.setAll (·.session_id) target (active.filter p) ∅).lookup id = none := by
  refine (Dict.lookup_setAll_of_notMem fun s hs heq => hid ?_).trans (AList.lookup_empty _)
  exact heq ▸ List.mem_map_of_mem (List.mem_of_mem_filter hs)

theorem classify_sorted {active : List (SessionDemand ι τ)} (hids : (ids active).Nodup)
    {target : SessionDemand ι τ → ℤ} {allocated : Dict ι ℤ} (h : Gives active target ∅ allocated) :
    Sorted active target (classify active allocated).to_decrease (classify active allocated).to_increase
      (classify active allocated).unchanged := by
  have hget : ∀ s ∈ active, (allocated.lookup s.session_id).getD 0 = target s := fun s hs => by
    rw [h.given s hs]
    rfl
  rw [classify, foldl_classes]
  refine ⟨fun s hs => ?_, fun s hs => ?_, fun s hs => ?_, fun id hid => ?_⟩
  · have := lookup_setAll_filter hids (fun s => (allocated.lookup s.session_id).getD 0)
      (fun s => (allocated.lookup s.session_id).getD 0 < s.current_w) hs
    simpa only [hget s hs] using this
  · have := lookup_setAll_filter hids (fun s => (allocated.lookup s.session_id).getD 0)
      (fun s => s.current_w < (allocated.lookup s.session_id).getD 0) hs
    simpa only [hget s hs] using this
  · have := lookup_setAll_filter hids (fun s => (allocated.lookup s.session_id).getD 0)
      (fun s => (allocated.lookup s.session_id).getD 0 = s.current_w) hs
    simpa only [hget s hs] using this
  · exact ⟨lookup_setAll_filter_of_notMem hid, lookup_setAll_filter_of_notMem hid,
      lookup_setAll_filter_of_notMem hid⟩

theorem Sorted.perm {active active' : List (SessionDemand ι τ)} (hperm : active.Perm active')
    {target : SessionDemand ι τ → ℤ} {to_decrease to_increase unchanged : Dict ι ℤ}
    (h : Sorted active target to_decrease to_increase unchanged) :
    Sorted active' target to_decrease to_increase unchanged where
  decrease s hs := h.decrease s (hperm.symm.subset hs)
  increase s hs := h.increase s (hperm.symm.subset hs)
  same s hs := h.same s (hperm.symm.subset hs)
  other id hid := h.other id fun hmem => hid ((hperm.map _).subset hmem)

theorem sorted_nil {target : SessionDemand ι τ → ℤ} : Sorted [] target ∅ ∅ ∅ :=
  ⟨nofun, nofun, nofun, fun id _ => ⟨AList.lookup_empty id, AList.lookup_empty id, AList.lookup_empty id⟩⟩

end EngineLemmas

/-- The target looked up is the one given. -/
theorem Sorted.target_eq {active : List (SessionDemand ι τ)} {target : SessionDemand ι τ → ℤ}
    {r : AllocationResult ι} (h : Sorted active target r.to_decrease r.to_increase r.unchanged)
    {s : SessionDemand ι τ} (hs : s ∈ active) : r.target s.session_id = some (target s) := by
  rw [AllocationResult.target, h.decrease s hs, h.increase s hs, h.same s hs]
  rcases lt_trichotomy (target s) s.current_w with hlt | heq | hgt
  · rw [if_pos hlt]
    rfl
  · rw [if_neg heq.not_lt, if_neg heq.not_gt, if_pos heq]
    rfl
  · rw [if_neg hgt.not_gt, if_pos hgt]
    rfl

theorem Sorted.target_other {active : List (SessionDemand ι τ)} {target : SessionDemand ι τ → ℤ}
    {r : AllocationResult ι} (h : Sorted active target r.to_decrease r.to_increase r.unchanged) {id : ι}
    (hid : id ∉ ids active) : r.target id = none := by
  obtain ⟨hd, hi, hu⟩ := h.other id hid
  rw [AllocationResult.target, hd, hi, hu]
  rfl

end Classification

/-! ## 4. The result -/

/-- What `phan_bo_cong_suat` gives the survivors. Nobody gets a watt when there are fewer watts than
survivors; otherwise all are filled to one level. -/
structure Shares (limit_w : ℤ) (active : List (SessionDemand ι τ)) (target : SessionDemand ι τ → ℤ) : Prop where
  few : limit_w < active.length → ∀ s ∈ active, target s = 0
  enough : active.length ≤ limit_w →
    ∃ level, 1 ≤ level ∧ Level limit_w (caps active) level ∧ ∀ s ∈ active, target s = min s.nominal_w level

namespace EngineLemmas

theorem Shares.perm {limit_w : ℤ} {active active' : List (SessionDemand ι τ)} (hperm : active.Perm active')
    {target : SessionDemand ι τ → ℤ} (h : Shares limit_w active target) : Shares limit_w active' target where
  few hlt s hs := h.few (hperm.length_eq ▸ hlt) s (hperm.symm.subset hs)
  enough hle := by
    obtain ⟨level, hone, hlevel, heq⟩ := h.enough (hperm.length_eq ▸ hle)
    rw [caps, capsOf_perm hperm] at hlevel
    exact ⟨level, hone, hlevel, fun s hs => heq s (hperm.symm.subset hs)⟩

theorem shares_nil {limit_w : ℤ} (hpos : 0 < limit_w) (target : SessionDemand ι τ → ℤ) :
    Shares limit_w [] target :=
  ⟨fun _ => nofun, fun _ => ⟨1, le_rfl, .empty hpos.le 1, nofun⟩⟩

/-- With positive nominal powers there is a level in both cases. -/
theorem Shares.level {limit_w : ℤ} (hpos : 0 < limit_w) {active : List (SessionDemand ι τ)}
    {target : SessionDemand ι τ → ℤ} (h : Shares limit_w active target) (hnominal : ∀ s ∈ active, 1 ≤ s.nominal_w) :
    ∃ level, 0 ≤ level ∧ Level limit_w (caps active) level ∧ ∀ s ∈ active, target s = min s.nominal_w level := by
  rcases lt_or_ge limit_w active.length with hlt | hge
  · refine ⟨0, le_rfl, Level.of_few hpos hlt hnominal, fun s hs => ?_⟩
    have := hnominal s hs
    rw [h.few hlt s hs, min_eq_right (by omega)]
  · obtain ⟨level, hone, hlevel, heq⟩ := h.enough hge
    exact ⟨level, by omega, hlevel, heq⟩

theorem Shares.sum_le {limit_w : ℤ} (hpos : 0 < limit_w) {active : List (SessionDemand ι τ)}
    {target : SessionDemand ι τ → ℤ} (h : Shares limit_w active target) : (active.map target).sum ≤ limit_w := by
  rcases lt_or_ge limit_w active.length with hlt | hge
  · rw [List.map_congr_left (h.few hlt)]
    simpa using hpos.le
  · obtain ⟨level, -, hlevel, heq⟩ := h.enough hge
    rw [List.map_congr_left heq, ← fill_capsOf]
    exact hlevel.fits

/-- The dictionary of the distribution. -/
theorem distribute_shares [LinearOrder ι] {limit_w : ℤ} (hpos : 0 < limit_w) {active : List (SessionDemand ι τ)}
    (hids : (ids active).Nodup) :
    ∃ target, Shares limit_w active target ∧ Gives active target ∅ (distribute limit_w active ∅) := by
  rcases lt_or_ge limit_w active.length with hlt | hge
  · exact ⟨fun _ => 0, ⟨fun _ _ _ => rfl, fun hle => absurd hle (not_le.mpr hlt)⟩, distribute_zero hids hpos hlt⟩
  · obtain ⟨level, hone, hlevel, hgives⟩ := distribute_level hids le_rfl ((one_mul _).trans_le hge)
    exact ⟨fun s => min s.nominal_w level, ⟨fun hlt => absurd hlt (not_lt.mpr hge),
      fun _ => ⟨level, hone, hlevel, fun _ _ => rfl⟩⟩, hgives⟩

end EngineLemmas

section Result

variable [LinearOrder ι] [LinearOrder τ]

structure Result (limit_w : ℤ) (sessions : List (SessionDemand ι τ)) (target : SessionDemand ι τ → ℤ)
    (r : AllocationResult ι) : Prop where
  preempted : r.to_preempt = ids ((newest_first sessions).take (dropCount limit_w (newest_first sessions)))
  sorted : Sorted (survivors limit_w sessions) target r.to_decrease r.to_increase r.unchanged
  total : r.allocated_total_w = ((survivors limit_w sessions).map target).sum
  shares : Shares limit_w (survivors limit_w sessions) target

namespace EngineLemmas

theorem preempt_ids_nodup {limit_w : ℤ} {sessions : List (SessionDemand ι τ)} (hids : (ids sessions).Nodup) :
    (ids (preempt limit_w sessions []).1).Nodup := by
  have hperm := (@preempt_spec ι τ _ _ limit_w _ hids []).1
  have hsub : (ids (survivors limit_w sessions)).Sublist (ids (newest_first sessions)) :=
    (List.drop_sublist _ _).map _
  have hall : (ids (newest_first sessions)).Nodup := ((newest_first_perm sessions).map _).nodup_iff.mpr hids
  exact ((hperm.map _).nodup_iff).mpr (hall.sublist hsub)

theorem mem_of_mem_survivors {limit_w : ℤ} {sessions : List (SessionDemand ι τ)} {s : SessionDemand ι τ}
    (h : s ∈ survivors limit_w sessions) : s ∈ sessions :=
  (newest_first_perm sessions).subset (List.mem_of_mem_drop h)

/-- A session stays or is preempted, and not both. -/
theorem mem_survivors_iff {limit_w : ℤ} {sessions : List (SessionDemand ι τ)} (hids : (ids sessions).Nodup)
    {s : SessionDemand ι τ} (hs : s ∈ sessions) :
    s ∈ survivors limit_w sessions ↔
      s.session_id ∉ ids ((newest_first sessions).take (dropCount limit_w (newest_first sessions))) := by
  set k := dropCount limit_w (newest_first sessions) with hk
  have hall : (ids (newest_first sessions)).Nodup := ((newest_first_perm sessions).map _).nodup_iff.mpr hids
  have hsplit : ids ((newest_first sessions).take k) ++ ids ((newest_first sessions).drop k) =
      ids (newest_first sessions) := by
    rw [ids, ids, ← List.map_append, List.take_append_drop]
    rfl
  have hdisjoint : (ids ((newest_first sessions).take k)).Disjoint (ids ((newest_first sessions).drop k)) :=
    List.disjoint_of_nodup_append (hsplit ▸ hall)
  constructor
  · exact fun hmem hgone => hdisjoint hgone (List.mem_map_of_mem hmem)
  · intro hkept
    have hmem : s ∈ (newest_first sessions).take k ++ (newest_first sessions).drop k := by
      rw [List.take_append_drop]
      exact (newest_first_perm sessions).symm.subset hs
    exact (List.mem_append.mp hmem).resolve_left fun h => hkept (List.mem_map_of_mem h)

/-- The branches of `phan_bo_cong_suat` with a positive limit. -/
theorem phan_bo_result {limit_w : ℤ} (hpos : 0 < limit_w) {sessions : List (SessionDemand ι τ)}
    (hids : (ids sessions).Nodup) :
    ∃ target, Result limit_w sessions target (phan_bo_cong_suat limit_w sessions) := by
  obtain ⟨hkept, hgone⟩ := @preempt_spec ι τ _ _ limit_w _ hids []
  rw [phan_bo_cong_suat]
  split
  · next hnil =>
    subst hnil
    exact ⟨fun _ => 0, rfl, sorted_nil, rfl, shares_nil hpos _⟩
  rw [if_neg (not_le.mpr hpos)]
  simp only
  split
  · next hnil =>
    rw [hnil] at hkept
    refine ⟨fun _ => 0, hgone, ?_, ?_, ?_⟩ <;> rw [hkept.symm.eq_nil]
    · exact sorted_nil
    · rfl
    · exact shares_nil hpos _
  · obtain ⟨target, hshares, hgives⟩ := distribute_shares hpos (@preempt_ids_nodup ι τ _ _ limit_w _ hids)
    have hfill := fillMissing_eq fun s hs => Option.isSome_iff_exists.mpr ⟨target s, hgives.given s hs⟩
    rw [hfill]
    refine ⟨target, hgone, Sorted.perm hkept (classify_sorted (preempt_ids_nodup hids) hgives), ?_, Shares.perm hkept hshares⟩
    rw [hgives.sum_values (preempt_ids_nodup hids)]
    exact (hkept.map target).sum_eq

/-- What the sessions are given together, the preempted ones nothing. -/
theorem sum_targets_le {budget : ℤ} (hbudget : 0 ≤ budget) {sessions : List (SessionDemand ι τ)}
    (hids : (ids sessions).Nodup) (hrunning : (phan_bo_cong_suat budget sessions).is_degraded = false) :
    (sessions.map fun s => if s.session_id ∈ (phan_bo_cong_suat budget sessions).to_preempt then 0
      else ((phan_bo_cong_suat budget sessions).target s.session_id).getD 0).sum ≤ budget := by
  by_cases hnil : sessions = []
  · subst hnil
    exact hbudget
  rcases hbudget.eq_or_lt with hzero | hpos
  · rw [phan_bo_cong_suat, if_neg hnil, if_pos hzero.symm.le] at hrunning
    exact absurd hrunning nofun
  obtain ⟨target, h⟩ := phan_bo_result hpos hids
  rw [← ((newest_first_perm sessions).map _).sum_eq, ← List.take_append_drop
    (dropCount budget (newest_first sessions)) (newest_first sessions), List.map_append, List.sum_append]
  have hgone : ∀ s ∈ (newest_first sessions).take (dropCount budget (newest_first sessions)),
      (if s.session_id ∈ (phan_bo_cong_suat budget sessions).to_preempt then 0
        else ((phan_bo_cong_suat budget sessions).target s.session_id).getD 0) = 0 := fun s hs => by
    rw [if_pos]
    rw [h.preempted]
    exact List.mem_map_of_mem hs
  have hkept : ∀ s ∈ survivors budget sessions,
      (if s.session_id ∈ (phan_bo_cong_suat budget sessions).to_preempt then 0
        else ((phan_bo_cong_suat budget sessions).target s.session_id).getD 0) = target s := fun s hs => by
    rw [if_neg, h.sorted.target_eq hs]
    · rfl
    · rw [h.preempted]
      exact (mem_survivors_iff hids (mem_of_mem_survivors hs)).mp hs
  rw [List.map_congr_left hgone, ← survivors, List.map_congr_left hkept]
  simpa using Shares.sum_le hpos h.shares

end EngineLemmas

end Result

end Csms.Power
