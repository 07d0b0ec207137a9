import Csms.Power.Allocation

/-!
# Minima and agreement

The preemption counts the minima, the distribution does not: `survivors_get_their_minimum` says exactly
when every survivor is given its minimum. `allocators_agree`: while no session has to be dropped, the
engine and `allocate_watts` compute the same targets.
-/

namespace Csms.Power

open WaterFill EngineLemmas

variable {ι τ : Type}

/-! ## 1. The minima of the survivors -/

namespace FairnessLemmas

theorem min_le_totalMin {l : List (SessionDemand ι τ)} (h : ∀ s ∈ l, 0 ≤ s.min_w) {t : SessionDemand ι τ}
    (ht : t ∈ l) : t.min_w ≤ totalMin l :=
  List.single_le_sum (fun w hw => by
    obtain ⟨s, hs, rfl⟩ := List.mem_map.mp hw
    exact h s hs) _ (List.mem_map_of_mem ht)

/-- The targets reach the minima exactly when every minimum could be everyone's level. -/
theorem Shares.reach_iff {limit_w : ℤ} {active : List (SessionDemand ι τ)} {target : SessionDemand ι τ → ℤ}
    (h : Shares limit_w active target) (hmin : ∀ s ∈ active, 0 ≤ s.min_w ∧ s.min_w ≤ s.nominal_w) :
    (∀ s ∈ active, s.min_w ≤ target s) ↔ ∀ t ∈ active, 0 < t.min_w →
      active.length ≤ limit_w ∧ (active.map fun s => min s.nominal_w t.min_w).sum ≤ limit_w := by
  rcases lt_or_ge limit_w active.length with hlt | hge
  · refine ⟨fun hreach t ht hpos => ?_, fun hall s hs => ?_⟩
    · have := hreach t ht
      rw [h.few hlt t ht] at this
      omega
    · rw [h.few hlt s hs]
      by_contra hpos
      exact absurd (hall s hs (by omega)).1 (not_le.mpr hlt)
  · obtain ⟨level, hone, hlevel, heq⟩ := h.enough hge
    refine ⟨fun hreach t ht _ => ⟨hge, ?_⟩, fun hall s hs => ?_⟩
    · have hle : t.min_w ≤ level := (heq t ht ▸ hreach t ht).trans (min_le_right _ _)
      have hfill := (fill_mono (caps active) hle).trans hlevel.fits
      rwa [caps, fill_capsOf] at hfill
    · rw [heq s hs]
      rcases (hmin s hs).1.eq_or_lt with hzero | hpos
      · exact le_min (hmin s hs).2 (by omega)
      · have hcap : s.nominal_w ∈ caps active := Multiset.mem_coe.mpr (List.mem_map_of_mem hs)
        refine hlevel.le_of_fill hcap (hmin s hs).2 ?_
        rw [caps, fill_capsOf]
        exact (hall s hs hpos).2

variable [LinearOrder ι] [LinearOrder τ]

/-- With a limit of zero or less, whoever would stay has no minimum. -/
theorem min_le_of_limit {limit_w : ℤ} {sessions : List (SessionDemand ι τ)} (hmin : ∀ s ∈ sessions, 0 ≤ s.min_w)
    {t : SessionDemand ι τ} (ht : t ∈ survivors limit_w sessions) : t.min_w ≤ limit_w :=
  (min_le_totalMin (fun s hs => hmin s (mem_of_mem_survivors hs)) ht).trans
    (totalMin_drop_le (List.ne_nil_of_mem ht))

end FairnessLemmas

open FairnessLemmas

section Minima

variable [LinearOrder ι] [LinearOrder τ]

/-- Every session that is not preempted is given its minimum exactly when, for the minimum of each
survivor that has one, there is a watt for every survivor and the limit would allow them all that
minimum, or their nominal power if this is less. -/
theorem survivors_get_their_minimum (limit_w : ℤ) (sessions : List (SessionDemand ι τ))
    (hids : (sessions.map (·.session_id)).Nodup) (hmin : ∀ s ∈ sessions, 0 ≤ s.min_w ∧ s.min_w ≤ s.nominal_w) :
    (∀ s ∈ sessions, s.session_id ∉ (phan_bo_cong_suat limit_w sessions).to_preempt →
        ∃ w, (phan_bo_cong_suat limit_w sessions).target s.session_id = some w ∧ s.min_w ≤ w) ↔
      ∀ t ∈ survivors limit_w sessions, 0 < t.min_w →
        (survivors limit_w sessions).length ≤ limit_w ∧
          ((survivors limit_w sessions).map fun s => min s.nominal_w t.min_w).sum ≤ limit_w := by
  rcases le_or_gt limit_w 0 with hzero | hpos
  · refine ⟨fun _ t ht hpos => ?_, fun _ s hs hkept => absurd ?_ hkept⟩
    · have := min_le_of_limit (fun s hs => (hmin s hs).1) ht
      omega
    · rw [phan_bo_cong_suat, if_neg (List.ne_nil_of_mem hs), if_pos hzero]
      exact List.mem_map_of_mem ((newest_first_perm sessions).symm.subset hs)
  · obtain ⟨target, h⟩ := phan_bo_result hpos hids
    rw [← Shares.reach_iff h.shares fun s hs => hmin s (mem_of_mem_survivors hs), h.preempted]
    refine ⟨fun hreach s hs => ?_, fun hreach s hs hkept => ?_⟩
    · have hmem := mem_of_mem_survivors hs
      obtain ⟨w, hw, hle⟩ := hreach s hmem ((mem_survivors_iff hids hmem).mp hs)
      rw [h.sorted.target_eq hs] at hw
      exact hle.trans_eq (Option.some_inj.mp hw).symm
    · have hmem := (mem_survivors_iff hids hs).mpr hkept
      exact ⟨target s, h.sorted.target_eq hmem, hreach s hmem⟩

end Minima

/-- An AC and a DC connector with the minima of `resolve_min_w`. -/
def mixed : List (SessionDemand ℕ ℕ) :=
  [{ session_id := 1, started_at := 0, current_w := 0, nominal_w := 7000 },
   { session_id := 2, started_at := 0, current_w := 0, nominal_w := 50000, min_w := 6000 }]

theorem survivors_get_their_minimum_mixed :
    (survivors 14000 mixed).length = 2 ∧
    ∀ s ∈ mixed, s.session_id ∉ (phan_bo_cong_suat 14000 mixed).to_preempt →
      ∃ w, (phan_bo_cong_suat 14000 mixed).target s.session_id = some w ∧ s.min_w ≤ w :=
  ⟨by decide +kernel, (survivors_get_their_minimum 14000 mixed (by decide) (by decide)).mpr (by decide +kernel)⟩

/-- The minima of both fit in 8000 W, and each gets 4000 W. -/
theorem minimum_missed :
    ¬ ∀ (limit_w : ℤ) (sessions : List (SessionDemand ℕ ℕ)), (sessions.map (·.session_id)).Nodup →
      (∀ s ∈ sessions, 0 ≤ s.min_w ∧ s.min_w ≤ s.nominal_w) →
      ∀ s ∈ sessions, s.session_id ∉ (phan_bo_cong_suat limit_w sessions).to_preempt →
        ∃ w, (phan_bo_cong_suat limit_w sessions).target s.session_id = some w ∧ s.min_w ≤ w := by
  intro h
  have hkept : 2 ∉ (phan_bo_cong_suat 8000 mixed).to_preempt := by decide +kernel
  have htarget : (phan_bo_cong_suat 8000 mixed).target 2 = some 4000 := by decide +kernel
  obtain ⟨w, hw, hle⟩ := h 8000 mixed (by decide) (by decide) _ (List.mem_cons_of_mem _ List.mem_cons_self) hkept
  obtain rfl : (4000 : ℤ) = w := Option.some_inj.mp (htarget.symm.trans hw)
  exact absurd hle (by decide)

/-! ## 2. `allocate_watts` -/

namespace FairnessLemmas

section Watts

variable [LinearOrder ι]

/-- What a key asks for. -/
def demand (d : Dict ι ℤ) (key : ι) : ℤ := (d.lookup key).getD 0

theorem lookup_eq_demand {d : Dict ι ℤ} {key : ι} (h : key ∈ d.keys) : d.lookup key = some (demand d key) := by
  obtain ⟨v, hv⟩ := Option.isSome_iff_exists.mp (AList.lookup_isSome.mpr (AList.mem_keys.mpr h))
  rw [demand, hv]
  rfl

theorem demand_of_mem_entries {d : Dict ι ℤ} {e : (_ : ι) × ℤ} (h : e ∈ d.entries) : demand d e.1 = e.2 := by
  rw [demand, Dict.lookup_of_mem_entries h]
  rfl

theorem capped_eq (w : Watts ι) (share : ℤ) :
    w.capped share = w.remaining.keys.filter (demand w.remaining · ≤ share) := by
  rw [Watts.capped, AList.keys, List.keys, List.filter_map]
  refine congrArg (List.map _) (List.filter_congr fun e he => ?_)
  rw [Function.comp_apply, demand_of_mem_entries he]

theorem capped_nodup (w : Watts ι) (share : ℤ) : (w.capped share).Nodup := by
  rw [capped_eq]
  exact w.remaining.keys_nodup.filter _

/-- Pops of distinct keys. -/
theorem foldl_pop {keys : List ι} (hnodup : keys.Nodup) : ∀ w : Watts ι,
    (keys.foldl Watts.pop w).budget = w.budget - (keys.map (demand w.remaining)).sum ∧
      (∀ k, (keys.foldl Watts.pop w).remaining.lookup k = if k ∈ keys then none else w.remaining.lookup k) ∧
      ∀ k, (keys.foldl Watts.pop w).result.lookup k =
        if k ∈ keys then some (demand w.remaining k) else w.result.lookup k := by
  induction keys with
  | nil => exact fun w => ⟨(sub_zero _).symm, fun k => rfl, fun k => rfl⟩
  | cons key keys ih =>
    intro w
    obtain ⟨hkey, hkeys⟩ := List.nodup_cons.mp hnodup
    obtain ⟨hbudget, hremaining, hresult⟩ := ih hkeys (w.pop key)
    have hdemand : ∀ k ∈ keys, demand (w.pop key).remaining k = demand w.remaining k := fun k hk => by
      have hne : k ≠ key := fun heq => hkey (heq ▸ hk)
      rw [demand, Watts.pop, AList.lookup_erase_ne hne, demand]
    refine ⟨?_, fun k => ?_, fun k => ?_⟩
    · rw [List.foldl_cons, hbudget, List.map_congr_left hdemand, List.map_cons, List.sum_cons, ← sub_sub]
      rfl
    · rw [List.foldl_cons, hremaining]
      by_cases hk : k ∈ keys
      · rw [if_pos hk, if_pos (List.mem_cons_of_mem key hk)]
      · rw [if_neg hk]
        by_cases heq : k = key
        · subst heq
          rw [if_pos List.mem_cons_self]
          exact AList.lookup_erase k _
        · rw [if_neg (by simp [heq, hk])]
          exact AList.lookup_erase_ne heq
    · rw [List.foldl_cons, hresult]
      by_cases hk : k ∈ keys
      · rw [if_pos hk, if_pos (List.mem_cons_of_mem key hk), hdemand k hk]
      · rw [if_neg hk]
        by_cases heq : k = key
        · subst heq
          rw [if_pos List.mem_cons_self]
          exact AList.lookup_insert _
        · rw [if_neg (by simp [heq, hk])]
          exact AList.lookup_insert_ne heq

theorem mem_keys_iff {d : Dict ι ℤ} {k : ι} : k ∈ d.keys ↔ d.lookup k ≠ none := by
  rw [← AList.mem_keys, Ne, AList.lookup_eq_none, not_not]

/-- The demands that a round leaves. -/
theorem capsOf_foldl_pop (w : Watts ι) (share : ℤ) :
    ((w.capped share).foldl Watts.pop w).remaining.keys.Perm (w.remaining.keys.filter (share < demand w.remaining ·)) ∧
      ∀ k ∈ ((w.capped share).foldl Watts.pop w).remaining.keys,
        demand ((w.capped share).foldl Watts.pop w).remaining k = demand w.remaining k := by
  obtain ⟨-, hremaining, -⟩ := foldl_pop (capped_nodup w share) w
  have hmem : ∀ k, k ∈ ((w.capped share).foldl Watts.pop w).remaining.keys ↔
      k ∉ w.capped share ∧ k ∈ w.remaining.keys := fun k => by
    rw [mem_keys_iff, mem_keys_iff, hremaining]
    split <;> simp_all
  refine ⟨(List.perm_ext_iff_of_nodup (AList.keys_nodup _) (w.remaining.keys_nodup.filter _)).mpr fun k => ?_,
    fun k hk => ?_⟩
  · rw [hmem, capped_eq, List.mem_filter, List.mem_filter, decide_eq_true_iff, decide_eq_true_iff]
    constructor
    · exact fun ⟨hnot, hk⟩ => ⟨hk, not_le.mp fun hle => hnot ⟨hk, hle⟩⟩
    · exact fun ⟨hk, hlt⟩ => ⟨fun h => absurd h.2 (not_le.mpr hlt), hk⟩
  · rw [demand, hremaining, if_neg ((hmem k).mp hk).1, demand]

/-- What the loop makes of its result: the remaining keys are filled to a level, the others stay. -/
structure Filled (w : Watts ι) (level : ℤ) (result : Dict ι ℤ) : Prop where
  filled : ∀ k ∈ w.remaining.keys, result.lookup k = some (min (demand w.remaining k) level)
  other : ∀ k ∉ w.remaining.keys, result.lookup k = w.result.lookup k

/-- The keys within the share get what they ask for, the others later. -/
theorem Filled.round {w : Watts ι} {share level : ℤ} (hle : share ≤ level) {result : Dict ι ℤ}
    (h : Filled ((w.capped share).foldl Watts.pop w) level result) : Filled w level result := by
  obtain ⟨hperm, hdemand⟩ := capsOf_foldl_pop w share
  obtain ⟨-, -, hresult⟩ := foldl_pop (capped_nodup w share) w
  have hleft : ∀ k, k ∈ ((w.capped share).foldl Watts.pop w).remaining.keys ↔
      k ∈ w.remaining.keys ∧ share < demand w.remaining k := fun k => by
    rw [hperm.mem_iff, List.mem_filter, decide_eq_true_iff]
  refine ⟨fun k hk => ?_, fun k hk => ?_⟩
  · rcases lt_or_ge share (demand w.remaining k) with hlt | hge
    · have hk' := (hleft k).mpr ⟨hk, hlt⟩
      rw [h.filled k hk', hdemand k hk']
    · rw [h.other k fun hk' => absurd ((hleft k).mp hk').2 (not_lt.mpr hge), hresult, if_pos,
        min_eq_left (hge.trans hle)]
      rw [capped_eq]
      exact List.mem_filter.mpr ⟨hk, decide_eq_true hge⟩
  · rw [h.other k fun hk' => hk ((hleft k).mp hk').1, hresult, if_neg]
    rw [capped_eq]
    exact fun hk' => hk (List.mem_filter.mp hk').1

/-- When every key can have a watt, the loop fills to a level. -/
theorem fillWatts_level {w : Watts ι} {share : ℤ} (hshare : 1 ≤ share)
    (hbudget : share * w.remaining.keys.length ≤ w.budget) :
    ∃ level, share ≤ level ∧ Level w.budget (capsOf (demand w.remaining) w.remaining.keys) level ∧
      Filled w level (fillWatts w) := by
  induction hn : w.remaining.keys.length using Nat.strong_induction_on generalizing w share with
  | h n ih =>
    subst hn
    by_cases hnil : w.remaining.keys = []
    · rw [fillWatts, if_neg (by simp [hnil]), hnil]
      rw [hnil] at hbudget
      refine ⟨share, le_rfl, .empty (by simpa using hbudget) share, fun k hk => ?_, fun _ _ => rfl⟩
      rw [hnil] at hk
      exact absurd hk List.not_mem_nil
    have hlen : 0 < (w.remaining.keys.length : ℤ) := by exact_mod_cast List.length_pos_iff.mpr hnil
    have hpos : 0 < w.budget := by nlinarith
    have hge : share ≤ w.budget / w.remaining.keys.length := (Int.le_ediv_iff_mul_le hlen).mpr hbudget
    have hmul : w.budget / w.remaining.keys.length * w.remaining.keys.length ≤ w.budget :=
      Int.ediv_mul_le _ hlen.ne'
    rw [fillWatts, if_pos ⟨hnil, hpos.ne'⟩]
    simp only
    rw [if_neg (by omega)]
    generalize hequal : w.budget / (w.remaining.keys.length : ℤ) = equal at hge hmul ⊢
    split
    · next hcapped =>
      have hlt := pops_length_lt hcapped
      obtain ⟨hperm, hdemand⟩ := capsOf_foldl_pop w equal
      have hspent : ((w.capped equal).foldl Watts.pop w).budget =
          w.budget - spent (demand w.remaining) equal w.remaining.keys := by
        rw [(foldl_pop (capped_nodup w equal) w).1, capped_eq, spent]
      have hleft := @share_mul_length_le ι (demand w.remaining) _ _ _ hmul
      rw [← hperm.length_eq, ← hspent] at hleft
      obtain ⟨level, hle, hlevel, hfilled⟩ := ih _ hlt (hshare.trans hge) hleft rfl
      refine ⟨level, hge.trans hle, Level.of_round hle ?_, Filled.round hle hfilled⟩
      rw [hspent, capsOf, List.map_congr_left hdemand] at hlevel
      rwa [← capsOf_perm hperm]
    · next hcapped =>
      have hall : ∀ k ∈ w.remaining.keys, equal < demand w.remaining k := by
        intro k hk
        by_contra hle
        refine hcapped (List.ne_nil_of_mem (a := k) ?_)
        rw [capped_eq]
        exact List.mem_filter.mpr ⟨hk, decide_eq_true (not_lt.mp hle)⟩
      have hlevel : Level w.budget (capsOf (demand w.remaining) w.remaining.keys) equal := by
        subst hequal
        exact Level.of_last hnil hall
      refine ⟨equal, hge, hlevel, fun k hk => ?_, fun k hk => ?_⟩
      · rw [min_eq_right (hall k hk).le]
        exact @Dict.lookup_setAll ι ℤ ι _ id _ _ k (by simpa using w.remaining.keys_nodup) hk _
      · exact Dict.lookup_setAll_of_notMem fun a ha heq => hk (heq ▸ ha)

/-- The entries of a dictionary with positive values make it up again. -/
theorem ofList_entries {d : Dict ι ℤ} (hpos : ∀ k ∈ d.keys, 1 ≤ demand d k) :
    (Dict.ofList (·.1) (·.2) (d.entries.filter (·.2 ≠ 0)) : Dict ι ℤ).keys.Perm d.keys ∧
      ∀ k ∈ d.keys, demand (Dict.ofList (·.1) (·.2) (d.entries.filter (·.2 ≠ 0)) : Dict ι ℤ) k = demand d k := by
  have hall : d.entries.filter (·.2 ≠ 0) = d.entries := List.filter_eq_self.mpr fun e he => by
    have h := hpos e.1 (List.mem_map_of_mem he)
    rw [demand_of_mem_entries he] at h
    simp only [ne_eq, decide_eq_true_iff]
    omega
  rw [hall]
  refine ⟨(List.perm_ext_iff_of_nodup (AList.keys_nodup _) d.keys_nodup).mpr fun k => ?_, fun k hk => ?_⟩
  · rw [← AList.mem_keys, Dict.mem_ofList]
    rfl
  · obtain ⟨e, he, rfl⟩ := List.mem_map.mp hk
    have hlookup := @Dict.lookup_ofList ι ℤ ((_ : ι) × ℤ) _ Sigma.fst Sigma.snd d.entries e d.keys_nodup he
    rw [demand, hlookup, demand_of_mem_entries he]
    rfl

/-- What `allocate_watts` returns for a positive budget and positive demands. -/
theorem allocate_watts_level {budget : ℤ} (hbudget : 1 ≤ budget) {demands : Dict ι ℤ}
    (hpos : ∀ k ∈ demands.keys, 1 ≤ demand demands k) :
    ∃ result level, allocate_watts budget demands = .ok result ∧
      Level budget (capsOf (demand demands) demands.keys) level ∧
      (∀ k ∈ demands.keys, result.lookup k = some (min (demand demands k) level)) ∧
      ∀ k ∉ demands.keys, result.lookup k = none := by
  have hvalid : ¬ (Dict.values demands).any (· < 0) = true := fun hany => by
    obtain ⟨v, hv, hneg⟩ := List.any_eq_true.mp hany
    obtain ⟨e, he, rfl⟩ := List.mem_map.mp hv
    have h := hpos e.1 (List.mem_map_of_mem he)
    rw [demand_of_mem_entries he] at h
    simp only [decide_eq_true_iff] at hneg
    omega
  rw [allocate_watts, if_neg (by omega), if_neg hvalid]
  obtain ⟨hkeys, hdemand⟩ := ofList_entries hpos
  set start : Watts ι := ⟨budget, Dict.ofList (·.1) (·.2) (demands.entries.filter (·.2 ≠ 0)),
    Dict.ofList id (fun _ => 0) demands.keys⟩ with hstart
  have hzero : ∀ k ∈ demands.keys, start.result.lookup k = some 0 := fun k hk =>
    @Dict.lookup_ofList ι ℤ ι _ id _ _ k (by simpa using demands.keys_nodup) hk
  have hnone : ∀ k ∉ demands.keys, start.result.lookup k = none := fun k hk =>
    AList.lookup_eq_none.mpr fun hmem => hk (by simpa using Dict.mem_ofList.mp hmem)
  have hmem : ∀ k, k ∈ start.remaining.keys ↔ k ∈ demands.keys := fun k => hkeys.mem_iff
  have hcaps : capsOf (demand start.remaining) start.remaining.keys = capsOf (demand demands) demands.keys := by
    rw [capsOf_perm hkeys]
    exact congrArg _ (List.map_congr_left hdemand)
  refine ⟨fillWatts start, ?_⟩
  rcases lt_or_ge budget start.remaining.keys.length with hlt | hge
  · have hresult : fillWatts start = start.result := by
      rw [fillWatts]
      split
      · simp only
        rw [if_pos (Int.ediv_eq_zero_of_lt (by omega) hlt)]
      · rfl
    rw [hkeys.length_eq] at hlt
    refine ⟨0, rfl, Level.of_few (by omega) hlt hpos, fun k hk => ?_, fun k hk => hresult ▸ hnone k hk⟩
    have := hpos k hk
    rw [hresult, hzero k hk, min_eq_right (by omega)]
  · obtain ⟨level, -, hlevel, hfilled⟩ := fillWatts_level le_rfl ((one_mul _).trans_le hge)
    rw [hcaps] at hlevel
    refine ⟨level, rfl, hlevel, fun k hk => ?_, fun k hk => ?_⟩
    · rw [hfilled.filled k ((hmem k).mpr hk), hdemand k hk]
    · rw [hfilled.other k fun h => hk ((hmem k).mp h)]
      exact hnone k hk

end Watts

end FairnessLemmas

/-! ## 3. Agreement -/

/-- Equality of results. -/
structure AllocationResult.Same [DecidableEq ι] (r r' : AllocationResult ι) : Prop where
  to_decrease : Dict.Same r.to_decrease r'.to_decrease
  to_increase : Dict.Same r.to_increase r'.to_increase
  unchanged : Dict.Same r.unchanged r'.unchanged
  to_preempt : r.to_preempt = r'.to_preempt
  preemption_reason : r.preemption_reason = r'.preemption_reason
  allocated_total_w : r.allocated_total_w = r'.allocated_total_w
  is_degraded : r.is_degraded = r'.is_degraded

namespace FairnessLemmas

variable [LinearOrder ι]

/-- The result when no session has to be dropped. -/
structure Undropped (limit_w : ℤ) (sessions : List (SessionDemand ι τ)) (level : ℤ) (r : AllocationResult ι) : Prop where
  sorted : Sorted sessions (fun s => min s.nominal_w level) r.to_decrease r.to_increase r.unchanged
  level_ok : Level limit_w (caps sessions) level
  to_preempt : r.to_preempt = []
  preemption_reason : r.preemption_reason = ""
  allocated_total_w : r.allocated_total_w = fill (caps sessions) level
  is_degraded : r.is_degraded = false

/-- The demands of the sessions. -/
theorem demands_of_sessions {sessions : List (SessionDemand ι τ)} (hids : (ids sessions).Nodup) :
    (Dict.ofList (·.session_id) (·.nominal_w) sessions : Dict ι ℤ).keys.Perm (ids sessions) ∧
      ∀ s ∈ sessions, demand (Dict.ofList (·.session_id) (·.nominal_w) sessions) s.session_id = s.nominal_w := by
  refine ⟨(List.perm_ext_iff_of_nodup (AList.keys_nodup _) hids).mpr fun k => ?_, fun s hs => ?_⟩
  · rw [← AList.mem_keys, Dict.mem_ofList]
    rfl
  · rw [demand, Dict.lookup_ofList hids hs]
    rfl

/-- Two undropped results of one limit and the same sessions are equal. -/
theorem Undropped.same {limit_w level level' : ℤ} {sessions sessions' : List (SessionDemand ι τ)}
    (hperm : sessions'.Perm sessions) {r r' : AllocationResult ι} (h : Undropped limit_w sessions level r)
    (h' : Undropped limit_w sessions' level' r') : r'.Same r := by
  have hlevel' : Level limit_w (caps sessions) level' := by
    have := h'.level_ok
    rwa [caps, capsOf_perm hperm] at this
  have hmin : ∀ s ∈ sessions, min s.nominal_w level' = min s.nominal_w level := fun s hs =>
    hlevel'.unique h.level_ok (Multiset.mem_coe.mpr (List.mem_map_of_mem hs))
  have hsorted := Sorted.perm hperm h'.sorted
  have hlookup : ∀ {d d' : Dict ι ℤ}, (∀ s ∈ sessions, d'.lookup s.session_id = d.lookup s.session_id) →
      (∀ id ∉ ids sessions, d'.lookup id = d.lookup id) → Dict.Same d' d := fun hs hother id => by
    by_cases hid : id ∈ ids sessions
    · obtain ⟨s, hmem, rfl⟩ := List.mem_map.mp hid
      exact hs s hmem
    · exact hother id hid
  refine ⟨hlookup (fun s hs => ?_) fun id hid => ?_, hlookup (fun s hs => ?_) fun id hid => ?_,
    hlookup (fun s hs => ?_) fun id hid => ?_, h'.to_preempt.trans h.to_preempt.symm,
    h'.preemption_reason.trans h.preemption_reason.symm, ?_, h'.is_degraded.trans h.is_degraded.symm⟩
  · rw [hsorted.decrease s hs, h.sorted.decrease s hs, hmin s hs]
  · rw [(hsorted.other id hid).1, (h.sorted.other id hid).1]
  · rw [hsorted.increase s hs, h.sorted.increase s hs, hmin s hs]
  · rw [(hsorted.other id hid).2.1, (h.sorted.other id hid).2.1]
  · rw [hsorted.same s hs, h.sorted.same s hs, hmin s hs]
  · rw [(hsorted.other id hid).2.2, (h.sorted.other id hid).2.2]
  · rw [h'.allocated_total_w, h.allocated_total_w, caps, caps, capsOf_perm hperm, fill_capsOf, fill_capsOf]
    exact congrArg List.sum (List.map_congr_left hmin)

variable [LinearOrder τ]

theorem survivors_perm {limit_w : ℤ} {sessions : List (SessionDemand ι τ)} (hfits : totalMin sessions ≤ limit_w) :
    (survivors limit_w sessions).Perm sessions ∧ dropCount limit_w (newest_first sessions) = 0 := by
  have hzero : dropCount limit_w (newest_first sessions) = 0 := by
    cases hn : newest_first sessions with
    | nil => rfl
    | cons s rest =>
      rw [dropCount, if_neg]
      rw [← hn, totalMin_perm (newest_first_perm sessions)]
      exact not_lt.mpr hfits
  rw [survivors, hzero]
  exact ⟨newest_first_perm sessions, rfl⟩

theorem phan_bo_undropped {limit_w : ℤ} (hpos : 0 < limit_w) {sessions : List (SessionDemand ι τ)}
    (hids : (ids sessions).Nodup) (hnominal : ∀ s ∈ sessions, 1 ≤ s.nominal_w)
    (hfits : totalMin sessions ≤ limit_w) :
    ∃ level, Undropped limit_w sessions level (phan_bo_cong_suat limit_w sessions) := by
  obtain ⟨target, h⟩ := phan_bo_result hpos hids
  obtain ⟨hperm, hzero⟩ := survivors_perm hfits
  obtain ⟨level, -, hlevel, htarget⟩ := Shares.level hpos (Shares.perm hperm h.shares) hnominal
  have hpreempt : preempt limit_w sessions [] = (sessions, []) := by
    rw [preempt, if_neg (not_lt.mpr hfits)]
  have hrest : (phan_bo_cong_suat limit_w sessions).preemption_reason = "" ∧
      (phan_bo_cong_suat limit_w sessions).is_degraded = false := by
    rw [phan_bo_cong_suat, hpreempt]
    split
    · exact ⟨rfl, rfl⟩
    · next hne =>
      rw [if_neg (not_le.mpr hpos)]
      simp [hne]
  have hsorted := Sorted.perm hperm h.sorted
  refine ⟨level, ⟨?_, ?_, ?_, hsorted.other⟩, hlevel, ?_, hrest.1, ?_, hrest.2⟩
  · exact fun s hs => htarget s hs ▸ hsorted.decrease s hs
  · exact fun s hs => htarget s hs ▸ hsorted.increase s hs
  · exact fun s hs => htarget s hs ▸ hsorted.same s hs
  · rw [h.preempted, hzero]
    rfl
  · rw [h.total, (hperm.map target).sum_eq, caps, fill_capsOf]
    exact congrArg List.sum (List.map_congr_left htarget)

end FairnessLemmas

section Agreement

variable [LinearOrder ι] [LinearOrder τ]

/-- While the minima fit, the engine and `allocate_watts` give every session the same target, in
whatever order the sessions come. -/
theorem allocators_agree (limit_w : ℤ) (hlimit : 1 ≤ limit_w) (sessions : List (SessionDemand ι τ))
    (hids : (sessions.map (·.session_id)).Nodup) (hnominal : ∀ s ∈ sessions, 1 ≤ s.nominal_w)
    (hfits : (sessions.map (·.min_w)).sum ≤ limit_w) :
    (∃ result, allocate_watts limit_w (Dict.ofList (·.session_id) (·.nominal_w) sessions) = .ok result ∧
      ∀ id, (phan_bo_cong_suat limit_w sessions).target id = result.lookup id) ∧
    ∀ sessions' : List (SessionDemand ι τ), sessions'.Perm sessions →
      (phan_bo_cong_suat limit_w sessions').Same (phan_bo_cong_suat limit_w sessions) := by
  obtain ⟨level, h⟩ := phan_bo_undropped (by omega) hids hnominal hfits
  refine ⟨?_, fun sessions' hperm => ?_⟩
  · obtain ⟨hkeys, hdemand⟩ := demands_of_sessions hids
    have hdemands : ∀ k ∈ ids sessions, 1 ≤ demand (Dict.ofList (·.session_id) (·.nominal_w) sessions) k := by
      intro k hk
      obtain ⟨s, hs, rfl⟩ := List.mem_map.mp hk
      exact hdemand s hs ▸ hnominal s hs
    obtain ⟨result, level', hok, hlevel', hgiven, hnone⟩ :=
      allocate_watts_level hlimit fun k hk => hdemands k (hkeys.subset hk)
    have hcaps : capsOf (demand (Dict.ofList (·.session_id) (·.nominal_w) sessions)) (ids sessions) =
        caps sessions := by
      rw [capsOf, ids, List.map_map]
      exact congrArg _ (List.map_congr_left hdemand)
    rw [capsOf_perm hkeys, hcaps] at hlevel'
    refine ⟨result, hok, fun id => ?_⟩
    by_cases hid : id ∈ ids sessions
    · obtain ⟨s, hs, rfl⟩ := List.mem_map.mp hid
      rw [h.sorted.target_eq hs, hgiven _ (hkeys.symm.subset hid), hdemand s hs,
        h.level_ok.unique hlevel' (Multiset.mem_coe.mpr (List.mem_map_of_mem hs))]
    · rw [h.sorted.target_other hid, hnone id fun hk => hid (hkeys.subset hk)]
  · have hids' : (ids sessions').Nodup := (hperm.map _).nodup_iff.mpr hids
    obtain ⟨level', h'⟩ := phan_bo_undropped (show 0 < limit_w by omega) hids'
      (fun s hs => hnominal s (hperm.subset hs)) ((totalMin_perm hperm).trans_le hfits)
    exact Undropped.same hperm h h'

end Agreement

theorem allocators_agree_mixed :
    (∃ result, allocate_watts 8000 (Dict.ofList (·.session_id) (·.nominal_w) mixed) = .ok result ∧
      ∀ id, (phan_bo_cong_suat 8000 mixed).target id = result.lookup id) ∧
    ∀ sessions' : List (SessionDemand ℕ ℕ), sessions'.Perm mixed →
      (phan_bo_cong_suat 8000 sessions').Same (phan_bo_cong_suat 8000 mixed) :=
  allocators_agree 8000 (by decide) mixed (by decide) (by decide) (by decide)

end Csms.Power
