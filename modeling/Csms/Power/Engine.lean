import Csms.Lib.Dict
import Csms.Lib.WaterFill

/-!
# The power allocators (`stations/power_allocation_engine.py`, `power/allocation.py`)

Ids and instants are any types with a linear order. Watts are integers.
-/

namespace Csms.Power

/-! ## 1. `phan_bo_cong_suat` -/

structure SessionDemand (ι τ : Type) where
  session_id : ι
  started_at : τ
  current_w : ℤ
  nominal_w : ℤ
  min_w : ℤ := 1380
  deriving DecidableEq, Repr

structure AllocationResult (ι : Type) where
  to_decrease : Dict ι ℤ
  to_increase : Dict ι ℤ
  unchanged : Dict ι ℤ
  to_preempt : List ι
  preemption_reason : String := ""
  allocated_total_w : ℤ := 0
  is_degraded : Bool := false

section Engine

variable {ι τ : Type} [LinearOrder ι] [LinearOrder τ]

/-- The key `(started_at, session_id)`. -/
def SessionDemand.age (s : SessionDemand ι τ) : τ ×ₗ ι := toLex (s.started_at, s.session_id)

/-- `sorted(sessions, key=..., reverse=True)`, which is stable. -/
def newest_first (sessions : List (SessionDemand ι τ)) : List (SessionDemand ι τ) :=
  sessions.insertionSort fun a b => b.age ≤ a.age

/-- `sum(s.min_w for s in active)`. -/
def totalMin (active : List (SessionDemand ι τ)) : ℤ := (active.map (·.min_w)).sum

/-- `max(active, key=...)`, the first of equals. -/
def newest (active : List (SessionDemand ι τ)) : Option (SessionDemand ι τ) := active.argmax SessionDemand.age

/-- The loop of preemption: the active sessions and the preempted ids. -/
def preempt (limit_w : ℤ) (active : List (SessionDemand ι τ)) (preempted : List ι) :
    List (SessionDemand ι τ) × List ι :=
  if limit_w < totalMin active then
    match _hc : newest active with
    | none => (active, preempted)
    | some candidate_to_drop =>
      preempt limit_w (active.erase candidate_to_drop) (preempted ++ [candidate_to_drop.session_id])
  else (active, preempted)
termination_by active.length
decreasing_by
  have hmem := List.argmax_mem _hc
  have := List.length_pos_of_mem hmem
  rw [List.length_erase_of_mem hmem]
  omega

/-- The variables of a round of the distribution. -/
structure Round (ι τ : Type) where
  allocated : Dict ι ℤ
  remaining_budget : ℤ
  progress : Bool
  still_unassigned : List (SessionDemand ι τ)

/-- The body of the loop over the unassigned sessions. -/
def Round.visit (equal_share : ℤ) (r : Round ι τ) (s : SessionDemand ι τ) : Round ι τ :=
  if s.nominal_w ≤ equal_share then
    { r with allocated := r.allocated.insert s.session_id s.nominal_w
             remaining_budget := r.remaining_budget - s.nominal_w
             progress := true }
  else { r with still_unassigned := r.still_unassigned ++ [s] }

def playRound (equal_share remaining_budget : ℤ) (unassigned : List (SessionDemand ι τ)) (allocated : Dict ι ℤ) :
    Round ι τ :=
  unassigned.foldl (Round.visit equal_share) ⟨allocated, remaining_budget, false, []⟩

end Engine

namespace EngineLemmas

variable {ι τ : Type} [LinearOrder ι]

theorem foldl_visit (equal_share : ℤ) (unassigned : List (SessionDemand ι τ)) : ∀ r : Round ι τ,
    unassigned.foldl (Round.visit equal_share) r =
      { allocated := Dict.setAll (·.session_id) (·.nominal_w) (unassigned.filter (·.nominal_w ≤ equal_share))
          r.allocated
        remaining_budget := r.remaining_budget -
          ((unassigned.filter (·.nominal_w ≤ equal_share)).map (·.nominal_w)).sum
        progress := r.progress || unassigned.any (·.nominal_w ≤ equal_share)
        still_unassigned := r.still_unassigned ++ unassigned.filter (equal_share < ·.nominal_w) } := by
  induction unassigned with
  | nil => simp [Dict.setAll]
  | cons s unassigned ih =>
    intro r
    rw [List.foldl_cons, ih]
    by_cases hs : s.nominal_w ≤ equal_share
    · simp [Round.visit, hs, not_lt.mpr hs, Dict.setAll, sub_sub]
    · simp [Round.visit, hs, not_le.mp hs]

/-- What a round does. -/
theorem playRound_eq (equal_share remaining_budget : ℤ) (unassigned : List (SessionDemand ι τ))
    (allocated : Dict ι ℤ) :
    playRound equal_share remaining_budget unassigned allocated =
      { allocated := Dict.setAll (·.session_id) (·.nominal_w) (unassigned.filter (·.nominal_w ≤ equal_share))
          allocated
        remaining_budget := remaining_budget -
          ((unassigned.filter (·.nominal_w ≤ equal_share)).map (·.nominal_w)).sum
        progress := unassigned.any (·.nominal_w ≤ equal_share)
        still_unassigned := unassigned.filter (equal_share < ·.nominal_w) } := by
  rw [playRound, foldl_visit]
  simp

/-- A round with progress leaves fewer sessions. -/
theorem playRound_length_lt {equal_share remaining_budget : ℤ} {unassigned : List (SessionDemand ι τ)}
    {allocated : Dict ι ℤ} (h : (playRound equal_share remaining_budget unassigned allocated).progress = true) :
    (playRound equal_share remaining_budget unassigned allocated).still_unassigned.length < unassigned.length := by
  rw [playRound_eq] at h ⊢
  obtain ⟨s, hs, hcap⟩ := List.any_eq_true.mp h
  refine List.length_filter_lt_length_iff_exists.mpr ⟨s, hs, ?_⟩
  simpa using hcap

end EngineLemmas

section Engine

variable {ι τ : Type} [LinearOrder ι] [LinearOrder τ]

/-- The loop of the distribution. -/
def distribute (remaining_budget : ℤ) (unassigned : List (SessionDemand ι τ)) (allocated : Dict ι ℤ) : Dict ι ℤ :=
  if unassigned ≠ [] ∧ 0 < remaining_budget then
    let equal_share := remaining_budget / unassigned.length
    if equal_share = 0 then
      unassigned.foldl (fun d s => d.insert s.session_id ((d.lookup s.session_id).getD 0)) allocated
    else
      let r := playRound equal_share remaining_budget unassigned allocated
      if _hp : r.progress = true then distribute r.remaining_budget r.still_unassigned r.allocated
      else Dict.setAll (·.session_id) (fun _ => equal_share) r.still_unassigned r.allocated
  else allocated
termination_by unassigned.length
decreasing_by exact EngineLemmas.playRound_length_lt _hp

/-- `for s in active: if s.session_id not in allocated: ...`. -/
def fillMissing (active : List (SessionDemand ι τ)) (allocated : Dict ι ℤ) : Dict ι ℤ :=
  active.foldl (fun d s => if (d.lookup s.session_id).isSome then d else d.insert s.session_id 0) allocated

/-- The targets of the three dictionaries, as they are filled. -/
structure Classes (ι : Type) where
  to_decrease : Dict ι ℤ
  to_increase : Dict ι ℤ
  unchanged : Dict ι ℤ

/-- The body of the classification; every active session is allocated. -/
def Classes.visit (allocated : Dict ι ℤ) (c : Classes ι) (s : SessionDemand ι τ) : Classes ι :=
  let target := (allocated.lookup s.session_id).getD 0
  if target < s.current_w then { c with to_decrease := c.to_decrease.insert s.session_id target }
  else if s.current_w < target then { c with to_increase := c.to_increase.insert s.session_id target }
  else { c with unchanged := c.unchanged.insert s.session_id target }

def classify (active : List (SessionDemand ι τ)) (allocated : Dict ι ℤ) : Classes ι :=
  active.foldl (Classes.visit allocated) ⟨∅, ∅, ∅⟩

def phan_bo_cong_suat (limit_w : ℤ) (sessions : List (SessionDemand ι τ)) : AllocationResult ι :=
  if sessions = [] then { to_decrease := ∅, to_increase := ∅, unchanged := ∅, to_preempt := [] }
  else if limit_w ≤ 0 then
    { to_decrease := ∅, to_increase := ∅, unchanged := ∅
      to_preempt := (newest_first sessions).map (·.session_id)
      preemption_reason := "Hạn mức trạm bằng hoặc nhỏ hơn 0W"
      is_degraded := true }
  else
    let (active, preempted) := preempt limit_w sessions []
    if active = [] then
      { to_decrease := ∅, to_increase := ∅, unchanged := ∅
        to_preempt := preempted
        preemption_reason := "Hạn mức không đủ duy trì mức sạc tối thiểu cho bất kỳ xe nào"
        is_degraded := true }
    else
      let allocated := fillMissing active (distribute limit_w active ∅)
      let classes := classify active allocated
      { to_decrease := classes.to_decrease
        to_increase := classes.to_increase
        unchanged := classes.unchanged
        to_preempt := preempted
        preemption_reason :=
          if preempted = [] then ""
          else "Dừng " ++ toString preempted.length ++ " phiên sạc mới nhất do hạ hạn mức giờ cao điểm (hạn mức " ++
            toString limit_w ++ "W không đủ tải tối thiểu)"
        allocated_total_w := (Dict.values allocated).sum }

end Engine

/-! ## 2. `allocate_watts` -/

section Watts

variable {ι : Type} [LinearOrder ι]

/-- The variables of the loop. -/
structure Watts (ι : Type) where
  budget : ℤ
  remaining : Dict ι ℤ
  result : Dict ι ℤ

/-- `value = remaining.pop(key)`, and the value is allocated. -/
def Watts.pop (w : Watts ι) (key : ι) : Watts ι :=
  let value := (w.remaining.lookup key).getD 0
  { budget := w.budget - value
    remaining := w.remaining.erase key
    result := w.result.insert key value }

/-- The keys whose demand is within the share. -/
def Watts.capped (w : Watts ι) (share : ℤ) : List ι :=
  (w.remaining.entries.filter (·.2 ≤ share)).map (·.1)

end Watts

namespace EngineLemmas

variable {ι : Type} [LinearOrder ι]

/-- A pop leaves the other keys. -/
theorem foldl_pop_remaining (keys : List ι) : ∀ w : Watts ι,
    (keys.foldl Watts.pop w).remaining = keys.foldl (fun d key => d.erase key) w.remaining := by
  induction keys with
  | nil => exact fun _ => rfl
  | cons key keys ih => exact fun w => ih (w.pop key)

theorem length_foldl_erase_le (keys : List ι) : ∀ d : Dict ι ℤ,
    (keys.foldl (fun d key => d.erase key) d).keys.length ≤ d.keys.length := by
  induction keys with
  | nil => exact fun _ => le_rfl
  | cons key keys ih =>
    intro d
    refine (ih (d.erase key)).trans ?_
    rw [AList.keys_erase]
    exact List.length_erase_le

/-- A round that pops a key leaves fewer. -/
theorem pops_length_lt {w : Watts ι} {share : ℤ} (h : w.capped share ≠ []) :
    ((w.capped share).foldl Watts.pop w).remaining.keys.length < w.remaining.keys.length := by
  obtain ⟨key, keys, hkeys⟩ := List.exists_cons_of_ne_nil h
  have hmem : key ∈ w.remaining.keys := by
    have hkey : key ∈ w.capped share := hkeys ▸ List.mem_cons_self
    obtain ⟨e, he, rfl⟩ := List.mem_map.mp hkey
    exact List.mem_map_of_mem (List.mem_of_mem_filter he)
  have hpos := List.length_pos_of_mem hmem
  rw [foldl_pop_remaining, hkeys, List.foldl_cons]
  refine lt_of_le_of_lt (length_foldl_erase_le keys _) ?_
  rw [AList.keys_erase, List.length_erase_of_mem hmem]
  omega

end EngineLemmas

section Watts

variable {ι : Type} [LinearOrder ι]

/-- The loop of the water filling. -/
def fillWatts (w : Watts ι) : Dict ι ℤ :=
  if w.remaining.keys ≠ [] ∧ w.budget ≠ 0 then
    let share := w.budget / w.remaining.keys.length
    if share = 0 then w.result
    else if _hc : w.capped share ≠ [] then fillWatts ((w.capped share).foldl Watts.pop w)
    else Dict.setAll id (fun _ => share) w.remaining.keys w.result
  else w.result
termination_by w.remaining.keys.length
decreasing_by exact EngineLemmas.pops_length_lt _hc

/-- The two messages of `ValueError`. -/
def allocate_watts (budget : ℤ) (demands : Dict ι ℤ) : Except String (Dict ι ℤ) :=
  if budget < 0 then .error "Budget must be nonnegative integer watts"
  else if (Dict.values demands).any (· < 0) then .error "Demands must be nonnegative integer watts"
  else
    let result := Dict.ofList id (fun _ => 0) demands.keys
    let remaining := Dict.ofList (·.1) (·.2) (demands.entries.filter (·.2 ≠ 0))
    .ok (fillWatts ⟨budget, remaining, result⟩)

end Watts

end Csms.Power
