import Csms.Charging.System
import Csms.Power.Allocation

/-!
# The plan of a station (`power/worker.py`)

`devices` reads the connectors of a station, `plan` is the part of `_reconcile` that computes the targets.

Results: `allocation_minimal_and_fair`.
-/

namespace Csms.Power

open Csms.Charging WaterFill EngineLemmas

/-! ## 1. Devices -/

structure Device where
  connector_id : ℕ
  charge_point_id : ℕ
  number : ℕ
  boot_at : Option ℤ
  rated_w : ℤ
  reserved_w : ℤ
  confirmed_w : ℤ
  baseline_boot_at : Option ℤ
  pending_command_id : Option Uuid
  transaction_id : Option ℕ
  needs_power : Bool
  online : Bool
  authorized : Bool := true
  started_at : Option ℤ := none
  min_w : ℤ := 1380
  deriving DecidableEq, Repr

/-- The columns of a connector that `resolve_min_w` reads. -/
structure Rating where
  voltage : Option ℚ
  amperage : Option ℚ
  deriving DecidableEq, Repr

/-- `int(x)` of a decimal. -/
def truncate (x : ℚ) : ℤ := x.num.tdiv x.den

/-- A connector has neither `min_w` nor `min_power_w`. The products of two `Numeric(8, 2)` are exact. -/
def resolve_min_w (connector : Rating) : ℤ :=
  match connector.voltage, connector.amperage with
  | some voltage, some amperage => truncate (voltage * min 6 amperage)
  | some voltage, none =>
    if 500 ≤ voltage then 6000
    else if 380 ≤ voltage then 4150
    else truncate (voltage * 6)
  | none, _ => 1380

/-- The sockets whose boot was accepted, by charge point, and the ratings of the connectors. -/
structure Floor where
  sockets : List ℕ
  ratings : ℕ → Rating

/-- The open sessions of a station, by connector. -/
def activeSessions (s : Database) (station_id : ℕ) : Dict ℕ Session :=
  Dict.ofList (·.connector_id) id (s.charging_sessions.filter fun c =>
    c.ended_at.isNone ∧ ∃ point ∈ s.charge_points, point.id = c.charge_point_id ∧ point.station_id = station_id)

/-- The row of the join that `devices` selects, as a device. -/
def device (env : Environment) (floor : Floor) (active : Dict ℕ Session) (cap : ConnectorPower)
    (connector : Connector) (charger : ChargePoint) : Device :=
  let live : Bool := decide (charger.id ∈ floor.sockets) &&
    charger.last_seen_at.any (fun seen => env.now - 2 * charger.heartbeat_interval_seconds * 1000000 ≤ seen) &&
    !connector.archived && !charger.archived
  let sess := active.lookup connector.id
  { connector_id := cap.connector_id
    charge_point_id := charger.id
    number := connector.connector_number
    boot_at := charger.last_boot_at
    rated_w := cap.rated_w
    reserved_w := cap.reserved_w
    confirmed_w := cap.confirmed_w
    baseline_boot_at := cap.baseline_boot_at
    pending_command_id := cap.pending_command_id
    transaction_id := sess.map (·.id)
    needs_power := (connector.raw_ocpp_status = some .Charging || connector.raw_ocpp_status = some .SuspendedEVSE) &&
      sess.any (·.authorization_status = .accepted)
    online := live
    authorized := sess.all (·.authorization_status = .accepted)
    started_at := sess.map (·.started_at)
    min_w := resolve_min_w (floor.ratings connector.id) }

def devices (env : Environment) (floor : Floor) (s : Database) (station_id : ℕ) : List Device :=
  let active := activeSessions s station_id
  ((s.connector_power.filter (·.station_id = station_id)).insertionSort (·.connector_id ≤ ·.connector_id)).filterMap
    fun cap => do
      let connector ← s.connectors.find? (·.id = cap.connector_id)
      let charger ← s.charge_points.find? (·.id = connector.charge_point_id)
      some (device env floor active cap connector charger)

/-! ## 2. The targets -/

/-- The watts that offline connectors keep. -/
def pinned (inputs : List Device) : ℤ := ((inputs.filter (!·.online)).map (·.reserved_w)).sum

def charging_devices (inputs : List Device) : List Device :=
  inputs.filter fun d => d.online && d.needs_power && d.transaction_id.isSome

def session_demands (now : ℤ) (inputs : List Device) : List (SessionDemand ℕ ℤ) :=
  (charging_devices inputs).filterMap fun d => d.transaction_id.map fun tx =>
    { session_id := tx, started_at := d.started_at.getD now, current_w := d.confirmed_w, nominal_w := d.rated_w
      min_w := d.min_w }

/-- The target of an online connector. -/
def targetOf (alloc_res : AllocationResult ℕ) (d : Device) : ℤ :=
  match d.transaction_id with
  | none => 0
  | some tx_id =>
    if tx_id ∈ alloc_res.to_preempt ∨ d.needs_power = false then 0
    else (alloc_res.target tx_id).getD 0

/-- The targets that `_reconcile` computes, or the issue with which it degrades the station. -/
def plan (limit now : ℤ) (inputs : List Device) : Except String (Dict ℕ ℤ) :=
  if limit < pinned inputs then .error "offline_budget_exceeds_requested_limit"
  else
    let alloc_res := phan_bo_cong_suat (limit - pinned inputs) (session_demands now inputs)
    if alloc_res.is_degraded then .error "insufficient_power_limit"
    else .ok (Dict.ofList (·.connector_id) (targetOf alloc_res) (inputs.filter (·.online)))

namespace PlanLemmas

theorem connector_ids_nodup {env : Environment} {floor : Floor} {s : Database} {station_id : ℕ}
    (hcaps : Table.Keyed (·.connector_id) s.connector_power) :
    ((devices env floor s station_id).map (·.connector_id)).Nodup := by
  have hsorted : ((s.connector_power.filter (·.station_id = station_id)).insertionSort
      (·.connector_id ≤ ·.connector_id)).Pairwise fun a b => a.connector_id ≠ b.connector_id :=
    (List.perm_insertionSort _ _).symm.pairwise (hcaps.filter _) Ne.symm
  rw [List.Nodup, List.pairwise_map, devices, List.pairwise_filterMap]
  refine hsorted.imp fun {a b} hne d hd d' hd' => ?_
  obtain ⟨connector, -, hd⟩ := Option.bind_eq_some_iff.mp hd
  obtain ⟨charger, -, hd⟩ := Option.bind_eq_some_iff.mp hd
  obtain ⟨connector', -, hd'⟩ := Option.bind_eq_some_iff.mp hd'
  obtain ⟨charger', -, hd'⟩ := Option.bind_eq_some_iff.mp hd'
  cases hd
  cases hd'
  exact hne

/-- The transaction of a device is an open session at its connector. -/
theorem transaction_session {env : Environment} {floor : Floor} {s : Database} {station_id : ℕ} {d : Device}
    (hd : d ∈ devices env floor s station_id) {tx : ℕ} (htx : d.transaction_id = some tx) :
    ∃ c ∈ s.charging_sessions, c.id = tx ∧ c.connector_id = d.connector_id := by
  obtain ⟨cap, -, hd⟩ := List.mem_filterMap.mp hd
  obtain ⟨connector, hconnector, hd⟩ := Option.bind_eq_some_iff.mp hd
  obtain ⟨charger, -, hd⟩ := Option.bind_eq_some_iff.mp hd
  cases hd
  obtain ⟨c, hc, hid⟩ := Option.map_eq_some_iff.mp htx
  have hconn : connector.id = cap.connector_id := by simpa using List.find?_some hconnector
  obtain ⟨c', hc', hkey, rfl⟩ := Dict.of_lookup_ofList hc
  exact ⟨c', List.mem_of_mem_filter hc', hid, hkey.trans hconn⟩

/-- The demands carry the transactions of the charging devices. -/
theorem ids_session_demands (now : ℤ) (inputs : List Device) :
    ids (session_demands now inputs) = (charging_devices inputs).filterMap (·.transaction_id) := by
  rw [ids, session_demands, List.map_filterMap]
  refine List.filterMap_congr fun d _ => ?_
  cases d.transaction_id <;> rfl

theorem session_demands_nodup {env : Environment} {floor : Floor} {s : Database} {station_id : ℕ} (now : ℤ)
    (hsessions : Table.Keyed (·.id) s.charging_sessions) (hcaps : Table.Keyed (·.connector_id) s.connector_power) :
    (ids (session_demands now (devices env floor s station_id))).Nodup := by
  have hnodup := @connector_ids_nodup env floor s station_id hcaps
  rw [List.Nodup, List.pairwise_map] at hnodup
  rw [ids_session_demands, List.Nodup, List.pairwise_filterMap]
  refine (hnodup.filter _).imp_of_mem fun {d d'} hd hd' hne tx htx tx' htx' heq => hne ?_
  obtain ⟨c, hc, hid, hconn⟩ := transaction_session (List.mem_of_mem_filter hd) htx
  obtain ⟨c', hc', hid', hconn'⟩ := transaction_session (List.mem_of_mem_filter hd') htx'
  have hsame : c = c' := hsessions.eq hc hc' (hid.trans (heq.trans hid'.symm))
  rw [← hconn, ← hconn', hsame]

/-- Only the charging devices are given power. -/
theorem targetOf_eq_zero {alloc_res : AllocationResult ℕ} {d : Device}
    (h : ¬ (d.needs_power && d.transaction_id.isSome) = true) : targetOf alloc_res d = 0 := by
  rw [targetOf]
  cases htx : d.transaction_id with
  | none => rfl
  | some tx =>
    rw [htx] at h
    exact if_pos (.inr (by simpa using h))

theorem sum_filter_of_zero {α : Type} {p : α → Bool} {f : α → ℤ} (l : List α) (h : ∀ a ∈ l, p a = false → f a = 0) :
    (l.map f).sum = ((l.filter p).map f).sum := by
  induction l with
  | nil => rfl
  | cons a l ih =>
    have hl := ih fun b hb => h b (List.mem_cons_of_mem a hb)
    by_cases hp : p a = true
    · rw [List.filter_cons_of_pos hp, List.map_cons, List.map_cons, List.sum_cons, List.sum_cons, hl]
    · rw [List.filter_cons_of_neg hp, List.map_cons, List.sum_cons, hl,
        h a List.mem_cons_self (Bool.not_eq_true _ ▸ hp), zero_add]

/-- The targets of the online connectors are those of the demands. -/
theorem sum_targetOf (alloc_res : AllocationResult ℕ) (now : ℤ) (inputs : List Device) :
    ((inputs.filter (·.online)).map (targetOf alloc_res)).sum =
      ((session_demands now inputs).map fun s => if s.session_id ∈ alloc_res.to_preempt then 0
        else (alloc_res.target s.session_id).getD 0).sum := by
  rw [sum_filter_of_zero (p := fun d => d.needs_power && d.transaction_id.isSome) _ fun d _ hd =>
    targetOf_eq_zero (by simpa using hd), List.filter_filter]
  have hcharging : inputs.filter (fun d => (d.needs_power && d.transaction_id.isSome) && d.online) =
      charging_devices inputs := List.filter_congr fun d _ => by rw [Bool.and_comm, Bool.and_assoc]
  rw [hcharging, session_demands, List.map_filterMap]
  have hall : ∀ d ∈ charging_devices inputs, (d.needs_power && d.transaction_id.isSome) = true := fun d hd => by
    have := (List.mem_filter.mp hd).2
    simp_all
  revert hall
  induction charging_devices inputs with
  | nil => exact fun _ => rfl
  | cons d l ih =>
    intro hall
    obtain ⟨hneeds, htx⟩ := (Bool.and_eq_true _ _).mp (hall d List.mem_cons_self)
    obtain ⟨tx, htx⟩ := Option.isSome_iff_exists.mp htx
    have hl := ih fun d' hd' => hall d' (List.mem_cons_of_mem d hd')
    rw [List.map_cons, List.sum_cons, hl, List.filterMap_cons, htx]
    simp [targetOf, htx, hneeds]

/-- What the online connectors are given and the offline ones keep fits in the limit. -/
theorem plan_within_limit {env : Environment} {floor : Floor} {s : Database} {station_id : ℕ} {limit : ℤ}
    (hsessions : Table.Keyed (·.id) s.charging_sessions) (hcaps : Table.Keyed (·.connector_id) s.connector_power)
    {targets : Dict ℕ ℤ} (h : plan limit env.now (devices env floor s station_id) = .ok targets) :
    (Dict.values targets).sum + pinned (devices env floor s station_id) ≤ limit := by
  rw [plan] at h
  split at h
  · exact absurd h nofun
  next hpinned =>
    simp only at h
    split at h
    · exact absurd h nofun
    next hrunning =>
      cases h
      have hnodup : (((devices env floor s station_id).filter (·.online)).map (·.connector_id)).Nodup :=
        (connector_ids_nodup hcaps).sublist (List.filter_sublist.map _)
      have hvalues := congrArg Multiset.sum (@Dict.values_ofList _ _ _ _ _
        (targetOf (phan_bo_cong_suat (limit - pinned (devices env floor s station_id))
          (session_demands env.now (devices env floor s station_id)))) _ hnodup)
      rw [Multiset.sum_coe, Multiset.sum_coe] at hvalues
      have hsum := sum_targets_le (sub_nonneg.mpr (not_lt.mp hpinned))
        (session_demands_nodup env.now hsessions hcaps) (Bool.not_eq_true _ ▸ hrunning)
      rw [← sum_targetOf, ← hvalues] at hsum
      linarith

end PlanLemmas

/-! ## 3. Minimal preemption and fair filling -/

section Fair

variable {ι τ : Type} [LinearOrder ι]

/-- The preempted ids are the shortest beginning of the newest-first order whose removal leaves minima
that fit. -/
def PreemptsMinimally [LinearOrder τ] (limit_w : ℤ) (sessions : List (SessionDemand ι τ)) (to_preempt : List ι) : Prop :=
  ∃ k, to_preempt = ids ((newest_first sessions).take k) ∧ totalMin ((newest_first sessions).drop k) ≤ limit_w ∧
    ∀ j < k, limit_w < totalMin ((newest_first sessions).drop j)

/-- The sessions that a result does not preempt. -/
def AllocationResult.kept (r : AllocationResult ι) (sessions : List (SessionDemand ι τ)) : List (SessionDemand ι τ) :=
  sessions.filter (·.session_id ∉ r.to_preempt)

/-- The survivors are split over the three dictionaries by comparing target and current power. -/
structure Classified (sessions : List (SessionDemand ι τ)) (r : AllocationResult ι) : Prop where
  keys : ∀ id, (id ∈ r.to_decrease ∨ id ∈ r.to_increase ∨ id ∈ r.unchanged) ↔ id ∈ ids (r.kept sessions)
  disjoint : ∀ id, ¬ (id ∈ r.to_decrease ∧ id ∈ r.to_increase) ∧ ¬ (id ∈ r.to_decrease ∧ id ∈ r.unchanged) ∧
    ¬ (id ∈ r.to_increase ∧ id ∈ r.unchanged)
  decrease : ∀ s ∈ r.kept sessions, ∀ w, r.to_decrease.lookup s.session_id = some w → w < s.current_w
  increase : ∀ s ∈ r.kept sessions, ∀ w, r.to_increase.lookup s.session_id = some w → s.current_w < w
  unchanged : ∀ s ∈ r.kept sessions, ∀ w, r.unchanged.lookup s.session_id = some w → w = s.current_w

/-- The survivors are filled to one level, within the limit and with no watt to spare for each of those
below their nominal power. -/
structure FilledTo (limit_w : ℤ) (sessions : List (SessionDemand ι τ)) (r : AllocationResult ι) (level : ℤ) : Prop where
  target : ∀ s ∈ r.kept sessions, r.target s.session_id = some (min s.nominal_w level)
  total : r.allocated_total_w = ((r.kept sessions).map fun s => min s.nominal_w level).sum
  within : r.allocated_total_w ≤ limit_w
  unused : (∃ s ∈ r.kept sessions, min s.nominal_w level < s.nominal_w) →
    limit_w - r.allocated_total_w < (r.kept sessions).countP fun s => min s.nominal_w level < s.nominal_w

namespace PlanLemmas

theorem mem_of_lookup_if {d : Dict ι ℤ} {id : ι} {p : Prop} [Decidable p] {w : ℤ}
    (h : d.lookup id = if p then some w else none) : id ∈ d ↔ p := by
  rw [← AList.lookup_isSome, h]
  by_cases hp : p <;> simp [hp]

theorem classified {sessions : List (SessionDemand ι τ)} {target : SessionDemand ι τ → ℤ} {r : AllocationResult ι}
    (h : Sorted (r.kept sessions) target r.to_decrease r.to_increase r.unchanged) : Classified sessions r := by
  have hkey : ∀ s ∈ r.kept sessions, (s.session_id ∈ r.to_decrease ↔ target s < s.current_w) ∧
      (s.session_id ∈ r.to_increase ↔ s.current_w < target s) ∧ (s.session_id ∈ r.unchanged ↔ target s = s.current_w) :=
    fun s hs => ⟨mem_of_lookup_if (h.decrease s hs), mem_of_lookup_if (h.increase s hs), mem_of_lookup_if (h.same s hs)⟩
  have hother : ∀ id ∉ ids (r.kept sessions), id ∉ r.to_decrease ∧ id ∉ r.to_increase ∧ id ∉ r.unchanged :=
    fun id hid => by
      obtain ⟨hd, hi, hu⟩ := h.other id hid
      exact ⟨AList.lookup_eq_none.mp hd, AList.lookup_eq_none.mp hi, AList.lookup_eq_none.mp hu⟩
  refine ⟨fun id => ?_, fun id => ?_, fun s hs w hw => ?_, fun s hs w hw => ?_, fun s hs w hw => ?_⟩
  · by_cases hid : id ∈ ids (r.kept sessions)
    · refine ⟨fun _ => hid, fun _ => ?_⟩
      obtain ⟨s, hs, rfl⟩ := List.mem_map.mp hid
      obtain ⟨hd, hi, hu⟩ := hkey s hs
      rw [hd, hi, hu]
      rcases lt_trichotomy (target s) s.current_w with hlt | heq | hgt
      · exact .inl hlt
      · exact .inr (.inr heq)
      · exact .inr (.inl hgt)
    · obtain ⟨hd, hi, hu⟩ := hother id hid
      simp [hd, hi, hu, hid]
  · by_cases hid : id ∈ ids (r.kept sessions)
    · obtain ⟨s, hs, rfl⟩ := List.mem_map.mp hid
      obtain ⟨hd, hi, hu⟩ := hkey s hs
      rw [hd, hi, hu]
      omega
    · obtain ⟨hd, hi, hu⟩ := hother id hid
      simp [hd, hi, hu]
  · rw [h.decrease s hs, Option.ite_none_right_eq_some] at hw
    cases hw.2
    exact hw.1
  · rw [h.increase s hs, Option.ite_none_right_eq_some] at hw
    cases hw.2
    exact hw.1
  · rw [h.same s hs, Option.ite_none_right_eq_some] at hw
    cases hw.2
    exact hw.1

theorem filled_to {limit_w : ℤ} {sessions : List (SessionDemand ι τ)} {target : SessionDemand ι τ → ℤ}
    {r : AllocationResult ι} (hsorted : Sorted (r.kept sessions) target r.to_decrease r.to_increase r.unchanged)
    (htotal : r.allocated_total_w = ((r.kept sessions).map target).sum) {level : ℤ}
    (hlevel : Level limit_w (caps (r.kept sessions)) level)
    (htarget : ∀ s ∈ r.kept sessions, target s = min s.nominal_w level) : FilledTo limit_w sessions r level := by
  have hsum : r.allocated_total_w = ((r.kept sessions).map fun s => min s.nominal_w level).sum :=
    htotal.trans (congrArg List.sum (List.map_congr_left htarget))
  have hfill : r.allocated_total_w = fill (caps (r.kept sessions)) level := by
    rw [hsum, caps, fill_capsOf]
  have habove : above (caps (r.kept sessions)) level =
      (r.kept sessions).countP fun s => min s.nominal_w level < s.nominal_w := by
    rw [above, caps, capsOf, Multiset.coe_countP, List.countP_map]
    refine List.countP_congr fun s _ => ?_
    simp
  refine ⟨fun s hs => htarget s hs ▸ hsorted.target_eq hs, hsum, hfill ▸ hlevel.fits, ?_⟩
  rintro ⟨s, hs, hlt⟩
  rw [hfill, ← habove]
  refine hlevel.tight (above_pos.mpr ⟨s.nominal_w, Multiset.mem_coe.mpr (List.mem_map_of_mem hs), ?_⟩)
  simpa using hlt

variable [LinearOrder τ]

theorem kept_perm {limit_w : ℤ} {sessions : List (SessionDemand ι τ)} (hids : (ids sessions).Nodup)
    {target : SessionDemand ι τ → ℤ} {r : AllocationResult ι} (h : Result limit_w sessions target r) :
    (r.kept sessions).Perm (survivors limit_w sessions) := by
  have hnodup : sessions.Nodup := List.Nodup.of_map _ hids
  have hsurvivors : (survivors limit_w sessions).Nodup :=
    ((newest_first_perm sessions).nodup_iff.mpr hnodup).sublist (List.drop_sublist _ _)
  refine (List.perm_ext_iff_of_nodup (hnodup.filter _) hsurvivors).mpr fun s => ?_
  rw [List.mem_filter, decide_eq_true_iff, h.preempted]
  constructor
  · exact fun ⟨hs, hkept⟩ => (mem_survivors_iff hids hs).mpr hkept
  · intro hs
    have hmem := mem_of_mem_survivors hs
    exact ⟨hmem, (mem_survivors_iff hids hmem).mp hs⟩

theorem preempts_minimally {limit_w : ℤ} (hpos : 0 < limit_w) {sessions : List (SessionDemand ι τ)}
    {target : SessionDemand ι τ → ℤ} {r : AllocationResult ι} (h : Result limit_w sessions target r) :
    PreemptsMinimally limit_w sessions r.to_preempt := by
  refine ⟨_, h.preempted, ?_, fun j hj => lt_totalMin_drop hj⟩
  by_cases hnil : (newest_first sessions).drop (dropCount limit_w (newest_first sessions)) = []
  · rw [hnil]
    exact hpos.le
  · exact totalMin_drop_le hnil

end PlanLemmas

open PlanLemmas

variable [LinearOrder τ]

/-- The engine drops as few of the newest sessions as it can and fills the others to one level. In
`_reconcile`, what the online connectors are given and the offline ones keep never exceeds the limit. -/
theorem allocation_minimal_and_fair :
    (∀ (limit_w : ℤ) (sessions : List (SessionDemand ι τ)), 0 < limit_w → (sessions.map (·.session_id)).Nodup →
      (∀ s ∈ sessions, 0 ≤ s.min_w ∧ 1 ≤ s.nominal_w) →
      PreemptsMinimally limit_w sessions (phan_bo_cong_suat limit_w sessions).to_preempt ∧
      Classified sessions (phan_bo_cong_suat limit_w sessions) ∧
      ∃ level, FilledTo limit_w sessions (phan_bo_cong_suat limit_w sessions) level) ∧
    ∀ (env : Environment) (floor : Floor) (s : Database) (station_id : ℕ) (limit : ℤ) (targets : Dict ℕ ℤ),
      Table.Keyed (·.id) s.charging_sessions → Table.Keyed (·.connector_id) s.connector_power →
      plan limit env.now (devices env floor s station_id) = .ok targets →
      (Dict.values targets).sum + pinned (devices env floor s station_id) ≤ limit := by
  refine ⟨fun limit_w sessions hpos hids hdemand => ?_, fun _ _ _ _ _ _ hsessions hcaps h =>
    plan_within_limit hsessions hcaps h⟩
  obtain ⟨target, h⟩ := phan_bo_result hpos hids
  have hperm := (kept_perm hids h).symm
  have hsorted := Sorted.perm hperm h.sorted
  have hnominal : ∀ s ∈ (phan_bo_cong_suat limit_w sessions).kept sessions, 1 ≤ s.nominal_w := fun s hs =>
    (hdemand s (List.mem_of_mem_filter hs)).2
  obtain ⟨level, -, hlevel, htarget⟩ := Shares.level hpos (Shares.perm hperm h.shares) hnominal
  exact ⟨preempts_minimally hpos h, classified hsorted, level,
    filled_to hsorted (h.total.trans (hperm.map target).sum_eq) hlevel htarget⟩

end Fair

/-- One connector with a session that charges, and a rating of 7 kW. -/
def powered : Database :=
  { OneSession.charging [] with
    connectors := [{ OneSession.connector with raw_ocpp_status := some .Charging }]
    connector_power := [⟨0, 0, 7000, 0, 0, 0, none, none⟩] }

def oneFloor : Floor := ⟨[0], fun _ => ⟨some 230, some 32⟩⟩

/-- Two sessions, of which a limit of 2000 W keeps the older. -/
def twoSessions : List (SessionDemand ℕ ℤ) :=
  [{ session_id := 1, started_at := 10, current_w := 2500, nominal_w := 7000 },
   { session_id := 2, started_at := 20, current_w := 2500, nominal_w := 7000 }]

theorem allocation_minimal_and_fair_two_sessions :
    (phan_bo_cong_suat 2000 twoSessions).to_preempt = [2] ∧
    PreemptsMinimally 2000 twoSessions (phan_bo_cong_suat 2000 twoSessions).to_preempt ∧
    Classified twoSessions (phan_bo_cong_suat 2000 twoSessions) ∧
    (∃ level, FilledTo 2000 twoSessions (phan_bo_cong_suat 2000 twoSessions) level) ∧
    ∃ targets, plan 5000 0 (devices (OneSession.site 0) oneFloor powered 0) = .ok targets ∧
      (Dict.values targets).sum + pinned (devices (OneSession.site 0) oneFloor powered 0) ≤ 5000 := by
  obtain ⟨hengine, hplan⟩ := @allocation_minimal_and_fair ℕ ℤ _ _
  obtain ⟨hpreempts, hclassified, hfilled⟩ := hengine 2000 twoSessions (by decide) (by decide) (by decide)
  refine ⟨by decide +kernel, hpreempts, hclassified, hfilled, ?_⟩
  have hok : (plan 5000 0 (devices (OneSession.site 0) oneFloor powered 0)).isOk = true := by decide +kernel
  cases h : plan 5000 0 (devices (OneSession.site 0) oneFloor powered 0) with
  | error issue => exact absurd (h ▸ hok) nofun
  | ok targets => exact ⟨targets, rfl, hplan _ _ _ _ _ _ (List.pairwise_singleton _ _) (List.pairwise_singleton _ _) h⟩

end Csms.Power
