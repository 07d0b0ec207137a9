import Csms.Lib.Table
import Csms.Pricing.Tariffs
import Csms.Billing.Display
import Csms.Stations.PowerBands

/-!
# Power schedules of stations (`stations/power_schedule_service.py`)

A schedule holds the normal form of the bands that were last saved for its station and date. The limit
of an instant is that of the schedule with the latest date, at the local minute.

Results: `run_faithful`, `power_limit_faithful`.
-/

namespace Csms.Stations

open Pricing Billing

/-! ## 1. The code -/

/-- A schedule with its bands in the order of `start_min`. -/
structure StationPowerSchedule where
  station_id : ℕ
  effective_from : ℤ
  bands : List PowerBandInput
  deriving DecidableEq, Repr

/-- The unique key of a schedule. -/
def StationPowerSchedule.key (s : StationPowerSchedule) : ℕ × ℤ := (s.station_id, s.effective_from)

/-- The schedule with the latest `effective_from` that is not after the date. -/
def get_effective_power_schedule (db : List StationPowerSchedule) (station_id : ℕ) (target_date : ℤ) :
    Option StationPowerSchedule :=
  ((db.filter fun s => s.station_id = station_id ∧ s.effective_from ≤ target_date).insertionSort
    fun a b => b.effective_from ≤ a.effective_from).head?

/-- `get_current_power_limit_w`; `station` is the zone of the station, if there is one. -/
def get_current_power_limit_w (db : List StationPowerSchedule) (station : Option Zone) (station_id : ℕ)
    (instant : ℤ) : Option ℤ := do
  let tz ← station
  let local_date := tz.localDate instant
  let local_min := localMinute tz instant
  let schedule ← get_effective_power_schedule db station_id local_date
  let band ← schedule.bands.find? fun band => band.start_min ≤ local_min && local_min < band.end_min
  return band.power_limit_w

/-- The arguments of `save_station_power_schedule`. -/
structure SaveCall where
  station_id : ℕ
  effective_from : ℤ
  raw_bands : List PowerBandInput
  deriving DecidableEq, Repr

def SaveCall.key (call : SaveCall) : ℕ × ℤ := (call.station_id, call.effective_from)

/-- The bands of an existing schedule are replaced. -/
def save_station_power_schedule (db : List StationPowerSchedule) (call : SaveCall) :
    Except (List PowerBandIssue) (List StationPowerSchedule) := do
  let normalized_bands ← kiem_khung_gio_cong_suat call.raw_bands
  if db.any fun s => s.key = call.key then
    return Table.modify StationPowerSchedule.key call.key (fun s => { s with bands := normalized_bands }) db
  else
    return db ++ [⟨call.station_id, call.effective_from, normalized_bands⟩]

/-- A call that raises is rolled back. -/
def saved (db : List StationPowerSchedule) (call : SaveCall) : List StationPowerSchedule :=
  match save_station_power_schedule db call with
  | .ok db' => db'
  | .error _ => db

/-- The schedules after a sequence of calls. -/
def run (calls : List SaveCall) : List StationPowerSchedule := calls.foldl saved []

/-! ## 2. What is stored -/

def SaveCall.Accepted (call : SaveCall) : Prop := ∃ result, kiem_khung_gio_cong_suat call.raw_bands = .ok result

/-- The call is the last accepted one for its station and date. -/
def LastSaved (calls : List SaveCall) (call : SaveCall) : Prop :=
  call.Accepted ∧ ∃ before after, calls = before ++ call :: after ∧
    ∀ later ∈ after, later.Accepted → later.key ≠ call.key

/-- The call saved the version that is in force at a station on a date. -/
structure InForce (calls : List SaveCall) (station_id : ℕ) (date : ℤ) (call : SaveCall) : Prop where
  last : LastSaved calls call
  station : call.station_id = station_id
  started : call.effective_from ≤ date
  latest : ∀ other ∈ calls, other.Accepted → other.station_id = station_id → other.effective_from ≤ date →
    other.effective_from ≤ call.effective_from

/-- The schedules are the normal forms of what was last saved. -/
structure Faithful (calls : List SaveCall) (db : List StationPowerSchedule) : Prop where
  keyed : Table.Keyed StationPowerSchedule.key db
  stored : ∀ s ∈ db, ∃ call, LastSaved calls call ∧ call.key = s.key ∧
    kiem_khung_gio_cong_suat call.raw_bands = .ok s.bands
  present : ∀ call ∈ calls, call.Accepted → ∃ s ∈ db, s.key = call.key

namespace PowerScheduleLemmas

/-- A later call of another key, or a rejected one, leaves the last one what it is. -/
theorem lastSaved_concat {calls : List SaveCall} {call next : SaveCall} (h : LastSaved calls call)
    (hnext : next.Accepted → next.key ≠ call.key) : LastSaved (calls ++ [next]) call := by
  obtain ⟨haccepted, before, after, rfl, hafter⟩ := h
  refine ⟨haccepted, before, after ++ [next], by simp, fun later hlater => ?_⟩
  rcases List.mem_append.mp hlater with hlater | hlater
  · exact hafter later hlater
  · rw [List.mem_singleton.mp hlater]
    exact hnext

theorem saved_eq_of_rejected {db : List StationPowerSchedule} {call : SaveCall} (h : ¬ call.Accepted) :
    saved db call = db := by
  unfold saved save_station_power_schedule
  cases hbands : kiem_khung_gio_cong_suat call.raw_bands with
  | ok result => exact absurd ⟨result, hbands⟩ h
  | error issues => rfl

theorem faithful_saved {calls : List SaveCall} {db : List StationPowerSchedule} (h : Faithful calls db)
    (call : SaveCall) : Faithful (calls ++ [call]) (saved db call) := by
  by_cases haccepted : call.Accepted
  swap
  · rw [saved_eq_of_rejected haccepted]
    refine ⟨h.keyed, fun s hs => ?_, fun c hc hca => ?_⟩
    · obtain ⟨c, hlast, hc⟩ := h.stored s hs
      exact ⟨c, lastSaved_concat hlast fun ha => absurd ha haccepted, hc⟩
    · rcases List.mem_append.mp hc with hc | hc
      · exact h.present c hc hca
      · rw [List.mem_singleton.mp hc] at hca
        exact absurd hca haccepted
  obtain ⟨bands, hbands⟩ := haccepted
  have hlast : LastSaved (calls ++ [call]) call := ⟨⟨bands, hbands⟩, calls, [], rfl, by simp⟩
  have hkeep : ∀ s ∈ db, s.key ≠ call.key → ∃ c, LastSaved (calls ++ [call]) c ∧ c.key = s.key ∧
      kiem_khung_gio_cong_suat c.raw_bands = .ok s.bands := by
    intro s hs hne
    obtain ⟨c, hc, hkey, hok⟩ := h.stored s hs
    exact ⟨c, lastSaved_concat hc fun _ => hkey ▸ Ne.symm hne, hkey, hok⟩
  unfold saved save_station_power_schedule
  rw [hbands]
  have hcall : ∀ {db' : List StationPowerSchedule}, (∀ s ∈ db, ∃ s' ∈ db', s'.key = s.key) →
      (∃ s ∈ db', s.key = call.key) → ∀ c ∈ calls ++ [call], c.Accepted → ∃ s ∈ db', s.key = c.key := by
    intro db' hold hnew c hc hca
    rcases List.mem_append.mp hc with hc | hc
    · obtain ⟨s, hs, hkey⟩ := h.present c hc hca
      obtain ⟨s', hs', hkey'⟩ := hold s hs
      exact ⟨s', hs', hkey'.trans hkey⟩
    · rwa [List.mem_singleton.mp hc]
  by_cases hany : db.any (fun s => s.key = call.key) = true
  · obtain ⟨s, hs, hkey⟩ := List.any_eq_true.mp hany
    have hkey := of_decide_eq_true hkey
    dsimp only [bind, Except.bind]
    rw [if_pos hany]
    have hmodified : ∀ s ∈ db, ∃ s' ∈ Table.modify StationPowerSchedule.key call.key
        (fun s => { s with bands := bands }) db, s'.key = s.key := fun s hs =>
      ⟨_, Table.mem_modify.mpr ⟨s, hs, rfl⟩, by split <;> rfl⟩
    refine ⟨h.keyed.modify fun _ hr => hr, fun r hr => ?_, hcall hmodified ?_⟩
    · obtain ⟨a, ha, rfl⟩ := Table.mem_modify.mp hr
      split
      · next hak => exact ⟨call, hlast, hak.symm, hbands⟩
      · next hak => exact hkeep a ha hak
    · obtain ⟨s', hs', hkey'⟩ := hmodified s hs
      exact ⟨s', hs', hkey'.trans hkey⟩
  · have hnew : ∀ s ∈ db, s.key ≠ call.key := fun s hs hkey =>
      hany (List.any_eq_true.mpr ⟨s, hs, decide_eq_true hkey⟩)
    dsimp only [bind, Except.bind]
    rw [if_neg hany]
    refine ⟨h.keyed.append hnew, fun r hr => ?_, hcall (fun s hs => ⟨s, List.mem_append_left _ hs, rfl⟩)
      ⟨_, List.mem_append_right _ List.mem_cons_self, rfl⟩⟩
    rcases List.mem_append.mp hr with hr | hr
    · exact hkeep r hr (hnew r hr)
    · rw [List.mem_singleton.mp hr]
      exact ⟨call, hlast, rfl, hbands⟩

theorem run_faithful (calls : List SaveCall) : Faithful calls (run calls) := by
  induction calls using List.reverseRecOn with
  | nil => exact ⟨List.Pairwise.nil, by simp [run], by simp⟩
  | append_singleton calls call ih =>
    rw [run, List.foldl_append]
    exact faithful_saved ih call

/-! ## 3. The lookup -/

theorem get_effective_spec {db : List StationPowerSchedule} {station_id : ℕ} {date : ℤ} {s : StationPowerSchedule}
    (h : get_effective_power_schedule db station_id date = some s) :
    s ∈ db ∧ s.station_id = station_id ∧ s.effective_from ≤ date ∧
      ∀ other ∈ db, other.station_id = station_id → other.effective_from ≤ date →
        other.effective_from ≤ s.effective_from := by
  unfold get_effective_power_schedule at h
  have hsorted := List.pairwise_insertionSort (fun a b : StationPowerSchedule => b.effective_from ≤ a.effective_from)
    (db.filter fun s => s.station_id = station_id ∧ s.effective_from ≤ date)
  obtain ⟨rest, hrest⟩ := List.head?_eq_some_iff.mp h
  have hmem : ∀ {r}, r ∈ s :: rest ↔ r ∈ db ∧ r.station_id = station_id ∧ r.effective_from ≤ date := by
    intro r
    rw [← hrest, List.mem_insertionSort, List.mem_filter, decide_eq_true_eq]
  rw [hrest] at hsorted
  obtain ⟨hdb, hstation, hdate⟩ := hmem.mp List.mem_cons_self
  refine ⟨hdb, hstation, hdate, fun other hother hos hod => ?_⟩
  rcases List.mem_cons.mp (hmem.mpr ⟨hother, hos, hod⟩) with rfl | hrest'
  · exact le_rfl
  · exact (List.pairwise_cons.mp hsorted).1 other hrest'

theorem get_effective_eq_none_iff {db : List StationPowerSchedule} {station_id : ℕ} {date : ℤ} :
    get_effective_power_schedule db station_id date = none ↔
      ∀ s ∈ db, s.station_id = station_id → ¬ s.effective_from ≤ date := by
  unfold get_effective_power_schedule
  rw [List.head?_eq_none_iff, List.eq_nil_iff_forall_not_mem]
  simp only [List.mem_insertionSort, List.mem_filter, decide_eq_true_eq, not_and]

theorem localMinute_mem (tz : Zone) (t : ℤ) : 0 ≤ localMinute tz t ∧ localMinute tz t < 1440 := by
  simp only [localMinute, DAY, MINUTE]
  omega

/-- The normal form of accepted bands finds the limit of the band that contains a minute. -/
theorem find_limit {raw bands : List PowerBandInput} (h : kiem_khung_gio_cong_suat raw = .ok bands) {m : ℤ}
    (h0 : 0 ≤ m) (h1 : m < 1440) :
    ∃ b, bands.find? (fun band => band.start_min ≤ m && m < band.end_min) = some b ∧ 0 < b.power_limit_w ∧
      (∃ band ∈ raw, contains band.start_min band.end_min m = true) ∧
      ∀ band ∈ raw, contains band.start_min band.end_min m = true → b.power_limit_w = band.power_limit_w := by
  have hminutes := kiem_khung_gio_cong_suat_ok h
  obtain ⟨hv, hcovered⟩ := (kiem_khung_gio_cong_suat_ok_iff raw).mp ⟨bands, h⟩
  obtain ⟨b', hb', hb0, hb1⟩ := (kiem_khung_gio_covers hminutes).cover m h0 h1
  obtain ⟨c, hc, rfl⟩ := List.mem_map.mp hb'
  have hsome : (bands.find? fun band => band.start_min ≤ m && m < band.end_min).isSome := by
    rw [List.find?_isSome]
    exact ⟨c, hc, by rw [Bool.and_eq_true]; exact ⟨decide_eq_true hb0, decide_eq_true hb1⟩⟩
  obtain ⟨b, hb⟩ := Option.isSome_iff_exists.mp hsome
  have hbm := List.find?_some hb
  rw [Bool.and_eq_true, decide_eq_true_eq, decide_eq_true_eq] at hbm
  have hlimit : ∀ band ∈ raw, contains band.start_min band.end_min m = true → b.power_limit_w = band.power_limit_w :=
    fun band hband hm => ((kiem_khung_gio_normal hminutes).same b.minutes (List.mem_map_of_mem (List.mem_of_find?_eq_some hb))
      m hbm.1 hbm.2 band.minutes (List.mem_map_of_mem hband) hm).1
  obtain ⟨i, hi⟩ := List.length_eq_one_iff.mp (hcovered m h0 h1)
  obtain ⟨p, hp, hm⟩ := CoverageLemmas.mem_ownersAt.mp (hi ▸ List.mem_singleton_self i : i ∈ ownersAt (powerLayout raw) m)
  rw [powerLayout, List.getElem?_map] at hp
  obtain ⟨band, hband, rfl⟩ := Option.map_eq_some_iff.mp hp
  have hmem := List.mem_of_getElem? hband
  refine ⟨b, hb, ?_, ⟨band, hmem, hm⟩, hlimit⟩
  have hpositive := (hv band hmem).2
  rw [validPowerLimit, Bool.and_eq_true, decide_eq_true_eq] at hpositive
  rw [hlimit band hmem hm]
  exact hpositive.1

theorem mem_of_lastSaved {calls : List SaveCall} {call : SaveCall} (h : LastSaved calls call) : call ∈ calls := by
  obtain ⟨-, before, after, rfl, -⟩ := h
  exact List.mem_append_right _ List.mem_cons_self

/-- One station and date have one last call. -/
theorem lastSaved_unique {calls : List SaveCall} {a b : SaveCall} (ha : LastSaved calls a) (hb : LastSaved calls b)
    (hkey : a.key = b.key) : a = b := by
  obtain ⟨haccepted, before, after, hcalls, hafter⟩ := ha
  obtain ⟨hbccepted, before', after', hcalls', hafter'⟩ := hb
  rcases List.append_eq_append_iff.mp (hcalls.symm.trans hcalls') with ⟨l, -, hl⟩ | ⟨l, -, hl⟩
  · cases l with
    | nil => exact (List.cons.inj hl).1
    | cons x l =>
      have hmem : b ∈ after := by
        rw [(List.cons.inj hl).2]
        exact List.mem_append_right _ List.mem_cons_self
      exact absurd hkey.symm (hafter b hmem hbccepted)
  · cases l with
    | nil => exact (List.cons.inj hl).1.symm
    | cons x l =>
      have hmem : a ∈ after' := by
        rw [(List.cons.inj hl).2]
        exact List.mem_append_right _ List.mem_cons_self
      exact absurd hkey (hafter' a hmem haccepted)

variable {calls : List SaveCall} {station_id : ℕ} {date : ℤ}

/-- The schedule that is found is that of the version in force. -/
theorem inForce_of_effective {s : StationPowerSchedule}
    (h : get_effective_power_schedule (run calls) station_id date = some s) :
    ∃ call, InForce calls station_id date call ∧ kiem_khung_gio_cong_suat call.raw_bands = .ok s.bands := by
  have hfaithful := run_faithful calls
  obtain ⟨hs, hstation, hdate, hlatest⟩ := get_effective_spec h
  obtain ⟨call, hlast, hkey, hbands⟩ := hfaithful.stored s hs
  obtain ⟨hsid, hfrom⟩ := Prod.mk.inj hkey
  refine ⟨call, ⟨hlast, hsid.trans hstation, hfrom ▸ hdate, fun other hother hoa hos hod => ?_⟩, hbands⟩
  obtain ⟨s', hs', hkey'⟩ := hfaithful.present other hother hoa
  obtain ⟨hsid', hfrom'⟩ := Prod.mk.inj hkey'
  have := hlatest s' hs' (hsid'.trans hos) (hfrom' ▸ hod)
  omega

theorem effective_of_inForce {call : SaveCall} (h : InForce calls station_id date call) :
    ∃ s, get_effective_power_schedule (run calls) station_id date = some s ∧
      kiem_khung_gio_cong_suat call.raw_bands = .ok s.bands := by
  cases hs : get_effective_power_schedule (run calls) station_id date with
  | none =>
    obtain ⟨s, hs', hkey⟩ := (run_faithful calls).present call (mem_of_lastSaved h.last) h.last.1
    obtain ⟨hsid, hfrom⟩ := Prod.mk.inj hkey
    exact absurd (hfrom ▸ h.started) (get_effective_eq_none_iff.mp hs s hs' (hsid.trans h.station))
  | some s =>
    obtain ⟨call', hforce, hbands⟩ := inForce_of_effective hs
    have hle := h.latest call' (mem_of_lastSaved hforce.last) hforce.last.1 hforce.station hforce.started
    have hge := hforce.latest call (mem_of_lastSaved h.last) h.last.1 h.station h.started
    have hkey : call.key = call'.key := Prod.ext (h.station.trans hforce.station.symm) (le_antisymm hge hle)
    exact ⟨s, rfl, lastSaved_unique h.last hforce.last hkey ▸ hbands⟩

theorem get_current_of_effective {db : List StationPowerSchedule} {tz : Zone} {instant : ℤ} {s : StationPowerSchedule}
    {b : PowerBandInput} (hs : get_effective_power_schedule db station_id (tz.localDate instant) = some s)
    (hb : s.bands.find? (fun band => band.start_min ≤ localMinute tz instant && localMinute tz instant < band.end_min) =
      some b) : get_current_power_limit_w db (some tz) station_id instant = some b.power_limit_w := by
  simp only [get_current_power_limit_w, Option.bind_eq_bind, Option.bind_some, hs, hb, Option.pure_def]

end PowerScheduleLemmas

open PowerScheduleLemmas

/-- After any calls, the limit of an instant is that of the band over the local minute in the version in
force, and there is none only where no version is in force. A rejected call changes no schedule. -/
theorem power_limit_faithful (calls : List SaveCall) (station_id : ℕ) (tz : Zone) (instant : ℤ) :
    (∀ call, InForce calls station_id (tz.localDate instant) call →
      ∃ band ∈ call.raw_bands, contains band.start_min band.end_min (localMinute tz instant) = true ∧
        get_current_power_limit_w (run calls) (some tz) station_id instant = some band.power_limit_w ∧
        0 < band.power_limit_w ∧
        ∀ other ∈ call.raw_bands, contains other.start_min other.end_min (localMinute tz instant) = true →
          other.power_limit_w = band.power_limit_w) ∧
    (get_current_power_limit_w (run calls) (some tz) station_id instant = none ↔
      ¬ ∃ call, InForce calls station_id (tz.localDate instant) call) ∧
    ∀ call : SaveCall, ¬ call.Accepted → run (calls ++ [call]) = run calls := by
  obtain ⟨h0, h1⟩ := localMinute_mem tz instant
  have hfound : ∀ call, InForce calls station_id (tz.localDate instant) call → ∃ b : PowerBandInput,
      get_current_power_limit_w (run calls) (some tz) station_id instant = some b.power_limit_w ∧
        0 < b.power_limit_w ∧
        (∃ band ∈ call.raw_bands, contains band.start_min band.end_min (localMinute tz instant) = true) ∧
        ∀ band ∈ call.raw_bands, contains band.start_min band.end_min (localMinute tz instant) = true →
          b.power_limit_w = band.power_limit_w := by
    intro call hcall
    obtain ⟨s, hs, hbands⟩ := effective_of_inForce hcall
    obtain ⟨b, hb, hlimit⟩ := find_limit hbands h0 h1
    exact ⟨b, get_current_of_effective hs hb, hlimit⟩
  refine ⟨fun call hcall => ?_, ?_, fun call hcall => ?_⟩
  · obtain ⟨b, hget, hpositive, ⟨band, hband, hm⟩, hsame⟩ := hfound call hcall
    have hlimit := hsame band hband hm
    refine ⟨band, hband, hm, hlimit ▸ hget, hlimit ▸ hpositive, fun other hother hom => ?_⟩
    exact (hsame other hother hom).symm.trans hlimit
  · constructor
    · rintro hnone ⟨call, hcall⟩
      obtain ⟨b, hget, -⟩ := hfound call hcall
      rw [hnone] at hget
      cases hget
    · intro hforce
      have heffective : get_effective_power_schedule (run calls) station_id (tz.localDate instant) = none := by
        cases hs : get_effective_power_schedule (run calls) station_id (tz.localDate instant) with
        | none => rfl
        | some s =>
          obtain ⟨call, hcall, -⟩ := inForce_of_effective hs
          exact absurd ⟨call, hcall⟩ hforce
      simp only [get_current_power_limit_w, Option.bind_eq_bind, Option.bind_some, heffective, Option.bind_none]
  · rw [run, List.foldl_append]
    exact saved_eq_of_rejected hcall

end Csms.Stations
