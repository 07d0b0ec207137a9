import Csms.Lib.Datetime
import Csms.Lib.Outcome
import Csms.Lib.Table
import Csms.Pricing.Tariffs

/-!
# The history of a station's tariffs (`pricing/service.py`, `pricing/creation.py`, `pricing/router.py`)

A tariff is created for today, when it is the first of its station, or for a later day. It can be
edited while its day is ahead and no invoice has used it. Every call holds the lock of its station
and happens at one time; a call that raises changes nothing.

Results:
1. `apply_change`: what a call may do to the tariffs.
2. `run_ok`: dates stay distinct and bands complete along every run.
3. `price_history_immutable`: the prices of every day up to today stay what they are.
-/

namespace Csms.Pricing

open Outcome

/-! ## 1. The code -/

inductive TariffError where
  | ownershipDenied
  | notFound (message : String)
  | effectiveDate (message : String)
  | duplicateDate (message : String)
  | immutable (message : String)
  | bands (issues : List BandIssue)
  | integrityError (constraint : String)
  deriving DecidableEq, Repr

/-- A station with its zone. -/
structure Station where
  id : ℕ
  timezone : Zone

/-- The body of a creation or an edit, after `TariffCreateRequest`. -/
structure TariffRequest where
  effective_from : ℤ
  idle_rate_vnd_per_minute : ℤ
  grace_minutes : ℤ
  bands : List BandInput
  money : 0 ≤ idle_rate_vnd_per_minute ∧ idle_rate_vnd_per_minute ≤ 2 ^ 63 - 1
  grace : 0 ≤ grace_minutes ∧ grace_minutes ≤ 2 ^ 31 - 1

/-- `_station`. -/
def _station (stations : List Station) (station_id : ℕ) : Except TariffError Station :=
  match stations.find? (·.id = station_id) with
  | some station => .ok station
  | none => .error (.notFound "Station does not exist")

/-- `StationRepository.get_station_by_id`: the station, if the actor may see it. -/
def get_station_by_id (stations : List Station) (owned : Bool) (station_id : ℕ) :
    Except TariffError Station :=
  match stations.find? (·.id = station_id) with
  | some station => if owned then .ok station else .error .ownershipDenied
  | none => .error (.notFound "Station does not exist")

/-- `ngay_dia_phuong`. -/
def ngay_dia_phuong (timezone : Zone) (at_ : ℤ) : ℤ := timezone.localDate at_

/-- `kiem_bieu_gia_co_the_sua`. -/
def kiem_bieu_gia_co_the_sua (stations : List Station) (now : ℤ) (tariffs : List Tariff)
    (station_id tariff_id : ℕ) : Except TariffError Tariff := do
  let station ← _station stations station_id
  match tariffs.find? fun t => t.id = tariff_id ∧ t.station_id = station_id with
  | none => .error (.notFound "Tariff does not belong to this station")
  | some tariff =>
    if tariff.effective_from ≤ ngay_dia_phuong station.timezone now ∨ tariff.used_at ≠ none then
      .error (.immutable "An effective or invoice-used tariff is immutable")
    else .ok tariff

/-- The versions a new date is compared with. -/
def versions (tariffs : List Tariff) (station_id : ℕ) (exclude_tariff_id : Option ℕ) : List Tariff :=
  tariffs.filter fun t => t.station_id = station_id ∧ some t.id ≠ exclude_tariff_id

/-- The check of an effective date against the other versions. -/
def checkDate (today effective_from : ℤ) (others : List Tariff) : Except TariffError Unit :=
  if others = [] then
    if effective_from ≠ today then
      .error (.effectiveDate "The first tariff must start today in station time")
    else .ok ()
  else if effective_from < today + 1 then
    .error (.effectiveDate "Later tariffs must start tomorrow or later in station time")
  else if ∃ t ∈ others, t.effective_from = effective_from then
    .error (.duplicateDate "A tariff already exists for this effective date")
  else .ok ()

/-- `kiem_ngay_hieu_luc`. Among no other versions there is no duplicate. -/
def kiem_ngay_hieu_luc (stations : List Station) (now : ℤ) (tariffs : List Tariff) (station_id : ℕ)
    (effective_from : ℤ) : Option ℕ → Except TariffError Unit
  | none => do
    let station ← _station stations station_id
    checkDate (ngay_dia_phuong station.timezone now) effective_from (versions tariffs station_id none)
  | some tariff_id => do
    let station ← _station stations station_id
    let _ ← kiem_bieu_gia_co_the_sua stations now tariffs station_id tariff_id
    checkDate (ngay_dia_phuong station.timezone now) effective_from
      (versions tariffs station_id (some tariff_id))

/-- `kiem_khung_gio` with its exception. -/
def checkBands (bands : List BandInput) : Except TariffError (List BandInput) :=
  match kiem_khung_gio bands with
  | .ok normalized => .ok normalized
  | .error issues => .error (.bands issues)

/-- `tao_bieu_gia`; `new_id` is the value of `uuid4()`. -/
def tao_bieu_gia (stations : List Station) (owned : Bool) (now : ℤ) (station_id new_id : ℕ)
    (request : TariffRequest) (tariffs : List Tariff) : Except TariffError (List Tariff) := do
  let _ ← get_station_by_id stations owned station_id
  let normalized ← checkBands request.bands
  kiem_ngay_hieu_luc stations now tariffs station_id request.effective_from none
  if ∃ t ∈ tariffs, t.id = new_id then .error (.integrityError "tariffs_pkey")
  else
    .ok (tariffs ++ [{ id := new_id, station_id, effective_from := request.effective_from, used_at := none
                       idle_rate_vnd_per_minute := request.idle_rate_vnd_per_minute
                       grace_minutes := request.grace_minutes, bands := normalized }])

/-- The fields an edit replaces. -/
def Tariff.edit (request : TariffRequest) (normalized : List BandInput) (t : Tariff) : Tariff :=
  { t with
    effective_from := request.effective_from
    idle_rate_vnd_per_minute := request.idle_rate_vnd_per_minute
    grace_minutes := request.grace_minutes
    bands := normalized }

/-- `edit_tariff`. -/
def edit_tariff (stations : List Station) (owned : Bool) (now : ℤ) (station_id tariff_id : ℕ)
    (request : TariffRequest) (tariffs : List Tariff) : Except TariffError (List Tariff) := do
  let _ ← get_station_by_id stations owned station_id
  let tariff ← kiem_bieu_gia_co_the_sua stations now tariffs station_id tariff_id
  let normalized ← checkBands request.bands
  kiem_ngay_hieu_luc stations now tariffs station_id request.effective_from (some tariff_id)
  return Table.modify Tariff.id tariff.id (Tariff.edit request normalized) tariffs

/-- The calls on tariffs. -/
inductive TariffOp where
  | create (owned : Bool) (station_id new_id : ℕ) (request : TariffRequest)
  | edit (owned : Bool) (station_id tariff_id : ℕ) (request : TariffRequest)
  | mark (station_id tariff_id : ℕ)

def TariffOp.apply (stations : List Station) (now : ℤ) :
    TariffOp → List Tariff → Except TariffError (List Tariff)
  | .create owned station_id new_id request => tao_bieu_gia stations owned now station_id new_id request
  | .edit owned station_id tariff_id request => edit_tariff stations owned now station_id tariff_id request
  | .mark station_id tariff_id => fun tariffs => do
    let _ ← _station stations station_id
    match tariffs.find? fun t => t.id = tariff_id ∧ t.station_id = station_id with
    | none => .error (.notFound "Tariff does not belong to this station")
    | some _ => .ok (danh_dau_bieu_gia_da_dung tariffs station_id tariff_id now)

/-- The tariffs after a call; an exception rolls its transaction back. -/
def TariffOp.commit (stations : List Station) (now : ℤ) (op : TariffOp) (tariffs : List Tariff) :
    List Tariff :=
  match op.apply stations now tariffs with
  | .ok tariffs' => tariffs'
  | .error _ => tariffs

/-- From the tariffs `s` at the time `t` to `s'` at `t'`: time passes, and calls happen. -/
inductive TariffRun (stations : List Station) (t : ℤ) (s : List Tariff) : ℤ → List Tariff → Prop
  | refl : TariffRun stations t s t s
  | wait {t' : ℤ} {s' : List Tariff} (run : TariffRun stations t s t' s') (t'' : ℤ) (le : t' ≤ t'') :
      TariffRun stations t s t'' s'
  | call {t' : ℤ} {s' : List Tariff} (run : TariffRun stations t s t' s') (op : TariffOp) :
      TariffRun stations t s t' (op.commit stations t' s')

/-! ## 2. What a call may do -/

/-- What an invoice is computed from: everything but the mark of its use. -/
def Tariff.terms (t : Tariff) : Tariff := { t with used_at := none }

/-- Every minute of the day lies in exactly one of the bands. -/
def OncePerMinute (bands : List BandInput) : Prop :=
  ∀ m : ℤ, 0 ≤ m → m < 1440 → (bandsAt bands m).length = 1

/-- A change of the tariffs, at a time when the date of the station `station_id` is `today`. -/
inductive Change (station_id : ℕ) (today : ℤ) (s : List Tariff) : List Tariff → Prop
  | same : Change station_id today s s
  | first (x : Tariff) (station : x.station_id = station_id) (id : ∀ t ∈ s, t.id ≠ x.id)
      (none : ∀ t ∈ s, t.station_id ≠ station_id) (date : x.effective_from = today)
      (bands : OncePerMinute x.bands) : Change station_id today s (s ++ [x])
  | later (x : Tariff) (station : x.station_id = station_id) (id : ∀ t ∈ s, t.id ≠ x.id)
      (some : ∃ t ∈ s, t.station_id = station_id) (date : today < x.effective_from)
      (fresh : ∀ t ∈ s, t.station_id = station_id → t.effective_from ≠ x.effective_from)
      (bands : OncePerMinute x.bands) : Change station_id today s (s ++ [x])
  | edited (x : Tariff) (f : Tariff → Tariff) (mem : x ∈ s) (station : x.station_id = station_id)
      (ahead : today < x.effective_from) (unused : x.used_at = none)
      (same : ∀ t, (f t).id = t.id ∧ (f t).station_id = t.station_id ∧ (f t).used_at = t.used_at)
      (date : ∀ t, (f t).effective_from = (f x).effective_from)
      (bands : ∀ t, OncePerMinute (f t).bands)
      (first : (∀ t ∈ s, t.station_id = station_id → t.id = x.id) → (f x).effective_from = today)
      (later : (∃ t ∈ s, t.station_id = station_id ∧ t.id ≠ x.id) → today < (f x).effective_from ∧
        ∀ t ∈ s, t.station_id = station_id → t.id ≠ x.id → t.effective_from ≠ (f x).effective_from) :
      Change station_id today s (Table.modify Tariff.id x.id f s)
  | marked (tariff_id : ℕ) (now : ℤ) :
      Change station_id today s (danh_dau_bieu_gia_da_dung s station_id tariff_id now)

namespace HistoryLemmas

theorem checkBands_once {bands normalized : List BandInput} (h : checkBands bands = .ok normalized) :
    OncePerMinute normalized := by
  unfold checkBands at h
  split at h
  · next hk =>
    cases h
    exact fun m h0 h1 => kiem_khung_gio_once hk h0 h1
  · cases h

theorem station_mem {stations : List Station} {station_id : ℕ} {station : Station}
    (h : _station stations station_id = .ok station) : station ∈ stations ∧ station.id = station_id := by
  unfold _station at h
  split at h
  · next hfind =>
    cases h
    exact ⟨List.mem_of_find?_eq_some hfind, by simpa using List.find?_some hfind⟩
  · cases h

theorem mem_versions {tariffs : List Tariff} {station_id : ℕ} {exclude : Option ℕ} {t : Tariff} :
    t ∈ versions tariffs station_id exclude ↔ t ∈ tariffs ∧ t.station_id = station_id ∧ some t.id ≠ exclude := by
  simp [versions]

theorem checkDate_ok {today effective_from : ℤ} {others : List Tariff} {u : Unit}
    (h : checkDate today effective_from others = .ok u) :
    (others = [] ∧ effective_from = today) ∨
    (others ≠ [] ∧ today < effective_from ∧ ∀ t ∈ others, t.effective_from ≠ effective_from) := by
  unfold checkDate at h
  split at h
  · next hnil =>
    split at h
    · cases h
    · next heq => exact .inl ⟨hnil, not_not.mp heq⟩
  · next hne =>
    split at h
    · cases h
    next hlt =>
    split at h
    · cases h
    · next hdup =>
      push Not at hdup
      exact .inr ⟨hne, by omega, hdup⟩

theorem mutable_ok {stations : List Station} {now : ℤ} {tariffs : List Tariff} {station_id tariff_id : ℕ}
    {tariff : Tariff} (h : kiem_bieu_gia_co_the_sua stations now tariffs station_id tariff_id = .ok tariff) :
    tariff ∈ tariffs ∧ tariff.id = tariff_id ∧ tariff.station_id = station_id ∧ tariff.used_at = none ∧
      ∃ station, _station stations station_id = .ok station ∧
        station.timezone.localDate now < tariff.effective_from := by
  obtain ⟨station, hst, h⟩ := bind_eq_ok.mp h
  split at h
  · cases h
  next t hfind =>
  split at h
  · cases h
  next hmut =>
  cases h
  push Not at hmut
  have hprop := List.find?_some hfind
  simp only [Bool.decide_and, Bool.and_eq_true, decide_eq_true_eq] at hprop
  exact ⟨List.mem_of_find?_eq_some hfind, hprop.1, hprop.2, hmut.2, station, hst, hmut.1⟩

end HistoryLemmas

open HistoryLemmas

/-- A call of a station changes the tariffs as `Change` allows; with a zone for each station id, every
other station keeps what it has. -/
theorem apply_change {stations : List Station} {now : ℤ} {op : TariffOp} {s s' : List Tariff}
    (h : op.apply stations now s = .ok s') :
    ∃ station station_id, _station stations station_id = .ok station ∧
      Change station_id (station.timezone.localDate now) s s' := by
  cases op with
  | create owned station_id new_id request =>
    obtain ⟨-, -, h⟩ := bind_eq_ok.mp h
    obtain ⟨normalized, hbands, h⟩ := bind_eq_ok.mp h
    obtain ⟨u, hdate, h⟩ := bind_eq_ok.mp h
    obtain ⟨station, hst, hcheck⟩ := bind_eq_ok.mp hdate
    split at h
    · cases h
    next hid =>
    cases h
    push Not at hid
    refine ⟨station, station_id, hst, ?_⟩
    rcases checkDate_ok hcheck with ⟨hnil, hd⟩ | ⟨hne, hd, hfresh⟩
    · refine .first _ rfl hid (fun t ht hts => ?_) hd (checkBands_once hbands)
      have : t ∈ versions s station_id none := mem_versions.mpr ⟨ht, hts, by simp⟩
      rw [hnil] at this
      cases this
    · obtain ⟨t, ht⟩ := List.exists_mem_of_ne_nil _ hne
      obtain ⟨hts, hst', -⟩ := mem_versions.mp ht
      exact .later _ rfl hid ⟨t, hts, hst'⟩ hd
        (fun t ht hts => hfresh t (mem_versions.mpr ⟨ht, hts, by simp⟩)) (checkBands_once hbands)
  | edit owned station_id tariff_id request =>
    obtain ⟨-, -, h⟩ := bind_eq_ok.mp h
    obtain ⟨tariff, hmut, h⟩ := bind_eq_ok.mp h
    obtain ⟨normalized, hbands, h⟩ := bind_eq_ok.mp h
    obtain ⟨u, hdate, h⟩ := bind_eq_ok.mp h
    obtain ⟨station, hst, hcheck⟩ := bind_eq_ok.mp hdate
    obtain ⟨-, -, hcheck⟩ := bind_eq_ok.mp hcheck
    cases h
    obtain ⟨hmem, hid, hstation, hused, station', hst', hahead⟩ := mutable_ok hmut
    cases hst.symm.trans hst'
    have hother : ∀ t ∈ s, t.station_id = station_id → t.id ≠ tariff.id →
        t ∈ versions s station_id (some tariff_id) := fun t ht hts hne =>
      mem_versions.mpr ⟨ht, hts, by rw [← hid]; simpa using hne⟩
    refine ⟨station, station_id, hst, .edited tariff _ hmem hstation hahead hused
      (fun t => ⟨rfl, rfl, rfl⟩) (fun t => rfl) (fun t => checkBands_once hbands) (fun hall => ?_) ?_⟩
    · rcases checkDate_ok hcheck with ⟨-, hd⟩ | ⟨hne, -⟩
      · exact hd
      · obtain ⟨t, ht⟩ := List.exists_mem_of_ne_nil _ hne
        obtain ⟨hts, hst'', hne'⟩ := mem_versions.mp ht
        exact absurd (by rw [hall t hts hst'', hid]) hne'
    · rintro ⟨t, ht, hts, hne⟩
      rcases checkDate_ok hcheck with ⟨hnil, -⟩ | ⟨-, hd, hfresh⟩
      · have := hother t ht hts hne
        rw [hnil] at this
        cases this
      · exact ⟨hd, fun t ht hts hne => hfresh t (hother t ht hts hne)⟩
  | mark station_id tariff_id =>
    obtain ⟨station, hst, h⟩ := bind_eq_ok.mp h
    split at h
    · cases h
    · cases h
      exact ⟨station, station_id, hst, .marked tariff_id now⟩

/-! ## 3. The tariffs of one station -/

/-- The invariant of a station's tariffs on the date `today`. -/
structure HistoryOk (station_id : ℕ) (today : ℤ) (s : List Tariff) : Prop where
  ids : Table.Keyed Tariff.id s
  dates : ∀ x ∈ s, ∀ y ∈ s, x.station_id = station_id → y.station_id = station_id →
    x.effective_from = y.effective_from → x = y
  started : (∃ x ∈ s, x.station_id = station_id) →
    ∃ x ∈ s, x.station_id = station_id ∧ x.effective_from ≤ today
  bands : ∀ x ∈ s, x.station_id = station_id → OncePerMinute x.bands

/-- The tariff of a day up to `today` keeps its terms, unless the station had no tariff and gets its
first one today; a tariff that was used stays as it is. -/
structure Keeps (station_id : ℕ) (today : ℤ) (s s' : List Tariff) : Prop where
  prices : ∀ d ≤ today,
    (lay_bieu_gia_hieu_luc s' station_id d).map Tariff.terms =
      (lay_bieu_gia_hieu_luc s station_id d).map Tariff.terms ∨
    ((∀ x ∈ s, x.station_id ≠ station_id) ∧ d = today ∧
      ∃ x, lay_bieu_gia_hieu_luc s' station_id d = some x ∧ x.effective_from = today)
  used : ∀ x ∈ s, x.station_id = station_id → x.used_at ≠ none → x ∈ s'
  kept : (∃ x ∈ s, x.station_id = station_id) → ∃ x ∈ s', x.station_id = station_id

namespace HistoryLemmas

/-- The versions that count for a day. -/
def upTo (s : List Tariff) (station_id : ℕ) (d : ℤ) : List Tariff :=
  s.filter fun t => t.station_id = station_id ∧ t.effective_from ≤ d

theorem lay_congr {s s' : List Tariff} {station_id : ℕ} {d : ℤ} (h : upTo s' station_id d = upTo s station_id d) :
    lay_bieu_gia_hieu_luc s' station_id d = lay_bieu_gia_hieu_luc s station_id d := by
  unfold lay_bieu_gia_hieu_luc
  exact congrArg (fun l => (List.insertionSort _ l).head?) h

theorem upTo_append {s : List Tariff} {x : Tariff} {station_id : ℕ} {d : ℤ}
    (h : ¬ (x.station_id = station_id ∧ x.effective_from ≤ d)) :
    upTo (s ++ [x]) station_id d = upTo s station_id d := by
  rw [upTo, List.filter_append, List.filter_cons_of_neg (by simpa using h), List.filter_nil,
    List.append_nil]
  rfl

theorem upTo_modify {s : List Tariff} {k station_id : ℕ} {d : ℤ} {f : Tariff → Tariff}
    (h : ∀ t ∈ s, t.id = k → ¬ (t.station_id = station_id ∧ t.effective_from ≤ d) ∧
      ¬ ((f t).station_id = station_id ∧ (f t).effective_from ≤ d)) :
    upTo (Table.modify Tariff.id k f s) station_id d = upTo s station_id d := by
  induction s with
  | nil => rfl
  | cons t s ih =>
    have hrest := ih fun x hx => h x (List.mem_cons_of_mem _ hx)
    simp only [upTo, Table.modify, List.map_cons, List.filter_cons] at hrest ⊢
    by_cases hk : t.id = k
    · obtain ⟨h1, h2⟩ := h t List.mem_cons_self hk
      simp only [hk, if_true, h1, h2, decide_false, Bool.false_eq_true, if_false]
      exact hrest
    · simp only [hk, if_false, hrest]

/-- The use mark of one row. -/
def stamp (station_id tariff_id : ℕ) (now : ℤ) (t : Tariff) : Tariff :=
  if t.id = tariff_id ∧ t.station_id = station_id then { t with used_at := some (t.used_at.getD now) } else t

theorem danh_dau_eq (s : List Tariff) (station_id tariff_id : ℕ) (now : ℤ) :
    danh_dau_bieu_gia_da_dung s station_id tariff_id now = s.map (stamp station_id tariff_id now) := rfl

theorem stamp_terms (station_id tariff_id : ℕ) (now : ℤ) (t : Tariff) :
    (stamp station_id tariff_id now t).terms = t.terms := by
  unfold stamp
  split <;> rfl

theorem stamp_of_used {station_id tariff_id : ℕ} {now : ℤ} {t : Tariff} (h : t.used_at ≠ none) :
    stamp station_id tariff_id now t = t := by
  unfold stamp
  split
  · obtain ⟨u, hu⟩ := Option.ne_none_iff_exists'.mp h
    rw [hu, Option.getD_some, ← hu]
  · rfl

theorem stamp_id (station_id tariff_id : ℕ) (now : ℤ) (t : Tariff) :
    (stamp station_id tariff_id now t).id = t.id := by
  unfold stamp
  split <;> rfl

theorem stamp_station (station_id tariff_id : ℕ) (now : ℤ) (t : Tariff) :
    (stamp station_id tariff_id now t).station_id = t.station_id := by
  unfold stamp
  split <;> rfl

theorem stamp_date (station_id tariff_id : ℕ) (now : ℤ) (t : Tariff) :
    (stamp station_id tariff_id now t).effective_from = t.effective_from := by
  unfold stamp
  split <;> rfl

theorem stamp_bands (station_id tariff_id : ℕ) (now : ℤ) (t : Tariff) :
    (stamp station_id tariff_id now t).bands = t.bands := by
  unfold stamp
  split <;> rfl

/-- A mark changes no terms of any day. -/
theorem lay_stamp (s : List Tariff) (station_id tariff_id : ℕ) (now : ℤ) (sid : ℕ) (d : ℤ) :
    (lay_bieu_gia_hieu_luc (s.map (stamp station_id tariff_id now)) sid d).map Tariff.terms =
      (lay_bieu_gia_hieu_luc s sid d).map Tariff.terms := by
  set g := stamp station_id tariff_id now with hg
  have hfilter : (s.map g).filter (fun t => t.station_id = sid ∧ t.effective_from ≤ d) =
      (s.filter fun t => t.station_id = sid ∧ t.effective_from ≤ d).map g := by
    rw [List.filter_map]
    congr 1
    refine List.filter_congr fun t _ => ?_
    simp only [Function.comp, hg, stamp_station, stamp_date]
  have hsort := List.map_insertionSort (fun a b : Tariff => b.effective_from ≤ a.effective_from)
    (fun a b : Tariff => b.effective_from ≤ a.effective_from) g
    (s.filter fun t => t.station_id = sid ∧ t.effective_from ≤ d)
    (fun a _ b _ => by simp only [hg, stamp_date])
  unfold lay_bieu_gia_hieu_luc
  rw [hfilter, ← hsort, List.head?_map, Option.map_map]
  congr 1
  funext t
  exact stamp_terms _ _ _ t

variable {station_id : ℕ} {today : ℤ} {s s' : List Tariff}

theorem Keeps.of_upTo (h : ∀ d ≤ today, upTo s' station_id d = upTo s station_id d)
    (hused : ∀ x ∈ s, x.station_id = station_id → x.used_at ≠ none → x ∈ s')
    (hkept : (∃ x ∈ s, x.station_id = station_id) → ∃ x ∈ s', x.station_id = station_id) :
    Keeps station_id today s s' :=
  ⟨fun d hd => .inl (by rw [lay_congr (h d hd)]), hused, hkept⟩

theorem Keeps.trans {today' : ℤ} {s'' : List Tariff} (h : Keeps station_id today s s')
    (h' : Keeps station_id today' s' s'') (hle : today ≤ today') : Keeps station_id today s s'' := by
  refine ⟨fun d hd => ?_, fun x hx hst hu => h'.used x (h.used x hx hst hu) hst hu, fun hs => h'.kept (h.kept hs)⟩
  rcases h.prices d hd with h1 | ⟨hnone, hdate, x, hx, hxd⟩ <;>
    rcases h'.prices d (hd.trans hle) with h2 | ⟨hnone', hdate', x', hx', hxd'⟩
  · exact .inl (h2.trans h1)
  · have hempty : ∀ x ∈ s, x.station_id ≠ station_id := fun x hx hst =>
      let ⟨y, hy, hyst⟩ := h.kept ⟨x, hx, hst⟩
      hnone' y hy hyst
    have heq : today' = today := by omega
    exact .inr ⟨hempty, by omega, x', hx', by omega⟩
  · rw [hx, Option.map_some] at h2
    obtain ⟨x'', hx'', hterms⟩ := Option.map_eq_some_iff.mp h2
    have : x''.terms.effective_from = x.terms.effective_from := by rw [hterms]
    simp only [Tariff.terms] at this
    exact .inr ⟨hnone, hdate, x'', hx'', by omega⟩
  · exact absurd (lay_bieu_gia_hieu_luc_mem hx).2.1 (hnone' x (lay_bieu_gia_hieu_luc_mem hx).1)

theorem mem_edited (hids : Table.Keyed Tariff.id s) {x : Tariff} (hx : x ∈ s) {f : Tariff → Tariff} {t : Tariff} :
    t ∈ Table.modify Tariff.id x.id f s ↔ t = f x ∨ (t ∈ s ∧ t.id ≠ x.id) :=
  Table.mem_modify_of_mem hids hx rfl

theorem mark_keeps (h : HistoryOk station_id today s) (other tariff_id : ℕ) (now : ℤ) :
    HistoryOk station_id today (s.map (stamp other tariff_id now)) ∧
      Keeps station_id today s (s.map (stamp other tariff_id now)) := by
  refine ⟨⟨?_, ?_, ?_, ?_⟩, ⟨fun d _ => .inl (lay_stamp s other tariff_id now station_id d),
    fun x hx _ hu => ?_, fun ⟨x, hx, hst⟩ => ⟨_, List.mem_map_of_mem hx, (stamp_station _ _ _ x).trans hst⟩⟩⟩
  · refine List.pairwise_map.mpr (List.Pairwise.imp (fun {a b} hab => ?_) h.ids)
    rwa [stamp_id, stamp_id]
  · intro x hx y hy
    obtain ⟨a, ha, rfl⟩ := List.mem_map.mp hx
    obtain ⟨b, hb, rfl⟩ := List.mem_map.mp hy
    rw [stamp_station, stamp_station, stamp_date, stamp_date]
    intro hsa hsb hd
    rw [h.dates a ha b hb hsa hsb hd]
  · rintro ⟨x, hx, hst⟩
    obtain ⟨a, ha, rfl⟩ := List.mem_map.mp hx
    rw [stamp_station] at hst
    obtain ⟨y, hy, hys, hyd⟩ := h.started ⟨a, ha, hst⟩
    exact ⟨_, List.mem_map_of_mem hy, (stamp_station _ _ _ y).trans hys, (stamp_date _ _ _ y).trans_le hyd⟩
  · intro x hx
    obtain ⟨a, ha, rfl⟩ := List.mem_map.mp hx
    rw [stamp_station, stamp_bands]
    exact h.bands a ha
  · have hmem := List.mem_map_of_mem (f := stamp other tariff_id now) hx
    rwa [stamp_of_used hu] at hmem

/-- A call of another station leaves this one alone. -/
theorem change_other {other : ℕ} {today' : ℤ} (hne : other ≠ station_id) (h : HistoryOk station_id today s)
    (hc : Change other today' s s') : HistoryOk station_id today s' ∧ Keeps station_id today s s' := by
  have happend : ∀ x : Tariff, x.station_id = other → (∀ t ∈ s, t.id ≠ x.id) →
      HistoryOk station_id today (s ++ [x]) ∧ Keeps station_id today s (s ++ [x]) := by
    intro x hst hid
    have hmem : ∀ t ∈ s ++ [x], t.station_id = station_id → t ∈ s := by
      intro t ht hts
      rcases List.mem_append.mp ht with ht | ht
      · exact ht
      · rw [List.mem_singleton.mp ht] at hts
        exact absurd (hst.symm.trans hts) hne
    refine ⟨⟨h.ids.append hid, fun a ha b hb hsa hsb => h.dates a (hmem a ha hsa) b (hmem b hb hsb) hsa hsb,
      fun ⟨a, ha, hsa⟩ => ?_, fun a ha hsa => h.bands a (hmem a ha hsa) hsa⟩, Keeps.of_upTo (fun d _ => ?_)
      (fun a ha _ _ => List.mem_append_left _ ha) fun ⟨a, ha, hsa⟩ => ⟨a, List.mem_append_left _ ha, hsa⟩⟩
    · obtain ⟨y, hy, hys, hyd⟩ := h.started ⟨a, hmem a ha hsa, hsa⟩
      exact ⟨y, List.mem_append_left _ hy, hys, hyd⟩
    · exact upTo_append fun hx => hne (hst.symm.trans hx.1)
  cases hc with
  | same => exact ⟨h, Keeps.of_upTo (fun _ _ => rfl) (fun _ hx _ _ => hx) id⟩
  | first x hst hid => exact happend x hst hid
  | later x hst hid => exact happend x hst hid
  | edited x f hx hst _ _ hsame =>
    have hmem : ∀ t ∈ Table.modify Tariff.id x.id f s, t.station_id = station_id → t ∈ s := by
      intro t ht hts
      rcases (mem_edited h.ids hx).mp ht with rfl | ⟨ht, -⟩
      · rw [(hsame x).2.1, hst] at hts
        exact absurd hts hne
      · exact ht
    have hback : ∀ t ∈ s, t.station_id = station_id → t ∈ Table.modify Tariff.id x.id f s := by
      intro t ht hts
      refine (mem_edited h.ids hx).mpr (.inr ⟨ht, fun hid => ?_⟩)
      rw [h.ids.eq ht hx hid, hst] at hts
      exact hne hts
    refine ⟨⟨h.ids.modify fun t ht => (hsame t).1.trans ht,
      fun a ha b hb hsa hsb => h.dates a (hmem a ha hsa) b (hmem b hb hsb) hsa hsb, fun ⟨a, ha, hsa⟩ => ?_,
      fun a ha hsa => h.bands a (hmem a ha hsa) hsa⟩, Keeps.of_upTo (fun d _ => upTo_modify fun t ht hid => ?_)
      (fun a ha hsa _ => hback a ha hsa) fun ⟨a, ha, hsa⟩ => ⟨a, hback a ha hsa, hsa⟩⟩
    · obtain ⟨y, hy, hys, hyd⟩ := h.started ⟨a, hmem a ha hsa, hsa⟩
      exact ⟨y, hback y hy hys, hys, hyd⟩
    · have hto : t.station_id = other := by rw [h.ids.eq ht hx hid, hst]
      rw [(hsame t).2.1, hto]
      exact ⟨fun hx => hne hx.1, fun hx => hne hx.1⟩
  | marked tariff_id now => exact mark_keeps h other tariff_id now

/-- A call of the station itself, on its date `today`. -/
theorem change_own (h : HistoryOk station_id today s) (hc : Change station_id today s s') :
    HistoryOk station_id today s' ∧ Keeps station_id today s s' := by
  cases hc with
  | same => exact ⟨h, Keeps.of_upTo (fun _ _ => rfl) (fun _ hx _ _ => hx) id⟩
  | first x hst hid hnone hdate hbands =>
    have hmem : ∀ t ∈ s ++ [x], t.station_id = station_id → t = x := by
      intro t ht hts
      rcases List.mem_append.mp ht with ht | ht
      · exact absurd hts (hnone t ht)
      · exact List.mem_singleton.mp ht
    have hin : x ∈ s ++ [x] := List.mem_append_right _ (List.mem_singleton_self x)
    refine ⟨⟨h.ids.append hid, fun a ha b hb hsa hsb _ => (hmem a ha hsa).trans (hmem b hb hsb).symm,
      fun _ => ⟨x, hin, hst, hdate.le⟩, fun a ha hsa => hmem a ha hsa ▸ hbands⟩, fun d hd => ?_,
      fun a ha hsa => absurd hsa (hnone a ha), fun _ => ⟨x, hin, hst⟩⟩
    by_cases hd' : x.effective_from ≤ d
    · -- the new tariff is the only one, and it starts today
      refine .inr ⟨hnone, by omega, x, ?_, hdate⟩
      have hfilter : s.filter (fun t => t.station_id = station_id ∧ t.effective_from ≤ d) = [] :=
        List.filter_eq_nil_iff.mpr fun t ht => by simp [hnone t ht]
      rw [lay_bieu_gia_hieu_luc, List.filter_append, hfilter, List.nil_append,
        List.filter_cons_of_pos (by simp [hst, hd'])]
      rfl
    · exact .inl (by rw [lay_congr (upTo_append fun hx => hd' hx.2)])
  | later x hst hid hsome hdate hfresh hbands =>
    refine ⟨⟨h.ids.append hid, fun a ha b hb hsa hsb hd => ?_, fun _ => ?_, fun a ha hsa => ?_⟩,
      Keeps.of_upTo (fun d hd => upTo_append fun hx => by omega) (fun a ha _ _ => List.mem_append_left _ ha)
      fun _ => ?_⟩
    · rcases List.mem_append.mp ha with ha | ha <;> rcases List.mem_append.mp hb with hb | hb
      · exact h.dates a ha b hb hsa hsb hd
      · rw [List.mem_singleton.mp hb] at hd
        exact absurd hd (hfresh a ha hsa)
      · rw [List.mem_singleton.mp ha] at hd
        exact absurd hd.symm (hfresh b hb hsb)
      · rw [List.mem_singleton.mp ha, List.mem_singleton.mp hb]
    · obtain ⟨y, hy, hys, hyd⟩ := h.started hsome
      exact ⟨y, List.mem_append_left _ hy, hys, hyd⟩
    · rcases List.mem_append.mp ha with ha | ha
      · exact h.bands a ha hsa
      · exact List.mem_singleton.mp ha ▸ hbands
    · exact ⟨x, List.mem_append_right _ (List.mem_singleton_self x), hst⟩
  | edited x f hx hst hahead hunused hsame hdate hbands _ hlater =>
    -- the tariff in force today is another one
    obtain ⟨y, hy, hys, hyd⟩ := h.started ⟨x, hx, hst⟩
    have hyx : y.id ≠ x.id := fun hid => by
      rw [h.ids.eq hy hx hid] at hyd
      omega
    obtain ⟨hnew, hfresh⟩ := hlater ⟨y, hy, hys, hyx⟩
    have hback : ∀ t ∈ s, t.id ≠ x.id → t ∈ Table.modify Tariff.id x.id f s := fun t ht hne =>
      (mem_edited h.ids hx).mpr (.inr ⟨ht, hne⟩)
    refine ⟨⟨h.ids.modify fun t ht => (hsame t).1.trans ht, fun a ha b hb hsa hsb hd => ?_,
      fun _ => ⟨y, hback y hy hyx, hys, hyd⟩, fun a ha hsa => ?_⟩,
      Keeps.of_upTo (fun d hd => upTo_modify fun t ht hid => ?_) (fun a ha _ hu => hback a ha fun hid => ?_)
      fun _ => ⟨y, hback y hy hyx, hys⟩⟩
    · rcases (mem_edited h.ids hx).mp ha with rfl | ⟨ha, hna⟩ <;>
        rcases (mem_edited h.ids hx).mp hb with rfl | ⟨hb, hnb⟩
      · rfl
      · exact absurd hd.symm (hfresh b hb hsb hnb)
      · exact absurd hd (hfresh a ha hsa hna)
      · exact h.dates a ha b hb hsa hsb hd
    · rcases (mem_edited h.ids hx).mp ha with rfl | ⟨ha, -⟩
      · exact hbands x
      · exact h.bands a ha hsa
    · rw [h.ids.eq ht hx hid]
      exact ⟨fun hx => by omega, fun hx => by omega⟩
    · rw [h.ids.eq ha hx hid] at hu
      exact hu hunused
  | marked tariff_id now => exact mark_keeps h station_id tariff_id now

end HistoryLemmas

section Station

variable {stations : List Station} {station : Station} (hfound : _station stations station.id = .ok station)
  (hmono : ∀ t t' : ℤ, t ≤ t' → station.timezone.localDate t ≤ station.timezone.localDate t')
include hfound hmono

/-- Along every run the dates stay distinct, the bands complete, and the prices up to the date at its
start what they were. -/
theorem run_ok {t t' : ℤ} {s s' : List Tariff} (run : TariffRun stations t s t' s')
    (h : HistoryOk station.id (station.timezone.localDate t) s) :
    t ≤ t' ∧ HistoryOk station.id (station.timezone.localDate t') s' ∧
      Keeps station.id (station.timezone.localDate t) s s' := by
  induction run with
  | refl => exact ⟨le_rfl, h, Keeps.of_upTo (fun _ _ => rfl) (fun _ hx _ _ => hx) id⟩
  | wait _ t'' le ih =>
    obtain ⟨hle, hok, hkeeps⟩ := ih
    refine ⟨hle.trans le, ⟨hok.ids, hok.dates, fun hs => ?_, hok.bands⟩, hkeeps⟩
    obtain ⟨x, hx, hst, hd⟩ := hok.started hs
    exact ⟨x, hx, hst, hd.trans (hmono _ _ le)⟩
  | @call t' s' _ op ih =>
    obtain ⟨hle, hok, hkeeps⟩ := ih
    have hstep : HistoryOk station.id (station.timezone.localDate t') (op.commit stations t' s') ∧
        Keeps station.id (station.timezone.localDate t') s' (op.commit stations t' s') := by
      unfold TariffOp.commit
      cases happ : op.apply stations t' s' with
      | error e => exact ⟨hok, Keeps.of_upTo (fun _ _ => rfl) (fun _ hx _ _ => hx) id⟩
      | ok s'' =>
        obtain ⟨other, other_id, hother, hchange⟩ := apply_change happ
        by_cases hid : other_id = station.id
        · subst hid
          cases hfound.symm.trans hother
          exact change_own hok hchange
        · exact change_other hid hok hchange
    exact ⟨hle, hstep.1, Keeps.trans hkeeps hstep.2 (hmono _ _ hle)⟩

/-- Take any run of tariff calls from a time when the station had no tariff. Whenever it stands at the
time `t'`, and however it goes on, the tariff of every date up to the date of `t'` keeps its identity,
rates, grace and bands; only the very first tariff changes the answer of the day it is created on. A
tariff that was used never changes, no two tariffs of the station share a date, and the bands of each
cover every minute of the day exactly once. -/
theorem price_history_immutable {t₀ t t' : ℤ} {s₀ s s' : List Tariff} (hids : Table.Keyed Tariff.id s₀)
    (hnone : ∀ x ∈ s₀, x.station_id ≠ station.id) (past : TariffRun stations t₀ s₀ t s)
    (future : TariffRun stations t s t' s') :
    Keeps station.id (station.timezone.localDate t) s s' ∧
    (∀ x ∈ s, ∀ y ∈ s, x.station_id = station.id → y.station_id = station.id →
      x.effective_from = y.effective_from → x = y) ∧
    ∀ x ∈ s, x.station_id = station.id → OncePerMinute x.bands := by
  have hstart : HistoryOk station.id (station.timezone.localDate t₀) s₀ :=
    ⟨hids, fun x hx _ _ hsx => absurd hsx (hnone x hx), fun ⟨x, hx, hsx⟩ => absurd hsx (hnone x hx),
      fun x hx hsx => absurd hsx (hnone x hx)⟩
  obtain ⟨-, hok, -⟩ := run_ok hfound hmono past hstart
  obtain ⟨-, -, hkeeps⟩ := run_ok hfound hmono future hok
  exact ⟨hkeeps, hok.dates, hok.bands⟩

end Station

namespace TwoVersions

/-- A station seven hours ahead of UTC. -/
def saigon : Station := ⟨1, Zone.fixed (420 * MINUTE)⟩

/-- A flat price from a date on. -/
def flat (effective_from : ℤ) : TariffRequest where
  effective_from := effective_from
  idle_rate_vnd_per_minute := 500
  grace_minutes := 10
  bands := [⟨0, 1440, 3000, "flat"⟩]
  money := by decide
  grace := by decide

/-- The first tariff, created on day 0 for that day, and a second one for the next day. -/
def one : List Tariff := (TariffOp.create true 1 11 (flat 0)).commit [saigon] 0 []
def two : List Tariff := (TariffOp.create true 1 12 (flat 1)).commit [saigon] MINUTE one

end TwoVersions

open TwoVersions

theorem price_history_immutable_two_versions :
    Keeps 1 0 one two ∧ one.map (·.effective_from) = [0] ∧ two.map (·.effective_from) = [0, 1] := by
  have hmono : ∀ t t' : ℤ, t ≤ t' → saigon.timezone.localDate t ≤ saigon.timezone.localDate t' := by
    intro t t' h
    have hwall : saigon.timezone.wall t ≤ saigon.timezone.wall t' := by
      simp only [saigon, Zone.wall, Zone.fixed]
      omega
    exact Int.ediv_le_ediv (by decide) hwall
  have past : TariffRun [saigon] 0 [] 0 one := TariffRun.refl.call _
  have future : TariffRun [saigon] 0 one MINUTE two := (TariffRun.refl.wait MINUTE (by decide)).call _
  exact ⟨(price_history_immutable (rfl : _station [saigon] saigon.id = .ok saigon) hmono List.Pairwise.nil
      (fun _ h => absurd h List.not_mem_nil) past future).1,
    by decide +kernel, by decide +kernel⟩

end Csms.Pricing
