import Csms.Pricing.Coverage

/-!
# Daily power bands (`stations/power_bands.py`)

The check of the power bands of a schedule sweeps over their minutes as the check of tariff bands does.

Results: `kiem_khung_gio_cong_suat_ok`, `kiem_khung_gio_exact`.
-/

namespace Csms.Stations

open Pricing Pairs Runs

structure PowerBandInput where
  start_min : ℤ
  end_min : ℤ
  power_limit_w : ℤ
  deriving DecidableEq, Repr

inductive PowerBandCode where
  | invalid_time | invalid_power_limit | gap | overlap
  deriving DecidableEq, Repr

structure PowerBandIssue where
  code : PowerBandCode
  message : String
  input_indices : List ℕ := []
  start_min : Option ℤ := none
  end_min : Option ℤ := none
  deriving DecidableEq, Repr

/-! ## 1. The code -/

/-- The tariff band with the minutes of a power band, and its limit for a rate. -/
def PowerBandInput.minutes (band : PowerBandInput) : BandInput :=
  ⟨band.start_min, band.end_min, band.power_limit_w, ""⟩

def validPowerLimit (band : PowerBandInput) : Bool := 0 < band.power_limit_w && band.power_limit_w ≤ 2 ^ 63 - 1

/-- The issues of one band on its own, in the order of the checks. -/
def powerBandIssues (band : PowerBandInput) (index : ℕ) : List PowerBandIssue :=
  (if validTime band.minutes then [] else [⟨.invalid_time, "Mốc giờ không hợp lệ", [index], none, none⟩]) ++
  (if validPowerLimit band then []
   else [⟨.invalid_power_limit, "Hạn mức công suất phải là số nguyên dương (Watt > 0)", [index], none, none⟩])

/-- A band inside the day, or the two halves of one that wraps past midnight. -/
def splitPowerBand (band : PowerBandInput) : List PowerBandInput :=
  if band.start_min < band.end_min then [band]
  else { band with end_min := 1440 } ::
    if 0 < band.end_min then [{ band with start_min := 0 }] else []

/-- The valid bands, split, each with the index of its input. -/
def normalizedPowerBands (bands : List PowerBandInput) : List (PowerBandInput × ℕ) :=
  bands.zipIdx.flatMap fun (band, index) =>
    if powerBandIssues band index = [] then (splitPowerBand band).map (·, index) else []

/-- A gap or an overlap; their texts are those of tariff bands. -/
def powerIssue (issue : BandIssue) : PowerBandIssue :=
  ⟨if issue.code = .gap then .gap else .overlap, issue.message, issue.input_indices, issue.start_min, issue.end_min⟩

/-- `kiem_khung_gio_cong_suat`; the error carries the issues of `PowerBandsError`. The sweep reads the
minutes and the indices only. -/
def kiem_khung_gio_cong_suat (bands : List PowerBandInput) : Except (List PowerBandIssue) (List PowerBandInput) :=
  let invalid := bands.zipIdx.flatMap fun (band, index) => powerBandIssues band index
  if invalid ≠ [] then .error invalid
  else
    let normalized := normalizedPowerBands bands
    let minutes := normalized.map fun row => (row.1.minutes, row.2)
    let issues := (pairs (boundaries minutes)).foldl (coverStep minutes) []
    if issues ≠ [] then .error (issues.map powerIssue)
    else .ok ((normalized.map (·.1)).insertionSort fun a b => a.start_min ≤ b.start_min)

/-! ## 2. Accepted bands -/

def powerLayout (bands : List PowerBandInput) : List (ℤ × ℤ) := bands.map fun b => (b.start_min, b.end_min)

/-- A power band that is valid on its own. -/
def ValidPower (band : PowerBandInput) : Prop := validTime band.minutes = true ∧ validPowerLimit band = true

namespace PowerBandsLemmas

open BandsLemmas CoverageLemmas

theorem powerBandIssues_eq_nil {band : PowerBandInput} {index : ℕ} :
    powerBandIssues band index = [] ↔ ValidPower band := by
  unfold powerBandIssues ValidPower
  split <;> split <;> simp_all

theorem minutes_layout (bands : List PowerBandInput) :
    layout (bands.map PowerBandInput.minutes) = powerLayout bands := by
  rw [layout, powerLayout, List.map_map]
  rfl

theorem minutes_valid {bands : List PowerBandInput} (hv : ∀ b ∈ bands, ValidPower b) :
    ∀ b ∈ bands.map PowerBandInput.minutes, Valid b := by
  intro b hb
  obtain ⟨band, hband, rfl⟩ := List.mem_map.mp hb
  obtain ⟨htime, hlimit⟩ := hv band hband
  refine ⟨htime, ?_, rfl⟩
  simp only [validPowerLimit, Bool.and_eq_true, decide_eq_true_eq] at hlimit
  simp only [validRate, PowerBandInput.minutes, Bool.and_eq_true]
  exact ⟨decide_eq_true hlimit.1.le, decide_eq_true hlimit.2⟩

theorem splitPowerBand_minutes (band : PowerBandInput) :
    (splitPowerBand band).map PowerBandInput.minutes = splitBand band.minutes := by
  unfold splitPowerBand splitBand
  by_cases hlt : band.start_min < band.end_min
  · simp [PowerBandInput.minutes, hlt]
  by_cases hpos : 0 < band.end_min
  · simp [PowerBandInput.minutes, hlt, hpos]
  · simp [PowerBandInput.minutes, hlt, hpos]

/-- The split power bands have the minutes of the split tariff bands. -/
theorem normalizedPowerBands_minutes {bands : List PowerBandInput} (hv : ∀ b ∈ bands, ValidPower b) :
    (normalizedPowerBands bands).map (fun row => (row.1.minutes, row.2)) =
      normalizedBands (bands.map PowerBandInput.minutes) := by
  unfold normalizedPowerBands normalizedBands
  rw [List.map_flatMap, List.zipIdx_map, List.flatMap_map]
  refine List.flatMap_congr fun row hrow => ?_
  have hmem := List.fst_mem_of_mem_zipIdx hrow
  have hvalid := minutes_valid hv row.1.minutes (List.mem_map_of_mem hmem)
  dsimp only [Prod.map_fst, Prod.map_snd, id_eq]
  rw [if_pos (powerBandIssues_eq_nil.mpr (hv row.1 hmem)), if_pos (bandIssues_eq_nil.mpr hvalid),
    ← splitPowerBand_minutes, List.map_map, List.map_map]
  rfl

theorem invalidPower_eq_nil_iff {bands : List PowerBandInput} :
    bands.zipIdx.flatMap (fun (band, index) => powerBandIssues band index) = [] ↔ ∀ b ∈ bands, ValidPower b := by
  rw [List.flatMap_eq_nil_iff]
  constructor
  · intro h b hb
    obtain ⟨i, hi⟩ := List.mem_iff_getElem?.mp hb
    exact powerBandIssues_eq_nil.mp (h (b, i) (List.mk_mem_zipIdx_iff_getElem?.mpr hi))
  · intro h row hrow
    exact powerBandIssues_eq_nil.mpr (h row.1 (List.fst_mem_of_mem_zipIdx hrow))

theorem validPower_of_ok {bands result : List PowerBandInput} (h : kiem_khung_gio_cong_suat bands = .ok result) :
    ∀ b ∈ bands, ValidPower b := by
  unfold kiem_khung_gio_cong_suat at h
  simp only [ne_eq, ite_not] at h
  split at h
  · next hnil => exact invalidPower_eq_nil_iff.mp hnil
  · cases h

end PowerBandsLemmas

open PowerBandsLemmas CoverageLemmas

theorem kiem_khung_gio_cong_suat_valid {bands : List PowerBandInput} (hv : ∀ b ∈ bands, ValidPower b) :
    kiem_khung_gio_cong_suat bands =
      if sweep (normalizedBands (bands.map PowerBandInput.minutes)) = [] then
        .ok (((normalizedPowerBands bands).map (·.1)).insertionSort fun a b => a.start_min ≤ b.start_min)
      else .error ((sweep (normalizedBands (bands.map PowerBandInput.minutes))).map fun run =>
        powerIssue (coverIssue (owners (normalizedBands (bands.map PowerBandInput.minutes)) run.1) run)) := by
  have hissues := foldl_coverStep (normalizedBands (bands.map PowerBandInput.minutes))
    (pairs (boundaries (normalizedBands (bands.map PowerBandInput.minutes)))) []
  rw [List.map_nil] at hissues
  unfold kiem_khung_gio_cong_suat
  rw [if_neg (not_not.mpr (invalidPower_eq_nil_iff.mpr hv))]
  simp only [normalizedPowerBands_minutes hv, hissues]
  by_cases hnil : sweep (normalizedBands (bands.map PowerBandInput.minutes)) = []
  · rw [if_pos hnil, if_neg (not_not.mpr (by rw [sweep] at hnil; rw [hnil]; rfl))]
  · have hne : (pairs (boundaries (normalizedBands (bands.map PowerBandInput.minutes)))).foldl
        (extend (owners (normalizedBands (bands.map PowerBandInput.minutes))) uncovered) [] ≠ [] := hnil
    rw [if_neg hnil, if_pos (mt List.map_eq_nil_iff.mp hne), List.map_map]
    rfl

/-- What is accepted is accepted as tariff bands with the same minutes. -/
theorem kiem_khung_gio_cong_suat_ok {bands result : List PowerBandInput}
    (h : kiem_khung_gio_cong_suat bands = .ok result) :
    kiem_khung_gio (bands.map PowerBandInput.minutes) = .ok (result.map PowerBandInput.minutes) := by
  have hv := validPower_of_ok h
  rw [kiem_khung_gio_cong_suat_valid hv] at h
  rw [kiem_khung_gio_valid (minutes_valid hv)]
  split at h
  · next hnil =>
    rw [if_pos hnil, ← Except.ok.inj h, ← normalizedPowerBands_minutes hv, List.map_map]
    have hsort := List.map_insertionSort (fun a b : PowerBandInput => a.start_min ≤ b.start_min)
      (fun a b : BandInput => a.start_min ≤ b.start_min) PowerBandInput.minutes
      ((normalizedPowerBands bands).map (·.1)) fun _ _ _ _ => Iff.rfl
    rw [hsort, List.map_map]
    rfl
  · cases h

theorem kiem_khung_gio_cong_suat_ok_iff (bands : List PowerBandInput) :
    (∃ result, kiem_khung_gio_cong_suat bands = .ok result) ↔
      (∀ b ∈ bands, ValidPower b) ∧ Covered (powerLayout bands) := by
  constructor
  · rintro ⟨result, h⟩
    have hcovered := ((kiem_khung_gio_ok_iff _).mp ⟨_, kiem_khung_gio_cong_suat_ok h⟩).2
    exact ⟨validPower_of_ok h, minutes_layout bands ▸ hcovered⟩
  · rintro ⟨hv, hcovered⟩
    rw [← minutes_layout] at hcovered
    exact ⟨_, (kiem_khung_gio_cong_suat_valid hv).trans
      (if_pos ((sweep_eq_nil_iff (minutes_valid hv)).mpr hcovered))⟩

/-- The check of tariff bands is exact, and that of power bands accepts the same minutes. -/
theorem kiem_khung_gio_exact (bands : List BandInput) :
    ((∃ result, kiem_khung_gio bands = .ok result) ↔ (∀ b ∈ bands, Valid b) ∧ Covered (layout bands)) ∧
    (∀ result, kiem_khung_gio bands = .ok result → Normal bands result) ∧
    (∀ issues, (∀ b ∈ bands, Valid b) → kiem_khung_gio bands = .error issues → Reported bands issues) ∧
    ∀ powerBands : List PowerBandInput, powerLayout powerBands = layout bands →
      (∀ b ∈ bands, validRate b = true ∧ validLabel b = true) → (∀ b ∈ powerBands, validPowerLimit b = true) →
      ((∃ result, kiem_khung_gio bands = .ok result) ↔ ∃ result, kiem_khung_gio_cong_suat powerBands = .ok result) := by
  refine ⟨kiem_khung_gio_ok_iff bands, fun _ => kiem_khung_gio_normal, fun _ => kiem_khung_gio_reported, ?_⟩
  intro powerBands hlayout hrates hlimits
  have htimes : (∀ b ∈ bands, validTime b = true) ↔ ∀ b ∈ powerBands, validTime b.minutes = true := by
    have hall : ∀ (p : ℤ × ℤ → Prop), (∀ b ∈ bands, p (b.start_min, b.end_min)) ↔
        ∀ b ∈ powerBands, p (b.start_min, b.end_min) := by
      intro p
      have hmap : (∀ x ∈ layout bands, p x) ↔ ∀ x ∈ powerLayout powerBands, p x := by rw [hlayout]
      simpa only [layout, powerLayout, List.forall_mem_map] using hmap
    exact hall fun x => validTime ⟨x.1, x.2, 0, ""⟩ = true
  rw [kiem_khung_gio_ok_iff, kiem_khung_gio_cong_suat_ok_iff, hlayout]
  refine and_congr_left fun _ => ?_
  constructor
  · intro hv b hb
    exact ⟨htimes.mp (fun x hx => (hv x hx).1) b hb, hlimits b hb⟩
  · intro hv b hb
    exact ⟨htimes.mpr (fun x hx => (hv x hx).1) b hb, hrates b hb⟩

end Csms.Stations
