import Csms.Lib.Pairs

/-!
# Daily tariff bands (`pricing/bands.py`)

`kiem_khung_gio` splits bands that wrap past midnight and requires exactly one owner at every
minute of the day.

Results:
1. `kiem_khung_gio_covers`: a returned list covers every minute of the day, and each of its bands is
   a proper interval of the day.
2. `kiem_khung_gio_once`: no minute lies in two bands.
-/

namespace Csms.Pricing

open Pairs

structure BandInput where
  start_min : ℤ
  end_min : ℤ
  energy_rate_vnd_per_kwh : ℤ
  label : String := ""
  deriving DecidableEq, Repr

inductive BandCode where
  | invalid_time | invalid_rate | invalid_label | gap | overlap
  deriving DecidableEq, Repr

structure BandIssue where
  code : BandCode
  message : String
  input_indices : List ℕ := []
  start_min : Option ℤ := none
  end_min : Option ℤ := none
  deriving DecidableEq, Repr

/-! ## 1. The code -/

def pad2 (n : ℕ) : String := if n < 10 then "0" ++ toString n else toString n

def _clock (minute : ℤ) : String :=
  pad2 (minute / 60).toNat ++ ":" ++ pad2 (minute % 60).toNat

def validTime (band : BandInput) : Bool :=
  0 ≤ band.start_min && band.start_min < 1440 && 0 ≤ band.end_min && band.end_min ≤ 1440 &&
    band.start_min != band.end_min

def validRate (band : BandInput) : Bool :=
  0 ≤ band.energy_rate_vnd_per_kwh && band.energy_rate_vnd_per_kwh ≤ 2 ^ 63 - 1

def validLabel (band : BandInput) : Bool := band.label.length ≤ 100

/-- The issues of one band on its own, in the order of the checks. -/
def bandIssues (band : BandInput) (index : ℕ) : List BandIssue :=
  (if validTime band then [] else [⟨.invalid_time, "Mốc giờ không hợp lệ", [index], none, none⟩]) ++
  (if validRate band then []
   else [⟨.invalid_rate, "Đơn giá phải là đồng nguyên không âm", [index], none, none⟩]) ++
  (if validLabel band then []
   else [⟨.invalid_label, "Nhãn tối đa 100 ký tự", [index], none, none⟩])

/-- A band inside the day, or the two halves of one that wraps past midnight. -/
def splitBand (band : BandInput) : List BandInput :=
  if band.start_min < band.end_min then [band]
  else { band with end_min := 1440 } ::
    if 0 < band.end_min then [{ band with start_min := 0 }] else []

/-- The valid bands, split, each with the index of its input. -/
def normalizedBands (bands : List BandInput) : List (BandInput × ℕ) :=
  bands.zipIdx.flatMap fun (band, index) =>
    if bandIssues band index = [] then (splitBand band).map (·, index) else []

/-- `sorted({0, 1440} | {...})`. -/
def boundaries (normalized : List (BandInput × ℕ)) : List ℤ :=
  let points := normalized.flatMap fun row => [row.1.start_min, row.1.end_min]
  (0 :: 1440 :: points).dedup.insertionSort (· ≤ ·)

/-- The input indices of the bands over the minute `start`. -/
def owners (normalized : List (BandInput × ℕ)) (start : ℤ) : List ℕ :=
  ((normalized.filter fun row => row.1.start_min ≤ start && start < row.1.end_min).map
    (·.2)).insertionSort (· ≤ ·)

/-- One elementary interval: nothing with one owner, else a gap or an overlap, merged with the
issue before it when the same rows are involved. -/
def coverStep (normalized : List (BandInput × ℕ)) (issues : List BandIssue) (piece : ℤ × ℤ) :
    List BandIssue :=
  let own := owners normalized piece.1
  if own.length = 1 then issues
  else
    let code : BandCode := if own = [] then .gap else .overlap
    let merged : List BandIssue × ℤ :=
      match issues.getLast? with
      | some last =>
        if last.code = code ∧ last.input_indices = own ∧ last.end_min = some piece.1 then
          (issues.dropLast, last.start_min.getD 0)
        else (issues, piece.1)
      | none => (issues, piece.1)
    let title := if code = .gap then "Khoảng hở" else "Khoảng chồng"
    merged.1 ++ [⟨code, title ++ " " ++ _clock merged.2 ++ "–" ++ _clock piece.2, own,
      some merged.2, some piece.2⟩]

/-- `kiem_khung_gio`; the error carries the issues of `TariffBandsError`. -/
def kiem_khung_gio (bands : List BandInput) : Except (List BandIssue) (List BandInput) :=
  let invalid := bands.zipIdx.flatMap fun (band, index) => bandIssues band index
  if invalid ≠ [] then .error invalid
  else
    let normalized := normalizedBands bands
    let issues := (pairs (boundaries normalized)).foldl (coverStep normalized) []
    if issues ≠ [] then .error issues
    else .ok ((normalized.map (·.1)).insertionSort fun a b => a.start_min ≤ b.start_min)

/-! ## 2. Coverage -/

namespace BandsLemmas

theorem bandIssues_eq_nil {band : BandInput} {index : ℕ} :
    bandIssues band index = [] ↔
      validTime band = true ∧ validRate band = true ∧ validLabel band = true := by
  unfold bandIssues
  split <;> split <;> split <;> simp_all

theorem mem_splitBand {band b : BandInput} (hv : validTime band = true) (hb : b ∈ splitBand band) :
    0 ≤ b.start_min ∧ b.start_min < b.end_min ∧ b.end_min ≤ 1440 := by
  simp only [validTime, Bool.and_eq_true, decide_eq_true_eq, bne_iff_ne, ne_eq] at hv
  obtain ⟨⟨⟨⟨h1, h2⟩, h3⟩, h4⟩, h5⟩ := hv
  unfold splitBand at hb
  split at hb
  · simp only [List.mem_singleton] at hb
    subst hb
    omega
  · rcases List.mem_cons.mp hb with rfl | hb
    · exact ⟨h1, h2, le_rfl⟩
    · split at hb
      · simp only [List.mem_singleton] at hb
        subst hb
        exact ⟨le_rfl, by simpa, h4⟩
      · cases hb

theorem splitBand_rate {band b : BandInput} (hb : b ∈ splitBand band) :
    b.energy_rate_vnd_per_kwh = band.energy_rate_vnd_per_kwh ∧ b.label = band.label := by
  unfold splitBand at hb
  split at hb
  · simp only [List.mem_singleton] at hb
    simp [hb]
  · rcases List.mem_cons.mp hb with rfl | hb
    · exact ⟨rfl, rfl⟩
    · split at hb
      · simp only [List.mem_singleton] at hb
        simp [hb]
      · cases hb

theorem mem_normalizedBands {bands : List BandInput} {b : BandInput} {i : ℕ}
    (h : (b, i) ∈ normalizedBands bands) :
    ∃ band ∈ bands, b ∈ splitBand band ∧ bandIssues band i = [] := by
  unfold normalizedBands at h
  simp only [List.mem_flatMap, Prod.exists] at h
  obtain ⟨band, index, hmem, hb⟩ := h
  split at hb
  · next hv =>
    simp only [List.mem_map, Prod.mk.injEq] at hb
    obtain ⟨b', hb', rfl, rfl⟩ := hb
    exact ⟨band, (List.mem_zipIdx hmem).2.2 ▸ List.getElem_mem _, hb', hv⟩
  · cases hb

theorem coverStep_eq_nil {normalized : List (BandInput × ℕ)} {issues : List BandIssue}
    {piece : ℤ × ℤ} (h : coverStep normalized issues piece = []) :
    issues = [] ∧ (owners normalized piece.1).length = 1 := by
  by_cases hl : (owners normalized piece.1).length = 1
  · exact ⟨by simpa [coverStep, hl] using h, hl⟩
  · simp [coverStep, hl] at h

theorem foldl_coverStep_eq_nil {normalized : List (BandInput × ℕ)} :
    ∀ {l : List (ℤ × ℤ)} {issues : List BandIssue}, l.foldl (coverStep normalized) issues = [] →
      issues = [] ∧ ∀ p ∈ l, (owners normalized p.1).length = 1
  | [], _, h => ⟨h, by simp⟩
  | p :: l, issues, h => by
    obtain ⟨hstep, hl⟩ := foldl_coverStep_eq_nil (l := l) h
    obtain ⟨hi, hp⟩ := coverStep_eq_nil hstep
    refine ⟨hi, fun q hq => ?_⟩
    rcases List.mem_cons.mp hq with rfl | hq
    · exact hp
    · exact hl q hq

theorem mem_boundaries {normalized : List (BandInput × ℕ)} {x : ℤ} :
    x ∈ boundaries normalized ↔
      x = 0 ∨ x = 1440 ∨ ∃ b ∈ normalized, x = b.1.start_min ∨ x = b.1.end_min := by
  simp [boundaries, List.mem_insertionSort]

theorem boundaries_sorted (normalized : List (BandInput × ℕ)) :
    (boundaries normalized).Pairwise (· ≤ ·) :=
  List.pairwise_insertionSort _ _

theorem boundaries_head (normalized : List (BandInput × ℕ))
    (h : ∀ b ∈ normalized, 0 ≤ b.1.start_min ∧ 0 ≤ b.1.end_min) :
    ∃ rest, boundaries normalized = 0 :: rest := by
  cases hb : boundaries normalized with
  | nil =>
    have h0 : (0 : ℤ) ∈ boundaries normalized := mem_boundaries.mpr (.inl rfl)
    rw [hb] at h0
    cases h0
  | cons x rest =>
    refine ⟨rest, ?_⟩
    have hx : 0 ≤ x := by
      have : x ∈ boundaries normalized := hb ▸ List.mem_cons_self
      rcases mem_boundaries.mp this with rfl | rfl | ⟨b, hbm, rfl | rfl⟩
      · exact le_rfl
      · decide
      · exact (h b hbm).1
      · exact (h b hbm).2
    have hle : x ≤ 0 := by
      have h0 : (0 : ℤ) ∈ boundaries normalized := mem_boundaries.mpr (.inl rfl)
      have hs := boundaries_sorted normalized
      rw [hb] at h0 hs
      rcases List.mem_cons.mp h0 with h0 | h0
      · exact h0.symm.le
      · exact (List.pairwise_cons.mp hs).1 0 h0
    rw [le_antisymm hle hx]

end BandsLemmas

open BandsLemmas

/-- What a returned list guarantees: each band is a proper interval of the day with a valid
rate, and every minute of the day lies in a band. -/
structure Covers (bands : List BandInput) : Prop where
  proper : ∀ b ∈ bands, 0 ≤ b.start_min ∧ b.start_min < b.end_min ∧ b.end_min ≤ 1440
  rate : ∀ b ∈ bands, 0 ≤ b.energy_rate_vnd_per_kwh ∧ b.energy_rate_vnd_per_kwh ≤ 2 ^ 63 - 1
  cover : ∀ m : ℤ, 0 ≤ m → m < 1440 → ∃ b ∈ bands, b.start_min ≤ m ∧ m < b.end_min

/-- The piece of a minute has one owner, and the bands over the minute are those over the piece. -/
theorem kiem_khung_gio_piece {bands result : List BandInput} (h : kiem_khung_gio bands = .ok result) :
    result.Perm ((normalizedBands bands).map (·.1)) ∧
    (∀ b i, (b, i) ∈ normalizedBands bands → 0 ≤ b.start_min ∧ b.start_min < b.end_min ∧ b.end_min ≤ 1440) ∧
    ∀ m : ℤ, 0 ≤ m → m < 1440 → ∃ start, (owners (normalizedBands bands) start).length = 1 ∧
      ∀ row ∈ normalizedBands bands, (row.1.start_min ≤ start ∧ start < row.1.end_min) ↔
        (row.1.start_min ≤ m ∧ m < row.1.end_min) := by
  unfold kiem_khung_gio at h
  simp only [ne_eq, ite_not] at h
  split at h
  swap
  · cases h
  split at h
  swap
  · cases h
  next hnil =>
  simp only [Except.ok.injEq] at h
  have hproper : ∀ b i, (b, i) ∈ normalizedBands bands →
      0 ≤ b.start_min ∧ b.start_min < b.end_min ∧ b.end_min ≤ 1440 := by
    intro b i hb
    obtain ⟨band, -, hs, hv⟩ := mem_normalizedBands hb
    exact mem_splitBand (bandIssues_eq_nil.mp hv).1 hs
  refine ⟨h ▸ List.perm_insertionSort _ _, hproper, fun m h0 h1 => ?_⟩
  obtain ⟨rest, hrest⟩ := boundaries_head (normalizedBands bands)
    fun b hb => ⟨(hproper b.1 b.2 hb).1, by have := hproper b.1 b.2 hb; omega⟩
  have hlast : (1440 : ℤ) ∈ rest := by
    have : (1440 : ℤ) ∈ boundaries (normalizedBands bands) := mem_boundaries.mpr (.inr (.inl rfl))
    rw [hrest] at this
    simpa using this
  obtain ⟨p, hp, hpm, hmp⟩ := exists_pair_covering (id : ℤ → ℤ) h0 ⟨1440, hlast, h1⟩
  simp only [id_eq] at hpm hmp
  rw [← hrest] at hp
  refine ⟨p.1, (foldl_coverStep_eq_nil hnil).2 p hp, fun row hrow => ?_⟩
  -- an edge of a band is a boundary, so it lies at or outside the ends of the piece
  have hs : row.1.start_min ∈ boundaries (normalizedBands bands) :=
    mem_boundaries.mpr (.inr (.inr ⟨row, hrow, .inl rfl⟩))
  have he : row.1.end_min ∈ boundaries (normalizedBands bands) :=
    mem_boundaries.mpr (.inr (.inr ⟨row, hrow, .inr rfl⟩))
  have hs' := le_or_ge_of_mem_pairs id (boundaries_sorted _) hp hs
  have he' := le_or_ge_of_mem_pairs id (boundaries_sorted _) hp he
  simp only [id_eq] at hs' he'
  omega

/-- Validated bands cover the day. -/
theorem kiem_khung_gio_covers {bands result : List BandInput}
    (h : kiem_khung_gio bands = .ok result) : Covers result := by
  obtain ⟨hperm, hproper, hpiece⟩ := kiem_khung_gio_piece h
  have hmem : ∀ b, b ∈ result ↔ ∃ i, (b, i) ∈ normalizedBands bands := fun b => by
    simp [hperm.mem_iff]
  refine ⟨?_, ?_, ?_⟩
  · intro b hb
    obtain ⟨i, hi⟩ := (hmem b).mp hb
    exact hproper b i hi
  · intro b hb
    obtain ⟨i, hi⟩ := (hmem b).mp hb
    obtain ⟨band, -, hs, hv⟩ := mem_normalizedBands hi
    have hr := (bandIssues_eq_nil.mp hv).2.1
    rw [(splitBand_rate hs).1]
    simpa [validRate] using hr
  · intro m h0 h1
    obtain ⟨start, hone, hsame⟩ := hpiece m h0 h1
    obtain ⟨i, hi⟩ := List.length_eq_one_iff.mp hone
    have himem : i ∈ owners (normalizedBands bands) start := by rw [hi]; exact List.mem_singleton_self i
    simp only [owners, List.mem_insertionSort, List.mem_map, List.mem_filter, Bool.and_eq_true,
      decide_eq_true_eq, Prod.exists, exists_eq_right] at himem
    obtain ⟨b, hb, hbs⟩ := himem
    exact ⟨b, (hmem b).mpr ⟨i, hb⟩, (hsame (b, i) hb).mp hbs⟩

/-- The bands over a minute of the day. -/
def bandsAt (bands : List BandInput) (m : ℤ) : List BandInput :=
  bands.filter fun b => b.start_min ≤ m ∧ m < b.end_min

/-- Validated bands cover each minute of the day exactly once. -/
theorem kiem_khung_gio_once {bands result : List BandInput} (h : kiem_khung_gio bands = .ok result)
    {m : ℤ} (h0 : 0 ≤ m) (h1 : m < 1440) : (bandsAt result m).length = 1 := by
  obtain ⟨hperm, -, hpiece⟩ := kiem_khung_gio_piece h
  obtain ⟨start, hone, hsame⟩ := hpiece m h0 h1
  rw [owners, List.length_insertionSort, List.length_map] at hone
  calc (bandsAt result m).length
      = (((normalizedBands bands).map (·.1)).filter fun b => b.start_min ≤ m ∧ m < b.end_min).length :=
        (hperm.filter _).length_eq
    _ = ((normalizedBands bands).filter fun row => row.1.start_min ≤ m ∧ m < row.1.end_min).length := by
        rw [List.filter_map, List.length_map]
        rfl
    _ = ((normalizedBands bands).filter fun row =>
          row.1.start_min ≤ start && start < row.1.end_min).length := by
        congr 1
        refine List.filter_congr fun row hrow => ?_
        have := hsame row hrow
        simp only [Bool.decide_and]
        rw [Bool.eq_iff_iff]
        simp only [Bool.and_eq_true, decide_eq_true_eq]
        exact this.symm
    _ = 1 := hone

end Csms.Pricing
