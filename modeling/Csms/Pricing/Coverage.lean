import Csms.Lib.Runs
import Csms.Pricing.Bands

/-!
# What the check of tariff bands accepts (`pricing/bands.py`)

The owners of a minute are the bands that contain it, one whose end is not after its start wrapping past
midnight. `kiem_khung_gio` accepts the valid bands of which every minute has one owner; otherwise it
reports the maximal runs of minutes with one set of owners, none or several of them.

Results: `kiem_khung_gio_ok_iff`, `kiem_khung_gio_normal`, `kiem_khung_gio_reported`.
-/

namespace Csms.Pricing

open Pairs Runs

/-! ## 1. Owners -/

/-- Whether a band from `start_min` to `end_min` contains a minute. -/
def contains (start_min end_min m : ℤ) : Bool :=
  if start_min < end_min then start_min ≤ m && m < end_min else start_min ≤ m || m < end_min

/-- The start and end minutes of bands. -/
def layout (bands : List BandInput) : List (ℤ × ℤ) := bands.map fun b => (b.start_min, b.end_min)

/-- The indices of the bands that contain a minute. -/
def ownersAt (layout : List (ℤ × ℤ)) (m : ℤ) : List ℕ :=
  (layout.zipIdx.filter fun row => contains row.1.1 row.1.2 m).map (·.2)

/-- Every minute of the day has one owner. -/
def Covered (layout : List (ℤ × ℤ)) : Prop := ∀ m, 0 ≤ m → m < 1440 → (ownersAt layout m).length = 1

/-- A band that is valid on its own. -/
def Valid (band : BandInput) : Prop :=
  validTime band = true ∧ validRate band = true ∧ validLabel band = true

/-- A list of bands, each of which starts where the one before it ends. -/
def Contiguous (low high : ℤ) : List BandInput → Prop
  | [] => low = high
  | b :: bands => b.start_min = low ∧ b.start_min < b.end_min ∧ Contiguous b.end_min high bands

/-- The issue of a run of minutes and their owners. -/
def coverIssue (own : List ℕ) (run : ℤ × ℤ) : BandIssue :=
  let code : BandCode := if own = [] then .gap else .overlap
  let title := if code = .gap then "Khoảng hở" else "Khoảng chồng"
  ⟨code, title ++ " " ++ _clock run.1 ++ "–" ++ _clock run.2, own, some run.1, some run.2⟩

/-- Not one owner. -/
def uncovered (own : List ℕ) : Bool := own.length ≠ 1

namespace CoverageLemmas

open BandsLemmas

theorem invalid_eq_nil_iff {bands : List BandInput} :
    bands.zipIdx.flatMap (fun (band, index) => bandIssues band index) = [] ↔ ∀ b ∈ bands, Valid b := by
  rw [List.flatMap_eq_nil_iff]
  constructor
  · intro h b hb
    obtain ⟨i, hi⟩ := List.mem_iff_getElem?.mp hb
    exact bandIssues_eq_nil.mp (h (b, i) (List.mk_mem_zipIdx_iff_getElem?.mpr hi))
  · intro h row hrow
    exact bandIssues_eq_nil.mpr (h row.1 (List.fst_mem_of_mem_zipIdx hrow))

/-- One of the parts of a split band contains a minute of the day when the band does, and then only one. -/
theorem splitBand_owners {band : BandInput} (hv : validTime band = true) (i : ℕ) {m : ℤ} (h0 : 0 ≤ m) (h1 : m < 1440) :
    (((splitBand band).map (·, i)).filter fun row => row.1.start_min ≤ m && m < row.1.end_min).map (·.2) =
      if contains band.start_min band.end_min m then [i] else [] := by
  simp only [validTime, Bool.and_eq_true, decide_eq_true_eq, bne_iff_ne, ne_eq] at hv
  obtain ⟨⟨⟨⟨hs0, hs1⟩, he0⟩, he1⟩, hne⟩ := hv
  unfold splitBand contains
  split
  · by_cases hm : band.start_min ≤ m ∧ m < band.end_min
    · simp [hm]
    · simp [hm]
  split
  · by_cases hm : band.start_min ≤ m
    · have : ¬ m < band.end_min := by omega
      simp [hm, h1, this]
    · by_cases hm' : m < band.end_min
      · simp [hm, hm', h0]
      · simp [hm, hm']
  · have : ¬ m < band.end_min := by omega
    by_cases hm : band.start_min ≤ m
    · simp [hm, h1]
    · simp [hm, this]

theorem flatMap_ite {α β : Type} {p : α → Bool} {f : α → β} (l : List α) :
    (l.flatMap fun a => if p a then [f a] else []) = (l.filter p).map f := by
  induction l with
  | nil => rfl
  | cons a l ih =>
    rw [List.flatMap_cons, List.filter_cons, ih]
    split <;> rfl

/-- The owners come in the order of their indices. -/
theorem ownersAt_sorted (layout : List (ℤ × ℤ)) (m : ℤ) : (ownersAt layout m).Pairwise (· ≤ ·) := by
  have hindices : (layout.zipIdx.map (·.2)).Pairwise (· ≤ ·) := by
    rw [List.zipIdx_map_snd]
    exact List.pairwise_le_range'
  exact hindices.sublist (List.filter_sublist.map _)

/-- The owners among the split bands are those among the bands. -/
theorem owners_eq {bands : List BandInput} (hv : ∀ b ∈ bands, Valid b) {m : ℤ} (h0 : 0 ≤ m) (h1 : m < 1440) :
    owners (normalizedBands bands) m = ownersAt (layout bands) m := by
  have hrow : ∀ row ∈ bands.zipIdx,
      (((if bandIssues row.1 row.2 = [] then (splitBand row.1).map (·, row.2) else []).filter
        fun r => r.1.start_min ≤ m && m < r.1.end_min).map (·.2)) =
      if contains row.1.start_min row.1.end_min m then [row.2] else [] := by
    intro row hrow
    have hvalid := hv row.1 (List.fst_mem_of_mem_zipIdx hrow)
    rw [if_pos (bandIssues_eq_nil.mpr hvalid), splitBand_owners hvalid.1 row.2 h0 h1]
  have hflat : ((normalizedBands bands).filter fun r => r.1.start_min ≤ m && m < r.1.end_min).map (·.2) =
      ownersAt (layout bands) m := by
    rw [normalizedBands, List.filter_flatMap, List.map_flatMap, ownersAt, layout, List.zipIdx_map,
      List.filter_map, List.map_map]
    exact (List.flatMap_congr fun row h => hrow row h).trans (flatMap_ite _)
  rw [owners, hflat]
  exact (ownersAt_sorted _ m).insertionSort_eq

/-! ## 2. The sweep -/

/-- The issues of the code are those of the collected runs. -/
theorem coverStep_map (normalized : List (BandInput × ℕ)) (runs : List (ℤ × ℤ)) (piece : ℤ × ℤ) :
    coverStep normalized (runs.map fun run => coverIssue (owners normalized run.1) run) piece =
      (extend (owners normalized) uncovered runs piece).map fun run => coverIssue (owners normalized run.1) run := by
  unfold coverStep extend
  by_cases hone : (owners normalized piece.1).length = 1
  · simp [hone, uncovered]
  have hmarked : ¬ uncovered (owners normalized piece.1) = false := by simp [uncovered, hone]
  rw [if_neg hone, if_neg hmarked]
  rcases List.eq_nil_or_concat runs with rfl | ⟨front, last, rfl⟩
  · rfl
  rw [List.concat_eq_append, List.map_append, List.map_singleton]
  simp only [List.getLast?_append, List.getLast?_singleton, Option.some_or, List.dropLast_concat]
  have hcond : ((coverIssue (owners normalized last.1) last).code =
        (if owners normalized piece.1 = [] then BandCode.gap else .overlap) ∧
      (coverIssue (owners normalized last.1) last).input_indices = owners normalized piece.1 ∧
      (coverIssue (owners normalized last.1) last).end_min = some piece.1) ↔
      (owners normalized last.1 = owners normalized piece.1 ∧ last.2 = piece.1) := by
    constructor
    · rintro ⟨-, hown, hend⟩
      exact ⟨hown, Option.some_inj.mp hend⟩
    · rintro ⟨hown, hend⟩
      exact ⟨by simp [coverIssue, hown], hown, by simp [coverIssue, hend]⟩
  simp only [hcond]
  split
  · next hjoin => simp [coverIssue, hjoin.1]
  · simp [coverIssue]

theorem foldl_coverStep (normalized : List (BandInput × ℕ)) (pieces : List (ℤ × ℤ)) (runs : List (ℤ × ℤ)) :
    pieces.foldl (coverStep normalized) (runs.map fun run => coverIssue (owners normalized run.1) run) =
      (pieces.foldl (extend (owners normalized) uncovered) runs).map
        fun run => coverIssue (owners normalized run.1) run := by
  induction pieces generalizing runs with
  | nil => rfl
  | cons piece pieces ih => rw [List.foldl_cons, List.foldl_cons, coverStep_map, ih]

/-- The runs that the code collects. -/
def sweep (normalized : List (BandInput × ℕ)) : List (ℤ × ℤ) :=
  (pairs (boundaries normalized)).foldl (extend (owners normalized) uncovered) []

theorem normalized_proper {bands : List BandInput} {row : BandInput × ℕ} (h : row ∈ normalizedBands bands) :
    0 ≤ row.1.start_min ∧ row.1.start_min < row.1.end_min ∧ row.1.end_min ≤ 1440 := by
  obtain ⟨band, -, hs, hv⟩ := mem_normalizedBands h
  exact mem_splitBand (bandIssues_eq_nil.mp hv).1 hs

/-- The boundaries go from 0 to 1440. -/
theorem boundaries_spec (bands : List BandInput) : ∃ rest, boundaries (normalizedBands bands) = 0 :: rest ∧
    (0 :: rest).Pairwise (· < ·) ∧ (0 :: rest).getLast (List.cons_ne_nil _ _) = 1440 := by
  obtain ⟨rest, hrest⟩ := boundaries_head (normalizedBands bands)
    fun row hrow => ⟨(normalized_proper hrow).1, by have := normalized_proper hrow; omega⟩
  have hnodup : (boundaries (normalizedBands bands)).Nodup :=
    (List.perm_insertionSort _ _).nodup_iff.mpr (List.nodup_dedup _)
  have hsorted := boundaries_sorted (normalizedBands bands)
  rw [hrest] at hnodup hsorted
  have hstrict : (0 :: rest).Pairwise (· < ·) :=
    (hsorted.and hnodup).imp fun h => lt_of_le_of_ne h.1 h.2
  refine ⟨rest, hrest, hstrict, le_antisymm ?_ ?_⟩
  · have hlast : (0 :: rest).getLast (List.cons_ne_nil _ _) ∈ boundaries (normalizedBands bands) := by
      rw [hrest]
      exact List.getLast_mem _
    rcases mem_boundaries.mp hlast with h | h | ⟨row, hrow, h | h⟩
    · rw [h]
      decide
    · exact h.le
    · have := normalized_proper hrow
      omega
    · have := normalized_proper hrow
      omega
  · have hmem : (1440 : ℤ) ∈ 0 :: rest := hrest ▸ mem_boundaries.mpr (.inr (.inl rfl))
    exact hsorted.rel_getLast hmem

/-- The collected runs are the maximal runs of minutes without one owner. -/
theorem sweep_spec {bands : List BandInput} (hv : ∀ b ∈ bands, Valid b) :
    Swept (ownersAt (layout bands)) uncovered 0 1440 (sweep (normalizedBands bands)) := by
  obtain ⟨rest, hrest, hstrict, hlast⟩ := boundaries_spec bands
  have hsorted := boundaries_sorted (normalizedBands bands)
  have hconst : ∀ piece ∈ pairs (0 :: rest), ∀ m, piece.1 ≤ m → m < piece.2 →
      owners (normalizedBands bands) m = owners (normalizedBands bands) piece.1 := by
    intro piece hpiece m h0 h1
    rw [← hrest] at hpiece
    unfold owners
    refine congrArg (List.insertionSort _) (congrArg (List.map _) (List.filter_congr fun row hrow => ?_))
    -- an edge of a band is a boundary, so it lies at or outside the ends of the piece
    have hs : row.1.start_min ∈ boundaries (normalizedBands bands) :=
      mem_boundaries.mpr (.inr (.inr ⟨row, hrow, .inl rfl⟩))
    have he : row.1.end_min ∈ boundaries (normalizedBands bands) :=
      mem_boundaries.mpr (.inr (.inr ⟨row, hrow, .inr rfl⟩))
    have hs' := le_or_ge_of_mem_pairs id hsorted hpiece hs
    have he' := le_or_ge_of_mem_pairs id hsorted hpiece he
    simp only [id_eq] at hs' he'
    rw [Bool.eq_iff_iff, Bool.and_eq_true, Bool.and_eq_true]
    simp only [decide_eq_true_eq]
    omega
  have hswept : Swept (owners (normalizedBands bands)) uncovered 0 _ _ :=
    sweep_swept swept_nil le_rfl hstrict hconst
  rw [hlast, ← hrest] at hswept
  exact hswept.congr fun m h0 h1 => owners_eq hv h0 h1

theorem kiem_khung_gio_valid {bands : List BandInput} (hv : ∀ b ∈ bands, Valid b) :
    kiem_khung_gio bands = if sweep (normalizedBands bands) = [] then
        .ok (((normalizedBands bands).map (·.1)).insertionSort fun a b => a.start_min ≤ b.start_min)
      else .error ((sweep (normalizedBands bands)).map fun run =>
        coverIssue (owners (normalizedBands bands) run.1) run) := by
  have hissues := foldl_coverStep (normalizedBands bands) (pairs (boundaries (normalizedBands bands))) []
  rw [List.map_nil] at hissues
  unfold kiem_khung_gio
  rw [if_neg (not_not.mpr (invalid_eq_nil_iff.mpr hv))]
  simp only [hissues]
  by_cases hnil : sweep (normalizedBands bands) = []
  · rw [if_pos hnil, if_neg (not_not.mpr (by rw [sweep] at hnil; rw [hnil]; rfl))]
  · have hne : (pairs (boundaries (normalizedBands bands))).foldl
        (extend (owners (normalizedBands bands)) uncovered) [] ≠ [] := hnil
    rw [if_neg hnil, if_pos (mt List.map_eq_nil_iff.mp hne)]
    rfl

theorem valid_of_ok {bands result : List BandInput} (h : kiem_khung_gio bands = .ok result) :
    ∀ b ∈ bands, Valid b := by
  unfold kiem_khung_gio at h
  simp only [ne_eq, ite_not] at h
  split at h
  · next hnil => exact invalid_eq_nil_iff.mp hnil
  · cases h

theorem sweep_eq_nil_iff {bands : List BandInput} (hv : ∀ b ∈ bands, Valid b) :
    sweep (normalizedBands bands) = [] ↔ Covered (layout bands) := by
  have hswept := sweep_spec hv
  constructor
  · intro hnil m h0 h1
    by_contra hone
    obtain ⟨run, hrun, -⟩ := hswept.cover m h0 h1 (by simp [uncovered, hone])
    rw [hnil] at hrun
    cases hrun
  · intro hcovered
    refine List.eq_nil_iff_forall_not_mem.mpr fun run hrun => ?_
    have hmax := hswept.maximal run hrun
    have hmark := hmax.mark
    rw [uncovered, hcovered run.1 hmax.lower (hmax.lt.trans_le hmax.upper)] at hmark
    exact absurd hmark (by decide)

/-! ## 3. Accepted bands -/

/-- Proper intervals in order, of which exactly one contains each minute, are contiguous. -/
theorem contiguous_of_once {bands : List BandInput} {low high : ℤ} (hle : low ≤ high)
    (hsorted : bands.Pairwise fun a b => a.start_min ≤ b.start_min)
    (hproper : ∀ b ∈ bands, low ≤ b.start_min ∧ b.start_min < b.end_min ∧ b.end_min ≤ high)
    (honce : ∀ m, low ≤ m → m < high → (bandsAt bands m).length = 1) : Contiguous low high bands := by
  induction bands generalizing low with
  | nil =>
    by_contra hne
    have := honce low le_rfl (lt_of_le_of_ne hle hne)
    simp [bandsAt] at this
  | cons b bands ih =>
    obtain ⟨hb, hrest⟩ := List.pairwise_cons.mp hsorted
    obtain ⟨hlow, hlt, hhigh⟩ := hproper b List.mem_cons_self
    have hstart : b.start_min = low := by
      have hpos : 0 < (bandsAt (b :: bands) low).length := by rw [honce low le_rfl (by omega)]; exact Nat.one_pos
      obtain ⟨c, hc⟩ := List.exists_mem_of_length_pos hpos
      obtain ⟨hc, hlowc⟩ := List.mem_filter.mp hc
      have hlowc := of_decide_eq_true hlowc
      rcases List.mem_cons.mp hc with rfl | hc
      · omega
      · have := hb c hc
        omega
    have hbm : ∀ m, m < b.end_min → low ≤ m → bandsAt bands m = [] := by
      intro m hm h0
      have hone := honce m h0 (by omega)
      have hcons : bandsAt (b :: bands) m = b :: bandsAt bands m :=
        List.filter_cons_of_pos (by simp [hstart, h0, hm])
      rw [hcons, List.length_cons] at hone
      exact List.eq_nil_of_length_eq_zero (by omega)
    refine ⟨hstart, hlt, ih hhigh hrest (fun c hc => ?_) fun m h0 h1 => ?_⟩
    · obtain ⟨hclow, hclt, hchigh⟩ := hproper c (List.mem_cons_of_mem _ hc)
      refine ⟨not_lt.mp fun hcb => ?_, hclt, hchigh⟩
      have hmem : c ∈ bandsAt bands c.start_min := List.mem_filter.mpr ⟨hc, by simp [hclt]⟩
      rw [hbm c.start_min hcb hclow] at hmem
      cases hmem
    · have hcons : bandsAt (b :: bands) m = bandsAt bands m :=
        List.filter_cons_of_neg (by simp only [decide_eq_true_eq]; omega)
      rw [← hcons]
      exact honce m (by omega) h1

theorem mem_ownersAt {layout : List (ℤ × ℤ)} {m : ℤ} {i : ℕ} :
    i ∈ ownersAt layout m ↔ ∃ p, layout[i]? = some p ∧ contains p.1 p.2 m = true := by
  rw [ownersAt, List.mem_map]
  constructor
  · rintro ⟨row, hrow, rfl⟩
    obtain ⟨hmem, hm⟩ := List.mem_filter.mp hrow
    exact ⟨row.1, List.mem_zipIdx_iff_getElem?.mp hmem, hm⟩
  · rintro ⟨p, hp, hm⟩
    exact ⟨(p, i), List.mem_filter.mpr ⟨List.mk_mem_zipIdx_iff_getElem?.mpr hp, hm⟩, rfl⟩

/-- A part of a split band lies in the band. -/
theorem contains_of_mem_splitBand {band b : BandInput} (hb : b ∈ splitBand band) {m : ℤ}
    (hm : b.start_min ≤ m ∧ m < b.end_min) : contains band.start_min band.end_min m = true := by
  unfold splitBand at hb
  unfold contains
  split at hb
  · next hlt =>
    rw [List.mem_singleton.mp hb] at hm
    simp [hlt, hm]
  · next hlt =>
    rw [if_neg hlt, Bool.or_eq_true, decide_eq_true_eq, decide_eq_true_eq]
    rcases List.mem_cons.mp hb with rfl | hb
    · exact .inl hm.1
    · split at hb
      · rw [List.mem_singleton.mp hb] at hm
        exact .inr hm.2
      · cases hb

/-- Of two bands over a minute with one owner, the values are the same. -/
theorem eq_of_contains {bands : List BandInput} {m : ℤ} (hone : (ownersAt (layout bands) m).length = 1)
    {band band' : BandInput} (hband : band ∈ bands) (hband' : band' ∈ bands)
    (hm : contains band.start_min band.end_min m = true) (hm' : contains band'.start_min band'.end_min m = true) :
    band = band' := by
  obtain ⟨i, hi⟩ := List.mem_iff_getElem?.mp hband
  obtain ⟨j, hj⟩ := List.mem_iff_getElem?.mp hband'
  have hio : i ∈ ownersAt (layout bands) m := mem_ownersAt.mpr ⟨_, by rw [layout, List.getElem?_map, hi]; rfl, hm⟩
  have hjo : j ∈ ownersAt (layout bands) m := mem_ownersAt.mpr ⟨_, by rw [layout, List.getElem?_map, hj]; rfl, hm'⟩
  obtain ⟨o, ho⟩ := List.length_eq_one_iff.mp hone
  rw [ho, List.mem_singleton] at hio hjo
  rw [hio] at hi
  rw [hjo, hi] at hj
  exact Option.some_inj.mp hj

/-- Bands that do not wrap are not split. -/
theorem normalizedBands_of_proper {bands : List BandInput} (hv : ∀ b ∈ bands, Valid b)
    (hp : ∀ b ∈ bands, b.start_min < b.end_min) : (normalizedBands bands).map (·.1) = bands := by
  have hrow : ∀ row ∈ bands.zipIdx,
      (if bandIssues row.1 row.2 = [] then (splitBand row.1).map (·, row.2) else []) = [row] := by
    intro row hrow
    have hmem := List.fst_mem_of_mem_zipIdx hrow
    rw [if_pos (bandIssues_eq_nil.mpr (hv row.1 hmem)), splitBand, if_pos (hp row.1 hmem)]
    rfl
  have hflat : normalizedBands bands = bands.zipIdx := by
    unfold normalizedBands
    calc bands.zipIdx.flatMap _ = bands.zipIdx.flatMap fun row => [row] :=
          List.flatMap_congr fun row hr => hrow row hr
      _ = bands.zipIdx := List.flatMap_singleton' _
  rw [hflat, List.zipIdx_map_fst]

theorem length_ownersAt_of_proper {bands : List BandInput} (hp : ∀ b ∈ bands, b.start_min < b.end_min) (m : ℤ) :
    (ownersAt (layout bands) m).length = (bandsAt bands m).length := by
  have hfilter : ((layout bands).zipIdx.filter fun row => contains row.1.1 row.1.2 m).map (·.1) =
      (layout bands).filter fun p => contains p.1 p.2 m := by
    rw [← List.zipIdx_map_fst 0 (layout bands), List.filter_map, List.zipIdx_map_fst]
    rfl
  rw [ownersAt, List.length_map, ← List.length_map (·.1), hfilter, layout, List.filter_map, List.length_map,
    bandsAt]
  refine congrArg List.length (List.filter_congr fun b hb => ?_)
  simp [contains, hp b hb]

end CoverageLemmas

open BandsLemmas CoverageLemmas

theorem kiem_khung_gio_ok_iff (bands : List BandInput) :
    (∃ result, kiem_khung_gio bands = .ok result) ↔ (∀ b ∈ bands, Valid b) ∧ Covered (layout bands) := by
  constructor
  · rintro ⟨result, h⟩
    have hv := valid_of_ok h
    refine ⟨hv, (sweep_eq_nil_iff hv).mp ?_⟩
    rw [kiem_khung_gio_valid hv] at h
    by_contra hne
    rw [if_neg hne] at h
    cases h
  · rintro ⟨hv, hcovered⟩
    exact ⟨_, (kiem_khung_gio_valid hv).trans (if_pos ((sweep_eq_nil_iff hv).mpr hcovered))⟩

/-- Bands in their normal form: contiguous over the day, with the rate and the label of the input band over
each minute, and accepted as they are. -/
structure Normal (bands result : List BandInput) : Prop where
  contiguous : Contiguous 0 1440 result
  same : ∀ b ∈ result, ∀ m, b.start_min ≤ m → m < b.end_min →
    ∀ band ∈ bands, contains band.start_min band.end_min m = true →
      b.energy_rate_vnd_per_kwh = band.energy_rate_vnd_per_kwh ∧ b.label = band.label
  fixed : kiem_khung_gio result = .ok result

theorem kiem_khung_gio_normal {bands result : List BandInput} (h : kiem_khung_gio bands = .ok result) :
    Normal bands result := by
  obtain ⟨hv, hcovered⟩ := (kiem_khung_gio_ok_iff bands).mp ⟨result, h⟩
  have hresult : result = ((normalizedBands bands).map (·.1)).insertionSort fun a b => a.start_min ≤ b.start_min := by
    have := (kiem_khung_gio_valid hv).symm.trans h
    rw [if_pos ((sweep_eq_nil_iff hv).mpr hcovered)] at this
    exact (Except.ok.inj this).symm
  have hcovers := kiem_khung_gio_covers h
  have hsorted : result.Pairwise fun a b => a.start_min ≤ b.start_min := by
    rw [hresult]
    exact List.pairwise_insertionSort _ _
  have horigin : ∀ b ∈ result, ∃ band ∈ bands, b ∈ splitBand band := by
    intro b hb
    rw [hresult, List.mem_insertionSort, List.mem_map] at hb
    obtain ⟨row, hrow, rfl⟩ := hb
    obtain ⟨band, hband, hs, -⟩ := mem_normalizedBands hrow
    exact ⟨band, hband, hs⟩
  have hproper : ∀ b ∈ result, b.start_min < b.end_min := fun b hb => (hcovers.proper b hb).2.1
  have hvalid : ∀ b ∈ result, Valid b := by
    intro b hb
    obtain ⟨h0, hlt, h1⟩ := hcovers.proper b hb
    obtain ⟨band, hband, hs⟩ := horigin b hb
    obtain ⟨hrate, hlabel⟩ := splitBand_rate hs
    refine ⟨?_, ?_, ?_⟩
    · simp only [validTime, Bool.and_eq_true, decide_eq_true_eq, bne_iff_ne, ne_eq]
      omega
    · rw [validRate, hrate]
      exact (hv band hband).2.1
    · rw [validLabel, hlabel]
      exact (hv band hband).2.2
  refine ⟨contiguous_of_once (by decide) hsorted hcovers.proper fun m h0 h1 => kiem_khung_gio_once h h0 h1, ?_, ?_⟩
  · intro b hb m h0 h1 band hband hm
    obtain ⟨b0, hb0, hs⟩ := horigin b hb
    obtain ⟨hlow, -, hhigh⟩ := hcovers.proper b hb
    have hsame := eq_of_contains (hcovered m (hlow.trans h0) (h1.trans_le hhigh)) hb0 hband
      (contains_of_mem_splitBand hs ⟨h0, h1⟩) hm
    exact hsame ▸ splitBand_rate hs
  · have hnil : sweep (normalizedBands result) = [] := (sweep_eq_nil_iff hvalid).mpr fun m h0 h1 => by
      rw [length_ownersAt_of_proper hproper, kiem_khung_gio_once h h0 h1]
    rw [kiem_khung_gio_valid hvalid, if_pos hnil, normalizedBands_of_proper hvalid hproper, hsorted.insertionSort_eq]

/-- The issues of valid bands: in order, disjoint, and one for each maximal run of minutes without one
owner. -/
structure Reported (bands : List BandInput) (issues : List BandIssue) : Prop where
  sorted : issues.Pairwise fun a b => a.end_min.getD 0 ≤ b.start_min.getD 0
  exact : ∀ issue, issue ∈ issues ↔ ∃ run, Maximal (ownersAt (layout bands)) uncovered 0 1440 run ∧
    issue = coverIssue (ownersAt (layout bands) run.1) run

theorem kiem_khung_gio_reported {bands : List BandInput} {issues : List BandIssue} (hv : ∀ b ∈ bands, Valid b)
    (h : kiem_khung_gio bands = .error issues) : Reported bands issues := by
  have hswept := sweep_spec hv
  have hissues : issues = (sweep (normalizedBands bands)).map fun run =>
      coverIssue (ownersAt (layout bands) run.1) run := by
    have heq := (kiem_khung_gio_valid hv).symm.trans h
    split at heq
    · cases heq
    · rw [← Except.error.inj heq]
      refine List.map_congr_left fun run hrun => ?_
      have hmax := hswept.maximal run hrun
      rw [owners_eq hv hmax.lower (hmax.lt.trans_le hmax.upper)]
  refine ⟨hissues ▸ List.pairwise_map.mpr hswept.sorted, fun issue => ?_⟩
  rw [hissues, List.mem_map]
  constructor
  · rintro ⟨run, hrun, rfl⟩
    exact ⟨run, hswept.maximal run hrun, rfl⟩
  · rintro ⟨run, hrun, rfl⟩
    exact ⟨run, hswept.mem_iff.mpr hrun, rfl⟩

end Csms.Pricing
