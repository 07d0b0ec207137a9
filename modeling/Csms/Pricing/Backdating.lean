import Csms.Billing.DailyTariffs
import Csms.Pricing.History

/-!
# Tariffs of days that were billed

An invoice marks the tariffs of its days as used. As long as no tariff is created for, or moved to, one of these
days, each of them keeps the tariff it was billed with.

Results:
1. `commit_dated`: dates stay distinct.
2. `commit_used`: what a call that backdates nothing leaves alone.
3. `BackdatingLemmas.markDaily_eq`: the marks of an invoice are on the tariffs of all of its days.
-/

namespace Csms.Pricing

open Outcome HistoryLemmas

/-! ## 1. Distinct dates -/

/-- `tariffs_pkey` and `uq_tariffs_station_effective_from`. -/
structure Dated (s : List Tariff) : Prop where
  ids : Table.Keyed Tariff.id s
  dates : ∀ x ∈ s, ∀ y ∈ s, x.station_id = y.station_id → x.effective_from = y.effective_from → x = y

/-- The call is accepted and gives its station a tariff from the day `last` on, or from an earlier one. -/
def TariffOp.Backdates (stations : List Station) (now : ℤ) (s : List Tariff) (station_id : ℕ) (last : ℤ)
    (op : TariffOp) : Prop :=
  (∃ s', op.apply stations now s = .ok s') ∧
    match op with
    | .create _ station _ request | .edit _ station _ request => station = station_id ∧ request.effective_from ≤ last
    | .mark _ _ => False

namespace BackdatingLemmas

variable {s s' : List Tariff} {station_id : ℕ} {today day : ℤ} {v : Tariff}

/-- With distinct dates the tariff of a day is the one with the latest date. -/
theorem lay_eq_some_iff (h : Dated s) : lay_bieu_gia_hieu_luc s station_id day = some v ↔
    v ∈ upTo s station_id day ∧ ∀ x ∈ upTo s station_id day, x.effective_from ≤ v.effective_from := by
  set r : Tariff → Tariff → Prop := fun a b => b.effective_from ≤ a.effective_from with hr
  have : Std.Total r := ⟨fun a b => le_total b.effective_from a.effective_from⟩
  have : IsTrans Tariff r := ⟨fun a b c hab hbc => (hbc : c.effective_from ≤ b.effective_from).trans hab⟩
  have hsorted := List.pairwise_insertionSort r (upTo s station_id day)
  have hmem : ∀ x, x ∈ (upTo s station_id day).insertionSort r ↔ x ∈ upTo s station_id day := fun x =>
    List.mem_insertionSort r
  change ((upTo s station_id day).insertionSort r).head? = some v ↔ _
  cases hl : (upTo s station_id day).insertionSort r with
  | nil =>
    rw [hl] at hmem
    refine iff_of_false (by simp) fun hv => ?_
    exact absurd ((hmem v).mpr hv.1) List.not_mem_nil
  | cons a l =>
    rw [hl] at hmem hsorted
    rw [List.head?_cons, Option.some.injEq]
    have ha := (hmem a).mp List.mem_cons_self
    have hfirst : ∀ x ∈ upTo s station_id day, x.effective_from ≤ a.effective_from := by
      intro x hx
      rcases List.mem_cons.mp ((hmem x).mpr hx) with rfl | hx
      · exact le_rfl
      · exact (List.pairwise_cons.mp hsorted).1 x hx
    refine ⟨fun hav => hav ▸ ⟨ha, hfirst⟩, fun hv => ?_⟩
    have hstation : ∀ x ∈ upTo s station_id day, x ∈ s ∧ x.station_id = station_id := fun x hx => by
      have := List.mem_filter.mp hx
      exact ⟨this.1, (of_decide_eq_true this.2).1⟩
    exact h.dates a (hstation a ha).1 v (hstation v hv.1).1 ((hstation a ha).2.trans (hstation v hv.1).2.symm)
      (le_antisymm (hv.2 a ha) (hfirst v hv.1))

theorem mem_upTo {x : Tariff} :
    x ∈ upTo s station_id day ↔ x ∈ s ∧ x.station_id = station_id ∧ x.effective_from ≤ day := by
  simp [upTo]

/-- Marks of the tariffs of some days change the use of rows and nothing else. -/
structure Marks (g : Tariff → Tariff) : Prop where
  id : ∀ t, (g t).id = t.id
  station : ∀ t, (g t).station_id = t.station_id
  date : ∀ t, (g t).effective_from = t.effective_from
  terms : ∀ t, (g t).terms = t.terms
  used : ∀ t, t.used_at ≠ none → g t = t

theorem marks_stamp (station_id tariff_id : ℕ) (now : ℤ) : Marks (stamp station_id tariff_id now) :=
  ⟨stamp_id _ _ _, stamp_station _ _ _, stamp_date _ _ _, stamp_terms _ _ _, fun _ => stamp_of_used⟩

theorem Marks.comp {f g : Tariff → Tariff} (hf : Marks f) (hg : Marks g) : Marks (f ∘ g) where
  id t := (hf.id (g t)).trans (hg.id t)
  station t := (hf.station (g t)).trans (hg.station t)
  date t := (hf.date (g t)).trans (hg.date t)
  terms t := (hf.terms (g t)).trans (hg.terms t)
  used t ht := by
    change f (g t) = t
    rw [hg.used t ht, hf.used t ht]

theorem Marks.dated {g : Tariff → Tariff} (hg : Marks g) (h : Dated s) : Dated (s.map g) := by
  refine ⟨List.pairwise_map.mpr (h.ids.imp fun {a b} hab => ?_), fun a ha b hb hs hd => ?_⟩
  · rwa [hg.id, hg.id]
  · obtain ⟨x, hx, rfl⟩ := List.mem_map.mp ha
    obtain ⟨y, hy, rfl⟩ := List.mem_map.mp hb
    rw [hg.station, hg.station] at hs
    rw [hg.date, hg.date] at hd
    rw [h.dates x hx y hy hs hd]

/-- A call keeps dates distinct. -/
theorem change_dated (h : Dated s) (hc : Change station_id today s s') : Dated s' := by
  have happend : ∀ x : Tariff, (∀ t ∈ s, t.id ≠ x.id) →
      (∀ t ∈ s, t.station_id = x.station_id → t.effective_from ≠ x.effective_from) → Dated (s ++ [x]) := by
    intro x hid hfresh
    refine ⟨h.ids.append hid, fun a ha b hb hst hd => ?_⟩
    rcases List.mem_append.mp ha with ha | ha <;> rcases List.mem_append.mp hb with hb | hb
    · exact h.dates a ha b hb hst hd
    · rw [List.mem_singleton.mp hb] at hst hd
      exact absurd hd (hfresh a ha hst)
    · rw [List.mem_singleton.mp ha] at hst hd
      exact absurd hd.symm (hfresh b hb hst.symm)
    · rw [List.mem_singleton.mp ha, List.mem_singleton.mp hb]
  cases hc with
  | same => exact h
  | first x hst hid hnone => exact happend x hid fun t ht hts => absurd (hts.trans hst) (hnone t ht)
  | later x hst hid _ _ hfresh => exact happend x hid fun t ht hts => hfresh t ht (hts.trans hst)
  | edited x f hx hst hahead hunused hsame hdate hbands _ hlater =>
    have hnew : ∀ y ∈ s, y.station_id = station_id → y.id ≠ x.id → y.effective_from ≠ (f x).effective_from :=
      fun y hy hys hyx => (hlater ⟨y, hy, hys, hyx⟩).2 y hy hys hyx
    refine ⟨h.ids.modify fun t ht => (hsame t).1.trans ht, fun a ha b hb hs hd => ?_⟩
    rcases (mem_edited h.ids hx).mp ha with rfl | ⟨ha, hna⟩ <;>
      rcases (mem_edited h.ids hx).mp hb with rfl | ⟨hb, hnb⟩
    · rfl
    · rw [(hsame x).2.1, hst] at hs
      exact absurd hd.symm (hnew b hb hs.symm hnb)
    · rw [(hsame x).2.1, hst] at hs
      exact absurd hd (hnew a ha hs hna)
    · exact h.dates a ha b hb hs hd
  | marked tariff_id now => exact (marks_stamp station_id tariff_id now).dated h

end BackdatingLemmas

open BackdatingLemmas

theorem commit_dated {stations : List Station} {now : ℤ} {op : TariffOp} {s : List Tariff} (h : Dated s) :
    Dated (op.commit stations now s) := by
  unfold TariffOp.commit
  cases happ : op.apply stations now s with
  | error e => exact h
  | ok s' =>
    obtain ⟨station, station_id, -, hchange⟩ := apply_change happ
    exact change_dated h hchange

/-! ## 2. Days that were billed -/

namespace BackdatingLemmas

variable {s s' : List Tariff} {station_id : ℕ} {day : ℤ} {v : Tariff}

/-- A change of rows that keeps station and date. -/
theorem lay_map {g : Tariff → Tariff} (hstation : ∀ t, (g t).station_id = t.station_id)
    (hdate : ∀ t, (g t).effective_from = t.effective_from) (s : List Tariff) (station_id : ℕ) (day : ℤ) :
    lay_bieu_gia_hieu_luc (s.map g) station_id day = (lay_bieu_gia_hieu_luc s station_id day).map g := by
  have hfilter : (s.map g).filter (fun t => t.station_id = station_id ∧ t.effective_from ≤ day) =
      (s.filter fun t => t.station_id = station_id ∧ t.effective_from ≤ day).map g := by
    rw [List.filter_map]
    congr 1
    refine List.filter_congr fun t _ => ?_
    simp only [Function.comp, hstation, hdate]
  have hsort := List.map_insertionSort (fun a b : Tariff => b.effective_from ≤ a.effective_from)
    (fun a b : Tariff => b.effective_from ≤ a.effective_from) g
    (s.filter fun t => t.station_id = station_id ∧ t.effective_from ≤ day)
    (fun a _ b _ => by simp only [hdate])
  unfold lay_bieu_gia_hieu_luc
  rw [hfilter, ← hsort, List.head?_map]

theorem create_ok {stations : List Station} {owned : Bool} {now : ℤ} {station new_id : ℕ} {request : TariffRequest}
    (h : tao_bieu_gia stations owned now station new_id request s = .ok s') :
    ∃ x : Tariff, s' = s ++ [x] ∧ x.station_id = station ∧ x.effective_from = request.effective_from := by
  obtain ⟨-, -, h⟩ := bind_eq_ok.mp h
  obtain ⟨normalized, -, h⟩ := bind_eq_ok.mp h
  obtain ⟨u, -, h⟩ := bind_eq_ok.mp h
  split at h
  · cases h
  · cases h
    exact ⟨_, rfl, rfl, rfl⟩

theorem edit_ok {stations : List Station} {owned : Bool} {now : ℤ} {station tariff_id : ℕ} {request : TariffRequest}
    (h : edit_tariff stations owned now station tariff_id request s = .ok s') :
    ∃ x ∈ s, ∃ normalized, x.station_id = station ∧ x.used_at = none ∧
      s' = Table.modify Tariff.id x.id (Tariff.edit request normalized) s := by
  obtain ⟨-, -, h⟩ := bind_eq_ok.mp h
  obtain ⟨tariff, hmut, h⟩ := bind_eq_ok.mp h
  obtain ⟨normalized, -, h⟩ := bind_eq_ok.mp h
  obtain ⟨u, -, h⟩ := bind_eq_ok.mp h
  cases h
  obtain ⟨hmem, -, hstation, hused, -⟩ := mutable_ok hmut
  exact ⟨tariff, hmem, normalized, hstation, hused, rfl⟩

end BackdatingLemmas

/-- A call that backdates nothing leaves the used tariff of a day up to `last` as it is. -/
theorem commit_used {stations : List Station} {now : ℤ} {op : TariffOp} {s : List Tariff} {station_id : ℕ}
    {day last : ℤ} {v : Tariff} (h : Dated s) (hlay : lay_bieu_gia_hieu_luc s station_id day = some v)
    (hused : v.used_at ≠ none) (hday : day ≤ last) (hop : ¬ op.Backdates stations now s station_id last) :
    lay_bieu_gia_hieu_luc (op.commit stations now s) station_id day = some v := by
  have hdated : Dated (op.commit stations now s) := commit_dated h
  unfold TariffOp.commit at hdated ⊢
  cases happ : op.apply stations now s with
  | error e => exact hlay
  | ok s' =>
    rw [happ] at hdated
    dsimp only at hdated ⊢
    cases op with
    | create owned station new_id request =>
      obtain ⟨x, rfl, hst, hdate⟩ := create_ok happ
      rw [lay_congr (upTo_append fun hx => hop ⟨⟨_, happ⟩, hst ▸ hx.1, hdate ▸ hx.2.trans hday⟩)]
      exact hlay
    | edit owned station tariff_id request =>
      obtain ⟨x, hx, normalized, hst, hunused, rfl⟩ := edit_ok happ
      obtain ⟨hv, hmax⟩ := (lay_eq_some_iff h).mp hlay
      obtain ⟨hvs, hvst, hvd⟩ := mem_upTo.mp hv
      have hne : v.id ≠ x.id := fun hid => hused (by rw [h.ids.eq hvs hx hid, hunused])
      refine (lay_eq_some_iff hdated).mpr ⟨mem_upTo.mpr ⟨(mem_edited h.ids hx).mpr (.inr ⟨hvs, hne⟩), hvst, hvd⟩,
        fun y hy => ?_⟩
      obtain ⟨hys, hyst, hyd⟩ := mem_upTo.mp hy
      rcases (mem_edited h.ids hx).mp hys with rfl | ⟨hys, -⟩
      · exact absurd ⟨⟨_, happ⟩, hst ▸ hyst, le_trans hyd hday⟩ hop
      · exact hmax y (mem_upTo.mpr ⟨hys, hyst, hyd⟩)
    | mark station tariff_id =>
      obtain ⟨_, -, h'⟩ := bind_eq_ok.mp happ
      split at h'
      · cases h'
      · cases h'
        rw [danh_dau_eq, lay_map (stamp_station _ _ _) (stamp_date _ _ _), hlay, Option.map_some, stamp_of_used hused]

/-! ## 3. The tariffs of an invoice -/

namespace BackdatingLemmas

open Csms.Billing (DailyTariff markDaily)

/-- The marks of an invoice, which are on the tariffs of all of its days. -/
theorem markDaily_eq (station_id : ℕ) (now : ℤ) : ∀ (daily : List DailyTariff) (s : List Tariff),
    ∃ g, Marks g ∧ markDaily daily station_id now s = s.map g ∧
      ∀ d ∈ daily, ∀ t : Tariff, t.id = d.version.id → t.station_id = station_id → (g t).used_at ≠ none := by
  intro daily
  induction daily with
  | nil =>
    exact fun s => ⟨id, ⟨fun _ => rfl, fun _ => rfl, fun _ => rfl, fun _ => rfl, fun _ _ => rfl⟩,
      (List.map_id s).symm, fun _ hd => absurd hd List.not_mem_nil⟩
  | cons d daily ih =>
    intro s
    obtain ⟨g, hg, hmap, hused⟩ := ih (danh_dau_bieu_gia_da_dung s station_id d.version.id now)
    have hstamp := marks_stamp station_id d.version.id now
    refine ⟨g ∘ stamp station_id d.version.id now, hg.comp hstamp, ?_, fun d' hd' t hid hst => ?_⟩
    · change markDaily daily station_id now (danh_dau_bieu_gia_da_dung s station_id d.version.id now) = _
      rw [hmap, danh_dau_eq, List.map_map]
    · rcases List.mem_cons.mp hd' with rfl | hd'
      · have hset : (stamp station_id d'.version.id now t).used_at ≠ none := by
          unfold stamp
          rw [if_pos ⟨hid, hst⟩]
          simp
        change (g (stamp station_id d'.version.id now t)).used_at ≠ none
        rwa [hg.used _ hset]
      · exact hused d' hd' _ ((hstamp.id t).trans hid) ((hstamp.station t).trans hst)

theorem Marks.lay {g : Tariff → Tariff} (hg : Marks g) (s : List Tariff) (station_id : ℕ) (day : ℤ) :
    lay_bieu_gia_hieu_luc (s.map g) station_id day = (lay_bieu_gia_hieu_luc s station_id day).map g :=
  lay_map hg.station hg.date s station_id day

end BackdatingLemmas

end Csms.Pricing
