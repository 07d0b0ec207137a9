import Csms.Lib.Outcome
import Csms.Charging.Samples

/-!
# The stored series of a session

Live reports extend a series at its end, late ones anywhere. Either way a new point is compared with
its neighbours, and a register that falls is flagged.

Results: `storeSamples_spec`: what a report adds to a well-formed store keeps it well formed.
-/

namespace Csms.Charging

open Points Outcome
open Csms.Billing (Measurand MeterSample)

/-- The samples of a session. Unless a regression was flagged, registers rise, and the billed one starts
at the start reading. -/
structure SeriesOk (c : Session) (samples : List MeterSample) : Prop where
  session : ∀ m ∈ samples, m.session_id = c.id
  distinct : samples.Pairwise fun a b => sampleKey a ≠ sampleKey b
  since : ∀ m ∈ samples, c.started_at ≤ m.timestamp
  rising : "meter_regression" ∉ c.review_reasons → ∀ key : Series, key.1 = .energyRegister →
    Rising (history samples key)
  floor : "meter_regression" ∉ c.review_reasons → ∀ p ∈ history samples outletRegister, c.startWh ≤ p.2

/-! ## 1. One more sample -/

theorem mem_history {samples : List MeterSample} {key : Series} {p : ℤ × ℚ} :
    p ∈ history samples key ↔ ∃ m ∈ samples, sampleSeries m = key ∧ (m.timestamp, reading m) = p := by
  simp [history, and_assoc]

theorem history_append (samples : List MeterSample) (m : MeterSample) (key : Series) :
    history (samples ++ [m]) key =
      history samples key ++ if sampleSeries m = key then [(m.timestamp, reading m)] else [] := by
  unfold history
  rw [List.filter_append, List.map_append]
  split
  · next h => rw [List.filter_singleton, decide_eq_true h]; rfl
  · next h => rw [List.filter_singleton, decide_eq_false h]; rfl

/-- Only the start of the session and a flagged regression matter. -/
theorem SeriesOk.congr {c c' : Session} {samples : List MeterSample} (h : SeriesOk c samples)
    (hid : c'.id = c.id) (hstart : c'.started_at = c.started_at) (hwh : c'.startWh = c.startWh)
    (hreg : "meter_regression" ∈ c.review_reasons → "meter_regression" ∈ c'.review_reasons) :
    SeriesOk c' samples :=
  ⟨hid ▸ h.session, h.distinct, hstart ▸ h.since, fun hno => h.rising fun hr => hno (hreg hr),
    fun hno => hwh ▸ h.floor fun hr => hno (hreg hr)⟩

theorem SeriesOk.reviewed {c c' : Session} {samples : List MeterSample} (h : SeriesOk c samples)
    (hc : Reviewed c c') : SeriesOk c' samples :=
  h.congr (hc.get (·.id) fun _ _ => rfl) (hc.get (·.started_at) fun _ _ => rfl)
    (hc.get (·.startWh) fun _ _ => rfl) fun hr => hc.reasons hr

/-- A sample that has its own time, and lies between its neighbours if it is of a register and no
regression is flagged. -/
theorem SeriesOk.append {c : Session} {samples : List MeterSample} (h : SeriesOk c samples) {m : MeterSample}
    (hid : m.session_id = c.id) (hsince : c.started_at ≤ m.timestamp)
    (hnew : ∀ q ∈ history samples (sampleSeries m), q.1 ≠ m.timestamp)
    (hrise : "meter_regression" ∉ c.review_reasons → m.measurand = .energyRegister →
      (∀ p, before (history samples (sampleSeries m)) m.timestamp = some p → p.2 ≤ reading m) ∧
      (∀ p, after (history samples (sampleSeries m)) m.timestamp = some p → reading m ≤ p.2) ∧
      (sampleSeries m = outletRegister → c.startWh ≤ reading m)) :
    SeriesOk c (samples ++ [m]) := by
  constructor
  · intro a ha
    rcases List.mem_append.mp ha with ha | ha
    · exact h.session a ha
    · rwa [List.mem_singleton.mp ha]
  · refine List.pairwise_append.mpr ⟨h.distinct, List.pairwise_singleton _ _, fun a ha b hb heq => ?_⟩
    rw [List.mem_singleton.mp hb] at heq
    simp only [sampleKey, Prod.mk.injEq] at heq
    exact hnew _ (mem_history.mpr ⟨a, ha, by simp only [sampleSeries, Prod.mk.injEq]; exact heq.2.1, rfl⟩) heq.2.2
  · intro a ha
    rcases List.mem_append.mp ha with ha | ha
    · exact h.since a ha
    · rwa [List.mem_singleton.mp ha]
  · intro hno key hkey
    rw [history_append]
    split
    · next hm =>
      subst hm
      obtain ⟨hbefore, hafter, -⟩ := hrise hno hkey
      exact (h.rising hno _ hkey).append hnew hbefore hafter
    · rw [List.append_nil]
      exact h.rising hno key hkey
  · intro hno p hp
    rw [history_append] at hp
    rcases List.mem_append.mp hp with hp | hp
    · exact h.floor hno p hp
    · split at hp
      · next hm =>
        have hreg : m.measurand = .energyRegister := congrArg (·.1) hm
        rw [List.mem_singleton.mp hp]
        exact (hrise hno hreg).2.2 hm
      · cases hp

/-! ## 2. Live reports -/

/-- The state of the live loop, after it has added `st.rows` to `stored`. -/
structure IngestOk (stored : List MeterSample) (c : Session) (st : Ingest) : Prop where
  reviewed : Reviewed c st.session
  series : SeriesOk st.session (stored ++ st.rows)
  latest : ∀ key, st.latest key = latest (history (stored ++ st.rows) key)

theorem IngestOk.flag {stored : List MeterSample} {c : Session} {st : Ingest} (h : IngestOk stored c st)
    {session : Session} (hs : Reviewed st.session session) : IngestOk stored c { st with session } :=
  ⟨h.reviewed.trans hs, h.series.reviewed hs, h.latest⟩

/-- A sample later than its series, and not lower than the newest point unless that is flagged. -/
theorem IngestOk.append {stored : List MeterSample} {c : Session} {st : Ingest} (h : IngestOk stored c st)
    {timestamp : ℤ} {sample : SamplePayload} {value : ℚ} {unit : String}
    (hlater : ∀ q ∈ history (stored ++ st.rows) sample.series, q.1 < timestamp)
    (hrise : "meter_regression" ∉ st.session.review_reasons → sample.series.1 = .energyRegister →
      (∀ p, st.latest sample.series = some p → p.2 ≤ value) ∧
      (sample.series = outletRegister → st.session.startWh ≤ value)) :
    IngestOk stored c (st.append timestamp sample value unit) := by
  unfold Ingest.append
  split
  · exact h
  next hstart =>
  set m := newSample st.session timestamp sample value unit with hm
  have hseries : sampleSeries m = sample.series := rfl
  have hvalue : reading m = value := rfl
  refine ⟨h.reviewed, ?_, fun key => ?_⟩
  · have := h.series.append (m := m) rfl (not_lt.mp hstart) (fun q hq => (hlater q hq).ne) ?_
    · rwa [List.append_assoc] at this
    · intro hno hreg
      obtain ⟨hlatest, hfloor⟩ := hrise hno hreg
      refine ⟨fun p hp => ?_, fun p hp => ?_, hfloor⟩
      · obtain ⟨hp, -⟩ := latest_spec hp
        have hmem : p ∈ history (stored ++ st.rows) sample.series := (List.mem_filter.mp hp).1
        cases hl : st.latest sample.series with
        | none =>
          rw [h.latest] at hl
          rw [latest_eq_none hl] at hmem
          cases hmem
        | some q =>
          have hq := hlatest q hl
          rw [h.latest] at hl
          obtain ⟨hqmem, hqmax⟩ := latest_spec hl
          exact (h.series.rising hno _ hreg p hmem q hqmem (hqmax p hmem)).trans hq
      · obtain ⟨hmem, hlt⟩ := List.mem_filter.mp (earliest_spec hp).1
        have := hlater p hmem
        have hlt : timestamp < p.1 := of_decide_eq_true hlt
        omega
  · rw [← List.append_assoc, history_append, hseries]
    change Function.update st.latest sample.series _ key = _
    by_cases hkey : sample.series = key
    · subst hkey
      rw [if_pos rfl, Function.update_self]
      exact (latest_append hlater).symm
    · rw [if_neg hkey, List.append_nil, Function.update_of_ne (Ne.symm hkey)]
      exact h.latest key

theorem IngestOk.live {stored : List MeterSample} {c : Session} {timestamp : ℤ} (sample : SamplePayload)
    {st st' : Ingest} (h : IngestOk stored c st) (hrun : liveSample timestamp st sample = .ok st') :
    IngestOk stored c st' := by
  unfold liveSample at hrun
  obtain ⟨numeric, -, hrun⟩ := bind_eq_ok.mp hrun
  cases numeric with
  | none =>
    cases hrun
    exact h
  | some numeric =>
  obtain ⟨value, unit⟩ := numeric
  simp only at hrun
  cases hprev : previousPoint st sample.series with
  | none =>
    rw [hprev] at hrun
    cases hrun
    unfold previousPoint at hprev
    split at hprev
    · cases hprev
    next hlatest =>
    rw [h.latest] at hlatest
    refine h.append (fun q hq => ?_) fun _ _ => ⟨fun p hp => ?_, fun hout => ?_⟩
    · rw [latest_eq_none hlatest] at hq
      cases hq
    · rw [h.latest, hlatest] at hp
      cases hp
    · rw [if_pos hout] at hprev
      cases hprev
  | some prev =>
  obtain ⟨stamp, old⟩ := prev
  rw [hprev] at hrun
  simp only at hrun
  split at hrun
  · cases hrun
    exact h
  next hnotOld =>
  split at hrun
  · cases hrun
    split
    · exact h.flag (reviewed_review _ _)
    · exact h
  next hne =>
  cases hrun
  -- the previous point is the newest of the series, or the start of the session
  unfold previousPoint at hprev
  set session := if sample.series.1 = .energyRegister ∧ value < old then
    review "meter_regression" st.session else st.session with hsession
  have hrev : Reviewed st.session session := by
    rw [hsession]
    split
    · exact reviewed_review _ _
    · exact .refl _
  have hle : "meter_regression" ∉ session.review_reasons → sample.series.1 = .energyRegister → old ≤ value := by
    intro hno hreg
    by_contra hlt
    rw [hsession, if_pos ⟨hreg, not_le.mp hlt⟩] at hno
    exact hno (mem_review.mpr (.inr rfl))
  have hwh : session.startWh = st.session.startWh := hrev.get (·.startWh) fun _ _ => rfl
  have hok := h.flag hrev
  refine hok.append (fun q hq => ?_) fun hno hreg => ⟨fun p hp => ?_, fun hout => ?_⟩
  · split at hprev
    · next hl =>
      cases hprev
      rw [h.latest] at hl
      have := (latest_spec hl).2 q hq
      omega
    · next hl =>
      rw [h.latest] at hl
      change q ∈ history (stored ++ st.rows) sample.series at hq
      rw [latest_eq_none hl] at hq
      cases hq
  · change st.latest sample.series = some p at hp
    rw [hp] at hprev
    cases hprev
    exact hle hno hreg
  · change session.startWh ≤ value
    split at hprev
    · next hl =>
      cases hprev
      rw [h.latest, hout] at hl
      exact (hok.series.floor hno _ (latest_spec hl).1).trans (hle hno hreg)
    · rw [if_pos hout] at hprev
      cases hprev
      rw [hwh]
      exact hle hno hreg

theorem liveSamples_spec {stored : List MeterSample} {c c' : Session} {blocks : List MeterBlock}
    {rows : List MeterSample} (h : SeriesOk c stored) (hrun : liveSamples stored c blocks = .ok (c', rows)) :
    Reviewed c c' ∧ SeriesOk c' (stored ++ rows) := by
  unfold liveSamples at hrun
  obtain ⟨st, hst, hrun⟩ := bind_eq_ok.mp hrun
  cases hrun
  have hstart : IngestOk stored c ⟨c, fun key => latest (history stored key), []⟩ :=
    ⟨.refl c, by simpa using h, fun key => by simp⟩
  have hok : IngestOk stored c st := by
    refine foldlM_invariant (IngestOk stored c) (fun block _ st st' hst hblock => ?_) hstart hst
    exact foldlM_invariant (IngestOk stored c) (fun sample _ _ _ hst => hst.live sample) hst hblock
  exact ⟨hok.reviewed, hok.series⟩

/-! ## 3. Late reports -/

/-- The state of the recovery loop. -/
structure BackfillOk (stored : List MeterSample) (c : Session) (st : Backfill) : Prop where
  reviewed : Reviewed c st.session
  series : SeriesOk st.session (stored ++ st.rows)
  points : ∀ key, st.points key = history (stored ++ st.rows) key

theorem BackfillOk.flag {stored : List MeterSample} {c : Session} {st : Backfill} (h : BackfillOk stored c st)
    {session : Session} (hs : Reviewed st.session session) : BackfillOk stored c { st with session } :=
  ⟨h.reviewed.trans hs, h.series.reviewed hs, h.points⟩

theorem not_regresses {c : Session} {key : Series} {points : List (ℤ × ℚ)} {timestamp : ℤ} {value : ℚ}
    (h : regresses c key points timestamp value = false) :
    (∀ p, before points timestamp = some p → p.2 ≤ value) ∧
    (∀ p, after points timestamp = some p → value ≤ p.2) ∧
    (before points timestamp = none → key = outletRegister → c.startWh ≤ value) := by
  unfold regresses at h
  rw [Bool.or_eq_false_iff] at h
  obtain ⟨hprev, hnext⟩ := h
  refine ⟨fun p hp => ?_, fun p hp => ?_, fun hnone hkey => ?_⟩
  · rw [hp] at hprev
    simpa using hprev
  · rw [hp] at hnext
    simpa using hnext
  · rw [hnone, if_pos hkey] at hprev
    simpa using hprev

theorem BackfillOk.late {stored : List MeterSample} {c : Session} {timestamp : ℤ} (sample : SamplePayload)
    {st st' : Backfill} (h : BackfillOk stored c st) (hstart : c.started_at ≤ timestamp)
    (hrun : recoverySample timestamp st sample = .ok st') : BackfillOk stored c st' := by
  unfold recoverySample at hrun
  obtain ⟨numeric, -, hrun⟩ := bind_eq_ok.mp hrun
  cases numeric with
  | none =>
    cases hrun
    exact h
  | some numeric =>
  obtain ⟨value, unit⟩ := numeric
  simp only at hrun
  split at hrun
  · cases hrun
    split
    · exact h.flag (reviewed_review _ _)
    · exact h
  next hfresh =>
  cases hrun
  set session := if sample.series.1 = .energyRegister ∧
      regresses st.session sample.series (st.points sample.series) timestamp value = true then
    review "meter_regression" st.session else st.session with hsession
  have hrev : Reviewed st.session session := by
    rw [hsession]
    split
    · exact reviewed_review _ _
    · exact .refl _
  have hbetween : "meter_regression" ∉ session.review_reasons → sample.series.1 = .energyRegister →
      regresses st.session sample.series (st.points sample.series) timestamp value = false := by
    intro hno hreg
    by_contra hlt
    rw [hsession, if_pos ⟨hreg, Bool.of_not_eq_false hlt⟩] at hno
    exact hno (mem_review.mpr (.inr rfl))
  have hok := h.flag hrev
  set m := newSample st.session timestamp sample value unit with hm
  have hseries : sampleSeries m = sample.series := rfl
  have hid : session.id = st.session.id := hrev.get (·.id) fun _ _ => rfl
  have hbegin : session.started_at = c.started_at := hok.reviewed.get (·.started_at) fun _ _ => rfl
  have hwh : session.startWh = st.session.startWh := hrev.get (·.startWh) fun _ _ => rfl
  rw [h.points] at hfresh hbetween
  refine ⟨hok.reviewed, ?_, fun key => ?_⟩
  · have := hok.series.append (m := m) hid.symm (hbegin ▸ hstart) ?_ ?_
    · rwa [List.append_assoc] at this
    · intro q hq heq
      exact List.find?_eq_none.mp hfresh q hq (decide_eq_true heq)
    · intro hno hreg
      obtain ⟨hbefore, hafter, hfloor⟩ := not_regresses (hbetween hno hreg)
      refine ⟨hbefore, hafter, fun hout => ?_⟩
      cases hb : before (history (stored ++ st.rows) sample.series) timestamp with
      | none => exact hwh ▸ hfloor hb hout
      | some p =>
        have hmem := (List.mem_filter.mp (latest_spec hb).1).1
        have hout : sample.series = outletRegister := hout
        rw [hout] at hmem
        exact (hok.series.floor hno p hmem).trans (hbefore p hb)
  · rw [← List.append_assoc, history_append, hseries]
    change Function.update st.points sample.series _ key = _
    by_cases hkey : sample.series = key
    · subst hkey
      rw [if_pos rfl, Function.update_self, h.points]
      rfl
    · rw [if_neg hkey, List.append_nil, Function.update_of_ne (Ne.symm hkey)]
      exact h.points key

theorem recoverySamples_spec {stored : List MeterSample} {c c' : Session} {blocks : List MeterBlock}
    {rows : List MeterSample} (h : SeriesOk c stored)
    (hrun : recoverySamples stored c blocks = .ok (c', rows)) :
    Reviewed c c' ∧ SeriesOk c' (stored ++ rows) := by
  unfold recoverySamples at hrun
  obtain ⟨st, hst, hrun⟩ := bind_eq_ok.mp hrun
  cases hrun
  have hstart : BackfillOk stored c ⟨c, history stored, []⟩ :=
    ⟨.refl c, by simpa using h, fun key => by simp⟩
  have hok : BackfillOk stored c st := by
    refine foldlM_invariant (BackfillOk stored c) (fun block _ st st' hst hblock => ?_) hstart hst
    unfold recoveryBlock at hblock
    split at hblock
    · cases hblock
      exact hst
    next hin =>
    push Not at hin
    have hbegin : c.started_at ≤ block.timestamp := by
      rw [← hst.reviewed.get (·.started_at) fun _ _ => rfl]
      exact hin.1
    exact foldlM_invariant (BackfillOk stored c) (fun sample _ _ _ hst => hst.late sample hbegin) hst hblock
  exact ⟨hok.reviewed, hok.series⟩

/-! ## 4. Reports -/

/-- A report adds reasons and rows, and the store stays well formed. -/
theorem storeSamples_spec {stored : List MeterSample} {c c' : Session} {blocks : List MeterBlock}
    {backfill : Bool} {rows : List MeterSample} (h : SeriesOk c stored)
    (hrun : storeSamples stored c blocks backfill = .ok (c', rows)) :
    Reviewed c c' ∧ SeriesOk c' (stored ++ rows) := by
  cases backfill with
  | true => exact recoverySamples_spec h hrun
  | false => exact liveSamples_spec h hrun

/-- A row that a report adds: its value has six decimals. -/
def RowOf (c : Session) (m : MeterSample) : Prop := m.session_id = c.id ∧ ∃ value, m.value = some (DecimalText.micro value)

theorem numeric_sample_micro {sample : SamplePayload} {value : ℚ} {unit : String}
    (h : numeric_sample sample = .ok (some (value, unit))) : ∃ v, value = DecimalText.micro v := by
  unfold numeric_sample at h
  split at h
  · cases h
  split at h
  · cases h
  simp only at h
  split at h
  · cases h
  split at h
  · cases h
  · cases h
  · cases h
  next v _ =>
  split at h
  · cases h
  · cases h
    exact ⟨v, rfl⟩

/-- Whatever the store holds, a report adds reasons, and rows of the session. -/
theorem storeSamples_frame {stored : List MeterSample} {c c' : Session} {blocks : List MeterBlock}
    {backfill : Bool} {rows : List MeterSample} (hrun : storeSamples stored c blocks backfill = .ok (c', rows)) :
    Reviewed c c' ∧ ∀ m ∈ rows, RowOf c m := by
  have hadd : ∀ {c' : Session} {rows : List MeterSample} {timestamp : ℤ} {sample : SamplePayload} {value : ℚ}
      {unit : String}, Reviewed c c' → (∀ m ∈ rows, RowOf c m) →
      numeric_sample sample = .ok (some (value, unit)) →
      ∀ m ∈ rows ++ [newSample c' timestamp sample value unit], RowOf c m := by
    intro c' rows timestamp sample value unit hc hrows hnum m hm
    rcases List.mem_append.mp hm with hm | hm
    · exact hrows m hm
    · rw [List.mem_singleton.mp hm]
      obtain ⟨v, hv⟩ := numeric_sample_micro hnum
      exact ⟨hc.get (·.id) fun _ _ => rfl, v, congrArg some hv⟩
  cases backfill with
  | false =>
    obtain ⟨st, hst, hrun⟩ := bind_eq_ok.mp hrun
    cases hrun
    set P : Ingest → Prop := fun st => Reviewed c st.session ∧ ∀ m ∈ st.rows, RowOf c m with hP
    refine foldlM_invariant P (fun block _ st st' hst hblock => ?_) ⟨.refl c, fun m hm => absurd hm List.not_mem_nil⟩ hst
    refine foldlM_invariant P (fun sample _ st st' hst hrun => ?_) hst hblock
    have happend : ∀ {session timestamp value unit}, numeric_sample sample = .ok (some (value, unit)) →
        Reviewed st.session session → P ({ st with session }.append timestamp sample value unit) := by
      intro session timestamp value unit hnum hs
      unfold Ingest.append
      split
      · exact ⟨hst.1.trans hs, hst.2⟩
      · exact ⟨hst.1.trans hs, hadd (hst.1.trans hs) hst.2 hnum⟩
    unfold liveSample at hrun
    obtain ⟨numeric, hnum, hrun⟩ := bind_eq_ok.mp hrun
    split at hrun
    · cases hrun
      exact hst
    split at hrun
    · cases hrun
      exact happend hnum (.refl _)
    split at hrun
    · cases hrun
      exact hst
    split at hrun
    · cases hrun
      split
      · exact ⟨hst.1.trans (reviewed_review _ _), hst.2⟩
      · exact hst
    · cases hrun
      split
      · exact happend hnum (reviewed_review _ _)
      · exact happend hnum (.refl _)
  | true =>
    obtain ⟨st, hst, hrun⟩ := bind_eq_ok.mp hrun
    cases hrun
    set P : Backfill → Prop := fun st => Reviewed c st.session ∧ ∀ m ∈ st.rows, RowOf c m with hP
    refine foldlM_invariant P (fun block _ st st' hst hblock => ?_) ⟨.refl c, fun m hm => absurd hm List.not_mem_nil⟩ hst
    unfold recoveryBlock at hblock
    split at hblock
    · cases hblock
      exact hst
    refine foldlM_invariant P (fun sample _ st st' hst hrun => ?_) hst hblock
    unfold recoverySample at hrun
    obtain ⟨numeric, hnum, hrun⟩ := bind_eq_ok.mp hrun
    split at hrun
    · cases hrun
      exact hst
    simp only at hrun
    split at hrun
    · cases hrun
      split
      · exact ⟨hst.1.trans (reviewed_review _ _), hst.2⟩
      · exact hst
    · cases hrun
      refine ⟨hst.1.trans ?_, hadd hst.1 hst.2 hnum⟩
      split
      · exact reviewed_review _ _
      · exact .refl _

/-- A report raises what the normalization of one of its samples raises. -/
theorem storeSamples_raises_of {P : ChargingError → Prop} {stored : List MeterSample} {c : Session}
    {blocks : List MeterBlock} {backfill : Bool}
    (hnumeric : ∀ block ∈ blocks, ∀ sample ∈ block.sampledValue, Raises P (numeric_sample sample)) :
    Raises P (storeSamples stored c blocks backfill) := by
  have hlive : ∀ timestamp st sample, Raises P (numeric_sample sample) → Raises P (liveSample timestamp st sample) := by
    intro timestamp st sample hsample
    refine raises_bind.mpr ⟨hsample, fun numeric _ => ?_⟩
    split
    · exact raises_ok
    split
    · exact raises_ok
    split
    · exact raises_ok
    split <;> exact raises_ok
  have hlate : ∀ timestamp st sample, Raises P (numeric_sample sample) →
      Raises P (recoverySample timestamp st sample) := by
    intro timestamp st sample hsample
    refine raises_bind.mpr ⟨hsample, fun numeric _ => ?_⟩
    split
    · exact raises_ok
    simp only
    split <;> exact raises_ok
  cases backfill with
  | false =>
    refine raises_bind.mpr ⟨raises_foldlM fun _ block hblock => ?_, fun _ _ => raises_ok⟩
    exact raises_foldlM fun _ sample hsample => hlive _ _ _ (hnumeric block hblock sample hsample)
  | true =>
    refine raises_bind.mpr ⟨raises_foldlM fun st block hblock => ?_, fun _ _ => raises_ok⟩
    unfold recoveryBlock
    split
    · exact raises_ok
    · have hmem : block ∈ blocks := (List.mem_insertionSort _).mp hblock
      exact raises_foldlM fun _ sample hsample => hlate _ _ _ (hnumeric block hmem sample hsample)

/-- A sample is out of the range of decimals, if its normalization raises. -/
theorem numeric_sample_raises (sample : SamplePayload) : Raises (· = .decimalOverflow) (numeric_sample sample) := by
  unfold numeric_sample
  split
  · exact raises_ok
  split
  · exact raises_ok
  simp only
  split
  · exact raises_ok
  split
  · exact raises_ok
  · exact raises_error.mpr rfl
  · exact raises_ok
  · split <;> exact raises_ok

/-- A report raises only for a value out of the range of decimals. -/
theorem storeSamples_raises {stored : List MeterSample} {c : Session} {blocks : List MeterBlock} {backfill : Bool} :
    Raises (· = .decimalOverflow) (storeSamples stored c blocks backfill) :=
  storeSamples_raises_of fun _ _ sample _ => numeric_sample_raises sample

/-! ## 5. The insert -/

theorem map_numbered {α : Type} (f : MeterSample → α) (hf : ∀ m id, f { m with id } = f m) (seq : ℕ)
    (rows : List MeterSample) : (numbered seq rows).map f = rows.map f := by
  unfold numbered
  calc ((rows.zipIdx seq).map fun r => { r.1 with id := r.2 }).map f
      = (rows.zipIdx seq).map (f ∘ Prod.fst) := by
        rw [List.map_map]
        exact List.map_congr_left fun r _ => hf r.1 r.2
    _ = rows.map f := by rw [← List.map_map, List.zipIdx_map_fst]

theorem mem_numbered {seq : ℕ} {rows : List MeterSample} {m : MeterSample} (h : m ∈ numbered seq rows) :
    ∃ r ∈ rows, ∃ id, m = { r with id } := by
  obtain ⟨r, hr, rfl⟩ := List.mem_map.mp h
  exact ⟨r.1, List.fst_mem_of_mem_zipIdx hr, r.2, rfl⟩

theorem history_numbered (stored rows : List MeterSample) (seq : ℕ) (key : Series) :
    history (stored ++ numbered seq rows) key = history (stored ++ rows) key := by
  have hmap : ∀ samples : List MeterSample, history samples key =
      ((samples.map fun m => (sampleSeries m, m.timestamp, reading m)).filter (·.1 = key)).map (·.2) := by
    intro samples
    rw [List.filter_map, List.map_map]
    rfl
  rw [hmap, hmap, List.map_append, List.map_append,
    map_numbered (fun m => (sampleSeries m, m.timestamp, reading m)) fun _ _ => rfl]

theorem SeriesOk.numbered {c : Session} {stored rows : List MeterSample} (h : SeriesOk c (stored ++ rows))
    (seq : ℕ) : SeriesOk c (stored ++ numbered seq rows) := by
  have hmem : ∀ m ∈ stored ++ Charging.numbered seq rows, ∃ r ∈ stored ++ rows, ∃ id, m = { r with id } := by
    intro m hm
    rcases List.mem_append.mp hm with hm | hm
    · exact ⟨m, List.mem_append_left _ hm, m.id, rfl⟩
    · obtain ⟨r, hr, id, rfl⟩ := mem_numbered hm
      exact ⟨r, List.mem_append_right _ hr, id, rfl⟩
  constructor
  · intro m hm
    obtain ⟨r, hr, id, rfl⟩ := hmem m hm
    exact h.session r hr
  · have hkeys : ((stored ++ rows).map sampleKey).Pairwise (· ≠ ·) := List.pairwise_map.mpr h.distinct
    rw [List.map_append, ← map_numbered sampleKey (fun _ _ => rfl) seq rows, ← List.map_append] at hkeys
    exact List.pairwise_map.mp hkeys
  · intro m hm
    obtain ⟨r, hr, id, rfl⟩ := hmem m hm
    exact h.since r hr
  · intro hno key hkey
    rw [history_numbered]
    exact h.rising hno key hkey
  · rw [history_numbered]
    exact h.floor

end Csms.Charging
