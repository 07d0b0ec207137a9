import Csms.Charging.Service
import Csms.Charging.Ingestion

/-!
# The order of late reports

A recovered session gets its buffered readings in any order, in messages of any size and more than once.
Each message is stored or rolled back as a whole. `recovery_order_independent` says for which readings
neither the samples nor the flagged regression depend on the delivery.
-/

namespace Csms.Charging

open Points Outcome
open Csms.Billing (Measurand MeterSample)

/-! ## 1. Deliveries -/

/-- What the tables have of a session: its row, its samples, and the sequence of sample ids. -/
structure MeterTables where
  session : Session
  samples : List MeterSample
  seq : ℕ

/-- A late report: `store_recovery_samples` and the insert. A message that raises is rolled back. -/
def deliver (st : MeterTables) (message : List MeterBlock) : MeterTables :=
  match recoverySamples st.samples st.session message with
  | .error _ => st
  | .ok (session, rows) =>
    if (∃ m ∈ rows, 10 ^ 18 ≤ |reading m|) ∨
        ¬ (st.samples ++ rows).Pairwise fun a b => sampleKey a ≠ sampleKey b then st
    else ⟨session, st.samples ++ numbered st.seq rows, st.seq + rows.length⟩

def deliverAll (st : MeterTables) (messages : List (List MeterBlock)) : MeterTables := messages.foldl deliver st

/-- Some register falls in time, or the billed one starts below the start reading. -/
def Regressed (c : Session) (samples : List MeterSample) : Prop :=
  (∃ key : Series, key.1 = .energyRegister ∧ Falls (history samples key)) ∨
    ∃ p, earliest (history samples outletRegister) = some p ∧ p.2 < c.startWh

def Flagged (c : Session) : Prop := "meter_regression" ∈ c.review_reasons

/-- A row without the id the table gave it. -/
def unnumbered (m : MeterSample) : MeterSample := { m with id := 0 }

/-- The messages hold the blocks, in some order and grouping, some of them more than once. -/
def Delivers (messages : List (List MeterBlock)) (blocks : List MeterBlock) : Prop :=
  ∀ b, b ∈ blocks ↔ ∃ message ∈ messages, b ∈ message

/-- Every delivery ends with the same samples and the same flag, and the flag says whether they regress. -/
def OrderIndependent (st : MeterTables) (blocks : List MeterBlock) : Prop :=
  ∀ messages messages', Delivers messages blocks → Delivers messages' blocks →
    (∀ m, m ∈ (deliverAll st messages).samples.map unnumbered ↔ m ∈ (deliverAll st messages').samples.map unnumbered) ∧
    (Flagged (deliverAll st messages).session ↔ Flagged (deliverAll st messages').session) ∧
    (Flagged (deliverAll st messages).session ↔ Regressed st.session (deliverAll st messages).samples)

/-- A number at a time, stored or among the readings. -/
def Point (stored : List MeterSample) (readings : Set (ℤ × SamplePayload)) (key : Series) (p : ℤ × ℚ) : Prop :=
  p ∈ history stored key ∨ ∃ s unit, (p.1, s) ∈ readings ∧ s.series = key ∧ numeric_sample s = .ok (some (p.2, unit))

/-- No series has two values at one time. -/
def Consistent (stored : List MeterSample) (readings : Set (ℤ × SamplePayload)) : Prop :=
  ∀ key p q, Point stored readings key p → Point stored readings key q → p.1 = q.1 → p.2 = q.2

def readingsOf (blocks : Set MeterBlock) : Set (ℤ × SamplePayload) :=
  {r | ∃ b ∈ blocks, r.1 = b.timestamp ∧ r.2 ∈ b.sampledValue}

/-- A session with rising samples, as its tables keep them, and late blocks of its time. -/
structure Recoverable (st : MeterTables) (blocks : List MeterBlock) : Prop where
  unflagged : ¬ Flagged st.session
  session : ∀ m ∈ st.samples, m.session_id = st.session.id
  distinct : st.samples.Pairwise fun a b => sampleKey a ≠ sampleKey b
  fits : ∀ m ∈ st.samples, |reading m| < 10 ^ 18
  rising : ∀ key : Series, key.1 = .energyRegister → Rising (history st.samples key)
  floor : ∀ p ∈ history st.samples outletRegister, st.session.startWh ≤ p.2
  within : ∀ b ∈ blocks, st.session.started_at ≤ b.timestamp ∧ ∀ e ∈ st.session.ended_at, b.timestamp ≤ e
  consistent : Consistent st.samples (readingsOf {b | b ∈ blocks})

/-- A sample that takes its whole message down: it raises, or the column cannot hold it. -/
def Rejected (sample : SamplePayload) : Prop :=
  (∃ e, numeric_sample sample = .error e) ∨ ∃ v unit, numeric_sample sample = .ok (some (v, unit)) ∧ 10 ^ 18 ≤ |v|

def RejectedBlock (b : MeterBlock) : Prop := ∃ s ∈ b.sampledValue, Rejected s

/-- A block with a number for a time its series does not have. -/
def Adds (stored : List MeterSample) (b : MeterBlock) : Prop :=
  ∃ s ∈ b.sampledValue, ∃ v unit, numeric_sample s = .ok (some (v, unit)) ∧
    ∀ p ∈ history stored s.series, p.1 ≠ b.timestamp

namespace RecoveryLemmas

/-! ## 2. Regressions -/

/-- A register falls, or the billed one is below the start reading somewhere. -/
def Below (startWh : ℚ) (samples : List MeterSample) : Prop :=
  (∃ key : Series, key.1 = .energyRegister ∧ Falls (history samples key)) ∨
    ∃ p ∈ history samples outletRegister, p.2 < startWh

/-- No series has two values at one time. -/
def Functional (samples : List MeterSample) : Prop :=
  ∀ key, ∀ p ∈ history samples key, ∀ q ∈ history samples key, p.1 = q.1 → p.2 = q.2

/-- A point below the start reading starts the series, or the series falls to it. -/
theorem regressed_iff {c : Session} {samples : List MeterSample} (hone : Functional samples) :
    Regressed c samples ↔ Below c.startWh samples := by
  constructor
  · rintro (hfall | ⟨p, hp, hlow⟩)
    · exact .inl hfall
    · exact .inr ⟨p, (earliest_spec hp).1, hlow⟩
  · rintro (hfall | ⟨p, hp, hlow⟩)
    · exact .inl hfall
    cases he : earliest (history samples outletRegister) with
    | none =>
      rw [earliest_eq_none he] at hp
      cases hp
    | some first =>
      obtain ⟨hfirst, hmin⟩ := earliest_spec he
      rcases lt_or_ge first.2 c.startWh with hlt | hge
      · exact .inr ⟨first, rfl.trans he, hlt⟩
      · have hne : first.1 ≠ p.1 := fun heq => by
          rw [← hone _ first hfirst p hp heq] at hlow
          exact absurd hlow (not_lt.mpr hge)
        exact .inl ⟨outletRegister, rfl, first, hfirst, p, hp, lt_of_le_of_ne (hmin p hp) hne, hlow.trans_le hge⟩

theorem Below.append {startWh : ℚ} {samples : List MeterSample} (h : Below startWh samples) (m : MeterSample) :
    Below startWh (samples ++ [m]) := by
  have hsub : ∀ key, ∀ p ∈ history samples key, p ∈ history (samples ++ [m]) key := fun key p hp => by
    rw [history_append]
    exact List.mem_append_left _ hp
  rcases h with ⟨key, hkey, hfall⟩ | ⟨p, hp, hlow⟩
  · exact .inl ⟨key, hkey, hfall.mono (hsub key)⟩
  · exact .inr ⟨p, hsub _ p hp, hlow⟩

theorem below_of_regresses {c : Session} {samples : List MeterSample} {m : MeterSample}
    (hreg : m.measurand = .energyRegister)
    (h : regresses c (sampleSeries m) (history samples (sampleSeries m)) m.timestamp (reading m) = true) :
    Below c.startWh (samples ++ [m]) := by
  have hnew : (m.timestamp, reading m) ∈ history (samples ++ [m]) (sampleSeries m) := by
    rw [history_append, if_pos rfl]
    exact List.mem_append_right _ List.mem_cons_self
  have hold : ∀ p ∈ history samples (sampleSeries m), p ∈ history (samples ++ [m]) (sampleSeries m) := fun p hp => by
    rw [history_append]
    exact List.mem_append_left _ hp
  unfold regresses at h
  rw [Bool.or_eq_true] at h
  rcases h with h | h
  · cases hb : before (history samples (sampleSeries m)) m.timestamp with
    | some p =>
      rw [hb] at h
      obtain ⟨hp, hlt⟩ := List.mem_filter.mp (latest_spec hb).1
      exact .inl ⟨sampleSeries m, hreg, p, hold p hp, _, hnew, of_decide_eq_true hlt, by simpa using h⟩
    | none =>
      rw [hb] at h
      simp only at h
      split at h
      · next hkey => exact .inr ⟨_, hkey ▸ hnew, by simpa using h⟩
      · cases h
  · cases ha : after (history samples (sampleSeries m)) m.timestamp with
    | none =>
      rw [ha] at h
      cases h
    | some p =>
      rw [ha] at h
      obtain ⟨hp, hlt⟩ := List.mem_filter.mp (earliest_spec ha).1
      exact .inl ⟨sampleSeries m, hreg, _, hnew, p, hold p hp, of_decide_eq_true hlt, by simpa using h⟩

/-- Between its neighbours a new point adds no fall. -/
theorem not_below_append {c : Session} {samples : List MeterSample} {m : MeterSample} (hone : Functional samples)
    (hfresh : ∀ p ∈ history samples (sampleSeries m), p.1 ≠ m.timestamp) (h : ¬ Below c.startWh samples)
    (hbetween : m.measurand = .energyRegister →
      regresses c (sampleSeries m) (history samples (sampleSeries m)) m.timestamp (reading m) = false) :
    ¬ Below c.startWh (samples ++ [m]) := by
  have hrising : ∀ key : Series, key.1 = .energyRegister → Rising (history samples key) := fun key hkey =>
    rising_of_not_falls (fun hfall => h (.inl ⟨key, hkey, hfall⟩)) (hone key)
  rintro (⟨key, hkey, hfall⟩ | ⟨p, hp, hlow⟩)
  · rw [history_append] at hfall
    split at hfall
    · next hm =>
      subst hm
      obtain ⟨hbefore, hafter, -⟩ := not_regresses (hbetween hkey)
      exact ((hrising _ hkey).append hfresh hbefore hafter).not_falls hfall
    · rw [List.append_nil] at hfall
      exact h (.inl ⟨key, hkey, hfall⟩)
  · rw [history_append] at hp
    rcases List.mem_append.mp hp with hp | hp
    · exact h (.inr ⟨p, hp, hlow⟩)
    split at hp
    swap
    · cases hp
    next hm =>
    rw [List.mem_singleton.mp hp] at hlow
    obtain ⟨hbefore, -, hfloor⟩ := not_regresses (hbetween (congrArg (·.1) hm))
    cases hb : before (history samples (sampleSeries m)) m.timestamp with
    | none => exact absurd hlow (not_lt.mpr (hfloor hb hm))
    | some q =>
      have hq := (List.mem_filter.mp (latest_spec hb).1).1
      exact h (.inr ⟨q, hm ▸ hq, (hbefore q hb).trans_lt hlow⟩)

/-! ## 3. One reading -/

/-- The rows of the readings for which the store has no point. -/
def lateRows (stored : List MeterSample) (c : Session) (readings : Set (ℤ × SamplePayload)) : Set MeterSample :=
  {m | ∃ t s v unit, (t, s) ∈ readings ∧ numeric_sample s = .ok (some (v, unit)) ∧
    (∀ p ∈ history stored s.series, p.1 ≠ t) ∧ m = newSample c t s v unit}

/-- A session and its samples after some readings were stored. -/
structure Stored (stored : List MeterSample) (c : Session) (readings : Set (ℤ × SamplePayload)) (session : Session)
    (samples : List MeterSample) : Prop where
  reviewed : Reviewed c session
  rows : ∀ m, m ∈ samples.map unnumbered ↔ m ∈ stored.map unnumbered ∨ m ∈ lateRows stored c readings
  distinct : samples.Pairwise fun a b => sampleKey a ≠ sampleKey b
  flag : Flagged session ↔ Below c.startWh samples

variable {stored samples : List MeterSample} {c session : Session} {readings : Set (ℤ × SamplePayload)}

theorem mem_history_unnumbered {key : Series} {p : ℤ × ℚ} : p ∈ history samples key ↔
    ∃ m ∈ samples.map unnumbered, sampleSeries m = key ∧ (m.timestamp, reading m) = p := by
  rw [mem_history]
  constructor
  · rintro ⟨m, hm, hkey, hp⟩
    exact ⟨unnumbered m, List.mem_map_of_mem hm, hkey, hp⟩
  · rintro ⟨m, hm, hkey, hp⟩
    obtain ⟨x, hx, rfl⟩ := List.mem_map.mp hm
    exact ⟨x, hx, hkey, hp⟩

/-- The points of the series: those of the store and those of the readings. -/
theorem Stored.mem_history (h : Stored stored c readings session samples) (hcons : Consistent stored readings)
    {key : Series} {p : ℤ × ℚ} : p ∈ history samples key ↔ Point stored readings key p := by
  rw [mem_history_unnumbered]
  constructor
  · rintro ⟨m, hm, hkey, hp⟩
    rcases (h.rows m).mp hm with hm | ⟨t, s, v, unit, hmem, hnumeric, -, rfl⟩
    · exact .inl (mem_history_unnumbered.mpr ⟨m, hm, hkey, hp⟩)
    · cases hp
      exact .inr ⟨s, unit, hmem, hkey, hnumeric⟩
  · rintro (hp | ⟨s, unit, hmem, hkey, hnumeric⟩)
    · obtain ⟨m, hm, hkey, hp⟩ := mem_history_unnumbered.mp hp
      exact ⟨m, (h.rows m).mpr (.inl hm), hkey, hp⟩
    by_cases hfresh : ∀ q ∈ history stored s.series, q.1 ≠ p.1
    · exact ⟨_, (h.rows _).mpr (.inr ⟨p.1, s, p.2, unit, hmem, hnumeric, hfresh, rfl⟩), hkey, rfl⟩
    · push Not at hfresh
      obtain ⟨q, hq, heq⟩ := hfresh
      rw [hkey] at hq
      have hvalue := hcons key q p (.inl hq) (.inr ⟨s, unit, hmem, hkey, hnumeric⟩) heq
      obtain ⟨m, hm, hkey, hp⟩ := mem_history_unnumbered.mp hq
      exact ⟨m, (h.rows m).mpr (.inl hm), hkey, hp.trans (Prod.ext heq hvalue)⟩

theorem Stored.functional (h : Stored stored c readings session samples) (hcons : Consistent stored readings) :
    Functional samples := fun key p hp q hq =>
  hcons key p q ((h.mem_history hcons).mp hp) ((h.mem_history hcons).mp hq)

theorem Consistent.mono {readings' : Set (ℤ × SamplePayload)} (h : Consistent stored readings')
    (hsub : readings ⊆ readings') : Consistent stored readings := by
  have hpoint : ∀ key p, Point stored readings key p → Point stored readings' key p := by
    rintro key p (hp | ⟨s, unit, hmem, hs⟩)
    · exact .inl hp
    · exact .inr ⟨s, unit, hsub hmem, hs⟩
  exact fun key p q hp hq => h key p q (hpoint key p hp) (hpoint key q hq)

theorem measurandOf_injective : Function.Injective measurandOf := by
  intro a b h
  unfold measurandOf at h
  split at h <;> split at h
  · next ha hb => rw [ha, hb]
  · cases h
  · cases h
  · exact Measurand.other.inj h

/-- The unit of a number is that of its measurand. -/
theorem numeric_sample_unit {sample : SamplePayload} {v : ℚ} {unit : String}
    (h : numeric_sample sample = .ok (some (v, unit))) : (UNITS sample.measurand).map (·.1) = some unit := by
  unfold numeric_sample at h
  split at h
  · cases h
  next unit' conversions hunits =>
  rw [hunits]
  split at h
  · cases h
  simp only at h
  split at h
  · cases h
  split at h
  · cases h
  · cases h
  · cases h
  split at h
  · cases h
  · cases h
    rfl

/-- Readings of one series, time and value give one row. -/
theorem newSample_congr {t : ℤ} {s s' : SamplePayload} {v v' : ℚ} {unit unit' : String} (hkey : s.series = s'.series)
    (hs : numeric_sample s = .ok (some (v, unit))) (hs' : numeric_sample s' = .ok (some (v', unit'))) (hv : v = v') :
    newSample c t s v unit = newSample c t s' v' unit' := by
  simp only [SamplePayload.series, Prod.mk.injEq] at hkey
  obtain ⟨hmeasurand, hphase, hlocation⟩ := hkey
  have hunit : unit = unit' := by
    have h := numeric_sample_unit hs
    rw [measurandOf_injective hmeasurand, numeric_sample_unit hs'] at h
    exact (Option.some_inj.mp h).symm
  unfold newSample
  rw [hmeasurand, hphase, hlocation, hv, hunit]

/-- A reading that adds no row. -/
theorem Stored.same (h : Stored stored c readings session samples) {t : ℤ} {s : SamplePayload}
    (hno : ∀ v unit, numeric_sample s = .ok (some (v, unit)) → (∀ p ∈ history stored s.series, p.1 ≠ t) →
      newSample c t s v unit ∈ lateRows stored c readings) :
    Stored stored c (insert (t, s) readings) session samples := by
  refine { h with rows := fun m => (h.rows m).trans (or_congr Iff.rfl ⟨?_, ?_⟩) }
  · rintro ⟨t', s', v, unit, hmem, hs'⟩
    exact ⟨t', s', v, unit, Set.mem_insert_of_mem _ hmem, hs'⟩
  · rintro ⟨t', s', v, unit, hmem, hnumeric, hfresh, rfl⟩
    rcases hmem with heq | hmem
    · cases heq
      exact hno v unit hnumeric hfresh
    · exact ⟨t', s', v, unit, hmem, hnumeric, hfresh, rfl⟩

/-- A reading for a time at which its series has a point. -/
theorem Stored.known (h : Stored stored c readings session samples) {t : ℤ} {s : SamplePayload} {v : ℚ} {unit : String}
    (hnumeric : numeric_sample s = .ok (some (v, unit))) (hcons : Consistent stored (insert (t, s) readings))
    {p : ℤ × ℚ} (hp : p ∈ history samples s.series) (ht : p.1 = t) :
    p.2 = v ∧ Stored stored c (insert (t, s) readings) session samples := by
  have hcons' : Consistent stored readings := Consistent.mono hcons (Set.subset_insert _ _)
  have hvalue : ∀ q, Point stored readings s.series q → q.1 = t → q.2 = v := fun q hq heq =>
    hcons s.series q (t, v) (hq.imp_right fun ⟨s', unit', hmem, hs'⟩ => ⟨s', unit', Set.mem_insert_of_mem _ hmem, hs'⟩)
      (.inr ⟨s, unit, Set.mem_insert _ _, rfl, hnumeric⟩) heq
  have hpoint := (h.mem_history hcons').mp hp
  refine ⟨hvalue p hpoint ht, h.same fun v' unit' hnumeric' hfresh => ?_⟩
  cases hnumeric.symm.trans hnumeric'
  rcases hpoint with hstored | ⟨s', unit', hmem, hkey, hs'⟩
  · exact absurd ht (hfresh p hstored)
  · refine ⟨t, s', p.2, unit', ht ▸ hmem, hs', hkey ▸ hfresh, ?_⟩
    exact newSample_congr hkey.symm hnumeric hs' (hvalue p (.inr ⟨s', unit', hmem, hkey, hs'⟩) ht).symm

/-- A reading for a new time. -/
theorem Stored.fresh (h : Stored stored c readings session samples) {t : ℤ} {s : SamplePayload} {v : ℚ} {unit : String}
    (hsession : ∀ m ∈ stored, m.session_id = c.id)
    (hnumeric : numeric_sample s = .ok (some (v, unit))) (hcons : Consistent stored readings)
    (hfresh : ∀ p ∈ history samples s.series, p.1 ≠ t) :
    Stored stored c (insert (t, s) readings)
      (if s.series.1 = .energyRegister ∧ regresses session s.series (history samples s.series) t v then
        review "meter_regression" session else session)
      (samples ++ [newSample c t s v unit]) := by
  set m := newSample c t s v unit with hm
  have hkey : sampleSeries m = s.series := rfl
  have hvalue : reading m = v := rfl
  have hwh : regresses session s.series (history samples s.series) t v =
      regresses c s.series (history samples s.series) t v := by
    unfold regresses
    rw [h.reviewed.get (·.startWh) fun _ _ => rfl]
  have hids : ∀ x ∈ samples, x.session_id = c.id := by
    intro x hx
    rcases (h.rows (unnumbered x)).mp (List.mem_map_of_mem hx) with hold | ⟨t', s', v', unit', -, -, -, heq⟩
    · obtain ⟨y, hy, heq⟩ := List.mem_map.mp hold
      exact (congrArg (·.session_id) heq).symm.trans (hsession y hy)
    · exact congrArg (·.session_id) heq
  refine ⟨h.reviewed.trans (reviewed_flag session _), fun x => ?_, ?_, ?_⟩
  · rw [List.map_append, List.mem_append, h.rows, or_assoc]
    refine or_congr Iff.rfl ⟨?_, ?_⟩
    · rintro (⟨t', s', v', unit', hmem, hs'⟩ | hx)
      · exact ⟨t', s', v', unit', Set.mem_insert_of_mem _ hmem, hs'⟩
      · rw [List.map_singleton, List.mem_singleton] at hx
        refine ⟨t, s, v, unit, Set.mem_insert _ _, hnumeric, fun p hp => ?_, hx⟩
        exact hfresh p ((h.mem_history hcons).mpr (.inl hp))
    · rintro ⟨t', s', v', unit', hmem, hnumeric', hfresh', rfl⟩
      rcases hmem with heq | hmem
      · cases heq
        cases hnumeric.symm.trans hnumeric'
        exact .inr (List.mem_map_of_mem (f := unnumbered) (List.mem_singleton_self m))
      · exact .inl ⟨t', s', v', unit', hmem, hnumeric', hfresh', rfl⟩
  · refine List.pairwise_append.mpr ⟨h.distinct, List.pairwise_singleton _ _, fun a ha b hb heq => ?_⟩
    rw [List.mem_singleton.mp hb] at heq
    simp only [sampleKey, Prod.mk.injEq] at heq
    exact hfresh _ (Charging.mem_history.mpr ⟨a, ha, by simp only [sampleSeries, ← hkey, Prod.mk.injEq]; exact heq.2.1, rfl⟩)
      heq.2.2
  · rw [hwh]
    by_cases hflag : s.series.1 = .energyRegister ∧ regresses c s.series (history samples s.series) t v = true
    · rw [if_pos hflag]
      exact iff_of_true (mem_review.mpr (.inr rfl)) (below_of_regresses hflag.1 hflag.2)
    · rw [if_neg hflag, h.flag]
      refine ⟨fun hbelow => hbelow.append m, fun hbelow => ?_⟩
      by_contra hno
      refine not_below_append (m := m) (h.functional hcons) hfresh hno (fun hreg => ?_) hbelow
      exact Bool.eq_false_iff.mpr fun htrue => hflag ⟨hreg, htrue⟩

/-- The state of the loop. -/
structure Loop (stored before : List MeterSample) (c : Session) (readings : Set (ℤ × SamplePayload)) (st : Backfill) :
    Prop where
  state : Stored stored c readings st.session (before ++ st.rows)
  points : ∀ key, st.points key = history (before ++ st.rows) key

theorem Loop.sample {before : List MeterSample} {st st' : Backfill} (h : Loop stored before c readings st) {t : ℤ}
    {s : SamplePayload} (hsession : ∀ m ∈ stored, m.session_id = c.id)
    (hcons : Consistent stored (insert (t, s) readings)) (hrun : recoverySample t st s = .ok st') :
    Loop stored before c (insert (t, s) readings) st' := by
  unfold recoverySample at hrun
  obtain ⟨numeric, hnumeric, hrun⟩ := bind_eq_ok.mp hrun
  cases numeric with
  | none =>
    cases hrun
    refine ⟨h.state.same fun v unit hs => ?_, h.points⟩
    rw [hnumeric] at hs
    cases hs
  | some numeric =>
  obtain ⟨v, unit⟩ := numeric
  simp only [h.points] at hrun
  split at hrun
  · next p hfind =>
    obtain ⟨hvalue, hstate⟩ := h.state.known hnumeric hcons (List.mem_of_find?_eq_some hfind)
      (by simpa using List.find?_some hfind)
    cases hrun
    rw [if_neg (not_not.mpr hvalue)]
    exact ⟨hstate, h.points⟩
  · next hfind =>
    cases hrun
    have hrow : newSample st.session t s v unit = newSample c t s v unit := by
      unfold newSample
      rw [h.state.reviewed.get (·.id) fun _ _ => rfl]
    have hstate := h.state.fresh hsession hnumeric (Consistent.mono hcons (Set.subset_insert _ _))
      fun p hp heq => List.find?_eq_none.mp hfind p hp (decide_eq_true heq)
    refine ⟨?_, fun key => ?_⟩
    · rw [List.append_assoc] at hstate
      rw [hrow]
      exact hstate
    · rw [← List.append_assoc, history_append, hrow]
      change Function.update st.points s.series _ key = _ ++ if s.series = key then [(t, v)] else []
      by_cases hkey : s.series = key
      · subst hkey
        rw [Function.update_self, if_pos rfl]
      · rw [Function.update_of_ne (Ne.symm hkey), if_neg hkey, List.append_nil, h.points]

/-! ## 4. One message -/

theorem Loop.block {before : List MeterSample} {t : ℤ} (hsession : ∀ m ∈ stored, m.session_id = c.id) :
    ∀ {l : List SamplePayload} {readings : Set (ℤ × SamplePayload)} {st st' : Backfill},
      Loop stored before c readings st → Consistent stored (readings ∪ {r | r.1 = t ∧ r.2 ∈ l}) →
      l.foldlM (recoverySample t) st = .ok st' → Loop stored before c (readings ∪ {r | r.1 = t ∧ r.2 ∈ l}) st'
  | [], readings, st, st', h, _, hrun => by
    cases hrun
    simpa using h
  | s :: l, readings, st, st', h, hcons, hrun => by
    have hset : readings ∪ {r | r.1 = t ∧ r.2 ∈ s :: l} = insert (t, s) readings ∪ {r | r.1 = t ∧ r.2 ∈ l} := by
      ext ⟨t', s'⟩
      simp only [Set.mem_union, Set.mem_ofPred_eq, List.mem_cons, Set.mem_insert_iff, Prod.mk.injEq]
      tauto
    rw [List.foldlM_cons] at hrun
    obtain ⟨st₁, hfirst, hrun⟩ := bind_eq_ok.mp hrun
    rw [hset] at hcons ⊢
    exact (h.sample hsession (Consistent.mono hcons Set.subset_union_left) hfirst).block hsession hcons hrun

/-- A block within the session is taken sample by sample. -/
theorem recoveryBlock_within {st : Backfill} {b : MeterBlock} (hreviewed : Reviewed c st.session)
    (hwithin : c.started_at ≤ b.timestamp ∧ ∀ e ∈ c.ended_at, b.timestamp ≤ e) :
    recoveryBlock st b = b.sampledValue.foldlM (recoverySample b.timestamp) st := by
  refine if_neg ?_
  rw [hreviewed.get (·.started_at) fun _ _ => rfl, hreviewed.get (·.ended_at) fun _ _ => rfl]
  rintro (hlt | ⟨e, he, hlt⟩)
  · exact absurd hwithin.1 (not_le.mpr hlt)
  · exact absurd (hwithin.2 e he) (not_le.mpr hlt)

theorem Loop.blocks {before : List MeterSample} (hsession : ∀ m ∈ stored, m.session_id = c.id) :
    ∀ {blocks : List MeterBlock} {readings : Set (ℤ × SamplePayload)} {st st' : Backfill},
      Loop stored before c readings st →
      (∀ b ∈ blocks, c.started_at ≤ b.timestamp ∧ ∀ e ∈ c.ended_at, b.timestamp ≤ e) →
      Consistent stored (readings ∪ readingsOf {b | b ∈ blocks}) →
      blocks.foldlM recoveryBlock st = .ok st' → Loop stored before c (readings ∪ readingsOf {b | b ∈ blocks}) st'
  | [], readings, st, st', h, _, _, hrun => by
    cases hrun
    have hnone : readingsOf {b | b ∈ ([] : List MeterBlock)} = ∅ := by simp [readingsOf]
    rwa [hnone, Set.union_empty]
  | block :: blocks, readings, st, st', h, hwithin, hcons, hrun => by
    have hset : readings ∪ readingsOf {b | b ∈ block :: blocks} =
        (readings ∪ {r | r.1 = block.timestamp ∧ r.2 ∈ block.sampledValue}) ∪ readingsOf {b | b ∈ blocks} := by
      ext r
      simp only [readingsOf, Set.mem_union, Set.mem_ofPred_eq, List.mem_cons, exists_eq_or_imp]
      tauto
    have hinside := recoveryBlock_within h.state.reviewed (hwithin block List.mem_cons_self)
    rw [List.foldlM_cons, hinside] at hrun
    obtain ⟨st₁, hfirst, hrun⟩ := bind_eq_ok.mp hrun
    rw [hset] at hcons ⊢
    exact (h.block hsession (Consistent.mono hcons Set.subset_union_left) hfirst).blocks hsession
      (fun b hb => hwithin b (List.mem_cons_of_mem _ hb)) hcons hrun

/-- What a message adds to the readings, when nothing in it raises. -/
theorem recoverySamples_stored {message : List MeterBlock} {session' : Session} {rows : List MeterSample}
    (h : Stored stored c readings session samples) (hsession : ∀ m ∈ stored, m.session_id = c.id)
    (hwithin : ∀ b ∈ message, c.started_at ≤ b.timestamp ∧ ∀ e ∈ c.ended_at, b.timestamp ≤ e)
    (hcons : Consistent stored (readings ∪ readingsOf {b | b ∈ message}))
    (hrun : recoverySamples samples session message = .ok (session', rows)) :
    Stored stored c (readings ∪ readingsOf {b | b ∈ message}) session' (samples ++ rows) := by
  unfold recoverySamples at hrun
  obtain ⟨st, hst, heq⟩ := bind_eq_ok.mp hrun
  cases heq
  have hmem : ∀ b, b ∈ message.insertionSort (fun a b => a.timestamp ≤ b.timestamp) ↔ b ∈ message := fun b =>
    (List.perm_insertionSort _ message).mem_iff
  have hset : {b | b ∈ message.insertionSort (fun a b => a.timestamp ≤ b.timestamp)} = {b | b ∈ message} := Set.ext hmem
  have hstart : Loop stored samples c readings ⟨session, history samples, []⟩ :=
    ⟨by rwa [List.append_nil], fun key => by rw [List.append_nil]⟩
  have hloop := hstart.blocks hsession (fun b hb => hwithin b ((hmem b).mp hb)) (by rwa [hset]) hst
  rw [hset] at hloop
  exact hloop.state

theorem recoverySample_ok {t : ℤ} {st : Backfill} {s : SamplePayload} :
    (∃ st', recoverySample t st s = .ok st') ↔ ¬ ∃ e, numeric_sample s = .error e := by
  unfold recoverySample
  cases numeric_sample s with
  | error e => exact iff_of_false (fun ⟨_, h⟩ => nomatch h) (not_not.mpr ⟨e, rfl⟩)
  | ok numeric =>
    refine iff_of_true ?_ (fun ⟨_, h⟩ => nomatch h)
    cases numeric with
    | none => exact ⟨st, rfl⟩
    | some numeric =>
      simp only [bind, Except.bind]
      split <;> exact ⟨_, rfl⟩

theorem recoverySample_reviewed {t : ℤ} {st st' : Backfill} {s : SamplePayload}
    (hrun : recoverySample t st s = .ok st') : Reviewed st.session st'.session := by
  unfold recoverySample at hrun
  obtain ⟨numeric, -, hrun⟩ := bind_eq_ok.mp hrun
  split at hrun
  · cases hrun
    exact .refl _
  simp only at hrun
  split at hrun
  · cases hrun
    split
    · exact reviewed_review _ _
    · exact .refl _
  · cases hrun
    exact reviewed_flag st.session _

/-- A message raises before the insert exactly when one of its samples does. -/
theorem recoverySamples_ok {message : List MeterBlock} (hreviewed : Reviewed c session)
    (hwithin : ∀ b ∈ message, c.started_at ≤ b.timestamp ∧ ∀ e ∈ c.ended_at, b.timestamp ≤ e) :
    (∃ result, recoverySamples samples session message = .ok result) ↔
      ∀ b ∈ message, ∀ s ∈ b.sampledValue, ¬ ∃ e, numeric_sample s = .error e := by
  have hmem : ∀ b, b ∈ message.insertionSort (fun a b => a.timestamp ≤ b.timestamp) ↔ b ∈ message := fun b =>
    (List.perm_insertionSort _ message).mem_iff
  have hloop := @foldlM_ok_iff ChargingError MeterBlock Backfill recoveryBlock (fun st => Reviewed c st.session)
    (fun b => ∀ s ∈ b.sampledValue, ¬ ∃ e, numeric_sample s = .error e)
    (message.insertionSort fun a b => a.timestamp ≤ b.timestamp) ⟨session, history samples, []⟩
    (fun b hb st st' hst hrun => by
      rw [recoveryBlock_within hst (hwithin b ((hmem b).mp hb))] at hrun
      exact foldlM_invariant (fun st => Reviewed c st.session)
        (fun s _ st st' hst hrun => hst.trans (recoverySample_reviewed hrun)) hst hrun)
    (fun b hb st hst => by
      rw [recoveryBlock_within hst (hwithin b ((hmem b).mp hb))]
      exact foldlM_ok_iff (P := fun _ => True) (fun _ _ _ _ _ _ => trivial) (fun s _ st _ => recoverySample_ok) trivial)
    hreviewed
  have hforall : (∀ b ∈ message.insertionSort (fun a b => a.timestamp ≤ b.timestamp),
      ∀ s ∈ b.sampledValue, ¬ ∃ e, numeric_sample s = .error e) ↔
      ∀ b ∈ message, ∀ s ∈ b.sampledValue, ¬ ∃ e, numeric_sample s = .error e :=
    forall_congr' fun b => by rw [hmem]
  rw [← hforall, ← hloop]
  constructor
  · rintro ⟨result, hrun⟩
    obtain ⟨st, hst, -⟩ := bind_eq_ok.mp hrun
    exact ⟨st, hst⟩
  · rintro ⟨st, hst⟩
    exact ⟨_, bind_eq_ok.mpr ⟨st, hst, rfl⟩⟩

/-- The readings of what was stored so far fit the column. -/
theorem Stored.fits (h : Stored stored c readings session samples) (hfits : ∀ m ∈ stored, |reading m| < 10 ^ 18)
    (hkept : ∀ r ∈ readings, ¬ Rejected r.2) : ∀ m ∈ samples, |reading m| < 10 ^ 18 := by
  intro m hm
  rcases (h.rows (unnumbered m)).mp (List.mem_map_of_mem hm) with hold | ⟨t, s, v, unit, hmem, hnumeric, -, heq⟩
  · obtain ⟨x, hx, heq⟩ := List.mem_map.mp hold
    have hvalue : reading (unnumbered x) = reading (unnumbered m) := congrArg reading heq
    change |reading (unnumbered m)| < 10 ^ 18
    rw [← hvalue]
    exact hfits x hx
  · have hvalue : reading m = v := congrArg reading heq
    rw [hvalue]
    exact not_le.mp fun hle => hkept _ hmem (.inr ⟨v, unit, hnumeric, hle⟩)

theorem Stored.renumber {samples' : List MeterSample} (h : Stored stored c readings session samples)
    (hsame : samples'.map unnumbered = samples.map unnumbered) : Stored stored c readings session samples' := by
  have hkeys : ∀ l : List MeterSample, l.Pairwise (fun a b => sampleKey a ≠ sampleKey b) ↔
      (l.map unnumbered).Pairwise fun a b => sampleKey a ≠ sampleKey b := fun l => by
    rw [List.pairwise_map]
    rfl
  have hhistory : ∀ key, history samples' key = history samples key := by
    intro key
    have hmap : ∀ l : List MeterSample, history l key = history (l.map unnumbered) key := fun l => by
      unfold history
      rw [List.filter_map, List.map_map]
      rfl
    rw [hmap, hsame, ← hmap]
  refine ⟨h.reviewed, fun m => hsame ▸ h.rows m, ?_, ?_⟩
  · rw [hkeys, hsame, ← hkeys]
    exact h.distinct
  · rw [h.flag, Below, Below]
    simp only [hhistory]

section Deliver

variable {st : MeterTables} {blocks message : List MeterBlock}

/-- A message of the blocks, after some of them: it is stored whole, or not at all. -/
theorem deliver_stored {start : MeterTables} (hstart : Recoverable start blocks)
    (hsub : ∀ b ∈ message, b ∈ blocks) (hcons : readings ⊆ readingsOf {b | b ∈ blocks})
    (hkept : ∀ r ∈ readings, ¬ Rejected r.2)
    (h : Stored start.samples start.session readings st.session st.samples) :
    (∃ b ∈ message, RejectedBlock b) ∧ deliver st message = st ∨
    (∀ b ∈ message, ¬ RejectedBlock b) ∧ Stored start.samples start.session
      (readings ∪ readingsOf {b | b ∈ message}) (deliver st message).session (deliver st message).samples := by
  have hwithin := fun b hb => hstart.within b (hsub b hb)
  have hall : readings ∪ readingsOf {b | b ∈ message} ⊆ readingsOf {b | b ∈ blocks} :=
    Set.union_subset hcons fun r ⟨b, hb, hr⟩ => ⟨b, hsub b hb, hr⟩
  have hreturns := @recoverySamples_ok st.samples start.session st.session message h.reviewed hwithin
  by_cases hraises : ∀ b ∈ message, ∀ s ∈ b.sampledValue, ¬ ∃ e, numeric_sample s = .error e
  swap
  · -- a sample raises
    left
    have herror : deliver st message = st := by
      unfold deliver
      cases hrun : recoverySamples st.samples st.session message with
      | error e => rfl
      | ok result => exact absurd (hreturns.mp ⟨result, hrun⟩) hraises
    push Not at hraises
    obtain ⟨b, hb, s, hs, e, he⟩ := hraises
    exact ⟨⟨b, hb, s, hs, .inl ⟨e, he⟩⟩, herror⟩
  obtain ⟨⟨session', rows⟩, hrun⟩ := hreturns.mpr hraises
  have hnew := recoverySamples_stored h hstart.session hwithin (Consistent.mono hstart.consistent hall) hrun
  by_cases hrejected : ∃ b ∈ message, RejectedBlock b
  · -- a number the column cannot hold is among the new rows
    left
    refine ⟨hrejected, ?_⟩
    obtain ⟨b, hb, s, hs, hrejected⟩ := hrejected
    obtain ⟨v, unit, hnumeric, hbig⟩ := hrejected.resolve_left (hraises b hb s hs)
    have hpoint : (b.timestamp, v) ∈ history (st.samples ++ rows) s.series :=
      (hnew.mem_history (Consistent.mono hstart.consistent hall)).mpr
        (.inr ⟨s, unit, .inr ⟨b, hb, rfl, hs⟩, rfl, hnumeric⟩)
    obtain ⟨m, hm, -, hvalue⟩ := Charging.mem_history.mp hpoint
    have hvalue : reading m = v := congrArg (·.2) hvalue
    have hrow : m ∈ rows := by
      refine (List.mem_append.mp hm).resolve_left fun hold => ?_
      have hfit := h.fits hstart.fits hkept m hold
      rw [hvalue] at hfit
      exact absurd hbig (not_le.mpr hfit)
    unfold deliver
    simp only [hrun]
    exact if_pos (.inl ⟨m, hrow, hvalue ▸ hbig⟩)
  · right
    push Not at hrejected
    refine ⟨hrejected, ?_⟩
    have hkept' : ∀ r ∈ readings ∪ readingsOf {b | b ∈ message}, ¬ Rejected r.2 := by
      rintro r (hr | ⟨b, hb, -, hs⟩) hrej
      · exact hkept r hr hrej
      · exact hrejected b hb ⟨r.2, hs, hrej⟩
    have hfits := hnew.fits hstart.fits hkept'
    have hdeliver : deliver st message = ⟨session', st.samples ++ numbered st.seq rows, st.seq + rows.length⟩ := by
      unfold deliver
      simp only [hrun]
      refine if_neg ?_
      rintro (⟨m, hm, hbig⟩ | hkeys)
      · exact absurd hbig (not_le.mpr (hfits m (List.mem_append_right _ hm)))
      · exact hkeys hnew.distinct
    rw [hdeliver]
    refine hnew.renumber ?_
    rw [List.map_append, List.map_append, map_numbered unnumbered fun _ _ => rfl]

/-- The blocks of the messages that are stored. -/
def storedBlocks (messages : List (List MeterBlock)) : Set MeterBlock :=
  {b | ∃ message ∈ messages, b ∈ message ∧ ∀ b' ∈ message, ¬ RejectedBlock b'}

theorem readingsOf_union (a b : Set MeterBlock) : readingsOf (a ∪ b) = readingsOf a ∪ readingsOf b := by
  ext r
  simp only [readingsOf, Set.mem_union, Set.mem_ofPred_eq, or_and_right, exists_or]

/-- A whole delivery, after some blocks. -/
theorem deliverAll_stored {start : MeterTables} (hstart : Recoverable start blocks) :
    ∀ {messages : List (List MeterBlock)} {done : Set MeterBlock} {st : MeterTables},
      (∀ message ∈ messages, ∀ b ∈ message, b ∈ blocks) → done ⊆ {b | b ∈ blocks} → (∀ b ∈ done, ¬ RejectedBlock b) →
      Stored start.samples start.session (readingsOf done) st.session st.samples →
      Stored start.samples start.session (readingsOf (done ∪ storedBlocks messages)) (deliverAll st messages).session
        (deliverAll st messages).samples
  | [], done, st, _, _, _, h => by
    have hnone : storedBlocks [] = ∅ := by simp [storedBlocks]
    rwa [hnone, Set.union_empty]
  | message :: messages, done, st, hsub, hdone, hkept, h => by
    have hfirst := hsub message List.mem_cons_self
    have hrest := fun m hm => hsub m (List.mem_cons_of_mem _ hm)
    have hreadings : readingsOf done ⊆ readingsOf {b | b ∈ blocks} := fun r ⟨b, hb, hr⟩ => ⟨b, hdone hb, hr⟩
    have hkept' : ∀ r ∈ readingsOf done, ¬ Rejected r.2 := fun r ⟨b, hb, _, hs⟩ hrej => hkept b hb ⟨r.2, hs, hrej⟩
    rcases deliver_stored hstart hfirst hreadings hkept' h with ⟨⟨bad, hbad, hrej⟩, heq⟩ | ⟨hgood, hnew⟩
    · have hset : storedBlocks (message :: messages) = storedBlocks messages := by
        ext b
        simp only [storedBlocks, List.mem_cons, Set.mem_ofPred_eq, exists_eq_or_imp]
        exact or_iff_right fun ⟨_, hnone⟩ => hnone bad hbad hrej
      rw [hset]
      change Stored _ _ _ (deliverAll (deliver st message) messages).session (deliverAll (deliver st message) messages).samples
      rw [heq]
      exact deliverAll_stored hstart hrest hdone hkept h
    · have hset : done ∪ storedBlocks (message :: messages) = done ∪ {b | b ∈ message} ∪ storedBlocks messages := by
        ext b
        simp only [storedBlocks, List.mem_cons, Set.mem_union, Set.mem_ofPred_eq, exists_eq_or_imp, or_assoc]
        exact or_congr Iff.rfl (or_congr (and_iff_left hgood) Iff.rfl)
      rw [hset]
      refine deliverAll_stored hstart hrest (Set.union_subset hdone hfirst) ?_ ?_
      · rintro b (hb | hb)
        · exact hkept b hb
        · exact hgood b hb
      · rw [readingsOf_union]
        exact hnew

theorem Stored.start (h : Recoverable st blocks) :
    Stored st.samples st.session (readingsOf ∅) st.session st.samples := by
  refine ⟨.refl _, fun m => ?_, h.distinct, iff_of_false h.unflagged ?_⟩
  · simp [lateRows, readingsOf]
  · rintro (⟨key, hkey, hfall⟩ | ⟨p, hp, hlow⟩)
    · exact (h.rising key hkey).not_falls hfall
    · exact absurd (h.floor p hp) (not_le.mpr hlow)

/-- What a delivery of the blocks leaves. -/
theorem stored_of_delivers {messages : List (List MeterBlock)} (h : Recoverable st blocks)
    (hd : Delivers messages blocks) :
    Stored st.samples st.session (readingsOf (storedBlocks messages)) (deliverAll st messages).session
      (deliverAll st messages).samples := by
  have hall := @deliverAll_stored blocks st h messages ∅ st (fun m hm b hb => (hd b).mpr ⟨m, hm, hb⟩)
    (Set.empty_subset _) (fun _ hb => hb.elim) (.start h)
  rwa [Set.empty_union] at hall

/-- The blocks that are stored are some of those delivered, and all of them when none is rejected. -/
theorem storedBlocks_eq {messages : List (List MeterBlock)} (hd : Delivers messages blocks)
    (hgood : ∀ b ∈ blocks, ¬ RejectedBlock b) : storedBlocks messages = {b | b ∈ blocks} := by
  ext b
  refine ⟨fun ⟨message, hmessage, hb, _⟩ => (hd b).mpr ⟨message, hmessage, hb⟩, fun hb => ?_⟩
  obtain ⟨message, hmessage, hb⟩ := (hd b).mp hb
  exact ⟨message, hmessage, hb, fun b' hb' => hgood b' ((hd b').mpr ⟨message, hmessage, hb'⟩)⟩

theorem lateRows_eq_empty {messages : List (List MeterBlock)} {c : Session} (hd : Delivers messages blocks)
    (hidle : ∀ b ∈ blocks, ¬ RejectedBlock b → ¬ Adds stored b) :
    lateRows stored c (readingsOf (storedBlocks messages)) = ∅ := by
  refine Set.eq_empty_of_forall_notMem ?_
  rintro m ⟨t, s, v, unit, ⟨b, ⟨message, hmessage, hb, hgood⟩, ht, hs⟩, hnumeric, hfresh, -⟩
  exact hidle b ((hd b).mpr ⟨message, hmessage, hb⟩) (hgood b hb) ⟨s, hs, v, unit, hnumeric, ht ▸ hfresh⟩

/-- The samples decide whether they regress, whatever their order. -/
theorem below_congr {startWh : ℚ} {samples samples' : List MeterSample}
    (h : ∀ m, m ∈ samples.map unnumbered ↔ m ∈ samples'.map unnumbered) :
    Below startWh samples ↔ Below startWh samples' := by
  have hpoints : ∀ key p, p ∈ history samples key ↔ p ∈ history samples' key := fun key p => by
    rw [mem_history_unnumbered, mem_history_unnumbered]
    simp only [h]
  unfold Below Falls
  simp only [hpoints]

end Deliver

end RecoveryLemmas

open RecoveryLemmas

/-! ## 5. Any delivery -/

/-- A late MeterValues report does to the tables what a delivery does, or raises. -/
theorem meterReport_deliver {s : Database} {charger : ChargePoint} {message_id : String} {payload : MeterPayload}
    {c : Session} (hkeys : s.meter_samples.Pairwise fun a b => sampleKey a ≠ sampleKey b)
    (hfound : meterSession s charger.id payload = some c) (htakes : takesReports c)
    (hlate : payload.transactionId.isSome = true ∧ c.recovery_at.isSome = true) :
    Tx.wp (meterReport charger message_id payload)
      (fun _ s' => ∃ c' ∈ s'.charging_sessions,
        deliver ⟨c, s.samplesOf c.id, s.sample_seq⟩ payload.meterValue = ⟨c', s'.samplesOf c.id, s'.sample_seq⟩)
      (fun _ _ => deliver ⟨c, s.samplesOf c.id, s.sample_seq⟩ payload.meterValue = ⟨c, s.samplesOf c.id, s.sample_seq⟩)
      s := by
  unfold meterReport meter_values
  simp only [Tx.wp_bind, Tx.wp_read, hfound, htakes, not_true_eq_false, if_false, hlate.1, hlate.2, Bool.and_self,
    Tx.wp_lift, Tx.wp_write]
  refine ⟨fun result hrun => ?_, fun e hrun => ?_⟩
  swap
  · change recoverySamples _ _ _ = _ at hrun
    simp only [deliver, hrun]
  obtain ⟨c', rows⟩ := result
  obtain ⟨hreviewed, hrows⟩ := storeSamples_frame hrun
  change recoverySamples _ _ _ = _ at hrun
  have hsaved : c' ∈ (saveSession c' s).charging_sessions := by
    refine Table.mem_modify.mpr ⟨c, List.mem_of_find?_eq_some hfound, ?_⟩
    rw [if_pos (hreviewed.get (·.id) fun _ _ => rfl).symm]
  have hunique : (s.samplesOf c.id ++ rows).Pairwise (fun a b => sampleKey a ≠ sampleKey b) ↔
      (s.meter_samples ++ rows).Pairwise fun a b => sampleKey a ≠ sampleKey b := by
    rw [List.pairwise_append, List.pairwise_append]
    refine and_congr (iff_of_true (hkeys.filter _) hkeys) (and_congr Iff.rfl ⟨fun h a ha b hb heq => ?_, fun h a ha => ?_⟩)
    · -- rows of other sessions have other keys
      have hid : a.session_id = c.id := (congrArg (·.1) heq).trans (hrows b hb).1
      exact h a (List.mem_filter.mpr ⟨ha, decide_eq_true hid⟩) b hb heq
    · exact h a (List.mem_filter.mp ha).1
  have hsamples : (s.meter_samples ++ numbered s.sample_seq rows).filter (·.session_id = c.id) =
      s.samplesOf c.id ++ numbered s.sample_seq rows := by
    rw [List.filter_append]
    refine congrArg _ (List.filter_eq_self.mpr fun m hm => ?_)
    obtain ⟨row, hrow, id, rfl⟩ := mem_numbered hm
    exact decide_eq_true (hrows row hrow).1
  change Tx.wp (insert_meter_rows rows) _ _ (saveSession c' s)
  simp only [deliver, hrun, hunique]
  unfold insert_meter_rows
  split
  · next hnil =>
    subst hnil
    refine ⟨c', hsaved, ?_⟩
    rw [if_neg (by simpa using hkeys)]
    simp [numbered, Database.samplesOf, saveSession]
  simp only [Tx.wp_bind, Tx.wp_read, Tx.wp_raiseIf, Tx.wp_write]
  refine ⟨fun hbig => if_pos (.inl hbig), fun hfit => ⟨fun hno => if_pos (.inr hno), fun hfresh => ⟨c', hsaved, ?_⟩⟩⟩
  refine (if_neg (not_or.mpr ⟨hfit, hfresh⟩)).trans ?_
  change _ = MeterTables.mk c' ((s.meter_samples ++ numbered s.sample_seq rows).filter (·.session_id = c.id)) _
  rw [hsamples]
  rfl

/-- The outcome does not depend on the delivery exactly when no rejected block comes with one that is not
rejected and adds a sample. -/
theorem recovery_order_independent (st : MeterTables) (blocks : List MeterBlock) (h : Recoverable st blocks) :
    OrderIndependent st blocks ↔
      ∀ bad ∈ blocks, RejectedBlock bad → ∀ b ∈ blocks, ¬ RejectedBlock b → ¬ Adds st.samples b := by
  constructor
  · -- each block alone, and all of them together
    intro hsame bad hbad hrejected b hb hgood ⟨s, hs, v, unit, hnumeric, hfresh⟩
    have hsingle : Delivers (blocks.map ([·])) blocks := fun b => by simp
    have htogether : Delivers [blocks] blocks := fun b => by simp
    have hrow : newSample st.session b.timestamp s v unit ∈
        (deliverAll st (blocks.map ([·]))).samples.map unnumbered := by
      refine ((stored_of_delivers h hsingle).rows _).mpr (.inr ?_)
      refine ⟨b.timestamp, s, v, unit, ⟨b, ⟨[b], List.mem_map_of_mem hb, ?_, ?_⟩, rfl, hs⟩, hnumeric, hfresh, rfl⟩
      · exact List.mem_cons_self
      · simpa using hgood
    have hnone : storedBlocks [blocks] = ∅ := by
      refine Set.eq_empty_of_forall_notMem ?_
      rintro b' ⟨message, hmessage, -, hall⟩
      rw [List.mem_singleton.mp hmessage] at hall
      exact hall bad hbad hrejected
    rcases ((stored_of_delivers h htogether).rows _).mp (((hsame _ _ hsingle htogether).1 _).mp hrow) with hold | hlate
    · exact hfresh _ (mem_history_unnumbered.mpr ⟨_, hold, rfl, rfl⟩) rfl
    · rw [hnone] at hlate
      obtain ⟨_, _, _, _, ⟨_, hb', _⟩, _⟩ := hlate
      exact hb'
  · intro hcond messages messages' hd hd'
    have hend := stored_of_delivers h hd
    have hend' := stored_of_delivers h hd'
    have hlate : lateRows st.samples st.session (readingsOf (storedBlocks messages)) =
        lateRows st.samples st.session (readingsOf (storedBlocks messages')) := by
      by_cases hbad : ∃ bad ∈ blocks, RejectedBlock bad
      · obtain ⟨bad, hbad, hrejected⟩ := hbad
        rw [lateRows_eq_empty hd (hcond bad hbad hrejected), lateRows_eq_empty hd' (hcond bad hbad hrejected)]
      · push Not at hbad
        rw [storedBlocks_eq hd hbad, storedBlocks_eq hd' hbad]
    have hrows : ∀ m, m ∈ (deliverAll st messages).samples.map unnumbered ↔
        m ∈ (deliverAll st messages').samples.map unnumbered := fun m => by
      rw [hend.rows, hend'.rows, hlate]
    have hsub : readingsOf (storedBlocks messages) ⊆ readingsOf {b | b ∈ blocks} := by
      rintro r ⟨b, ⟨message, hmessage, hb, -⟩, hr⟩
      exact ⟨b, (hd b).mpr ⟨message, hmessage, hb⟩, hr⟩
    refine ⟨hrows, ?_, ?_⟩
    · rw [hend.flag, hend'.flag]
      exact below_congr hrows
    · rw [hend.flag, regressed_iff (hend.functional (Consistent.mono h.consistent hsub))]


/-- Blocks of one sample each, at times of their own, for a session without samples. -/
theorem RecoveryLemmas.recoverable_fresh {blocks : List MeterBlock}
    (hwithin : ∀ b ∈ blocks, 0 ≤ b.timestamp ∧ b.timestamp ≤ 3600)
    (htimes : ∀ b ∈ blocks, ∀ b' ∈ blocks, b.timestamp = b'.timestamp → b = b')
    (hone : ∀ b ∈ blocks, ∃ s, b.sampledValue = [s]) : Recoverable ⟨recovered, [], 1⟩ blocks where
  unflagged := List.not_mem_nil
  session := nofun
  distinct := .nil
  fits := nofun
  rising := fun _ _ => nofun
  floor := nofun
  within := fun b hb => ⟨(hwithin b hb).1, fun e he => Option.some_inj.mp he ▸ (hwithin b hb).2⟩
  consistent := by
    rintro key p q (hp | ⟨s, unit, ⟨b, hb, hbt, hs⟩, -, hnumeric⟩) (hq | ⟨s', unit', ⟨b', hb', hbt', hs'⟩, -, hnumeric'⟩) heq
    · cases hp
    · cases hp
    · cases hq
    · cases htimes b hb b' hb' (hbt.symm.trans (heq.trans hbt'))
      obtain ⟨x, hx⟩ := hone b hb
      rw [hx, List.mem_singleton] at hs hs'
      cases (hs : s = x)
      cases (hs' : s' = s)
      rw [hnumeric] at hnumeric'
      exact congrArg (·.1) (Option.some_inj.mp (Except.ok.inj hnumeric'))

/-- A fall that is delivered latest first. -/
theorem recovery_order_independent_falling :
    OrderIndependent ⟨recovered, [], 1⟩ [⟨120, [{ value := "150" }]⟩, ⟨60, [{ value := "200" }]⟩] := by
  refine (recovery_order_independent _ _ (recoverable_fresh (by decide) (by decide) (by simp))).mpr ?_
  intro bad hbad hrejected
  exfalso
  have hfine : ∀ b ∈ [(⟨120, [{ value := "150" }]⟩ : MeterBlock), ⟨60, [{ value := "200" }]⟩],
      ∀ s ∈ b.sampledValue, ∃ v unit, numeric_sample s = .ok (some (v, unit)) ∧ |v| < 10 ^ 18 := by
    intro b hb s hs
    simp only [List.mem_cons, List.not_mem_nil, or_false] at hb
    rcases hb with rfl | rfl <;> rw [List.mem_singleton.mp hs]
    · exact ⟨150, "Wh", by decide +kernel, by norm_num⟩
    · exact ⟨200, "Wh", by decide +kernel, by norm_num⟩
  obtain ⟨s, hs, hrejected⟩ := hrejected
  obtain ⟨v, unit, hnumeric, hlt⟩ := hfine bad hbad s hs
  rcases hrejected with ⟨e, he⟩ | ⟨v', unit', hnumeric', hbig⟩
  · exact nomatch hnumeric.symm.trans he
  · cases hnumeric.symm.trans hnumeric'
    exact absurd hbig (not_le.mpr hlt)

/-- A reading beyond the range of decimals takes the readings of its message with it, and only those. -/
theorem overflow_takes_message_down :
    Recoverable ⟨recovered, [], 1⟩ [⟨60, [{ value := "1e1000000" }]⟩, ⟨120, [{ value := "200" }]⟩] ∧
      ¬ OrderIndependent ⟨recovered, [], 1⟩ [⟨60, [{ value := "1e1000000" }]⟩, ⟨120, [{ value := "200" }]⟩] := by
  refine ⟨recoverable_fresh (by decide) (by decide) (by simp), fun hsame => ?_⟩
  have hsingle : (deliverAll ⟨recovered, [], 1⟩
      [[⟨60, [{ value := "1e1000000" }]⟩], [⟨120, [{ value := "200" }]⟩]]).samples.length = 1 := by decide +kernel
  have htogether : (deliverAll ⟨recovered, [], 1⟩
      [[⟨60, [{ value := "1e1000000" }]⟩, ⟨120, [{ value := "200" }]⟩]]).samples = [] := by decide +kernel
  obtain ⟨hrows, -⟩ := hsame [[⟨60, [{ value := "1e1000000" }]⟩], [⟨120, [{ value := "200" }]⟩]]
    [[⟨60, [{ value := "1e1000000" }]⟩, ⟨120, [{ value := "200" }]⟩]] (fun b => by simp) (fun b => by simp)
  obtain ⟨m, hm⟩ := List.length_eq_one_iff.mp hsingle
  rw [hm, htogether] at hrows
  exact List.not_mem_nil ((hrows (unnumbered m)).mp List.mem_cons_self)

end Csms.Charging
