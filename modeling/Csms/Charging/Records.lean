import Csms.Charging.System

/-!
# What is recorded of a session

Results, in every reachable state:
1. `occupation_history_sound`: the occupation intervals of a session.
2. `meter_samples_sound`: the meter samples of a session.
-/

namespace Csms.Charging

open Tx Csms.Wallets Csms.Accounts Csms.Pricing
open Csms.Billing (MeterSample BillingError)

variable {A : Permits} {Z : Billing.Station → Prop} {s₀ s : Database} {c : Session} {intervals : List Interval}

/-! ## 1. Occupation -/

/-- At most one interval is open and at most one confirmed, and a release ends the confirmed one. -/
structure OccupationHistory (c : Session) (intervals : List Interval) : Prop where
  one_open : (intervals.filter (·.ended_at = none)).length ≤ 1
  closed : ∀ i ∈ intervals, ∀ e ∈ i.ended_at, i.started_at ≤ e
  resumed : ∀ i ∈ intervals, i.end_reason = some .resumed → i.confirmed = false
  one_confirmed : (intervals.filter (·.confirmed)).length ≤ 1
  release : ∀ t ∈ c.connector_released_at, c.started_at ≤ t
  released : ∀ t ∈ c.connector_released_at, ∀ i ∈ intervals, i.confirmed = true →
    i.ended_at = some t ∧ i.end_reason = some .released

namespace RecordsLemmas

/-- Of the intervals of a session, at most the current one is not a resumed one. -/
theorem length_filter_le (h : IntervalsOk c intervals) {p : Interval → Bool} (hp : ∀ i, Resumed i → p i = false) :
    (intervals.filter p).length ≤ 1 := by
  obtain ⟨closed, last, rfl, hclosed, -⟩ := h.split
  have hnil : closed.filter p = [] :=
    List.filter_eq_nil_iff.mpr fun i hi => by rw [hp i (hclosed i hi)]; exact Bool.false_ne_true
  rw [List.filter_append, hnil, List.nil_append]
  refine (List.length_filter_le _ _).trans ?_
  cases last <;> simp

theorem resumed_or_standing (h : IntervalsOk c intervals) {i : Interval} (hi : i ∈ intervals) :
    Resumed i ∨ Standing c i := by
  obtain ⟨closed, last, rfl, hclosed, hlast⟩ := h.split
  rcases List.mem_append.mp hi with hi | hi
  · exact .inl (hclosed i hi)
  · exact .inr (hlast i (Option.mem_toList.mp hi))

theorem history_of_intervals (h : IntervalsOk c intervals) : OccupationHistory c intervals where
  one_open := length_filter_le h fun i hi => by
    obtain ⟨e, he, -⟩ := hi.ended
    rw [Option.mem_def.mp he]
    rfl
  closed i hi e he := by
    rcases resumed_or_standing h hi with hres | hstand
    · obtain ⟨e', he', hle⟩ := hres.ended
      rw [Option.mem_def.mp he'] at he
      cases he
      exact hle
    · cases hrel : c.connector_released_at with
      | none => exact nomatch (hstand.waiting hrel).1.symm.trans he
      | some t =>
        obtain ⟨hend, -, hle⟩ := hstand.released t hrel
        cases hend.symm.trans he
        exact hle
  resumed i hi hreason := by
    rcases resumed_or_standing h hi with hres | hstand
    · exact hres.unconfirmed
    · cases hrel : c.connector_released_at with
      | none => exact nomatch (hstand.waiting hrel).2.symm.trans hreason
      | some t => exact nomatch (hstand.released t hrel).2.1.symm.trans hreason
  one_confirmed := length_filter_le h fun _ hi => hi.unconfirmed
  release := h.release
  released t ht i hi hconf := by
    rcases resumed_or_standing h hi with hres | hstand
    · exact nomatch hres.unconfirmed.symm.trans hconf
    · exact ⟨(hstand.released t ht).1, (hstand.released t ht).2.1⟩

/-- The intervals that billing reads. -/
theorem filter_toOccupationInterval (rows : List Interval) (session_id : ℕ) :
    (rows.map (·.toOccupationInterval)).filter (fun i => i.session_id = session_id ∧ i.confirmed) =
      ((rows.filter (·.session_id = session_id)).filter (·.confirmed)).map (·.toOccupationInterval) := by
  rw [List.filter_map, List.filter_filter]
  refine congrArg _ (List.filter_congr fun i _ => ?_)
  simp [and_comm]

theorem confirmedIntervals_valid {rows : List Interval}
    (h : OccupationHistory c (rows.filter (·.session_id = c.id))) :
    Billing.confirmedIntervals (rows.map (·.toOccupationInterval)) c.toChargingSession ≠
      .error (.invalidInvoice "invoice_invalid_occupation_history") := by
  unfold Billing.confirmedIntervals
  rw [filter_toOccupationInterval]
  split
  swap
  · nofun
  split
  · nofun
  next hrel =>
  obtain ⟨t, ht⟩ := Option.ne_none_iff_exists'.mp hrel
  simp only
  split
  swap
  · nofun
  next hbad =>
  rcases hbad with hlong | ⟨i, hi, hend⟩
  · rw [List.length_insertionSort, List.length_map] at hlong
    exact absurd h.one_confirmed (not_le.mpr hlong)
  · rw [List.mem_insertionSort] at hi
    obtain ⟨j, hj, rfl⟩ := List.mem_map.mp hi
    obtain ⟨hj, hconf⟩ := List.mem_filter.mp hj
    obtain ⟨hended, hreason⟩ := h.released t ht j hj hconf
    rcases hend with hne | hne
    · exact absurd (hended.trans ht.symm) hne
    · exact absurd hreason hne

end RecordsLemmas

open RecordsLemmas

/-- The occupation of every session that is billed to its release: the constraints on its rows hold, and
the invoice is never rejected for it. -/
theorem occupation_history_sound (sound : Sound s₀) (reach : Reach Z s₀ s) :
    ∀ c ∈ s.charging_sessions, c.billing_lifecycle_version = 1 → OccupationHistory c (s.intervalsOf c.id) ∧
      Billing.confirmedIntervals (s.occupation_intervals.map (·.toOccupationInterval)) c.toChargingSession ≠
        .error (.invalidInvoice "invoice_invalid_occupation_history") := by
  intro c hc hv
  have hok := (Reach.sound reach sound).core.occupation c hc (by rw [hv]; decide)
  have hist : OccupationHistory c (s.intervalsOf c.id) := history_of_intervals hok
  exact ⟨hist, confirmedIntervals_valid hist⟩

/-- A car that stays plugged in from 10 to 30. -/
theorem occupation_history_released :
    ∃ s, Reach (fun _ => True) (OneSession.charging []) s ∧
      s.occupation_intervals.map (fun i => (i.started_at, i.ended_at, i.confirmed)) = [(10, some 30, true)] ∧
      ∀ c ∈ s.charging_sessions, c.billing_lifecycle_version = 1 → OccupationHistory c (s.intervalsOf c.id) := by
  have hreach := (OneSession.reach_reported .Finishing 10 (OneSession.charging [])).trans
    (@OneSession.reach_reported (fun _ => True) .Available 30 _)
  refine ⟨_, hreach, by decide +kernel, fun c hc hv => ?_⟩
  exact (occupation_history_sound (OneSession.charging_sound []) hreach c hc hv).1

/-! ## 2. Meter samples -/

/-- The samples of a session, in each series at distinct times from the start on. Without a flagged
regression the registers do not fall, and the billed one is never below the start reading. -/
structure MeterHistory (c : Session) (samples : List MeterSample) : Prop where
  distinct : ∀ key : Series, ((samples.filter (sampleSeries · = key)).map (·.timestamp)).Nodup
  since : ∀ m ∈ samples, c.started_at ≤ m.timestamp
  rising : "meter_regression" ∉ c.review_reasons → ∀ a ∈ samples, ∀ b ∈ samples,
    sampleSeries a = sampleSeries b → a.measurand = .energyRegister → a.timestamp ≤ b.timestamp →
    reading a ≤ reading b
  floor : "meter_regression" ∉ c.review_reasons → ∀ m ∈ samples, sampleSeries m = (.energyRegister, "", "Outlet") →
    c.startWh ≤ reading m

theorem RecordsLemmas.history_of_series {samples : List MeterSample} (h : SeriesOk c samples) :
    MeterHistory c samples where
  distinct key := by
    rw [List.Nodup, List.pairwise_map, List.pairwise_filter]
    refine List.Pairwise.imp_of_mem (fun {a b} ha hb hne hka hkb heq => hne ?_) h.distinct
    have hkey : sampleSeries a = sampleSeries b :=
      (of_decide_eq_true hka).trans (of_decide_eq_true hkb).symm
    exact Prod.ext ((h.session a ha).trans (h.session b hb).symm) (Prod.ext hkey heq)
  since := h.since
  rising hno a ha b hb hkey hreg hle :=
    h.rising hno (sampleSeries b) (hkey ▸ hreg) _ (mem_history.mpr ⟨a, ha, hkey, rfl⟩) _
      (mem_history.mpr ⟨b, hb, rfl, rfl⟩) hle
  floor hno m hm hkey := h.floor hno _ (mem_history.mpr ⟨m, hm, hkey, rfl⟩)

/-- The samples of every session, and no report or stop is refused for a sample stored before. -/
theorem meter_samples_sound (sound : Sound s₀) (reach : Reach Z s₀ s) :
    (∀ c ∈ s.charging_sessions, MeterHistory c (s.samplesOf c.id)) ∧
    (∀ m ∈ s.meter_samples, ∃ c ∈ s.charging_sessions, c.id = m.session_id) ∧
    ∀ charger message_id,
      (∀ payload, (meterReport charger message_id payload s).1 ≠ .error (.integrityError "uq_charging_meter_sample")) ∧
      ∀ payload,
        (stop_transaction charger message_id payload s).1 ≠ .error (.integrityError "uq_charging_meter_sample") := by
  have hs := Reach.sound reach sound
  refine ⟨fun c hc => history_of_series (hs.core.series c hc), hs.core.sampled, fun charger message_id =>
    ⟨fun payload => ?_, fun payload => ?_⟩⟩
  · rcases wp_run (@meter_values_moves NotDebit (fun _ => True) 0 s hs.core charger message_id payload (fun _ _ _ _ _ _ => trivial)) with
      ⟨a, t, hrun, -⟩ | ⟨e, t, hrun, -, he⟩
    · rw [hrun]
      nofun
    · rw [hrun]
      exact fun heq => he _ (Except.error.inj heq)
  · rcases wp_run (@stop_transaction_moves NotDebit (fun _ => True) 0 s hs.core charger message_id payload) with
      ⟨a, t, hrun, -⟩ | ⟨e, t, hrun, -, he⟩
    · rw [hrun]
      nofun
    · rw [hrun]
      exact fun heq => he _ (Except.error.inj heq)

/-- Two readings of a rising register. -/
theorem meter_samples_two_readings :
    ∃ s, Reach (fun _ => True) (OneSession.charging []) s ∧
      s.meter_samples.map (fun m => (m.timestamp, m.value)) = [(20, some 1500), (30, some 2000)] ∧
      ∀ c ∈ s.charging_sessions, MeterHistory c (s.samplesOf c.id) := by
  have hreach := (OneSession.reach_metered "1500" 20 (OneSession.charging [])).trans
    (@OneSession.reach_metered (fun _ => True) "2000" 30 _)
  refine ⟨_, hreach, by decide +kernel, ?_⟩
  exact (meter_samples_sound (OneSession.charging_sound []) hreach).1

end Csms.Charging
