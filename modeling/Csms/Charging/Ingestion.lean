import Csms.Charging.Series

/-!
# Live and late reports

The live path keeps the newest point of a series, the recovery path all of them. On data in order the two
do the same: `live_and_backfill_agree`.
-/

namespace Csms.Charging

open Points Outcome
open Csms.Billing (Measurand MeterSample)

/-! ## 1. The two loops side by side -/

/-- The states of the two loops at time `now`, in one session. -/
structure Aligned (c : Session) (now : ℤ) (live : Ingest) (late : Backfill) : Prop where
  reviewed : Reviewed c late.session
  session : live.session = late.session
  rows : live.rows = late.rows
  latest : ∀ key, live.latest key = latest (late.points key)
  past : ∀ key, ∀ p ∈ late.points key, p.1 ≤ now

section Aligned

variable {c : Session} {now : ℤ} {live : Ingest} {late : Backfill}

theorem Aligned.later (h : Aligned c now live late) {now' : ℤ} (hnow : now ≤ now') : Aligned c now' live late :=
  { h with past := fun key p hp => (h.past key p hp).trans hnow }

theorem Aligned.flag (h : Aligned c now live late) (reason : String) :
    Aligned c now { live with session := review reason live.session }
      { late with session := review reason late.session } :=
  { h with reviewed := h.reviewed.trans (reviewed_review _ _), session := by rw [h.session] }

/-- A sample later than its series goes to both. -/
theorem Aligned.append (h : Aligned c now live late) {sample : SamplePayload} {value : ℚ} {unit : String}
    {session : Session} (hreviewed : Reviewed late.session session) (hstart : c.started_at < now)
    (hlater : ∀ q ∈ late.points sample.series, q.1 < now) :
    Aligned c now (Ingest.append { live with session } now sample value unit)
      { session
        points := Function.update late.points sample.series (late.points sample.series ++ [(now, value)])
        rows := late.rows ++ [newSample late.session now sample value unit] } := by
  have hbegin : session.started_at = c.started_at :=
    (h.reviewed.trans hreviewed).get (·.started_at) fun _ _ => rfl
  have hid : session.id = late.session.id := hreviewed.get (·.id) fun _ _ => rfl
  have hrow : newSample session now sample value unit = newSample late.session now sample value unit := by
    unfold newSample
    rw [hid]
  have happend : Ingest.append { live with session } now sample value unit =
      ⟨session, Function.update live.latest sample.series (some (now, value)),
        live.rows ++ [newSample session now sample value unit]⟩ :=
    if_neg (by rw [hbegin]; exact not_lt.mpr hstart.le)
  rw [happend]
  refine ⟨h.reviewed.trans hreviewed, rfl, by rw [h.rows, hrow], fun key => ?_, fun key p hp => ?_⟩
  · by_cases hkey : key = sample.series
    · subst hkey
      simp only [Function.update_self]
      exact (latest_append hlater).symm
    · simp only [Function.update_of_ne hkey]
      exact h.latest key
  · by_cases hkey : key = sample.series
    · subst hkey
      simp only [Function.update_self] at hp
      rcases List.mem_append.mp hp with hp | hp
      · exact h.past _ p hp
      · rw [List.mem_singleton.mp hp]
    · simp only [Function.update_of_ne hkey] at hp
      exact h.past key p hp

/-- The session after a sample that is flagged or not. -/
theorem reviewed_flag (c : Session) (p : Prop) [Decidable p] :
    Reviewed c (if p then review "meter_regression" c else c) := by
  split
  · exact reviewed_review _ _
  · exact .refl _

/-- The first value of a series is compared with the start reading, in the billed one. -/
theorem regresses_nil (key : Series) (value : ℚ) :
    regresses c key [] now value = (if key = outletRegister then some c.startWh else none).any (value < ·) := by
  have hbefore : before ([] : List (ℤ × ℚ)) now = none := rfl
  have hafter : after ([] : List (ℤ × ℚ)) now = none := rfl
  unfold regresses
  rw [hbefore, hafter]
  exact Bool.or_false _

/-- The first sample of a series. The live loop compares the billed register with the start of the session. -/
theorem Aligned.first (h : Aligned c now live late) (hstart : c.started_at < now) {sample : SamplePayload}
    (hnil : late.points sample.series = []) {value : ℚ} {unit : String}
    (hnumeric : numeric_sample sample = .ok (some (value, unit))) :
    Alike (Aligned c now) (liveSample now live sample) (recoverySample now late sample) := by
  have hlater : ∀ q ∈ late.points sample.series, q.1 < now := by simp [hnil]
  have hbegin : live.session.started_at = c.started_at := by
    rw [h.session]
    exact h.reviewed.get (·.started_at) fun _ _ => rfl
  have hlatest : live.latest sample.series = none := by rw [h.latest, hnil]; rfl
  have hnext := fun p [Decidable p] =>
    @Aligned.append c now live late h sample value unit _ (reviewed_flag late.session p) hstart hlater
  rw [hnil, List.nil_append] at hnext
  unfold liveSample recoverySample
  rw [hnumeric]
  simp only [pure, bind, Except.pure, Except.bind, previousPoint, hlatest, hnil, List.find?_nil, List.nil_append]
  by_cases hkey : sample.series = outletRegister
  · simp only [if_pos hkey, hbegin, if_neg (not_lt.mpr hstart.le), if_neg hstart.ne']
    rw [regresses_nil, if_pos hkey, h.session]
    simp only [Option.any_some, decide_eq_true_eq]
    exact .ok (hnext _)
  · simp only [if_neg hkey]
    rw [regresses_nil, if_neg hkey]
    have hrow := hnext False
    simp only [if_false, ← h.session] at hrow
    simp only [Option.any_none, Bool.false_eq_true, and_false, if_false, ← h.session]
    exact .ok hrow

/-- A sample of a series that has points. -/
theorem Aligned.next (h : Aligned c now live late) (hstart : c.started_at < now) {sample : SamplePayload}
    {point : ℤ × ℚ} (hl : Points.latest (late.points sample.series) = some point) {value : ℚ} {unit : String}
    (hnumeric : numeric_sample sample = .ok (some (value, unit))) :
    Alike (Aligned c now) (liveSample now live sample) (recoverySample now late sample) := by
  have hlatest : live.latest sample.series = some point := (h.latest _).trans hl
  have hfind := find_eq_latest_filter (h.past sample.series)
  rw [hl] at hfind
  unfold liveSample recoverySample
  rw [hnumeric]
  simp only [pure, bind, Except.pure, Except.bind, previousPoint, hlatest]
  rcases (h.past _ _ (latest_spec hl).1).eq_or_lt with heq | hlt
  · -- a second value at one time
    rw [Option.filter, if_pos (decide_eq_true heq)] at hfind
    simp only [hfind, heq, lt_irrefl, if_false, if_true]
    by_cases hv : value = point.2
    · simp only [hv, ne_eq, not_true_eq_false, if_false]
      exact .ok h
    · simp only [if_pos hv, if_pos (Ne.symm hv), ne_eq]
      exact .ok (h.flag _)
  · have hlater : ∀ q ∈ late.points sample.series, q.1 < now := fun q hq => ((latest_spec hl).2 q hq).trans_lt hlt
    have hregresses : regresses late.session sample.series (late.points sample.series) now value =
        decide (value < point.2) := by
      obtain ⟨hbefore, hafter⟩ := before_after_of_lt hlater
      unfold regresses
      rw [hbefore, hafter, hl]
      simp
    rw [Option.filter, if_neg (by simpa using hlt.ne)] at hfind
    simp only [hfind, hregresses, decide_eq_true_eq, if_neg hlt.not_gt, if_neg hlt.ne', h.session]
    exact .ok (h.append (reviewed_flag late.session _) hstart hlater)

theorem Aligned.sample (h : Aligned c now live late) (hstart : c.started_at < now) (sample : SamplePayload) :
    Alike (Aligned c now) (liveSample now live sample) (recoverySample now late sample) := by
  cases hnumeric : numeric_sample sample with
  | error e =>
    unfold liveSample recoverySample
    rw [hnumeric]
    exact .error e
  | ok numeric =>
    cases numeric with
    | none =>
      unfold liveSample recoverySample
      rw [hnumeric]
      exact .ok h
    | some numeric =>
      cases hl : Points.latest (late.points sample.series) with
      | none => exact h.first hstart (latest_eq_none hl) hnumeric
      | some point => exact h.next hstart hl hnumeric

/-! ## 2. Blocks in order -/

/-- The two loops over blocks that come in order, after the session began and until it ended. -/
theorem Aligned.blocks : ∀ {blocks : List MeterBlock} {now : ℤ} {live : Ingest} {late : Backfill},
    Aligned c now live late → blocks.Pairwise (·.timestamp ≤ ·.timestamp) →
    (∀ b ∈ blocks, now ≤ b.timestamp) → (∀ b ∈ blocks, c.started_at < b.timestamp) →
    (∀ b ∈ blocks, ∀ e ∈ c.ended_at, b.timestamp ≤ e) →
    Alike (fun live late => ∃ now, Aligned c now live late)
      (blocks.foldlM (fun st block => block.sampledValue.foldlM (liveSample block.timestamp) st) live)
      (blocks.foldlM recoveryBlock late)
  | [], now, _, _, h, _, _, _, _ => .ok ⟨now, h⟩
  | block :: blocks, now, live, late, h, hsorted, hnow, hstart, hend => by
    obtain ⟨hfirst, hsorted⟩ := List.pairwise_cons.mp hsorted
    have hstart' := hstart block List.mem_cons_self
    have hinside : recoveryBlock late block = block.sampledValue.foldlM (recoverySample block.timestamp) late := by
      refine if_neg ?_
      rw [h.reviewed.get (·.started_at) fun _ _ => rfl, h.reviewed.get (·.ended_at) fun _ _ => rfl]
      rintro (hlt | ⟨e, he, hlt⟩)
      · omega
      · exact absurd (hend block List.mem_cons_self e he) (not_le.mpr hlt)
    rw [List.foldlM_cons, List.foldlM_cons, hinside]
    have hblock := h.later (hnow block List.mem_cons_self)
    refine (Alike.foldlM (fun sample _ live late h => h.sample hstart' sample) hblock).bind fun live late h => ?_
    exact h.blocks hsorted hfirst (fun b hb => hstart b (List.mem_cons_of_mem _ hb))
      fun b hb => hend b (List.mem_cons_of_mem _ hb)

end Aligned

/-- On blocks in order, later than the start and than every sample the session has, and not past its end,
`store_samples` adds the same rows and flags the same reasons on both paths. -/
theorem live_and_backfill_agree (stored : List MeterSample) (c : Session) (blocks : List MeterBlock)
    (hsorted : blocks.Pairwise fun a b => a.timestamp ≤ b.timestamp)
    (hstart : ∀ b ∈ blocks, c.started_at < b.timestamp)
    (hstored : ∀ b ∈ blocks, ∀ m ∈ stored, m.timestamp < b.timestamp)
    (hend : ∀ b ∈ blocks, ∀ e ∈ c.ended_at, b.timestamp ≤ e) :
    storeSamples stored c blocks false = storeSamples stored c blocks true := by
  have hsort : blocks.insertionSort (fun a b => a.timestamp ≤ b.timestamp) = blocks := hsorted.insertionSort_eq
  have hloops : Alike (fun live late => ∃ now, Aligned c now live late)
      (blocks.foldlM (fun st block => block.sampledValue.foldlM (liveSample block.timestamp) st)
        ⟨c, fun key => latest (history stored key), []⟩)
      (blocks.foldlM recoveryBlock ⟨c, history stored, []⟩) := by
    have hfirst : ∃ now, (∀ m ∈ stored, m.timestamp ≤ now) ∧ ∀ b ∈ blocks, now ≤ b.timestamp := by
      cases blocks with
      | nil =>
        obtain ⟨now, hnow⟩ := (stored.map (·.timestamp)).toFinset.bddAbove
        exact ⟨now, fun m hm => hnow (by simpa using ⟨m, hm, rfl⟩), nofun⟩
      | cons block blocks =>
        refine ⟨block.timestamp, fun m hm => (hstored block List.mem_cons_self m hm).le, fun b hb => ?_⟩
        rcases List.mem_cons.mp hb with rfl | hb
        · exact le_rfl
        · exact (List.pairwise_cons.mp hsorted).1 b hb
    obtain ⟨now, hpast, hnow⟩ := hfirst
    refine Aligned.blocks ⟨.refl c, rfl, rfl, fun _ => rfl, fun key p hp => ?_⟩ hsorted hnow hstart hend
    obtain ⟨m, hm, -, rfl⟩ := mem_history.mp hp
    exact hpast m hm
  unfold storeSamples liveSamples recoverySamples
  rw [if_neg Bool.false_ne_true, if_pos rfl, hsort]
  refine (hloops.bind fun live late hend => ?_).eq
  obtain ⟨now, h⟩ := hend
  exact .ok (Prod.ext h.session h.rows)

/-- A session of one hour that is recovered. -/
def recovered : Session where
  id := 0
  charge_point_id := 0
  connector_id := 0
  driver_id := none
  authorization_status := .accepted
  started_at := 0
  ended_at := some 3600
  idle_since := none
  billing_lifecycle_version := 1
  connector_released_at := none
  settlement := none
  meter_start_wh := some 100
  meter_stop_wh := none
  review_reasons := []
  tag_tail := "0001"
  release_detection := .available
  energy_kwh := none
  stop_reason := none
  recovery_at := some 1800
  abnormal_since := none
  manual_closed_at := none
  manual_close_reason := none
  closed_by := none
  received_at := 0

/-- A register that falls, comes twice at one time, and comes with a text that is no number. -/
theorem live_and_backfill_agree_falling :
    storeSamples [] recovered [⟨60, [{ value := "200" }]⟩, ⟨120, [{ value := "150" }, { value := "160" }]⟩,
        ⟨120, [{ value := "x" }, { value := "1", unit := some "kWh" }]⟩] false =
      storeSamples [] recovered [⟨60, [{ value := "200" }]⟩, ⟨120, [{ value := "150" }, { value := "160" }]⟩,
        ⟨120, [{ value := "x" }, { value := "1", unit := some "kWh" }]⟩] true :=
  live_and_backfill_agree _ _ _ (by decide) (by decide) (by decide) (by decide)

end Csms.Charging
