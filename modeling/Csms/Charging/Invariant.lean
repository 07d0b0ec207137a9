import Csms.Charging.Moves

/-!
# Moves keep the tables sound

Results: `Move.ok`, `Moves.ok`.
-/

namespace Csms.Charging

open Tx Csms.Wallets Csms.Reservations Csms.Accounts Csms.Pricing
open Csms.Billing (MeterSample InvoiceRow Numeric)

namespace InvariantLemmas

variable {t : Core} {c c' : Session}

/-! ## 1. Sessions -/

/-- What the other tables know of a session. -/
structure Kept (c c' : Session) : Prop where
  id : c'.id = c.id
  connector : c'.connector_id = c.connector_id
  started : c'.started_at = c.started_at
  startWh : c'.startWh = c.startWh
  version : c'.billing_lifecycle_version = c.billing_lifecycle_version
  ended : c.ended_at ≠ none → c'.ended_at ≠ none
  regression : "meter_regression" ∈ c.review_reasons → "meter_regression" ∈ c'.review_reasons
  metered : Metered c → Metered c'

theorem Kept.refl (c : Session) : Kept c c := ⟨rfl, rfl, rfl, rfl, rfl, fun h => h, fun h => h, fun h => h⟩

theorem metered_congr (h : Metered c) (hstart : c'.meter_start_wh = c.meter_start_wh)
    (hstop : c'.meter_stop_wh = c.meter_stop_wh) : Metered c' :=
  ⟨hstart ▸ h.start, hstop ▸ h.stop⟩

theorem metered_evolve (he : Evolve c c') (h : Metered c) : Metered c' := by
  have hstart : c'.meter_start_wh = c.meter_start_wh :=
    he.get (·.meter_start_wh) fun _ _ _ _ _ _ _ _ _ _ _ _ => rfl
  cases he with
  | same => exact h
  | flag _ reviewed => exact metered_congr h hstart (reviewed.get (·.meter_stop_wh) fun _ _ => rfl)
  | clear reasons settled opened => exact metered_congr h hstart rfl
  | note _ opened frame reasons => exact metered_congr h hstart (by rw [frame])
  | replace now opened =>
    refine metered_congr h hstart ?_
    unfold replaced
    rw [review_eq]
  | close env actor_id reason value opened numeric =>
    refine ⟨hstart ▸ h.start, fun v hv => ?_⟩
    unfold closedManually at hv
    rw [review_eq] at hv
    cases hv
    exact numeric

theorem Kept.of_reviewed (h : Reviewed c c') : Kept c c' :=
  ⟨h.get (·.id) fun _ _ => rfl, h.get (·.connector_id) fun _ _ => rfl, h.get (·.started_at) fun _ _ => rfl,
    h.get (·.startWh) fun _ _ => rfl, h.get (·.billing_lifecycle_version) fun _ _ => rfl,
    fun he => (h.get (·.ended_at) fun _ _ => rfl) ▸ he, fun hr => h.reasons hr,
    fun hm => metered_congr hm (h.get (·.meter_start_wh) fun _ _ => rfl) (h.get (·.meter_stop_wh) fun _ _ => rfl)⟩

theorem Kept.of_evolve (h : Evolve c c') : Kept c c' where
  id := h.id
  connector := h.get (·.connector_id) fun _ _ _ _ _ _ _ _ _ _ _ _ => rfl
  started := h.get (·.started_at) fun _ _ _ _ _ _ _ _ _ _ _ _ => rfl
  startWh := h.get (·.startWh) fun _ _ _ _ _ _ _ _ _ _ _ _ => rfl
  version := h.get (·.billing_lifecycle_version) fun _ _ _ _ _ _ _ _ _ _ _ _ => rfl
  ended he := ((h.reviewed he).get (·.ended_at) fun _ _ => rfl) ▸ he
  regression hr := (h.mem_reasons hr).resolve_right fun hs => absurd hs.1 (by decide)
  metered := metered_evolve h

/-- Sessions change, and the rows of other tables stay theirs. -/
theorem map_ok (h : CoreOk t) {f : Session → Session} (hf : ∀ c ∈ t.sessions, Kept c (f c))
    (hrel : ∀ c ∈ t.sessions, (f c).billing_lifecycle_version ≠ 0 →
      IntervalsOk c (t.intervalsOf c.id) → IntervalsOk (f c) (t.intervalsOf c.id)) :
    CoreOk { t with sessions := t.sessions.map f } where
  sessions := by
    refine List.pairwise_map.mpr (h.sessions.imp_of_mem fun ha hb hlt => ?_)
    rw [(hf _ ha).id, (hf _ hb).id]
    exact hlt
  fresh := by
    intro x hx
    obtain ⟨a, ha, rfl⟩ := List.mem_map.mp hx
    rw [(hf a ha).id]
    exact h.fresh a ha
  intervals := h.intervals
  intervals_fresh := h.intervals_fresh
  connectors := h.connectors
  sampled m hm := by
    obtain ⟨a, ha, hid⟩ := h.sampled m hm
    exact ⟨f a, List.mem_map_of_mem ha, (hf a ha).id.trans hid⟩
  occupied i hi := by
    obtain ⟨a, ha, hid⟩ := h.occupied i hi
    exact ⟨f a, List.mem_map_of_mem ha, (hf a ha).id.trans hid⟩
  billed i hi := by
    obtain ⟨a, ha, hid, he⟩ := h.billed i hi
    exact ⟨f a, List.mem_map_of_mem ha, (hf a ha).id.trans hid, (hf a ha).ended he⟩
  stamps := by
    intro i hi x hx hid k hk hkid
    obtain ⟨a, ha, rfl⟩ := List.mem_map.mp hx
    exact h.stamps i hi a ha ((hf a ha).id.symm.trans hid) k hk (hkid.trans (hf a ha).connector)
  occupation := by
    intro x hx hv
    obtain ⟨a, ha, rfl⟩ := List.mem_map.mp hx
    have hold : IntervalsOk a (t.intervalsOf a.id) :=
      h.occupation a ha ((hf a ha).version ▸ hv)
    have hnew := hrel a ha hv hold
    rw [(hf a ha).id]
    exact hnew
  series := by
    intro x hx
    obtain ⟨a, ha, rfl⟩ := List.mem_map.mp hx
    have hold := (h.series a ha).congr (hf a ha).id (hf a ha).started (hf a ha).startWh (hf a ha).regression
    rw [(hf a ha).id]
    exact hold
  numeric := h.numeric
  metered := by
    intro x hx
    obtain ⟨a, ha, rfl⟩ := List.mem_map.mp hx
    exact (hf a ha).metered (h.metered a ha)

/-- One session changes. -/
theorem saveSession_ok (h : CoreOk t) (hc : c ∈ t.sessions) (hk : Kept c c')
    (hrel : c'.billing_lifecycle_version ≠ 0 → IntervalsOk c (t.intervalsOf c.id) →
      IntervalsOk c' (t.intervalsOf c.id)) : CoreOk (t.saveSession c') := by
  refine map_ok h (fun a ha => ?_) fun a ha hv => ?_
  · split
    · next hid => exact h.eq hc ha (hid.trans hk.id).symm ▸ hk
    · exact .refl a
  · split at hv
    · next hid =>
      obtain rfl := h.eq hc ha (hid.trans hk.id).symm
      rw [if_pos hid]
      exact hrel hv
    · next hid =>
      rw [if_neg hid]
      exact fun h => h

/-! ## 2. Samples -/

theorem samplesOf_append (t : Core) (rows : List MeterSample) (n : ℕ) :
    ({ t with samples := t.samples ++ rows } : Core).samplesOf n =
      t.samplesOf n ++ rows.filter (·.session_id = n) :=
  List.filter_append ..

/-- Samples of one session are added. -/
theorem addSamples_ok (h : CoreOk t) (hc : c ∈ t.sessions) {rows : List MeterSample}
    (hrows : ∀ m ∈ rows, m.session_id = c.id) (hnum : ∀ m ∈ rows, ∀ v ∈ m.value, Numeric v)
    (hs : SeriesOk c (t.samplesOf c.id ++ rows)) : CoreOk { t with samples := t.samples ++ rows } where
  sessions := h.sessions
  fresh := h.fresh
  intervals := h.intervals
  intervals_fresh := h.intervals_fresh
  connectors := h.connectors
  sampled m hm := by
    rcases List.mem_append.mp hm with hm | hm
    · exact h.sampled m hm
    · exact ⟨c, hc, (hrows m hm).symm⟩
  occupied := h.occupied
  billed := h.billed
  stamps := h.stamps
  occupation := h.occupation
  series := by
    intro a ha
    rw [samplesOf_append]
    by_cases hid : a.id = c.id
    · obtain rfl := h.eq ha hc hid
      rwa [List.filter_eq_self.mpr fun m hm => decide_eq_true (hrows m hm)]
    · rw [List.filter_eq_nil_iff.mpr fun m hm => ?_, List.append_nil]
      · exact h.series a ha
      · rw [decide_eq_true_iff, hrows m hm]
        exact Ne.symm hid
  numeric m hm := by
    rcases List.mem_append.mp hm with hm | hm
    · exact h.numeric m hm
    · exact hnum m hm
  metered := h.metered

/-! ## 3. Intervals -/

/-- The table of intervals after one was written back, of which `View` knows the place. -/
theorem intervals_flush (h : CoreOk t) {stamp : Option ℤ} {o : Occupied} {l : List Interval}
    (hv : View t.interval_seq stamp c (t.intervalsOf c.id) o l) :
    let t' := o.interval.elim t (t.saveInterval ·)
    t'.intervalsOf c.id = l ∧ (∀ n, n ≠ c.id → t'.intervalsOf n = t.intervalsOf n) ∧
    Table.Keyed Interval.id t'.intervals ∧ (∀ i ∈ t'.intervals, i.id < t'.interval_seq) ∧
    (∀ i ∈ t'.intervals, i ∈ t.intervals ∨ i ∈ l) := by
  intro t'
  have hmem : ∀ {j : Interval} {n : ℕ}, j ∈ t.intervalsOf n → j ∈ t.intervals ∧ j.session_id = n :=
    fun hj => ⟨(List.mem_filter.mp hj).1, of_decide_eq_true (List.mem_filter.mp hj).2⟩
  have hlast := hv.current
  cases hi : o.interval with
  | none =>
    have ht : t' = t := by simp only [t', hi, Option.elim_none]
    rw [hi] at hlast
    have hl : l = [] := List.getLast?_eq_none_iff.mp hlast.symm
    have hold : t.intervalsOf c.id = [] := by
      rcases hv.place with ⟨-, hid⟩ | ⟨-, hid⟩
      · rw [hl] at hid
        exact List.getLast?_eq_none_iff.mp (Option.map_eq_none_iff.mp hid.symm)
      · rw [hl] at hid
        cases hid
    rw [ht]
    exact ⟨hold.trans hl.symm, fun _ _ => rfl, h.intervals, h.intervals_fresh, fun _ => .inl⟩
  | some i =>
    have ht : t' = t.saveInterval i := by simp only [t', hi, Option.elim_some]
    rw [hi] at hlast
    have hl : l = l.dropLast ++ [i] := (List.dropLast_append_getLast? i hlast.symm).symm
    have hil : i ∈ l := List.mem_of_getLast? hlast.symm
    have hsession : i.session_id = c.id :=
      (hv.ok.session i hil).trans (hv.get (·.id) fun _ _ _ _ => rfl)
    rw [ht]
    unfold Core.saveInterval
    rcases hv.place with ⟨hdrop, hid⟩ | ⟨hdrop, hid⟩
    · rw [← hlast, Option.map_some] at hid
      obtain ⟨j, hj, hji⟩ := Option.map_eq_some_iff.mp hid.symm
      have hold : t.intervalsOf c.id = (t.intervalsOf c.id).dropLast ++ [j] :=
        (List.dropLast_append_getLast? j hj).symm
      obtain ⟨hjt, hjs⟩ := hmem (List.mem_of_getLast? hj)
      rw [if_pos (hji ▸ h.intervals_fresh j hjt)]
      have hsame : ∀ a ∈ t.intervals, a.id = i.id → a = j := fun a ha haid =>
        h.intervals.eq ha hjt (haid.trans hji.symm)
      have hfilter : ∀ n, (Table.modify Interval.id i.id (fun _ => i) t.intervals).filter (·.session_id = n) =
          Table.modify Interval.id i.id (fun _ => i) (t.intervalsOf n) := by
        intro n
        refine Table.filter_modify fun a ha haid => ?_
        rw [hsame a ha haid, hsession, hjs]
      refine ⟨?_, fun n hn => ?_, h.intervals.modify fun _ _ => rfl,
        Table.forall_modify h.intervals_fresh fun a ha haid => haid ▸ h.intervals_fresh a ha, fun a ha => ?_⟩
      · refine (hfilter c.id).trans ?_
        rw [hold, Table.modify_concat _ hji, ← hdrop, ← hl]
        rw [← hold]
        exact h.intervals.filter _
      · refine (hfilter n).trans (Table.modify_of_notMem fun a ha haid => hn ?_)
        rw [← (hmem ha).2, hsame a (hmem ha).1 haid, hjs]
      · obtain ⟨b, hb, rfl⟩ := Table.mem_modify.mp ha
        split
        · exact .inr hil
        · exact .inl hb
    · rw [← hlast, Option.map_some, Option.some.injEq] at hid
      rw [if_neg (by rw [hid]; exact lt_irrefl _)]
      refine ⟨?_, fun n hn => ?_, h.intervals.append fun a ha => ?_, fun a ha => ?_, fun a ha => ?_⟩
      · change (t.intervals ++ [i]).filter (·.session_id = c.id) = l
        rw [List.filter_append, List.filter_singleton, decide_eq_true hsession]
        change t.intervalsOf c.id ++ [i] = l
        rw [← hdrop, ← hl]
      · change (t.intervals ++ [i]).filter (·.session_id = n) = t.intervalsOf n
        rw [List.filter_append, List.filter_singleton, decide_eq_false (hsession ▸ Ne.symm hn)]
        exact List.append_nil _
      · exact (hid ▸ h.intervals_fresh a ha).ne
      · change a.id < i.id + 1
        rcases List.mem_append.mp ha with ha | ha
        · exact (hid ▸ h.intervals_fresh a ha).trans (Nat.lt_succ_self _)
        · rw [List.mem_singleton.mp ha]
          exact Nat.lt_succ_self _
      · rcases List.mem_append.mp ha with ha | ha
        · exact .inl ha
        · exact .inr (List.mem_singleton.mp ha ▸ hil)

theorem Kept.of_view {id : ℕ} {stamp : Option ℤ} {old l : List Interval} {o : Occupied}
    (h : View id stamp c old o l) : Kept c o.session :=
  ⟨h.get (·.id) fun _ _ _ _ => rfl, h.get (·.connector_id) fun _ _ _ _ => rfl,
    h.get (·.started_at) fun _ _ _ _ => rfl, h.get (·.startWh) fun _ _ _ _ => rfl,
    h.get (·.billing_lifecycle_version) fun _ _ _ _ => rfl,
    fun he => (h.get (·.ended_at) fun _ _ _ _ => rfl) ▸ he, fun hr => h.reasons hr,
    fun hm => metered_congr hm (h.get (·.meter_start_wh) fun _ _ _ _ => rfl)
      (h.get (·.meter_stop_wh) fun _ _ _ _ => rfl)⟩

/-- A session and its current interval are written back. -/
theorem flush_ok (h : CoreOk t) (hc : c ∈ t.sessions) {stamp : Option ℤ} {o : Occupied} {l : List Interval}
    (hv : View t.interval_seq stamp c (t.intervalsOf c.id) o l)
    (hlatest : ∀ at_ ∈ stamp, ∀ k ∈ t.connectors, k.id = c.connector_id →
      k.last_status_notification_at = some at_) : CoreOk (t.flush o) := by
  obtain ⟨hown, hother, hkeyed, hfresh, hmem⟩ := intervals_flush h hv
  unfold Core.flush
  set t' := o.interval.elim t (t.saveInterval ·) with ht'
  have hk : Kept c o.session := .of_view hv
  have hframe : t'.sessions = t.sessions ∧ t'.session_seq = t.session_seq ∧ t'.connectors = t.connectors ∧
      t'.samples = t.samples ∧ t'.invoices = t.invoices := by
    rw [ht']
    cases o.interval with
    | none => exact ⟨rfl, rfl, rfl, rfl, rfl⟩
    | some i =>
      simp only [Option.elim_some, Core.saveInterval]
      split <;> exact ⟨rfl, rfl, rfl, rfl, rfl⟩
  obtain ⟨hsessions, hseq, hconnectors, hsamples, hinvoices⟩ := hframe
  have hsave : ∀ x ∈ (t'.saveSession o.session).sessions, x = o.session ∨ (x ∈ t.sessions ∧ x.id ≠ c.id) := by
    intro x hx
    obtain ⟨a, ha, rfl⟩ := Table.mem_modify.mp hx
    rw [hsessions] at ha
    split
    · exact .inl rfl
    · next hid => exact .inr ⟨ha, hk.id ▸ hid⟩
  have hin : ∀ a ∈ t.sessions, ∃ x ∈ (t'.saveSession o.session).sessions, x.id = a.id ∧
      (a.ended_at ≠ none → x.ended_at ≠ none) := by
    intro a ha
    refine ⟨_, Table.mem_modify.mpr ⟨a, hsessions ▸ ha, rfl⟩, ?_⟩
    split
    · next hid =>
      obtain rfl := h.eq hc ha (hk.id.symm.trans hid.symm)
      exact ⟨hk.id, hk.ended⟩
    · exact ⟨rfl, fun he => he⟩
  have hmeml : ∀ i ∈ l, i.session_id = c.id := fun i hi => (hv.ok.session i hi).trans hk.id
  have hold : ∀ i ∈ l, ∀ k ∈ t.connectors, k.id = c.connector_id →
      ∃ u ∈ k.last_status_notification_at, i.started_at ≤ u := by
    intro i hi k hkm hkid
    rcases hv.started i hi with hs | ⟨j, hj, hs⟩
    · exact ⟨i.started_at, hlatest _ hs.symm k hkm hkid, le_rfl⟩
    · have hj' := List.mem_filter.mp hj
      exact hs ▸ h.stamps j hj'.1 c hc (of_decide_eq_true hj'.2).symm k hkm hkid
  constructor
  · have hids : (t'.saveSession o.session).sessions.map (·.id) = t.sessions.map (·.id) := by
      change (Table.modify _ _ _ t'.sessions).map _ = _
      rw [hsessions, Table.map_key_modify fun _ _ _ => rfl]
    have hp : (t.sessions.map (·.id)).Pairwise (· < ·) := List.pairwise_map.mpr h.sessions
    rw [← hids] at hp
    exact List.pairwise_map.mp hp
  · intro x hx
    change x.id < t'.session_seq
    rw [hseq]
    rcases hsave x hx with rfl | ⟨hx, -⟩
    · exact hk.id ▸ h.fresh c hc
    · exact h.fresh x hx
  · exact hkeyed
  · exact hfresh
  · exact hconnectors ▸ h.connectors
  · intro m hm
    obtain ⟨a, ha, hid⟩ := h.sampled m (hsamples ▸ hm)
    obtain ⟨x, hx, hxid, -⟩ := hin a ha
    exact ⟨x, hx, hxid.trans hid⟩
  · intro i hi
    have howner : ∃ a ∈ t.sessions, a.id = i.session_id := by
      rcases hmem i hi with hi | hi
      · exact h.occupied i hi
      · exact ⟨c, hc, (hmeml i hi).symm⟩
    obtain ⟨a, ha, hid⟩ := howner
    obtain ⟨x, hx, hxid, -⟩ := hin a ha
    exact ⟨x, hx, hxid.trans hid⟩
  · intro i hi
    obtain ⟨a, ha, hid, he⟩ := h.billed i (hinvoices ▸ hi)
    obtain ⟨x, hx, hxid, hxe⟩ := hin a ha
    exact ⟨x, hx, hxid.trans hid, hxe he⟩
  · intro i hi x hx hid k hkm hkid
    change k ∈ t'.connectors at hkm
    rw [hconnectors] at hkm
    have hi' : i ∈ t'.intervalsOf i.session_id := List.mem_filter.mpr ⟨hi, decide_eq_true rfl⟩
    rcases hsave x hx with rfl | ⟨hxm, hne⟩
    · rw [hid.symm, hk.id, hown] at hi'
      exact hold i hi' k hkm (hkid.trans hk.connector)
    · rw [← hid, hother x.id hne] at hi'
      have hi'' := List.mem_filter.mp hi'
      exact h.stamps i hi''.1 x hxm hid k hkm hkid
  · intro x hx hver
    change IntervalsOk x (t'.intervalsOf x.id)
    rcases hsave x hx with rfl | ⟨hxm, hne⟩
    · rw [hk.id, hown]
      exact hv.ok
    · rw [hother x.id hne]
      exact h.occupation x hxm hver
  · intro x hx
    have hs : (t'.saveSession o.session).samplesOf x.id = t.samplesOf x.id := by
      unfold Core.samplesOf Core.saveSession
      rw [hsamples]
    rw [hs]
    rcases hsave x hx with rfl | ⟨hxm, hne⟩
    · rw [hk.id]
      exact (h.series c hc).congr hk.id hk.started hk.startWh hk.regression
    · exact h.series x hxm
  · intro m hm
    exact h.numeric m (hsamples ▸ hm)
  · intro x hx
    rcases hsave x hx with rfl | ⟨hxm, -⟩
    · exact hk.metered (h.metered c hc)
    · exact h.metered x hxm

/-! ## 4. The stop -/

/-- What a stop leaves as it was. -/
theorem finishStop_get {α : Type} (f : Session → α)
    (hf : ∀ (c : Session) reasons abnormal energy, f { c with
      review_reasons := reasons, abnormal_since := abnormal, energy_kwh := energy } = f c)
    (payload : StopPayload) (latest : Option ℚ) (c : Session) : f (finishStop payload latest c) = f c := by
  have hreview : ∀ (c : Session) reason, f (review reason c) = f c := fun c reason => by
    rw [review_eq]
    exact hf c _ c.abnormal_since c.energy_kwh
  have hif : ∀ (b : Prop) [Decidable b] (c : Session) reason, f (reviewIf b reason c) = f c := by
    intro b _ c reason
    unfold reviewIf
    split
    · exact hreview c reason
    · rfl
  have henergy : ∀ c : Session, f (stopEnergy payload c) = f c := by
    intro c
    unfold stopEnergy
    split
    · exact (hf (review "stop_meter_below_start" c) _ _ none).trans (hreview c _)
    split
    · exact hf c _ _ _
    · rfl
  unfold finishStop
  rw [henergy, hif, withoutReasons]
  refine (hf (reviewIf _ _ c) _ none _).trans (hif _ c _)

/-- A stop removes the reasons it settles, and no others. -/
theorem finishStop_reasons (payload : StopPayload) (latest : Option ℚ) {c : Session} {r : String}
    (hr : r ∈ c.review_reasons) : r ∈ (finishStop payload latest c).review_reasons ∨ r ∈ SETTLED_BY_STOP := by
  have hif : ∀ (b : Prop) [Decidable b] (c : Session) reason, r ∈ c.review_reasons →
      r ∈ (reviewIf b reason c).review_reasons := by
    intro b _ c reason hr
    unfold reviewIf
    split
    · exact mem_review.mpr (.inl hr)
    · exact hr
  have henergy : ∀ c : Session, r ∈ c.review_reasons → r ∈ (stopEnergy payload c).review_reasons := by
    intro c hr
    unfold stopEnergy
    split
    · exact mem_review.mpr (.inl hr)
    split <;> exact hr
  by_cases hs : r ∈ SETTLED_BY_STOP
  · exact .inr hs
  · refine .inl (henergy _ (hif _ _ _ (List.mem_filter.mpr ⟨?_, decide_eq_true hs⟩)))
    exact hif _ _ _ hr

theorem numeric_counter (n : Counter) : Numeric n.val :=
  ⟨n.val * 10 ^ 6, by push_cast; rfl, abs_lt.mpr (by have := n.property; constructor <;> omega)⟩

theorem Kept.of_stop {payload : StopPayload} {latest : Option ℚ} (h : Reviewed (withStop payload c) c') :
    Kept c (finishStop payload latest c') := by
  have hget : ∀ {α : Type} (f : Session → α) (hf : ∀ (c : Session) reasons abnormal energy, f { c with
      review_reasons := reasons, abnormal_since := abnormal, energy_kwh := energy } = f c),
      f (finishStop payload latest c') = f (withStop payload c) := by
    intro α f hf
    rw [finishStop_get f hf]
    exact h.get f fun c reasons => hf c reasons c.abnormal_since c.energy_kwh
  refine ⟨hget (·.id) fun _ _ _ _ => rfl, hget (·.connector_id) fun _ _ _ _ => rfl,
    hget (·.started_at) fun _ _ _ _ => rfl, hget (·.startWh) fun _ _ _ _ => rfl,
    hget (·.billing_lifecycle_version) fun _ _ _ _ => rfl, fun _ => ?_, fun hr => ?_, fun hm => ⟨?_, ?_⟩⟩
  · rw [hget (·.ended_at) fun _ _ _ _ => rfl]
    nofun
  · exact (finishStop_reasons payload latest (h.reasons hr)).resolve_right (by decide)
  · rw [hget (·.meter_start_wh) fun _ _ _ _ => rfl]
    exact hm.start
  · rw [hget (·.meter_stop_wh) fun _ _ _ _ => rfl]
    intro v hv
    cases hv
    exact numeric_counter payload.meterStop

/-! ## 5. New sessions and samples -/

theorem insert_ok (h : CoreOk t) (hfresh : Fresh c) (hid : c.id = t.session_seq) :
    CoreOk { t with sessions := t.sessions ++ [c], session_seq := t.session_seq + 1 } := by
  have hnew : ∀ {n : ℕ}, (∃ a ∈ t.sessions, a.id = n) → n ≠ c.id := by
    rintro n ⟨a, ha, rfl⟩
    exact (hid ▸ h.fresh a ha).ne
  have hintervals : t.intervalsOf c.id = [] :=
    List.filter_eq_nil_iff.mpr fun i hi => by simpa using hnew (h.occupied i hi)
  have hsamples : t.samplesOf c.id = [] :=
    List.filter_eq_nil_iff.mpr fun m hm => by simpa using hnew (h.sampled m hm)
  constructor
  · refine List.pairwise_append.mpr ⟨h.sessions, List.pairwise_singleton _ _, fun a ha b hb => ?_⟩
    rw [List.mem_singleton.mp hb, hid]
    exact h.fresh a ha
  · intro a ha
    change a.id < t.session_seq + 1
    rcases List.mem_append.mp ha with ha | ha
    · exact (h.fresh a ha).trans (Nat.lt_succ_self _)
    · rw [List.mem_singleton.mp ha, hid]
      exact Nat.lt_succ_self _
  · exact h.intervals
  · exact h.intervals_fresh
  · exact h.connectors
  · intro m hm
    obtain ⟨a, ha, hid⟩ := h.sampled m hm
    exact ⟨a, List.mem_append_left _ ha, hid⟩
  · intro i hi
    obtain ⟨a, ha, hid⟩ := h.occupied i hi
    exact ⟨a, List.mem_append_left _ ha, hid⟩
  · intro i hi
    obtain ⟨a, ha, hid⟩ := h.billed i hi
    exact ⟨a, List.mem_append_left _ ha, hid⟩
  · intro i hi a ha haid
    rcases List.mem_append.mp ha with ha | ha
    · exact h.stamps i hi a ha haid
    · rw [List.mem_singleton.mp ha] at haid
      exact absurd haid.symm (hnew (h.occupied i hi))
  · intro a ha hv
    rcases List.mem_append.mp ha with ha | ha
    · exact h.occupation a ha hv
    · rw [List.mem_singleton.mp ha]
      change IntervalsOk c (t.intervalsOf c.id)
      rw [hintervals]
      exact .nil (by rw [hfresh.unreleased]; nofun)
  · intro a ha
    rcases List.mem_append.mp ha with ha | ha
    · exact h.series a ha
    · rw [List.mem_singleton.mp ha]
      change SeriesOk c (t.samplesOf c.id)
      rw [hsamples]
      exact ⟨nofun, .nil, nofun, fun _ _ _ _ hp => absurd hp List.not_mem_nil,
        fun _ _ hp => absurd hp List.not_mem_nil⟩
  · exact h.numeric
  · intro a ha
    rcases List.mem_append.mp ha with ha | ha
    · exact h.metered a ha
    · exact List.mem_singleton.mp ha ▸ hfresh.metered

/-- The samples of a report are added, after its session was written. -/
theorem stored_ok (hsave : CoreOk (t.saveSession c')) (hc : c ∈ t.sessions) (hid : c'.id = c.id)
    {rows : List MeterSample} (hs : SeriesOk c' (t.samplesOf c.id ++ rows))
    (hnum : ∀ m ∈ rows, ∀ v ∈ m.value, Numeric v) (seq : ℕ) :
    CoreOk { t.saveSession c' with samples := t.samples ++ numbered seq rows } := by
  have hmem : c' ∈ (t.saveSession c').sessions :=
    Table.mem_modify.mpr ⟨c, hc, by rw [if_pos hid.symm]⟩
  have hrows : ∀ m ∈ numbered seq rows, m.session_id = c'.id := by
    intro m hm
    obtain ⟨r, hr, _, rfl⟩ := mem_numbered hm
    exact hs.session r (List.mem_append_right _ hr)
  refine addSamples_ok hsave hmem hrows (fun m hm => ?_) ?_
  · obtain ⟨r, hr, _, rfl⟩ := mem_numbered hm
    exact hnum r hr
  rw [hid]
  exact hs.numbered seq

/-- A status newer than all before it. -/
theorem status_view (h : CoreOk t) (hc : c ∈ t.sessions) (version : c.billing_lifecycle_version ≠ 0)
    (unreleased : c.connector_released_at = none) {stamp : ℤ}
    (latest : ∃ k ∈ t.connectors, k.id = c.connector_id ∧ k.last_status_notification_at = some stamp)
    (status : OcppStatus) (events : List EventAction) :
    ∃ l, View t.interval_seq (some stamp) c (t.intervalsOf c.id) (noteStamped t.interval_seq status stamp
      ⟨c, (t.intervalsOf c.id).getLast?, events⟩) l := by
  obtain ⟨k, hk, hkid, hlast⟩ := latest
  have hstart : ∀ i ∈ t.intervalsOf c.id, i.started_at ≤ stamp := by
    intro i hi
    obtain ⟨hi, hid⟩ := List.mem_filter.mp hi
    obtain ⟨l, hl, hle⟩ := h.stamps i hi c hc (of_decide_eq_true hid).symm k hk hkid
    rw [hlast] at hl
    cases hl
    exact hle
  exact noteStamped_view (.start (h.occupation c hc version) events) unreleased hstart status

end InvariantLemmas

open InvariantLemmas

/-! ## 6. Moves -/

variable {A : Permits} {Z : Billing.Station → Prop} {now : ℤ} {t t' : Core}

theorem Move.ok (h : CoreOk t) (hm : Move A Z now t t') : CoreOk t' := by
  cases hm with
  | seqs n m hn hm =>
    exact { h with
      fresh := fun c hc => (h.fresh c hc).trans_le hn
      intervals_fresh := fun i hi => (h.intervals_fresh i hi).trans_le hm }
  | sessions f evolve =>
    refine map_ok h (fun c hc => .of_evolve (evolve c hc)) fun c hc _ hi => ?_
    have he := evolve c hc
    exact hi.congr he.id (he.get (·.connector_released_at) fun _ _ _ _ _ _ _ _ _ _ _ _ => rfl)
      (he.get (·.started_at) fun _ _ _ _ _ _ _ _ _ _ _ _ => rfl)
  | insert c fresh id => exact insert_ok h fresh id
  | store seq c c' rows blocks backfill mem takes stored numeric =>
    have hr := (storeSamples_frame stored).1
    have hsave := saveSession_ok h mem (.of_reviewed hr) fun _ hi =>
      hi.congr (hr.get (·.id) fun _ _ => rfl) (hr.get (·.connector_released_at) fun _ _ => rfl)
        (hr.get (·.started_at) fun _ _ => rfl)
    exact stored_ok hsave mem (hr.get (·.id) fun _ _ => rfl)
      ((storeSamples_spec (h.series c mem) stored).2) numeric seq
  | stop seq payload c c' rows backfill latest mem opened stored numeric =>
    have hr := (storeSamples_frame stored).1
    have hk : Kept c (finishStop payload latest c') := .of_stop hr
    have hseries : SeriesOk (withStop payload c) (t.samplesOf c.id) := (h.series c mem).congr rfl rfl rfl fun h => h
    have hnew := (storeSamples_spec hseries stored).2
    have hstopped : SeriesOk (finishStop payload latest c') (t.samplesOf c.id ++ rows) :=
      hnew.congr (finishStop_get (·.id) (fun _ _ _ _ => rfl) payload latest c')
        (finishStop_get (·.started_at) (fun _ _ _ _ => rfl) payload latest c')
        (finishStop_get (·.startWh) (fun _ _ _ _ => rfl) payload latest c')
        fun hreg => (finishStop_reasons payload latest hreg).resolve_right (by decide)
    have hreleased : (finishStop payload latest c').connector_released_at = c.connector_released_at := by
      rw [finishStop_get (·.connector_released_at) (fun _ _ _ _ => rfl)]
      exact hr.get (·.connector_released_at) fun _ _ => rfl
    have hsave := saveSession_ok h mem hk fun _ hi => hi.congr hk.id hreleased hk.started
    exact stored_ok hsave mem hk.id hstopped numeric seq
  | status status stamp c events mem version unbilled unreleased since latest =>
    obtain ⟨l, hv⟩ := status_view h mem version unreleased latest status events
    obtain ⟨k, hk, hkid, hlast⟩ := latest
    refine flush_ok h mem hv fun at_ hat k' hk' hkid' => ?_
    cases hat
    rw [h.connectors.eq hk' hk (hkid'.trans hkid.symm)]
    exact hlast
  | stopped c ended_at mem version unbilled ended =>
    have hview : View t.interval_seq none c (t.intervalsOf c.id)
        ⟨c, (t.intervalsOf c.id).getLast?, []⟩ (t.intervalsOf c.id) := .start (h.occupation c mem version) []
    obtain ⟨l, hv⟩ := stopped_view hview ended_at
    exact flush_ok h mem hv nofun
  | connectors ks keyed later =>
    refine { h with connectors := keyed, stamps := fun i hi c hc hid k hk hkid => ?_ }
    rcases later k hk with ⟨k₀, hk₀, hk₀id, hle⟩ | hnew
    · obtain ⟨l, hl, hil⟩ := h.stamps i hi c hc hid k₀ hk₀ (hk₀id.trans hkid)
      obtain ⟨l', hl', hll⟩ := hle l hl
      exact ⟨l', hl', hil.trans hll⟩
    · exact absurd hkid.symm (hnew c hc)
  | invoice tables new_id c stop row b mem clean ended unbilled released samples intervals stations created =>
    obtain ⟨k, hrow, -, rfl⟩ := wp_ok (Billing._create_invoice_ok tables new_id now _ stop _) created
    refine { h with billed := fun i hi => ?_ }
    rcases List.mem_append.mp hi with hi | hi
    · exact h.billed i hi
    · rw [List.mem_singleton.mp hi, hrow]
      exact ⟨c, mem, rfl, by rw [ended]; nofun⟩
  | tariffs stations op => exact { h with }
  | wallet w change => exact { h with }
  | settle c i w mem clean billed session unsettled paid =>
    set c' : Session := { c with settlement := some (if i.total_vnd = 0 then .zero_invoice else .debited) }
    have hk : Kept c c' := ⟨rfl, rfl, rfl, rfl, rfl, fun h => h, fun h => h, fun hm => ⟨hm.start, hm.stop⟩⟩
    have hsave := saveSession_ok h mem hk fun _ hi => hi.congr rfl rfl rfl
    exact { hsave with }

theorem Moves.ok (h : CoreOk t) (hm : Moves A Z now t t') : CoreOk t' := by
  induction hm with
  | refl => exact h
  | tail _ hstep ih => exact hstep.ok ih

end Csms.Charging
