import Csms.Alerts.Service
import Csms.Lib.Outcome

/-!
# When alerts rearm (`alerts/service.py`)

A rule is armed again only by a scan that finds its charger recovered, and an alert is opened only under an
armed rule. Quiet and the count of errors both take in the start of the window, so a charger whose errors lie
exactly there is recovered and triggers at once.

Result: `rearms_after_recovery_iff`.
-/

namespace Csms.Alerts

open Outcome

/-! ## 1. The property -/

/-- The scan `s` looks at the charger `c`. -/
def Observed (settings : AlertSettings) (s : AlertDb × Event) (c : Uuid) (o : Observation) : Prop :=
  ∃ now uuid4, s.2 = .scan true now uuid4 ∧ ∃ p ∈ s.1.world.scanned, p.id = c ∧ o = observe settings now s.1 p

/-- The alerts of a charger. -/
def AlertDb.opened (db : AlertDb) (c : Uuid) : ℕ := db.alerts.countP (·.charge_point_id = c)

/-- The active alerts of a charger. -/
def AlertDb.activeCount (db : AlertDb) (c : Uuid) : ℕ :=
  db.alerts.countP fun a => a.charge_point_id = c ∧ a.status.active = true

/-- The step opens an alert of the charger. -/
def Opens (settings : AlertSettings) (s : AlertDb × Event) (c : Uuid) : Prop :=
  s.1.opened c < (step settings s.1 s.2).opened c

/-- One active alert at most, no charger recovered and triggering at once, and between two openings a scan that
found the charger recovered and did not trigger. -/
structure RearmsAfterRecovery (settings : AlertSettings) (run : List (AlertDb × Event)) : Prop where
  single : ∀ s ∈ run, ∀ c, s.1.activeCount c ≤ 1 ∧ (step settings s.1 s.2).activeCount c ≤ 1
  exclusive : ∀ s ∈ run, ∀ c o, Observed settings s c o → ¬ (o.recovered = true ∧ o.trigger = true)
  between : ∀ c l₁ s l₂ t l₃, run = l₁ ++ s :: (l₂ ++ t :: l₃) → Opens settings s c → Opens settings t c →
    ∃ u ∈ l₂, ∃ o, Observed settings u c o ∧ o.recovered = true ∧ o.trigger = false

/-- The charger is live since two heartbeat intervals and this is its second contact at least. -/
def Steady (now : ℤ) (db : AlertDb) (p : ChargePoint) : Prop :=
  live p now = true ∧ ∃ state since, db.states p.id = some state ∧ state.online_since = some since ∧
    p.heartbeats ≤ now - since ∧
    2 ≤ state.recovery_observations + if state.recovery_last_seen = p.last_seen_at then 0 else 1

/-- No error lies inside the window, and enough of them to trigger exactly at its start. -/
def ErrorsAtEdge (settings : AlertSettings) (now : ℤ) (db : AlertDb) (p : ChargePoint) : Prop :=
  (∀ t ∈ db.world.errorTimes false p.id now, t ≤ settings.windowStart now) ∧
    settings.alert_error_threshold ≤ (db.world.errorTimes false p.id now).count (settings.windowStart now)

/-- The scan finds a steady charger with its errors at the start of the window. -/
def AtEdge (settings : AlertSettings) (s : AlertDb × Event) : Prop :=
  ∃ now uuid4, s.2 = .scan true now uuid4 ∧
    ∃ p ∈ s.1.world.scanned, Steady now s.1 p ∧ ErrorsAtEdge settings now s.1 p

namespace RearmingLemmas

variable {settings : AlertSettings} {now : ℤ} {before db db' : AlertDb} {p : ChargePoint} {c : Uuid}

/-! ## 2. One observation -/

theorem heartbeats_pos (p : ChargePoint) : 0 < p.heartbeats := by
  have : (0 : ℤ) < p.heartbeat_interval_seconds := by exact_mod_cast p.heartbeat_positive
  unfold ChargePoint.heartbeats SECOND
  positivity

/-- The maximum of a list is at most a bound if each element is. -/
theorem max?_all {l : List ℤ} {b : ℤ} : l.max?.all (· ≤ b) = true ↔ ∀ t ∈ l, t ≤ b := by
  cases h : l.max? with
  | none => simp [List.max?_eq_none_iff.mp h]
  | some m =>
    rw [Option.all_some, decide_eq_true_iff]
    exact List.max?_le_iff h

/-- Errors of which none lies inside the window are counted if they lie at its start. -/
theorem countP_of_le {l : List ℤ} {b : ℤ} (h : ∀ t ∈ l, t ≤ b) : l.countP (b ≤ ·) = l.count b := by
  rw [List.count]
  refine List.countP_congr fun t ht => ?_
  simp only [decide_eq_true_eq, beq_iff_eq]
  exact ⟨fun hb => le_antisymm (h t ht) hb, fun heq => heq.ge⟩

/-- The contact makes the charger steady. -/
theorem steady_iff : Steady now before p ↔ live p now = true ∧
    ((noteContact now p ((before.states p.id).getD .initial)).online_since.any
      fun since => p.heartbeats ≤ now - since) = true ∧
    2 ≤ (noteContact now p ((before.states p.id).getD .initial)).recovery_observations := by
  have hpos := heartbeats_pos p
  unfold Steady
  refine and_congr_right fun hlive => ?_
  unfold noteContact
  rw [if_pos hlive]
  cases hstate : before.states p.id with
  | none =>
    have hlate : ¬ p.heartbeats ≤ 0 := by omega
    simp only [Option.getD_none, AlertRuleState.initial, if_true]
    split <;> simp [hlate]
  | some state =>
    simp only [Option.getD_some]
    cases hsince : state.online_since with
    | none =>
      have hlate : ¬ p.heartbeats ≤ 0 := by omega
      simp only [if_true]
      split <;> simp [hsince, hlate]
    | some since =>
      simp only [reduceCtorEq, if_false]
      by_cases hseen : state.recovery_last_seen = p.last_seen_at <;> simp [hseen, hsince]

/-- A charger is recovered and triggers exactly at the edge. -/
theorem both_iff : ((observe settings now before p).recovered = true ∧ (observe settings now before p).trigger = true) ↔
    Steady now before p ∧ ErrorsAtEdge settings now before p := by
  rw [steady_iff]
  simp only [observe, Bool.and_eq_true, Bool.or_eq_true, max?_all, Bool.not_eq_true', decide_eq_true_eq]
  unfold ErrorsAtEdge
  constructor
  · rintro ⟨⟨⟨⟨hlive, hsince⟩, hobs⟩, hquiet⟩, (⟨hoff, -⟩ | hcount)⟩
    · rw [hlive] at hoff
      cases hoff
    · exact ⟨⟨hlive, hsince, hobs⟩, hquiet, countP_of_le hquiet ▸ hcount⟩
  · rintro ⟨⟨hlive, hsince, hobs⟩, hquiet, hcount⟩
    exact ⟨⟨⟨⟨hlive, hsince⟩, hobs⟩, hquiet⟩, .inr (countP_of_le hquiet ▸ hcount)⟩

/-! ## 3. One turn of the loop -/

/-- Whether the rule of a charger is armed; one that has none is. -/
def Armed (db : AlertDb) (c : Uuid) : Prop := ∀ state, db.states c = some state → state.armed = true

/-- The rule after an observation. -/
def nextRule (settings : AlertSettings) (now : ℤ) (before : AlertDb) (p : ChargePoint) : AlertRuleState :=
  let o := observe settings now before p
  { o.state with armed := (o.recovered || o.state.armed) && !o.trigger }

/-- What a turn does to the alerts: one is marked, one is opened, or none is touched. -/
inductive Turn (settings : AlertSettings) (now : ℤ) (before : AlertDb) (p : ChargePoint)
    (alerts : List OperationalAlert) : List OperationalAlert → Prop
  | marked (k : Uuid) (o : Observation) :
    Turn settings now before p alerts (Table.modify (·.id) k (markRecovery now o) alerts)
  | opened (id : Uuid) (fresh : ∀ a ∈ alerts, a.id ≠ id) (trigger : (observe settings now before p).trigger = true)
    (armed : (observe settings now before p).recovered = true ∨ (observe settings now before p).state.armed = true)
    (free : ∀ a ∈ alerts, a.charge_point_id = p.id → a.status.active = false) :
    Turn settings now before p alerts (alerts ++ [newAlert settings id now p (observe settings now before p)])
  | same : Turn settings now before p alerts alerts

theorem active_isNone (h : ¬ (db.active c).isSome = true) :
    ∀ a ∈ db.alerts, a.charge_point_id = c → a.status.active = false := by
  intro a ha hc
  have hnone : db.active c = none := by simpa using h
  have := List.find?_eq_none.mp hnone a ha
  simpa [hc] using this

theorem scanPoint_spec {uuid4 : Uuid → Uuid} {n n' : ℕ}
    (h : scanPoint settings uuid4 now before (db, n) p = .ok (db', n')) :
    db'.world = db.world ∧ db'.states = Function.update db.states p.id (some (nextRule settings now before p)) ∧
      Turn settings now before p db.alerts db'.alerts := by
  unfold scanPoint at h
  dsimp only at h
  split at h
  · cases h
    exact ⟨rfl, rfl, .marked _ _⟩
  · split at h
    · next hopen =>
      obtain ⟨htrigger, harmed⟩ := Bool.and_eq_true_iff.mp hopen
      obtain ⟨added, hadd, h⟩ := bind_eq_ok.mp h
      unfold addAlert at hadd
      split at hadd
      · cases hadd
      split at hadd
      · cases hadd
      next hfresh hfree =>
      cases hadd
      cases h
      refine ⟨rfl, rfl, .opened _ (fun a ha heq => hfresh ⟨a, ha, heq⟩) htrigger ?_ (active_isNone hfree)⟩
      exact Bool.or_eq_true_iff.mp harmed
    · cases h
      exact ⟨rfl, rfl, .same⟩

section Turn

variable {alerts alerts' : List OperationalAlert}

theorem countP_modify {q : OperationalAlert → Bool} {k : Uuid} {f : OperationalAlert → OperationalAlert}
    (h : ∀ a ∈ alerts, a.id = k → q (f a) = true → q a = true) :
    (Table.modify (·.id) k f alerts).countP q ≤ alerts.countP q := by
  unfold Table.modify
  rw [List.countP_map]
  refine List.countP_mono_left fun a ha hq => ?_
  rw [Function.comp_apply] at hq
  split at hq
  · next hk => exact h a ha hk hq
  · exact hq

/-- A turn opens an alert of its own charger only, if it triggers under an armed rule. -/
theorem turn_opened (h : Turn settings now before p alerts alerts')
    (hlt : alerts.countP (·.charge_point_id = c) < alerts'.countP (·.charge_point_id = c)) :
    p.id = c ∧ (observe settings now before p).trigger = true ∧
      ((observe settings now before p).recovered = true ∨ (observe settings now before p).state.armed = true) := by
  cases h with
  | marked k o => exact absurd hlt (not_lt.mpr (countP_modify fun a _ _ hq => hq))
  | opened id fresh trigger armed free =>
    by_cases hc : p.id = c
    · exact ⟨hc, trigger, armed⟩
    · simp [newAlert, hc] at hlt
  | same => exact absurd hlt (lt_irrefl _)

/-- A turn leaves one active alert of a charger at most. -/
theorem turn_single (h : Turn settings now before p alerts alerts')
    (hone : alerts.countP (fun a => a.charge_point_id = c ∧ a.status.active = true) ≤ 1) :
    alerts'.countP (fun a => a.charge_point_id = c ∧ a.status.active = true) ≤ 1 := by
  cases h with
  | marked k o =>
    have hle := @countP_modify alerts (fun a => a.charge_point_id = c ∧ a.status.active = true) k
      (markRecovery now o) fun _ _ _ hq => hq
    exact hle.trans hone
  | opened id fresh trigger armed free =>
    rw [List.countP_append]
    by_cases hc : p.id = c
    · have hzero : alerts.countP (fun a => a.charge_point_id = c ∧ a.status.active = true) = 0 := by
        rw [List.countP_eq_zero]
        intro a ha hq
        obtain ⟨hac, hactive⟩ := of_decide_eq_true hq
        rw [free a ha (hac.trans hc.symm)] at hactive
        cases hactive
      rw [hzero, zero_add]
      exact List.countP_le_length
    · have hnone : [newAlert settings id now p (observe settings now before p)].countP
          (fun a => a.charge_point_id = c ∧ a.status.active = true) = 0 := by
        simp [newAlert, hc]
      rwa [hnone, add_zero]
  | same => exact hone

theorem turn_keyed (h : Turn settings now before p alerts alerts') (hkeyed : Table.Keyed (·.id) alerts) :
    Table.Keyed (·.id) alerts' := by
  cases h with
  | marked k o => exact hkeyed.modify fun _ hr => hr
  | opened id fresh trigger armed free => exact hkeyed.append fresh
  | same => exact hkeyed

end Turn

/-! ## 4. One scan -/

section Loop

variable {uuid4 : Uuid → Uuid} {l : List ChargePoint} {acc r : AlertDb × ℕ}

/-- Each charger of the loop has the rule its turn has left. -/
theorem loop_states : ∀ {l : List ChargePoint} {acc r : AlertDb × ℕ}, (l.map (·.id)).Nodup →
    l.foldlM (scanPoint settings uuid4 now before) acc = .ok r →
      (∀ p ∈ l, r.1.states p.id = some (nextRule settings now before p)) ∧
      ∀ c, (∀ p ∈ l, p.id ≠ c) → r.1.states c = acc.1.states c
  | [], acc, r, _, h => by
    cases h
    exact ⟨fun p hp => (by cases hp), fun _ _ => rfl⟩
  | p :: l, acc, r, hnodup, h => by
    obtain ⟨hp, hl⟩ := List.nodup_cons.mp hnodup
    rw [List.foldlM_cons] at h
    obtain ⟨mid, hmid, h⟩ := bind_eq_ok.mp h
    obtain ⟨-, hstates, -⟩ := scanPoint_spec hmid
    have htail := loop_states hl h
    obtain ⟨hin, hout⟩ := htail
    constructor
    · intro q hq
      rcases List.mem_cons.mp hq with rfl | hq
      · have hne : ∀ x ∈ l, x.id ≠ q.id := fun x hx heq => hp (List.mem_map.mpr ⟨x, hx, heq⟩)
        rw [hout q.id hne, hstates, Function.update_self]
      · exact hin q hq
    · intro c hc
      have hne : c ≠ p.id := (hc p List.mem_cons_self).symm
      rw [hout c fun x hx => hc x (List.mem_cons_of_mem _ hx), hstates, Function.update_of_ne hne]

theorem loop_keyed (h : l.foldlM (scanPoint settings uuid4 now before) acc = .ok r)
    (hkeyed : Table.Keyed (·.id) acc.1.alerts) : Table.Keyed (·.id) r.1.alerts :=
  foldlM_invariant (fun a : AlertDb × ℕ => Table.Keyed (·.id) a.1.alerts)
    (fun _ _ _ _ ha hturn => turn_keyed (scanPoint_spec hturn).2.2 ha) hkeyed h

theorem loop_single (h : l.foldlM (scanPoint settings uuid4 now before) acc = .ok r)
    (hone : acc.1.activeCount c ≤ 1) : r.1.activeCount c ≤ 1 :=
  foldlM_invariant (fun a : AlertDb × ℕ => a.1.activeCount c ≤ 1)
    (fun _ _ _ _ ha hturn => turn_single (scanPoint_spec hturn).2.2 ha) hone h

theorem loop_opened (h : l.foldlM (scanPoint settings uuid4 now before) acc = .ok r)
    (hlt : acc.1.opened c < r.1.opened c) : ∃ p ∈ l, p.id = c ∧ (observe settings now before p).trigger = true ∧
      ((observe settings now before p).recovered = true ∨ (observe settings now before p).state.armed = true) := by
  by_contra hno
  refine absurd hlt (not_lt.mpr ?_)
  refine foldlM_invariant (fun a : AlertDb × ℕ => a.1.opened c ≤ acc.1.opened c) (fun p hp a b ha hturn => ?_) le_rfl h
  by_contra hb
  exact hno ⟨p, hp, turn_opened (c := c) (scanPoint_spec hturn).2.2 (ha.trans_lt (not_le.mp hb))⟩

end Loop

/-- The chargers of a scan are distinct. -/
theorem scanned_keyed (w : World) : (w.scanned.map (·.id)).Nodup :=
  w.points_keyed.sublist (List.filter_sublist.map _)

/-- A rule that triggers without recovery was armed and is not any more. -/
theorem nextRule_of_trigger (htrigger : (observe settings now before p).trigger = true) :
    (nextRule settings now before p).armed = false := by
  simp only [nextRule, htrigger, Bool.not_true, Bool.and_false]

/-- A contact does not arm a rule. -/
theorem observe_armed : (observe settings now before p).state.armed = ((before.states p.id).getD .initial).armed := by
  simp only [observe, noteContact]
  split
  · split <;> split <;> rfl
  · rfl

/-- A rule that is armed after a turn was armed before, or is by a recovery without trigger. -/
theorem nextRule_armed (harmed : (nextRule settings now before p).armed = true) :
    (observe settings now before p).trigger = false ∧
      ((observe settings now before p).recovered = true ∨ Armed before p.id) := by
  simp only [nextRule, Bool.and_eq_true, Bool.or_eq_true, Bool.not_eq_true', observe_armed] at harmed
  refine ⟨harmed.2, harmed.1.imp_right fun h state hstate => ?_⟩
  rwa [hstate] at h

/-! ## 5. One transaction -/

/-- The ids of alerts are distinct, and a charger has one active alert at most. -/
structure AlertsOk (db : AlertDb) : Prop where
  keyed : Table.Keyed (·.id) db.alerts
  single : ∀ c, db.activeCount c ≤ 1

/-- A mutation touches the row of one alert: it keeps the charger and reopens nothing. -/
theorem mutate_spec {actor : Actor} {alert_id : Uuid} {action : Action}
    (h : mutate_alert settings now actor alert_id action db = .ok db') :
    db'.states = db.states ∧ (db'.alerts = db.alerts ∨ ∃ alert ∈ db.alerts, ∃ saved : OperationalAlert,
      saved.id = alert.id ∧ saved.charge_point_id = alert.charge_point_id ∧
      (saved.status.active = true → alert.status.active = true) ∧
      db'.alerts = Table.modify (·.id) alert.id (fun _ => saved) db.alerts) := by
  unfold mutate_alert at h
  split at h
  · cases h
  next alert hvisible =>
  have hmem : alert ∈ db.alerts := List.mem_of_find?_eq_some hvisible
  split at h
  · split at h
    · cases h
    next hopen =>
    split at h
    · cases h
      exact ⟨rfl, .inl rfl⟩
    · cases h
      refine ⟨rfl, .inr ⟨alert, hmem, { alert with
        status := .acknowledged, acknowledged_at := some now, acknowledged_by := some actor.actor_id },
        rfl, rfl, fun _ => ?_, rfl⟩⟩
      cases hstatus : alert.status with
      | closed => exact absurd hstatus hopen
      | open_ => rfl
      | acknowledged => rfl
  · next force reason =>
    split at h
    · cases h
    split at h
    · cases h
    split at h
    · cases h
      exact ⟨rfl, .inl rfl⟩
    split at h
    · cases h
    split at h
    · cases h
    · cases h
      refine ⟨rfl, .inr ⟨alert, hmem, { alert with
        status := .closed, closed_at := some now, closed_by := some actor.actor_id
        close_reason := some (if Text.strip reason = "" then "recovered" else Text.strip reason) },
        rfl, rfl, fun hclosed => ?_, rfl⟩⟩
      cases hclosed
  · split at h
    · cases h
    dsimp only at h
    split at h
    · cases h
      exact ⟨rfl, .inl rfl⟩
    split at h <;> cases h <;> exact ⟨rfl, .inl rfl⟩

/-- In a table of distinct ids a mutation adds to no count that a row keeps. -/
theorem countP_mutated {q : OperationalAlert → Bool} {alerts : List OperationalAlert} {alert saved : OperationalAlert}
    (hkeyed : Table.Keyed (·.id) alerts) (hmem : alert ∈ alerts) (hq : q saved = true → q alert = true) :
    (Table.modify (·.id) alert.id (fun _ => saved) alerts).countP q ≤ alerts.countP q := by
  refine countP_modify fun a ha hid hsaved => ?_
  rw [hkeyed.eq ha hmem hid]
  exact hq hsaved

theorem mutate_counts {actor : Actor} {alert_id : Uuid} {action : Action} (hok : AlertsOk db)
    (h : mutate_alert settings now actor alert_id action db = .ok db') :
    AlertsOk db' ∧ ∀ c, db'.opened c ≤ db.opened c := by
  obtain ⟨-, halerts | ⟨alert, hmem, saved, hid, hcharger, hactive, halerts⟩⟩ := mutate_spec h
  · unfold AlertDb.opened
    rw [halerts]
    exact ⟨⟨halerts ▸ hok.keyed, fun c => by unfold AlertDb.activeCount; rw [halerts]; exact hok.single c⟩,
      fun _ => le_rfl⟩
  · have hkeyed : Table.Keyed (·.id) db'.alerts := halerts ▸ hok.keyed.modify fun _ _ => hid
    refine ⟨⟨hkeyed, fun c => ?_⟩, fun c => ?_⟩
    · refine le_trans ?_ (hok.single c)
      unfold AlertDb.activeCount
      rw [halerts]
      refine countP_mutated hok.keyed hmem fun hq => ?_
      simp only [decide_eq_true_eq] at hq ⊢
      exact ⟨hcharger ▸ hq.1, hactive hq.2⟩
    · unfold AlertDb.opened
      rw [halerts]
      refine countP_mutated hok.keyed hmem fun hq => ?_
      simp only [decide_eq_true_eq] at hq ⊢
      exact hcharger ▸ hq

theorem step_ok {e : Event} (hok : AlertsOk db) : AlertsOk (step settings db e) := by
  cases e with
  | scan locked now uuid4 =>
    cases hscan : scan_alerts settings locked uuid4 now db with
    | error err =>
      simp only [step, hscan]
      exact hok
    | ok r =>
      simp only [step, hscan]
      unfold scan_alerts at hscan
      split at hscan
      · exact ⟨loop_keyed hscan hok.keyed, fun c => loop_single hscan (hok.single c)⟩
      · cases hscan
        exact hok
  | mutate now actor alert_id action =>
    cases hmutate : mutate_alert settings now actor alert_id action db with
    | error err =>
      simp only [step, hmutate]
      exact hok
    | ok db' =>
      simp only [step, hmutate]
      exact (mutate_counts hok hmutate).1
  | deliver emails => exact ⟨hok.keyed, hok.single⟩
  | world w => exact ⟨hok.keyed, hok.single⟩

/-- An alert is opened under an armed rule, which it disarms. -/
theorem opens_spec {s : AlertDb × Event} (hok : AlertsOk s.1) (hedge : ¬ AtEdge settings s)
    (h : Opens settings s c) : Armed s.1 c ∧ ¬ Armed (step settings s.1 s.2) c := by
  obtain ⟨db, e⟩ := s
  unfold Opens at h
  dsimp only at *
  cases e with
  | scan locked now uuid4 =>
    cases hscan : scan_alerts settings locked uuid4 now db with
    | error err => exact absurd h (by simp [step, hscan])
    | ok r =>
      simp only [step, hscan] at h ⊢
      unfold scan_alerts at hscan
      split at hscan
      · next hlocked =>
        cases hlocked
        obtain ⟨p, hp, rfl, htrigger, harmed⟩ := loop_opened hscan h
        have hquiet : (observe settings now db p).recovered ≠ true := fun hrecovered =>
          hedge ⟨now, uuid4, rfl, p, hp, both_iff.mp ⟨hrecovered, htrigger⟩⟩
        refine ⟨fun state hstate => ?_, fun hafter => ?_⟩
        · have hbefore := harmed.resolve_left hquiet
          rwa [observe_armed, hstate] at hbefore
        · have hfalse := hafter _ ((loop_states (scanned_keyed db.world) hscan).1 p hp)
          rw [nextRule_of_trigger htrigger] at hfalse
          cases hfalse
      · cases hscan
        exact absurd h (lt_irrefl _)
  | mutate now actor alert_id action =>
    cases hmutate : mutate_alert settings now actor alert_id action db with
    | error err => exact absurd h (by simp [step, hmutate])
    | ok db' =>
      simp only [step, hmutate] at h
      exact absurd h (not_lt.mpr ((mutate_counts hok hmutate).2 c))
  | deliver emails => exact absurd h (lt_irrefl _)
  | world w => exact absurd h (lt_irrefl _)

/-- A rule is armed again by a scan that finds the charger recovered and does not trigger. -/
theorem rearm_spec {s : AlertDb × Event} (hbefore : ¬ Armed s.1 c) (hafter : Armed (step settings s.1 s.2) c) :
    ∃ o, Observed settings s c o ∧ o.recovered = true ∧ o.trigger = false := by
  obtain ⟨db, e⟩ := s
  dsimp only at *
  cases e with
  | scan locked now uuid4 =>
    cases hscan : scan_alerts settings locked uuid4 now db with
    | error err =>
      simp only [step, hscan] at hafter
      exact absurd hafter hbefore
    | ok r =>
      simp only [step, hscan] at hafter
      unfold scan_alerts at hscan
      split at hscan
      · next hlocked =>
        cases hlocked
        obtain ⟨hin, hout⟩ := loop_states (scanned_keyed db.world) hscan
        by_cases hp : ∃ p ∈ db.world.scanned, p.id = c
        · obtain ⟨p, hp, rfl⟩ := hp
          obtain ⟨htrigger, hrecovered⟩ := nextRule_armed (hafter _ (hin p hp))
          exact ⟨_, ⟨now, uuid4, rfl, p, hp, rfl, rfl⟩, hrecovered.resolve_right hbefore, htrigger⟩
        · have hsame := hout c fun p hp' heq => hp ⟨p, hp', heq⟩
          exact absurd (fun state hstate => hafter state (hsame.trans hstate)) hbefore
      · cases hscan
        exact absurd hafter hbefore
  | mutate now actor alert_id action =>
    cases hmutate : mutate_alert settings now actor alert_id action db with
    | error err =>
      simp only [step, hmutate] at hafter
      exact absurd hafter hbefore
    | ok db' =>
      simp only [step, hmutate] at hafter
      exact absurd (fun state hstate => hafter state ((mutate_spec hmutate).1 ▸ hstate)) hbefore
  | deliver emails => exact absurd hafter hbefore
  | world w => exact absurd hafter hbefore

/-! ## 6. Runs -/

theorem trace_ok {db : AlertDb} {events : List Event} (hok : AlertsOk db) :
    ∀ s ∈ trace settings db events, AlertsOk s.1 := by
  induction events generalizing db with
  | nil =>
    intro s hs
    cases hs
  | cons e events ih =>
    intro s hs
    rcases List.mem_cons.mp hs with rfl | hs
    · exact hok
    · exact ih (step_ok hok) s hs

/-- The state before an event is the one after the event before. -/
theorem trace_chain (db : AlertDb) (events : List Event) :
    (trace settings db events).IsChain fun s t => t.1 = step settings s.1 s.2 := by
  induction events generalizing db with
  | nil => exact .nil
  | cons e events ih =>
    cases events with
    | nil => exact .singleton _
    | cons e' events => exact .cons_cons rfl (ih _)

/-- Between two states of a run in which a rule is not armed and then is, a scan rearms it. -/
theorem exists_rearm {t : AlertDb × Event} {l₃ : List (AlertDb × Event)} :
    ∀ {l₂ : List (AlertDb × Event)} {s : AlertDb × Event},
      (s :: (l₂ ++ t :: l₃)).IsChain (fun s t => t.1 = step settings s.1 s.2) →
      ¬ Armed (step settings s.1 s.2) c → Armed t.1 c →
      ∃ u ∈ l₂, ∃ o, Observed settings u c o ∧ o.recovered = true ∧ o.trigger = false
  | [], s, hchain, hs, ht => by
    rw [List.nil_append, List.isChain_cons_cons] at hchain
    exact absurd (hchain.1 ▸ ht) hs
  | u :: l₂, s, hchain, hs, ht => by
    rw [List.cons_append, List.isChain_cons_cons] at hchain
    rw [← hchain.1] at hs
    by_cases hu : Armed (step settings u.1 u.2) c
    · exact ⟨u, List.mem_cons_self, rearm_spec hs hu⟩
    · obtain ⟨v, hv, ho⟩ := exists_rearm hchain.2 hu ht
      exact ⟨v, List.mem_cons_of_mem _ hv, ho⟩

theorem AlertsOk.of_fresh {db : AlertDb} (h : db.Fresh) : AlertsOk db := by
  refine ⟨?_, fun c => ?_⟩
  · rw [h.1]
    exact .nil
  · unfold AlertDb.activeCount
    rw [h.1]
    exact Nat.zero_le _

end RearmingLemmas

open RearmingLemmas

/-- From a fresh database the alerts rearm only after recovery exactly in the runs none of whose scans finds a
charger at the edge. -/
theorem rearms_after_recovery_iff (settings : AlertSettings) {db : AlertDb} (fresh : db.Fresh)
    (events : List Event) : RearmsAfterRecovery settings (trace settings db events) ↔
      ∀ s ∈ trace settings db events, ¬ AtEdge settings s := by
  have hok := @trace_ok settings db events (AlertsOk.of_fresh fresh)
  constructor
  · rintro h s hs ⟨now, uuid4, he, p, hp, hsteady, herrors⟩
    exact h.exclusive s hs p.id _ ⟨now, uuid4, he, p, hp, rfl, rfl⟩ (both_iff.mpr ⟨hsteady, herrors⟩)
  · intro hedge
    refine ⟨fun s hs c => ⟨(hok s hs).single c, (step_ok (hok s hs)).single c⟩, ?_, ?_⟩
    · rintro s hs c o ⟨now, uuid4, he, p, hp, -, rfl⟩ hboth
      exact hedge s hs ⟨now, uuid4, he, p, hp, both_iff.mp hboth⟩
    · intro c l₁ s l₂ t l₃ hrun hs ht
      have hmem : s ∈ trace settings db events ∧ t ∈ trace settings db events := by
        rw [hrun]
        simp
      have hdisarmed := (opens_spec (hok s hmem.1) (hedge s hmem.1) hs).2
      have harmed := (opens_spec (hok t hmem.2) (hedge t hmem.2) ht).1
      have hchain := @trace_chain settings db events
      rw [hrun] at hchain
      exact exists_rearm (List.isChain_append.mp hchain).2.1 hdisarmed harmed

/-! ## 7. Two errors at the start of the window -/

namespace Edge

def point : Uuid := .sample 1
def station : Uuid := .sample 2
def connector : Uuid := .sample 3
def admin : Uuid := .sample 4
def first : Uuid := .sample 5
def second : Uuid := .sample 6

def settings : AlertSettings := ⟨300, 600, 2, le_rfl, [], false, false⟩

/-- The charger, last seen at a second. -/
def charger (seen : ℤ) : ChargePoint :=
  ⟨point, station, true, some (seen * SECOND), some 0, 60, by decide, none, 0⟩

/-- The charger and its connector, which reported two errors at once. -/
def world (seen : ℤ) : World :=
  ⟨[⟨station, .active, none⟩], [charger seen], [⟨connector, point, none⟩],
    [⟨connector, 1500 * SECOND⟩, ⟨connector, 1500 * SECOND⟩], List.nodup_singleton _⟩

def database : AlertDb := ⟨world 1600, fun _ => none, [], [], []⟩

/-- The errors open an alert, which is closed by force, and ten minutes after them comes the third scan. -/
def events : List Event :=
  [.scan true (1600 * SECOND) fun _ => first,
    .mutate (1601 * SECOND) ⟨admin, [.admin]⟩ first (.close true "maintenance"),
    .world (world 1700), .scan true (1700 * SECOND) fun _ => second,
    .world (world 2100), .scan true (2100 * SECOND) fun _ => second]

/-- The state before the third scan. -/
def before : AlertDb := (events.take 5).foldl (step settings) database

end Edge

open Edge in
/-- Before the errors have reached the start of the window no alert is opened twice. -/
theorem rearms_after_recovery_iff_edge : RearmsAfterRecovery settings (trace settings database (events.take 1)) :=
  (rearms_after_recovery_iff settings ⟨rfl, fun _ => rfl⟩ (events.take 1)).mpr fun s hs hedge => by
    obtain rfl : s = (database, .scan true (1600 * SECOND) fun _ => first) := List.mem_singleton.mp hs
    obtain ⟨now, uuid4, he, p, hp, -, hquiet, -⟩ := hedge
    cases he
    obtain rfl : p = charger 1600 := List.mem_singleton.mp (List.mem_filter.mp hp).1
    exact absurd (hquiet (1500 * SECOND) (by decide +kernel)) (by decide +kernel)

open Edge in
/-- The third scan finds the charger recovered, triggers, and opens a second alert. -/
theorem not_rearms_after_recovery : ¬ ∀ (settings : AlertSettings) (db : AlertDb) (events : List Event), db.Fresh →
    (events.filterMap Event.scanTime).Pairwise (· < ·) → RearmsAfterRecovery settings (trace settings db events) := by
  intro hall
  have hrun := hall settings database events ⟨rfl, fun _ => rfl⟩ (by decide)
  have hmem : (before, Event.scan true (2100 * SECOND) fun _ => second) ∈ trace settings database events :=
    List.mem_of_getElem? (i := 5) rfl
  have hp : charger 2100 ∈ before.world.scanned := by decide +kernel
  have hboth : (observe settings (2100 * SECOND) before (charger 2100)).recovered = true ∧
      (observe settings (2100 * SECOND) before (charger 2100)).trigger = true := by decide +kernel
  exact hrun.exclusive _ hmem point _ ⟨_, _, rfl, _, hp, rfl, rfl⟩ hboth

end Csms.Alerts
