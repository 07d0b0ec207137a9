import Csms.Charging.Reasons

/-!
# Invoices over time

Results:
1. `Bills`: what holds of the invoices and the sessions they are for, kept by every move.
2. `invoice_integrity`: the invoices in every reachable state.
-/

namespace Csms.Charging

open Tx Csms.Wallets Csms.Accounts Csms.Pricing
open SystemLemmas InvariantLemmas CallsLemmas ReasonsLemmas
open Csms.Billing (InvoiceRow InvoiceLine InvoiceResult)

/-- A station in a zone of constant offset. -/
def ConstantOffset (station : Billing.Station) : Prop := ∃ c, station.timezone = Zone.fixed c

variable {A : Permits} {now : ℤ} {env : Environment} {s s' : Database} {t t' : Core}

/-! ## 1. The invoices of sound tables -/

/-- The total is the sum of the lines, which satisfy their constraints. -/
structure InvoiceOk (i : InvoiceRow) : Prop where
  total : i.total_vnd = (i.lines.map (·.amount_vnd)).sum
  range : 0 ≤ i.total_vnd ∧ i.total_vnd ≤ 2 ^ 63 - 1
  lines : ∀ line ∈ i.lines, line.started_at < line.ended_at ∧ 0 ≤ line.energy_wh ∧ 0 ≤ line.rate_vnd ∧
    0 ≤ line.amount_vnd ∧ (line.line_type = .idle → line.energy_wh = 0)

/-- The energy lines have all of the energy of the session. -/
def Covers (i : InvoiceRow) (c : Session) : Prop :=
  ∃ a b, c.meter_start_wh = some a ∧ c.meter_stop_wh = some b ∧
    ((i.lines.filter (·.line_type = .energy)).map (·.energy_wh)).sum = b - a

/-- The invoices, each of a session that has ended. -/
structure Bills (t : Core) : Prop where
  once : t.invoices.Pairwise fun a b => a.session_id ≠ b.session_id
  ok : ∀ i ∈ t.invoices, InvoiceOk i
  covers : ∀ i ∈ t.invoices, ∃ c ∈ t.sessions, c.id = i.session_id ∧ c.ended_at ≠ none ∧ Covers i c

namespace InvoicesLemmas

theorem bills_of_empty (h : t.invoices = []) : Bills t :=
  ⟨h ▸ .nil, h ▸ nofun, h ▸ nofun⟩

theorem lines_ok {line : InvoiceLine} (h : Billing.lineViolated line = none) :
    line.started_at < line.ended_at ∧ 0 ≤ line.energy_wh ∧ 0 ≤ line.rate_vnd ∧ 0 ≤ line.amount_vnd ∧
      (line.line_type = .idle → line.energy_wh = 0) := by
  unfold Billing.lineViolated at h
  split at h
  · cases h
  next hinterval =>
  split at h
  · cases h
  next hsign =>
  split at h
  · cases h
  next hidle =>
  rw [not_not] at hinterval hsign
  exact ⟨hinterval, hsign.1, hsign.2.1, hsign.2.2, fun htype => not_not.mp fun hne => hidle ⟨htype, hne⟩⟩

/-- The sessions that invoices are for keep what the invoices were made from. -/
theorem covers_later {i : InvoiceRow} {c c' : Session} (hl : Later c c') (hended : c.ended_at ≠ none)
    (h : Covers i c) : c'.ended_at ≠ none ∧ Covers i c' := by
  obtain ⟨stop, hstop⟩ := Option.ne_none_iff_exists'.mp hended
  obtain ⟨hend, hmeter⟩ := hl.ended stop hstop
  obtain ⟨a, b, ha, hb, hsum⟩ := h
  exact ⟨by rw [hend]; nofun, a, b, hl.startWh.trans ha, hmeter.trans hb, hsum⟩

theorem bills_of_same (h : CoreOk t) (hb : Bills t) {Z : Billing.Station → Prop} (hm : Move A Z now t t')
    (hsame : t'.invoices = t.invoices) : Bills t' where
  once := hsame ▸ hb.once
  ok i hi := hb.ok i (hsame ▸ hi)
  covers i hi := by
    obtain ⟨c, hc, hid, hended, hcov⟩ := hb.covers i (hsame ▸ hi)
    obtain ⟨c', hc', hl⟩ := move_later h hm hc
    obtain ⟨hended', hcov'⟩ := covers_later hl hended hcov
    exact ⟨c', hc', hl.id.trans hid, hended', hcov'⟩

/-- The invoice that is created. -/
theorem created_ok {tables : Billing.StationTables} {new_id : Uuid} {c : Session} {stop : ℤ} {row : InvoiceRow}
    {db : Billing.BillingDb}
    (h : Billing.Created tables new_id now c.toChargingSession stop t.billing row db) : InvoiceOk row := by
  obtain ⟨k, rfl, hins, -⟩ := h
  exact ⟨rfl, hins.total, fun line hline => lines_ok (hins.lines line hline)⟩

theorem move_bills (h : CoreOk t) (hb : Bills t) (hm : Move A ConstantOffset now t t') : Bills t' := by
  have hsame := bills_of_same h hb hm
  cases hm with
  | seqs | sessions | insert | store | stop | connectors | tariffs | wallet | settle => exact hsame rfl
  | status status stamp c events | stopped c ended_at =>
    obtain ⟨intervals, seq, -, hflush⟩ := Core.flush_eq _ t
    exact hsame (by rw [hflush]; rfl)
  | invoice tables new_id c stop row b mem clean ended unbilled released samples intervals stations created =>
    have hcreated := wp_ok (Billing._create_invoice_ok tables new_id now _ stop _) created
    have hrow := created_ok hcreated
    obtain ⟨k, rfl, -, rfl⟩ := hcreated
    have hnum : Billing.NumericColumns tables.meter_samples c.toChargingSession :=
      ⟨(h.metered c mem).start, (h.metered c mem).stop, samples ▸ h.numeric⟩
    have hcov : Covers (k.invoice new_id) c :=
      k.energy hnum (stations _ (Billing.RejectionsLemmas.sessionStation_mem k.station_eq).1)
    refine ⟨List.pairwise_append.mpr ⟨hb.once, List.pairwise_singleton _ _, fun a ha x hx heq => ?_⟩,
      fun i hi => ?_, fun i hi => ?_⟩
    · rw [List.mem_singleton.mp hx] at heq
      exact unbilled ⟨a, ha, heq⟩
    · rcases List.mem_append.mp hi with hi | hi
      · exact hb.ok i hi
      · exact List.mem_singleton.mp hi ▸ hrow
    · rcases List.mem_append.mp hi with hi | hi
      · exact hb.covers i hi
      · rw [List.mem_singleton.mp hi]
        exact ⟨c, mem, rfl, by rw [ended]; nofun, hcov⟩

theorem moves_bills (h : CoreOk t) (hb : Bills t) (hm : Moves A ConstantOffset now t t') : Bills t' := by
  induction hm with
  | refl => exact hb
  | tail hms hm ih => exact move_bills (Moves.ok h hms) ih hm

/-- Invoices are only added. -/
theorem move_grows {Z : Billing.Station → Prop} (hm : Move A Z now t t') : t.invoices <+: t'.invoices := by
  cases hm with
  | seqs | sessions | insert | store | stop | connectors | tariffs | wallet | settle => exact List.prefix_rfl
  | status status stamp c events | stopped c ended_at =>
    obtain ⟨intervals, seq, -, hflush⟩ := Core.flush_eq _ t
    rw [hflush]
    exact List.prefix_rfl
  | invoice tables new_id c stop row b mem clean ended unbilled released samples intervals stations created =>
    obtain ⟨k, -, -, rfl⟩ := wp_ok (Billing._create_invoice_ok tables new_id now _ stop _) created
    exact List.prefix_append _ _

theorem moves_grow {Z : Billing.Station → Prop} (hm : Moves A Z now t t') : t.invoices <+: t'.invoices := by
  induction hm with
  | refl => exact List.prefix_rfl
  | tail _ hm ih => exact ih.trans (move_grows hm)

theorem reach_bills (h : Reach ConstantOffset s s') (hs : Sound s) (hb : Bills s.core) :
    Bills s'.core ∧ s.invoices <+: s'.invoices := by
  induction h with
  | refl => exact ⟨hb, List.prefix_rfl⟩
  | tail hreach hstep ih =>
    obtain ⟨env, hz, hstep⟩ := hstep
    have hs' := Reach.sound hreach hs
    have hm := hstep.moves hs' hz
    exact ⟨moves_bills hs'.core ih.1 hm, ih.2.trans (moves_grow hm)⟩

theorem zoom_ok {σ τ ε δ α : Type} {get : τ → σ} {put : σ → τ → τ} {inject : ε → δ} {x : Tx σ ε α} {u : τ} {a : α}
    {b : σ} (h : x (get u) = (.ok a, b)) : zoom get put inject x u = (.ok a, put b u) := by
  unfold zoom
  rw [h]

/-- A session of charging is one of billing. -/
theorem find_toBilling (h : CoreOk s.core) {c : Session} (hc : c ∈ s.charging_sessions) :
    s.billing.charging_sessions.find? (·.id = c.id) = some c.toChargingSession := by
  obtain ⟨a, ha⟩ : ∃ a, s.charging_sessions.find? (·.id = c.id) = some a := by
    refine Option.isSome_iff_exists.mp (List.find?_isSome.mpr ⟨c, hc, decide_eq_true rfl⟩)
  have heq : a = c := h.eq (mem_of_find ha).1 hc (of_decide_eq_true (mem_of_find ha).2)
  simp only [Database.billing, List.find?_map]
  change Option.map _ (s.charging_sessions.find? (·.id = c.id)) = _
  rw [ha, heq]
  rfl

theorem find_invoice (hb : Bills s.core) {i : InvoiceRow} (hi : i ∈ s.invoices) :
    s.invoices.find? (·.session_id = i.session_id) = some i := by
  obtain ⟨a, ha⟩ : ∃ a, s.invoices.find? (·.session_id = i.session_id) = some a :=
    Option.isSome_iff_exists.mp (List.find?_isSome.mpr ⟨i, hi, decide_eq_true rfl⟩)
  have hkeyed : Table.Keyed (fun i : InvoiceRow => i.session_id) s.invoices := hb.once
  rw [ha, hkeyed.eq (mem_of_find ha).1 hi (of_decide_eq_true (mem_of_find ha).2)]

end InvoicesLemmas

open InvoicesLemmas

/-! ## 2. Every reachable state -/

/-- The invoices in every reachable state: one for a session, with lines that add up and have all of the
energy. They never change, and are given back while the session has no reason. A rejected invoice adds one
reason and nothing else, and then the session is never invoiced. -/
theorem invoice_integrity {s₀ : Database} (sound : Sound s₀) (opening : s₀.invoices = [])
    (reach : Reach ConstantOffset s₀ s) :
    (s.invoices.Pairwise fun a b => a.session_id ≠ b.session_id) ∧
    (∀ i ∈ s.invoices, InvoiceOk i ∧ ∃ c ∈ s.charging_sessions, c.id = i.session_id ∧ Covers i c) ∧
    (∀ s', Reach ConstantOffset s s' → s.invoices <+: s'.invoices) ∧
    (∀ env, ∀ i ∈ s.invoices, ∀ c ∈ s.charging_sessions, c.id = i.session_id → c.review_reasons = [] →
      lap_hoa_don env i.session_id s = (.ok { status := .ready, invoice := some i }, s)) ∧
    ∀ env, ∀ c ∈ s.charging_sessions, ∀ stop reason, c.review_reasons = [] → c.ended_at = some stop →
      (∀ i ∈ s.invoices, i.session_id ≠ c.id) →
      (c.billing_lifecycle_version = 1 → c.connector_released_at ≠ none) →
      (Billing._create_invoice (billingTables env s) env.new_id env.now c.toChargingSession stop s.billing).1 =
        .error (.invalidInvoice reason) →
      lap_hoa_don env c.id s =
        (.ok { status := .needs_review, reason := some reason }, rejectedFor c.id reason s) ∧
      ∀ s', Reach ConstantOffset (rejectedFor c.id reason s) s' → ∀ i ∈ s'.invoices, i.session_id ≠ c.id := by
  have hs := Reach.sound reach sound
  have hb := (reach_bills reach sound (bills_of_empty opening)).1
  refine ⟨hb.once, fun i hi => ⟨hb.ok i hi, ?_⟩, fun s' hreach => (reach_bills hreach hs hb).2,
    fun env i hi c hc hid hclean => ?_, fun env c hc stop reason hclean hended hunbilled hreleased hrejected => ?_⟩
  · obtain ⟨c, hc, hid, -, hcov⟩ := hb.covers i hi
    exact ⟨c, hc, hid, hcov⟩
  · obtain ⟨a, ha, haid, hended, -⟩ := hb.covers i hi
    obtain rfl := hs.core.eq ha hc (haid.trans hid.symm)
    obtain ⟨stop, hstop⟩ := Option.ne_none_iff_exists'.mp hended
    have hfound := find_toBilling hs.core hc
    rw [hid] at hfound
    refine (zoom_ok (Billing.lap_hoa_don_existing hfound hclean hstop (find_invoice hb hi))).trans ?_
    rw [putBilling_same]
  · have hstep : lap_hoa_don env c.id s =
        (.ok { status := .needs_review, reason := some reason }, rejectedFor c.id reason s) := by
      refine (zoom_ok (Billing.lap_hoa_don_rejected (find_toBilling hs.core hc) hclean hended hunbilled hreleased
        hrejected)).trans ?_
      rw [putBilling_review]
    refine ⟨hstep, fun s' hreach i hi hiid => ?_⟩
    obtain ⟨hm, hbooks, -⟩ := wp_ok (lap_hoa_don_moves (A := NotDebit) (Z := fun _ => True) hs.core (fun _ _ => trivial) c.id) hstep
    have hs' : Sound (rejectedFor c.id reason s) := ⟨Moves.ok hs.core hm, hbooks ▸ hs.wallet⟩
    have hblocked : Blocked (rejectedFor c.id reason s).core c.id := by
      refine ⟨_, List.mem_map_of_mem hc, ?_, reason, ?_, fun _ => ?_⟩ <;> rw [if_pos rfl]
      · exact List.mem_append_right _ (List.mem_singleton_self _)
      · rw [hended]
        nofun
    exact hunbilled i ((reach_frozen hreach hs' hblocked).2.invoices i hi hiid) hiid

namespace OneInvoice

open OneSession

def tariff : Tariff where
  id := 7
  station_id := 0
  effective_from := 0
  used_at := none
  idle_rate_vnd_per_minute := 500
  grace_minutes := 10
  bands := [⟨0, 1440, 2000, "day"⟩]

def station : Station where
  id := 0
  timezone := Zone.fixed 0
  status := .active
  archived := false

def town (now : ℤ) : Environment := { site now with stations := [station] }

/-- A session at a station with a tariff. -/
def priced : Database := { charging [] with tariffs := [tariff] }

/-- Five kilowatt hours and an hour later the car is unplugged. -/
def unplugged : Database :=
  ((Call.stop_transaction point "s" ⟨0, ⟨5000, by decide⟩, 3600000000, .EVDisconnected, []⟩).run
    (town 3600000000) priced).2

def billed : Database := ((Call.lap_hoa_don 0).run (town 3600000001) unplugged).2

theorem admits_town (now : ℤ) : Admits ConstantOffset (town now) := by
  intro st hst
  rw [List.mem_singleton.mp hst]
  exact ⟨0, rfl⟩

theorem priced_sound : Sound priced := ⟨{ (charging_sound []).core with }, (charging_sound []).wallet⟩

theorem reach_billed : Reach ConstantOffset priced billed :=
  (Relation.ReflTransGen.single ⟨_, admits_town _, .call _ priced⟩).tail ⟨_, admits_town _, .call _ unplugged⟩

end OneInvoice

open OneInvoice

theorem invoice_integrity_one_hour : billed.invoices.map (·.total_vnd) = [10000] ∧
    ∀ i ∈ billed.invoices, InvoiceOk i ∧ ∃ c ∈ billed.charging_sessions, c.id = i.session_id ∧ Covers i c :=
  ⟨by decide +kernel, (invoice_integrity priced_sound rfl reach_billed).2.1⟩

end Csms.Charging
