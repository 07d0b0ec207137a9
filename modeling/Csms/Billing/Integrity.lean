import Csms.Billing.Rejections

/-!
# Invoices as they are created

`Computation` is everything `_create_invoice` computes before it inserts the invoice.

Results:
1. `_create_invoice_ok`: the invoice and the tables after a creation.
2. `lap_hoa_don_outcome`: `lap_hoa_don` changes nothing, creates an invoice, or adds one review reason.
3. `Computation.energy`: the energy lines of an invoice have all of the energy of the session.
-/

namespace Csms.Billing

open Csms.Pricing Tx Decimal Pairs Outcome RejectionsLemmas

/-! ## 1. Creation -/

/-- The values of the steps of `_create_invoice`. -/
structure Computation (tables : StationTables) (tariffs : List Tariff) (charging : ChargingSession) (stop : ℤ) where
  station : Station
  driver_id : Uuid
  readings : List MeterValue
  intervals : List OccupationInterval
  daily : List DailyTariff
  lines : List InvoiceLine
  station_eq : sessionStation tables charging = .ok station
  driver_eq : charging.driver_id = some driver_id
  interval : charging.started_at < stop
  readings_eq : _meter_values tables.meter_samples charging stop = .ok readings
  intervals_eq : confirmedIntervals tables.occupation_intervals charging = .ok intervals
  daily_eq : _daily_tariffs tariffs station.id station.timezone charging.started_at
    (billingEnd charging stop intervals) = .ok daily
  lines_eq : invoiceLines station.timezone charging stop readings intervals daily = .ok lines

namespace Computation

variable {tables : StationTables} {tariffs : List Tariff} {charging : ChargingSession} {stop : ℤ}

def total (k : Computation tables tariffs charging stop) : ℤ := (k.lines.map (·.amount_vnd)).sum

def invoice (k : Computation tables tariffs charging stop) (new_id : Uuid) : InvoiceRow where
  id := new_id
  session_id := charging.id
  driver_id := k.driver_id
  station_id := k.station.id
  total_vnd := k.total
  rounding_rule := if charging.billing_lifecycle_version = 1 then ROUNDING_RULE else LEGACY_ROUNDING_RULE
  lines := k.lines

end Computation

/-- The insert passed its constraints. -/
structure Inserted (s : BillingDb) (row : InvoiceRow) : Prop where
  session : ∀ i ∈ s.invoices, i.session_id ≠ row.session_id
  total : 0 ≤ row.total_vnd ∧ row.total_vnd ≤ Wallets.MAX_VND
  lines : ∀ line ∈ row.lines, lineViolated line = none

/-- The invoice, and the tables after it was created. -/
def Created (tables : StationTables) (new_id : Uuid) (now : ℤ) (charging : ChargingSession) (stop : ℤ)
    (s : BillingDb) (row : InvoiceRow) (s' : BillingDb) : Prop :=
  ∃ k : Computation tables s.tariffs charging stop, row = k.invoice new_id ∧ Inserted s row ∧
    s' = { s with invoices := s.invoices ++ [row], tariffs := markDaily k.daily k.station.id now s.tariffs }

theorem _create_invoice_ok (tables : StationTables) (new_id : Uuid) (now : ℤ) (charging : ChargingSession)
    (stop : ℤ) (s : BillingDb) :
    wp (_create_invoice tables new_id now charging stop) (Created tables new_id now charging stop s)
      (fun _ _ => True) s := by
  unfold _create_invoice
  simp only [wp_bind, wp_ofExcept, wp_orRaise, wp_raiseIf, wp_read, wp_write, implies_true, and_true, true_and]
  intro station h1 driver hd hlt readings h2 intervals h3 daily h4 lines h5 hmax
  simp only [insertInvoice, wp_bind, wp_read, wp_raiseIf, implies_true, true_and]
  intro hsession _ hneg
  split
  · trivial
  next hlines =>
  simp only [wp_write, wp_pure]
  refine ⟨⟨station, driver, readings, intervals, daily, lines, h1, hd, not_le.mp hlt, h2, h3, h4, h5⟩, rfl,
    ⟨fun i hi heq => hsession ⟨i, hi, heq⟩, ⟨not_lt.mp hneg, ?_⟩, ?_⟩, rfl⟩
  · exact not_lt.mp fun h => hmax (.inl h)
  · exact List.findSome?_eq_none_iff.mp hlines

/-! ## 2. `lap_hoa_don` -/

/-- What `lap_hoa_don` may do to the tables. -/
inductive LapHoaDon (tables : StationTables) (new_id : Uuid) (now : ℤ) (session_id : ℕ) (s : BillingDb) :
    InvoiceResult → BillingDb → Prop
  | same (r : InvoiceResult) : LapHoaDon tables new_id now session_id s r s
  | created (charging : ChargingSession) (stop : ℤ) (row : InvoiceRow) (s' : BillingDb)
      (found : s.charging_sessions.find? (·.id = session_id) = some charging)
      (clean : charging.review_reasons = []) (ended : charging.ended_at = some stop)
      (released : charging.billing_lifecycle_version = 1 → charging.connector_released_at ≠ none)
      (unbilled : ∀ i ∈ s.invoices, i.session_id ≠ session_id)
      (created : _create_invoice tables new_id now charging stop s = (.ok row, s')) :
      LapHoaDon tables new_id now session_id s { status := .ready, invoice := some row } s'
  | rejected (charging : ChargingSession) (reason : String)
      (found : s.charging_sessions.find? (·.id = session_id) = some charging)
      (clean : charging.review_reasons = []) :
      LapHoaDon tables new_id now session_id s { status := .needs_review, reason := some reason }
        (addReviewReason session_id reason s)

/-- An invoice that is given back belongs to the session, which needs no review. -/
def Ready (session_id : ℕ) (s : BillingDb) (r : InvoiceResult) (s' : BillingDb) : Prop :=
  ∀ i, r.status = .ready → r.invoice = some i → i ∈ s'.invoices ∧ i.session_id = session_id ∧
    ∃ charging, s.charging_sessions.find? (·.id = session_id) = some charging ∧ charging.review_reasons = []

/-- `lap_hoa_don` changes nothing, creates an invoice, or adds one review reason. -/
theorem lap_hoa_don_outcome (tables : StationTables) (new_id : Uuid) (now : ℤ) (session_id : ℕ) (s : BillingDb) :
    wp (lap_hoa_don tables new_id now session_id)
      (fun r s' => LapHoaDon tables new_id now session_id s r s' ∧ Ready session_id s r s')
      (fun _ s' => s' = s) s := by
  unfold lap_hoa_don
  simp only [wp_bind, wp_read, wp_orRaise]
  refine ⟨fun _ => trivial, fun charging hfound => ?_⟩
  split
  · exact ⟨.same _, fun _ _ h => by cases h⟩
  next hclean =>
  rw [not_not] at hclean
  split
  · exact ⟨.same _, fun _ _ h => by cases h⟩
  next stop hstop =>
  split
  · next existing hex =>
    refine ⟨.same _, fun i _ hi => ?_⟩
    cases hi
    exact ⟨List.mem_of_find?_eq_some hex, by simpa using List.find?_some hex, charging, hfound, hclean⟩
  next hnone =>
  split
  · exact ⟨.same _, fun _ _ h => by cases h⟩
  next hreleased =>
  have hunbilled : ∀ i ∈ s.invoices, i.session_id ≠ session_id := fun i hi heq =>
    List.find?_eq_none.mp hnone i hi (by simpa using heq)
  simp only [createResult, wp_attempt, wp_bind, wp_savepoint]
  have hid : charging.id = session_id := by simpa using List.find?_some hfound
  unfold wp
  split
  · next row s' hrun =>
    obtain ⟨k, hrow, -, hs'⟩ := wp_ok (_create_invoice_ok tables new_id now charging stop s) hrun
    refine ⟨.created charging stop row s' hfound hclean hstop (fun hv hr => hreleased ⟨hv, hr⟩) hunbilled hrun,
      fun i _ hi => ?_⟩
    cases hi
    refine ⟨?_, ?_, charging, hfound, hclean⟩
    · rw [hs']
      exact List.mem_append_right _ (List.mem_singleton_self _)
    · rw [hrow]
      exact hid
  · next e s' hrun =>
    refine ⟨fun _ => trivial, fun y hy => ?_⟩
    cases e <;> cases hy
    exact ⟨.rejected charging _ hfound hclean, fun _ _ h => by cases h⟩

/-- An invoice that exists is given back. -/
theorem lap_hoa_don_existing {tables : StationTables} {new_id : Uuid} {now : ℤ} {session_id : ℕ} {s : BillingDb}
    {charging : ChargingSession} {stop : ℤ} {existing : InvoiceRow}
    (hfound : s.charging_sessions.find? (·.id = session_id) = some charging) (hclean : charging.review_reasons = [])
    (hended : charging.ended_at = some stop) (hex : s.invoices.find? (·.session_id = session_id) = some existing) :
    lap_hoa_don tables new_id now session_id s = (.ok { status := .ready, invoice := some existing }, s) := by
  have hwp : wp (lap_hoa_don tables new_id now session_id)
      (fun r s' => r = { status := .ready, invoice := some existing } ∧ s' = s) (fun _ _ => False) s := by
    unfold lap_hoa_don
    simp [hfound, hclean, hended, hex]
  rcases wp_run hwp with ⟨r, s', hrun, rfl, rfl⟩ | ⟨_, _, _, hfalse⟩
  · exact hrun
  · exact hfalse.elim

/-- A rejected invoice adds the reason, and nothing else. -/
theorem lap_hoa_don_rejected {tables : StationTables} {new_id : Uuid} {now : ℤ} {session_id : ℕ} {s : BillingDb}
    {charging : ChargingSession} {stop : ℤ} {reason : String}
    (hfound : s.charging_sessions.find? (·.id = session_id) = some charging) (hclean : charging.review_reasons = [])
    (hended : charging.ended_at = some stop) (hunbilled : ∀ i ∈ s.invoices, i.session_id ≠ session_id)
    (hreleased : charging.billing_lifecycle_version = 1 → charging.connector_released_at ≠ none)
    (hrejected : (_create_invoice tables new_id now charging stop s).1 = .error (.invalidInvoice reason)) :
    lap_hoa_don tables new_id now session_id s =
      (.ok { status := .needs_review, reason := some reason }, addReviewReason session_id reason s) := by
  have hnone : s.invoices.find? (·.session_id = session_id) = none :=
    List.find?_eq_none.mpr fun i hi => by simpa using hunbilled i hi
  have hno : ¬ (charging.billing_lifecycle_version = 1 ∧ charging.connector_released_at = none) :=
    fun h => hreleased h.1 h.2
  have hwp : wp (lap_hoa_don tables new_id now session_id)
      (fun r s' => r = { status := .needs_review, reason := some reason } ∧
        s' = addReviewReason session_id reason s) (fun _ _ => False) s := by
    unfold lap_hoa_don
    simp only [wp_bind, wp_read, wp_orRaise, hfound, reduceCtorEq, false_implies, true_and, Option.some.injEq]
    rintro _ rfl
    simp only [hclean, ne_eq, not_true_eq_false, if_false, hended, hnone, if_neg hno]
    simp only [createResult, wp_attempt, wp_bind, wp_savepoint]
    unfold wp
    split
    · next hrun =>
      rw [hrun] at hrejected
      cases hrejected
    · next hrun =>
      rw [hrun] at hrejected
      cases hrejected
      refine ⟨fun h => (by cases h), fun y hy => ?_⟩
      cases hy
      exact ⟨rfl, rfl⟩
  rcases wp_run hwp with ⟨r, s', hrun, rfl, rfl⟩ | ⟨_, _, _, hfalse⟩
  · exact hrun
  · exact hfalse.elim

/-! ## 3. The energy of an invoice -/

namespace IntegrityLemmas

/-- Samples are only added to the readings. -/
theorem addSample_mem {readings readings' : List MeterValue} {sample : MeterSample} {mv : MeterValue}
    (hmv : mv ∈ readings) (h : addSample readings sample = .ok readings') : mv ∈ readings' := by
  unfold addSample at h
  split at h
  · cases h
  split at h
  · split at h
    · cases h
      exact hmv
    · cases h
  · cases h
    exact List.mem_append_left _ hmv

/-- The readings have the start and the stop reading of the session in them. -/
theorem meter_values_ends {samples : List MeterSample} {charging : ChargingSession} {stop : ℤ}
    {readings : List MeterValue} (hlt : charging.started_at < stop)
    (h : _meter_values samples charging stop = .ok readings) :
    ∃ a b, charging.meter_start_wh = some a ∧ charging.meter_stop_wh = some b ∧
      ⟨charging.started_at, a⟩ ∈ readings ∧ ⟨stop, b⟩ ∈ readings := by
  unfold _meter_values at h
  split at h
  swap
  · cases h
  next a b ha hb =>
  rw [if_neg hlt.ne] at h
  obtain ⟨dict, hd, h⟩ := bind_eq_ok.mp h
  dsimp only at h
  split at h
  · cases h
  cases h
  set P : List MeterValue → Prop := fun l => ⟨charging.started_at, a⟩ ∈ l ∧ ⟨stop, b⟩ ∈ l
  have hends : P dict := by
    refine foldlM_invariant P (fun m _ l l' hl hadd => ?_) ⟨List.mem_cons_self, by simp⟩ hd
    exact ⟨addSample_mem hl.1 hadd, addSample_mem hl.2 hadd⟩
  exact ⟨a, b, (valid_reading_eq ha).1, (valid_reading_eq hb).1, (List.mem_insertionSort _).mpr hends.1,
    (List.mem_insertionSort _).mpr hends.2⟩

/-- Two readings at one time are one. -/
theorem reading_unique {readings : List MeterValue} (h : Increasing readings) {a b : MeterValue}
    (ha : a ∈ readings) (hb : b ∈ readings) (ht : a.timestamp = b.timestamp) : a = b := by
  have hkeyed : Table.Keyed MeterValue.timestamp readings :=
    (InterpolationLemmas.increasing_pairwise h).imp fun hlt => hlt.ne
  exact hkeyed.eq ha hb ht

theorem idleDays_type {tz : Zone} {daily : List DailyTariff} {stop : ℤ} :
    ∀ {turns : ℕ} {anchor count : ℤ} {lines : List InvoiceLine},
      idleDays tz daily stop turns anchor count = .ok lines → ∀ line ∈ lines, line.line_type = .idle := by
  intro turns
  induction turns with
  | zero =>
    intro anchor count lines h
    unfold idleDays at h
    split at h
    · cases h
      exact fun _ hline => absurd hline List.not_mem_nil
    · cases h
  | succ turns ih =>
    intro anchor count lines h
    unfold idleDays at h
    split at h
    · cases h
      exact fun _ hline => absurd hline List.not_mem_nil
    simp only at h
    split at h
    · cases h
    obtain ⟨amount, -, h⟩ := bind_eq_ok.mp h
    obtain ⟨rest, hrest, h⟩ := bind_eq_ok.mp h
    cases h
    intro line hline
    rcases List.mem_cons.mp hline with rfl | hline
    · rfl
    · exact ih hrest line hline

theorem _idle_lines_type {tz : Zone} {started_at stop : ℤ} {daily : List DailyTariff} {idle : Option ℤ}
    {lines : List InvoiceLine} (h : _idle_lines tz started_at stop daily idle = .ok lines) :
    ∀ line ∈ lines, line.line_type = .idle := by
  unfold _idle_lines at h
  split at h
  · cases h
    nofun
  split at h
  · cases h
  split at h
  · cases h
    nofun
  split at h
  · cases h
  obtain ⟨count, -, h⟩ := bind_eq_ok.mp h
  exact idleDays_type h

theorem sessionIdleLines_type {tz : Zone} {charging : ChargingSession} {stop : ℤ}
    {intervals : List OccupationInterval} {daily : List DailyTariff} {lines : List InvoiceLine}
    (h : sessionIdleLines tz charging stop intervals daily = .ok lines) :
    ∀ line ∈ lines, line.line_type = .idle := by
  unfold sessionIdleLines at h
  split at h
  · exact _idle_lines_type h
  obtain ⟨blocks, hblocks, h⟩ := bind_eq_ok.mp h
  cases h
  intro line hline
  obtain ⟨block, hblock, hline⟩ := List.mem_flatten.mp hline
  obtain ⟨i, -, hi⟩ := (mem_of_mapM_ok hblocks).mp hblock
  split at hi
  · exact _idle_lines_type hi line hline
  · cases hi

/-- The lines of an invoice are its segments and its idle lines. -/
theorem invoiceLines_parts {tz : Zone} {charging : ChargingSession} {stop : ℤ} {readings : List MeterValue}
    {intervals : List OccupationInterval} {daily : List DailyTariff} {lines : List InvoiceLine}
    (h : invoiceLines tz charging stop readings intervals daily = .ok lines) :
    ∃ segments idle, chia_doan 50 tz charging.started_at stop readings (framesOf daily) = .ok segments ∧
      sessionIdleLines tz charging stop intervals daily = .ok idle ∧ lines = segments.map (energyLine tz) ++ idle := by
  obtain ⟨segments, hseg, h⟩ := bind_eq_ok.mp h
  obtain ⟨idle, hidle, h⟩ := bind_eq_ok.mp h
  cases h
  obtain ⟨segments', hchia, hpriced⟩ := bind_eq_ok.mp hseg
  have hsame : segments' = segments := by
    split at hpriced
    · split at hpriced
      · cases hpriced
      · cases hpriced
        rfl
    · cases hpriced
  exact ⟨segments, idle, hsame ▸ hchia, hidle, rfl⟩

/-- The energy lines of an invoice are its segments. -/
theorem sum_energy_lines {tz : Zone} {charging : ChargingSession} {stop : ℤ} {readings : List MeterValue}
    {intervals : List OccupationInterval} {daily : List DailyTariff} {lines : List InvoiceLine}
    (h : invoiceLines tz charging stop readings intervals daily = .ok lines) :
    ∃ segments, chia_doan 50 tz charging.started_at stop readings (framesOf daily) = .ok segments ∧
      ((lines.filter (·.line_type = .energy)).map (·.energy_wh)).sum =
        (segments.map (·.energy_consumed_wh)).sum := by
  obtain ⟨segments, idle, hchia, hidle, rfl⟩ := invoiceLines_parts h
  refine ⟨segments, hchia, ?_⟩
  have henergy : (segments.map (energyLine tz)).filter (·.line_type = .energy) = segments.map (energyLine tz) := by
    refine List.filter_eq_self.mpr fun line hline => ?_
    obtain ⟨s, -, rfl⟩ := List.mem_map.mp hline
    rfl
  have hnone : idle.filter (·.line_type = .energy) = [] :=
    List.filter_eq_nil_iff.mpr fun line hline => by rw [sessionIdleLines_type hidle line hline]; decide
  rw [List.filter_append, henergy, hnone, List.append_nil, List.map_map]
  rfl

end IntegrityLemmas

open IntegrityLemmas ConservationLemmas

/-- In a zone of constant offset the energy lines have all of the energy of the session. -/
theorem Computation.energy {tables : StationTables} {tariffs : List Tariff} {charging : ChargingSession} {stop : ℤ}
    (k : Computation tables tariffs charging stop) (hn : NumericColumns tables.meter_samples charging)
    (hz : ∃ c, k.station.timezone = Zone.fixed c) :
    ∃ a b, charging.meter_start_wh = some a ∧ charging.meter_stop_wh = some b ∧
      ((k.lines.filter (·.line_type = .energy)).map (·.energy_wh)).sum = b - a := by
  obtain ⟨c, hc⟩ := hz
  obtain ⟨a, b, ha, hb, hma, hmb⟩ := meter_values_ends k.interval k.readings_eq
  obtain ⟨hr, hnum⟩ := (_meter_values_spec hn k.interval).2 _ k.readings_eq
  obtain ⟨segments, hchia, hsum⟩ := sum_energy_lines k.lines_eq
  have hdaily := k.daily_eq
  rw [hc] at hchia hdaily
  have hend : stop ≤ billingEnd charging stop k.intervals := by
    unfold billingEnd
    split
    · exact le_rfl
    · exact le_max_left _ _
  obtain ⟨segments', hchia', hsum'⟩ := chia_doan_energy k.interval hr hnum hend hdaily
  cases hchia.symm.trans hchia'
  refine ⟨a, b, ha, hb, ?_⟩
  obtain ⟨first, hfirst, hstart⟩ := reading_start hr
  obtain ⟨last, hlast, hstop⟩ := reading_stop hr
  have hf : first = ⟨charging.started_at, a⟩ := by
    refine reading_unique hr.increasing (List.mem_of_mem_head? hfirst) hma ?_
    have := hr.first
    rw [hfirst] at this
    exact Option.some.inj this
  have hl : last = ⟨stop, b⟩ := by
    refine reading_unique hr.increasing (List.mem_of_mem_getLast? hlast) hmb ?_
    have := hr.last
    rw [hlast] at this
    exact Option.some.inj this
  rw [hsum, hsum', hstart, hstop, hf, hl]

end Csms.Billing
