import Csms.Lib.DecimalBounds
import Csms.Lib.Outcome
import Csms.Reporting.Revenue

/-!
# What the revenue report adds up to (`reporting/service.py`)

A row adds the same amounts to the summary, to the item of its charge point and to the entry of its
date. The entry exists: the dates of the loop are those of the instants that the report covers.

Results: `process_balanced`, `revenue_report_exact`.
-/

namespace Csms.Reporting

open Billing Calendar Decimal Rounding

/-! ## 1. Amounts -/

namespace Amounts

instance : Add Amounts where
  add a b :=
    { sessions_count := a.sessions_count + b.sessions_count
      energy_amount_vnd := a.energy_amount_vnd + b.energy_amount_vnd
      idle_amount_vnd := a.idle_amount_vnd + b.idle_amount_vnd
      total_invoice_vnd := a.total_invoice_vnd + b.total_invoice_vnd
      debited_vnd := a.debited_vnd + b.debited_vnd
      invoice_cohort_settled_vnd := a.invoice_cohort_settled_vnd + b.invoice_cohort_settled_vnd
      awaiting_settlement_vnd := a.awaiting_settlement_vnd + b.awaiting_settlement_vnd
      awaiting_settlement_sessions := a.awaiting_settlement_sessions + b.awaiting_settlement_sessions
      legacy_exempt_sessions := a.legacy_exempt_sessions + b.legacy_exempt_sessions
      legacy_exempt_vnd := a.legacy_exempt_vnd + b.legacy_exempt_vnd
      free_sessions := a.free_sessions + b.free_sessions
      reservation_fee_vnd := a.reservation_fee_vnd + b.reservation_fee_vnd
      reservation_count := a.reservation_count + b.reservation_count
      unbilled_sessions := a.unbilled_sessions + b.unbilled_sessions
      unbilled_missing_meter_sessions := a.unbilled_missing_meter_sessions + b.unbilled_missing_meter_sessions }

instance : Zero Amounts := ⟨{}⟩

theorem add_def (a b : Amounts) : a + b =
    ⟨a.sessions_count + b.sessions_count, a.energy_amount_vnd + b.energy_amount_vnd,
      a.idle_amount_vnd + b.idle_amount_vnd, a.total_invoice_vnd + b.total_invoice_vnd,
      a.debited_vnd + b.debited_vnd, a.invoice_cohort_settled_vnd + b.invoice_cohort_settled_vnd,
      a.awaiting_settlement_vnd + b.awaiting_settlement_vnd,
      a.awaiting_settlement_sessions + b.awaiting_settlement_sessions,
      a.legacy_exempt_sessions + b.legacy_exempt_sessions, a.legacy_exempt_vnd + b.legacy_exempt_vnd,
      a.free_sessions + b.free_sessions, a.reservation_fee_vnd + b.reservation_fee_vnd,
      a.reservation_count + b.reservation_count, a.unbilled_sessions + b.unbilled_sessions,
      a.unbilled_missing_meter_sessions + b.unbilled_missing_meter_sessions⟩ := rfl

theorem zero_def : (0 : Amounts) = {} := rfl

instance : AddCommMonoid Amounts where
  add_assoc a b c := by simp only [add_def, add_assoc]
  zero_add a := by simp only [add_def, zero_def, zero_add]
  add_zero a := by simp only [add_def, zero_def, add_zero]
  add_comm a b := by simp only [add_def, add_comm]
  nsmul := nsmulRec

theorem addInvoice_eq (row : InvoicedRow) (a : Amounts) : a.addInvoice row = a + addInvoice row 0 := by
  simp only [addInvoice, zero_def]
  split
  · simp only [add_def, zero_add, add_zero]
  split
  · simp only [add_def, zero_add, add_zero]
  · simp only [add_def, zero_add, add_zero]

theorem addDebit_eq (row : DebitRow) (a : Amounts) : a.addDebit row = a + addDebit row 0 := by
  simp only [addDebit, zero_def, add_def, zero_add, add_zero]

theorem addReservation_eq (row : ReservationRow) (a : Amounts) :
    a.addReservation row = a + addReservation row 0 := by
  simp only [addReservation, zero_def, add_def, zero_add, add_zero]

theorem addUnbilled_eq (row : UnbilledRow) (a : Amounts) : a.addUnbilled row = a + addUnbilled row 0 := by
  simp only [addUnbilled, zero_def, add_def, zero_add, add_zero]

/-- The amounts that a day has, too: sessions, invoices, debits and reservation fees. -/
def daily : Amounts →+ ℤ × ℤ × ℤ × ℤ where
  toFun a := (a.sessions_count, a.total_invoice_vnd, a.debited_vnd, a.reservation_fee_vnd)
  map_zero' := rfl
  map_add' _ _ := rfl

theorem daily_addInvoice (row : InvoicedRow) : daily (addInvoice row 0) = (1, row.invoice_total_vnd, 0, 0) := by
  simp only [addInvoice, zero_def]
  split
  · simp [daily]
  split
  · simp [daily]
  · simp [daily]

theorem daily_addDebit (row : DebitRow) : daily (addDebit row 0) = (0, 0, row.debited_vnd, 0) := by
  simp [daily, addDebit, zero_def]

theorem daily_addReservation (row : ReservationRow) :
    daily (addReservation row 0) = (0, 0, 0, row.reservation_fee_vnd) := by
  simp [daily, addReservation, zero_def]

theorem daily_addUnbilled (row : UnbilledRow) : daily (addUnbilled row 0) = 0 := by
  simp [daily, addUnbilled, zero_def]

/-- Every invoice is exempt, settled or awaited. -/
def Settled (a : Amounts) : Prop :=
  a.total_invoice_vnd = a.legacy_exempt_vnd + a.invoice_cohort_settled_vnd + a.awaiting_settlement_vnd

theorem Settled.zero : Settled 0 := rfl

theorem Settled.add {a b : Amounts} (ha : a.Settled) (hb : b.Settled) : (a + b).Settled := by
  simp only [Settled, add_def] at ha hb ⊢
  omega

theorem Settled.addInvoice {row : InvoicedRow} (hdebit : row.session_debited_vnd ≤ row.invoice_total_vnd)
    (hzero : row.settlement_reason = some .zero_invoice → row.invoice_total_vnd = 0) :
    (Amounts.addInvoice row 0).Settled := by
  simp only [Settled, Amounts.addInvoice, zero_def]
  split
  · simp
  split
  · next hfree =>
    have htotal : row.invoice_total_vnd = 0 := hfree.elim hzero id
    simp [htotal]
  · simp only [zero_add]
    omega

end Amounts

def DailyAccumulator.daily (d : DailyAccumulator) : ℤ × ℤ × ℤ × ℤ :=
  (d.sessions_count, d.invoice_vnd, d.debited_vnd, d.reservation_fee_vnd)

/-! ## 2. The range -/

namespace RangeLemmas

theorem shifted_eq_ok {n : ℤ} {d : Date} (h : shifted n = .ok d) : d.ordinal = n := by
  unfold shifted at h
  split at h
  · cases h
    rfl
  · cases h

/-- A report starts and ends at a midnight. -/
theorem resolve_report_range_spec {tz : Zone} {period : PeriodType} {date_from date_to : Option Date} {now : ℤ}
    {range : Stamp × Stamp} (h : resolve_report_range tz period date_from date_to now = .ok range) :
    ∃ start_d end_d : Date, range = (start_d.midnight, end_d.midnight) := by
  obtain ⟨today, -, h⟩ := Outcome.bind_eq_ok.mp h
  split at h
  · obtain ⟨end_date, -, h⟩ := Outcome.bind_eq_ok.mp h
    cases h
    exact ⟨_, _, rfl⟩
  · obtain ⟨monday, -, h⟩ := Outcome.bind_eq_ok.mp h
    obtain ⟨end_date, -, h⟩ := Outcome.bind_eq_ok.mp h
    cases h
    exact ⟨_, _, rfl⟩
  · obtain ⟨first_day, -, h⟩ := Outcome.bind_eq_ok.mp h
    obtain ⟨next_month, -, h⟩ := Outcome.bind_eq_ok.mp h
    cases h
    exact ⟨_, _, rfl⟩
  · obtain ⟨end_date, -, h⟩ := Outcome.bind_eq_ok.mp h
    cases h
    exact ⟨_, _, rfl⟩

variable {c : ℤ} {start_d end_d : Date}

theorem mem_dates {d : ℤ} :
    d ∈ dates (Zone.fixed c) (start_d.midnight, end_d.midnight) ↔ start_d.ordinal ≤ d ∧ d < end_d.ordinal := by
  have hdate : ∀ d : Date, d.midnight.date (Zone.fixed c) = d.ordinal := fun d => by
    simp only [Date.midnight, Stamp.date, DAY]
    omega
  simp only [dates, hdate, List.mem_map, List.mem_range]
  constructor
  · rintro ⟨k, hk, rfl⟩
    omega
  · rintro ⟨hstart, hend⟩
    exact ⟨(d - start_d.ordinal).toNat, by omega, by omega⟩

theorem nodup_dates (tz : Zone) (range : Stamp × Stamp) : (dates tz range).Nodup :=
  List.nodup_range.map fun a b h => by simpa using h

/-- The instants of the report are those of its dates. -/
theorem covers_iff {t : ℤ} : Covers (Zone.fixed c) (start_d.midnight, end_d.midnight) t ↔
    (Zone.fixed c).localDate t ∈ dates (Zone.fixed c) (start_d.midnight, end_d.midnight) := by
  rw [mem_dates]
  simp only [Covers, Date.midnight, Stamp.instant_fixed_loc]
  simp only [Zone.localDate, Zone.wall, Zone.fixed, DAY]
  omega

/-- The dates of a report have different texts. -/
theorem nodup_isoformat :
    ((dates (Zone.fixed c) (start_d.midnight, end_d.midnight)).map isoformat).Nodup := by
  refine List.Nodup.map_on (fun a ha b hb h => ?_) (nodup_dates _ _)
  rw [mem_dates] at ha hb
  have hstart := start_d.valid
  have hend := end_d.valid
  exact isoformat_inj ⟨by omega, by omega⟩ ⟨by omega, by omega⟩ h

end RangeLemmas

open RangeLemmas

/-! ## 3. Posting a row -/

/-- The summary is the sum of the items, and what days have is the sum of the days, too. -/
structure Balanced (tz : Zone) (range : Stamp × Stamp) (r : Report) : Prop where
  keyed : Table.Keyed (·.place.charge_point_id) r.cp_map
  dates : r.daily_map.map (·.date) = (dates tz range).map isoformat
  items : r.totals.amounts = (r.cp_map.map (·.figures.amounts)).sum
  days : r.totals.amounts.daily = (r.daily_map.map (·.daily)).sum

namespace Balanced

variable {tz : Zone} {range : Stamp × Stamp} {r : Report}

theorem init : Balanced tz range (.init tz range) where
  keyed := List.Pairwise.nil
  dates := by simp [Report.init]
  items := rfl
  days := by
    have hzero : ∀ x ∈ (Report.init tz range).daily_map.map (·.daily), x = 0 := by
      intro x hx
      simp only [Report.init, List.map_map, List.mem_map] at hx
      obtain ⟨d, -, rfl⟩ := hx
      rfl
    rw [List.sum_eq_zero hzero]
    rfl

theorem post (h : Balanced tz range r) {place : Place} {f : Figures → Figures} {amounts : Amounts}
    (hf : ∀ x, (f x).amounts = x.amounts + amounts) (hdaily : amounts.daily = 0) :
    Balanced tz range (r.post place f) where
  keyed := Accumulate.keyed_upsert h.keyed fun _ => rfl
  dates := h.dates
  items := by
    simp only [Report.post, hf]
    rw [@Accumulate.sum_upsert _ _ _ _ _ _ _ _ _ _ amounts h.keyed rfl fun item => hf item.figures, h.items]
  days := by
    simp only [Report.post, hf, map_add, hdaily, add_zero]
    exact h.days

end Balanced

/-- A row of an instant of the report is posted and plotted. -/
theorem Balanced.post_plot {c : ℤ} {start_d end_d : Date} {r : Report}
    (h : Balanced (Zone.fixed c) (start_d.midnight, end_d.midnight) r) {place : Place} {f : Figures → Figures}
    {amounts : Amounts} {t : ℤ} {plot : DailyAccumulator → DailyAccumulator}
    (hf : ∀ x, (f x).amounts = x.amounts + amounts)
    (hplot : ∀ d, (plot d).date = d.date ∧ (plot d).daily = d.daily + amounts.daily)
    (ht : Covers (Zone.fixed c) (start_d.midnight, end_d.midnight) t) :
    Balanced (Zone.fixed c) (start_d.midnight, end_d.midnight) ((r.post place f).plot (Zone.fixed c) t plot) where
  keyed := Accumulate.keyed_upsert h.keyed fun _ => rfl
  dates := (Accumulate.map_key_modify fun d => (hplot d).1).trans h.dates
  items := by
    simp only [Report.plot, Report.post, hf]
    rw [@Accumulate.sum_upsert _ _ _ _ _ _ _ _ _ _ amounts h.keyed rfl fun item => hf item.figures, h.items]
  days := by
    have hnodup : (r.daily_map.map (·.date)).Nodup := h.dates ▸ nodup_isoformat
    have hentry : ∃ d ∈ r.daily_map, d.date = isoformat ((Zone.fixed c).localDate t) := by
      have hmem : isoformat ((Zone.fixed c).localDate t) ∈ r.daily_map.map (·.date) := by
        rw [h.dates]
        exact List.mem_map_of_mem (covers_iff.mp ht)
      exact List.mem_map.mp hmem
    simp only [Report.plot, Report.post, hf, map_add, h.days]
    exact (Accumulate.sum_modify (List.pairwise_map.mp hnodup) hentry fun d => (hplot d).2).symm

/-- The timestamps of the rows lie in the report. -/
structure Rows.Within (tz : Zone) (range : Stamp × Stamp) (rows : Rows) : Prop where
  invoiced : ∀ row ∈ rows.invoiced_rows, Covers tz range row.invoice_created_at
  debits : ∀ row ∈ rows.debit_rows, Covers tz range row.ledger_created_at
  reservations : ∀ row ∈ rows.reservation_rows, Covers tz range row.ledger_created_at
  unbilled : ∀ row ∈ rows.unbilled_rows, Covers tz range row.ended_at

namespace Balanced

variable {c : ℤ} {start_d end_d : Date} {r : Report}

theorem addInvoice (h : Balanced (Zone.fixed c) (start_d.midnight, end_d.midnight) r) {row : InvoicedRow}
    (ht : Covers (Zone.fixed c) (start_d.midnight, end_d.midnight) row.invoice_created_at) :
    Balanced (Zone.fixed c) (start_d.midnight, end_d.midnight) (r.addInvoice (Zone.fixed c) row) := by
  refine h.post_plot (fun x => x.amounts.addInvoice_eq row) (fun d => ⟨rfl, ?_⟩) ht
  simp [DailyAccumulator.daily, DailyAccumulator.addInvoice, Amounts.daily_addInvoice]

theorem addDebit (h : Balanced (Zone.fixed c) (start_d.midnight, end_d.midnight) r) {row : DebitRow}
    (ht : Covers (Zone.fixed c) (start_d.midnight, end_d.midnight) row.ledger_created_at) :
    Balanced (Zone.fixed c) (start_d.midnight, end_d.midnight) (r.addDebit (Zone.fixed c) row) := by
  refine h.post_plot (fun x => x.amounts.addDebit_eq row) (fun d => ⟨rfl, ?_⟩) ht
  simp [DailyAccumulator.daily, DailyAccumulator.addDebit, Amounts.daily_addDebit]

theorem addReservation (h : Balanced (Zone.fixed c) (start_d.midnight, end_d.midnight) r) {row : ReservationRow}
    (ht : Covers (Zone.fixed c) (start_d.midnight, end_d.midnight) row.ledger_created_at) :
    Balanced (Zone.fixed c) (start_d.midnight, end_d.midnight) (r.addReservation (Zone.fixed c) row) := by
  refine h.post_plot (fun x => x.amounts.addReservation_eq row) (fun d => ⟨rfl, ?_⟩) ht
  simp [DailyAccumulator.daily, DailyAccumulator.addReservation, Amounts.daily_addReservation]

end Balanced

theorem process_balanced {c : ℤ} {start_d end_d : Date} {rows : Rows} {r : Report}
    (hrows : rows.Within (Zone.fixed c) (start_d.midnight, end_d.midnight))
    (h : Balanced (Zone.fixed c) (start_d.midnight, end_d.midnight) r) :
    Balanced (Zone.fixed c) (start_d.midnight, end_d.midnight) (r.process (Zone.fixed c) rows) := by
  have hinvoiced := List.foldlRecOn rows.invoiced_rows (Report.addInvoice (Zone.fixed c)) h
    fun _ h row hrow => h.addInvoice (hrows.invoiced row hrow)
  have hdebits := List.foldlRecOn rows.debit_rows (Report.addDebit (Zone.fixed c)) hinvoiced
    fun _ h row hrow => h.addDebit (hrows.debits row hrow)
  have hreservations := List.foldlRecOn rows.reservation_rows (Report.addReservation (Zone.fixed c)) hdebits
    fun _ h row hrow => h.addReservation (hrows.reservations row hrow)
  exact List.foldlRecOn rows.unbilled_rows Report.addUnbilled hreservations
    fun _ h row _ => h.post (fun x => x.amounts.addUnbilled_eq row) (Amounts.daily_addUnbilled row)

/-- The sessions, invoices, debits and reservation fees of the rows. -/
def Rows.daily (rows : Rows) : ℤ × ℤ × ℤ × ℤ :=
  (rows.invoiced_rows.length, (rows.invoiced_rows.map (·.invoice_total_vnd)).sum,
    (rows.debit_rows.map (·.debited_vnd)).sum, (rows.reservation_rows.map (·.reservation_fee_vnd)).sum)

def Report.daily (r : Report) : ℤ × ℤ × ℤ × ℤ := r.totals.amounts.daily

namespace Report

theorem daily_addInvoice (tz : Zone) (r : Report) (row : InvoicedRow) :
    (r.addInvoice tz row).daily = r.daily + (1, row.invoice_total_vnd, 0, 0) := by
  rw [← Amounts.daily_addInvoice, daily, daily, ← map_add, ← Amounts.addInvoice_eq]
  rfl

theorem daily_addDebit (tz : Zone) (r : Report) (row : DebitRow) :
    (r.addDebit tz row).daily = r.daily + (0, 0, row.debited_vnd, 0) := by
  rw [← Amounts.daily_addDebit, daily, daily, ← map_add, ← Amounts.addDebit_eq]
  rfl

theorem daily_addReservation (tz : Zone) (r : Report) (row : ReservationRow) :
    (r.addReservation tz row).daily = r.daily + (0, 0, 0, row.reservation_fee_vnd) := by
  rw [← Amounts.daily_addReservation, daily, daily, ← map_add, ← Amounts.addReservation_eq]
  rfl

theorem daily_addUnbilled (r : Report) (row : UnbilledRow) : (r.addUnbilled row).daily = r.daily + 0 := by
  rw [← Amounts.daily_addUnbilled row, daily, daily, ← map_add, ← Amounts.addUnbilled_eq]
  rfl

end Report

/-- The summary adds up the rows. -/
theorem process_daily (tz : Zone) (rows : Rows) (r : Report) :
    (r.process tz rows).daily = r.daily + rows.daily := by
  have hsum : ∀ {α : Type} (l : List α) (a b c d : α → ℤ),
      (l.map fun x => (a x, b x, c x, d x)).sum =
        ((l.map a).sum, (l.map b).sum, (l.map c).sum, (l.map d).sum) := by
    intro α l a b c d
    induction l with
    | nil => rfl
    | cons x l ih => simp only [List.map_cons, List.sum_cons, ih, Prod.mk_add_mk]
  rw [Report.process, Accumulate.foldl_add Report.daily_addUnbilled,
    Accumulate.foldl_add (Report.daily_addReservation tz), Accumulate.foldl_add (Report.daily_addDebit tz),
    Accumulate.foldl_add (Report.daily_addInvoice tz), hsum, hsum, hsum]
  simp [Rows.daily, add_assoc]

/-! ## 4. Settled invoices -/

/-- The condition on an invoice under which it is exempt, settled or awaited as a whole. -/
def InvoicedRow.Consistent (row : InvoicedRow) : Prop :=
  row.session_debited_vnd ≤ row.invoice_total_vnd ∧
    (row.settlement_reason = some .zero_invoice → row.invoice_total_vnd = 0)

structure Report.Settled (r : Report) : Prop where
  totals : r.totals.amounts.Settled
  items : ∀ item ∈ r.cp_map, item.figures.amounts.Settled

theorem Report.Settled.post {r : Report} (h : r.Settled) {place : Place} {f : Figures → Figures}
    {amounts : Amounts} (hf : ∀ x, (f x).amounts = x.amounts + amounts) (hamounts : amounts.Settled) :
    (r.post place f).Settled where
  totals := by
    simp only [Report.post, hf]
    exact h.totals.add hamounts
  items := Accumulate.forall_upsert h.items Amounts.Settled.zero (fun _ => id) fun item hitem => by
    simp only [hf]
    exact hitem.add hamounts

theorem process_settled {tz : Zone} {rows : Rows} {r : Report}
    (hrows : ∀ row ∈ rows.invoiced_rows, row.Consistent) (h : r.Settled) : (r.process tz rows).Settled := by
  have hplot : ∀ {r : Report} {t : ℤ} {plot : DailyAccumulator → DailyAccumulator}, r.Settled →
      (r.plot tz t plot).Settled := fun h => ⟨h.totals, h.items⟩
  have hinvoiced := List.foldlRecOn rows.invoiced_rows (Report.addInvoice tz) h fun _ h row hrow =>
    hplot (h.post (fun x => x.amounts.addInvoice_eq row) (.addInvoice (hrows row hrow).1 (hrows row hrow).2))
  have hdebits := List.foldlRecOn rows.debit_rows (Report.addDebit tz) hinvoiced fun _ h row _ =>
    hplot (h.post (fun x => x.amounts.addDebit_eq row) rfl)
  have hreservations := List.foldlRecOn rows.reservation_rows (Report.addReservation tz) hdebits fun _ h row _ =>
    hplot (h.post (fun x => x.amounts.addReservation_eq row) rfl)
  exact List.foldlRecOn rows.unbilled_rows Report.addUnbilled hreservations fun _ h row _ =>
    h.post (fun x => x.amounts.addUnbilled_eq row) rfl

/-! ## 5. Energies -/

/-- A number from 0 to `bound` with at most `k` decimals. -/
def Small (k : ℕ) (bound q : ℚ) : Prop := 0 ≤ q ∧ q ≤ bound ∧ ∃ z : ℤ, q * 10 ^ k = z

namespace Small

variable {k : ℕ} {b b' p q : ℚ}

theorem mono (h : Small k b q) (hle : b ≤ b') : Small k b' q := ⟨h.1, h.2.1.trans hle, h.2.2⟩

theorem zero (hb : 0 ≤ b) : Small k b 0 := ⟨le_rfl, hb, 0, by simp⟩

/-- Below `10 ^ 19` nothing is rounded. -/
theorem ctxRound_eq (h : Small k b q) (hk : k ≤ 9) (hb : b < 10 ^ 19) : ctxRound 28 q = q := by
  obtain ⟨h0, hle, z, hz⟩ := h
  refine ctxRound_of_fits (k := k) ⟨z, hz, ?_⟩
  have hpow : (10 : ℚ) ^ k ≤ 10 ^ 9 := pow_le_pow_right₀ (by norm_num) hk
  have hz0 : (0 : ℚ) ≤ z := hz ▸ mul_nonneg h0 (by positivity)
  have hlt : (z : ℚ) < 10 ^ 28 :=
    calc (z : ℚ) = q * 10 ^ k := hz.symm
      _ ≤ q * 10 ^ 9 := mul_le_mul_of_nonneg_left hpow h0
      _ < 10 ^ 19 * 10 ^ 9 := mul_lt_mul_of_pos_right (hle.trans_lt hb) (by norm_num)
      _ = 10 ^ 28 := by norm_num
  rw [abs_of_nonneg (by exact_mod_cast hz0)]
  exact_mod_cast hlt

theorem add (hp : Small k b p) (hq : Small k b' q) (hk : k ≤ 9) (hb : b + b' < 10 ^ 19) :
    Small k (b + b') (decAdd p q) := by
  obtain ⟨hp0, hple, y, hy⟩ := hp
  obtain ⟨hq0, hqle, z, hz⟩ := hq
  have hsum : Small k (b + b') (p + q) :=
    ⟨add_nonneg hp0 hq0, add_le_add hple hqle, y + z, by push_cast; rw [add_mul, hy, hz]⟩
  rw [decAdd, hsum.ctxRound_eq hk hb]
  exact hsum

/-- Watt hours in kilowatt hours. -/
theorem kwh (h : Small 6 b q) (hb : b < 10 ^ 19) : Small 9 b (decDiv q 1000) := by
  obtain ⟨h0, hle, z, hz⟩ := h
  have hdiv : Small 9 b (q / 1000) :=
    ⟨by positivity, (div_le_self h0 (by norm_num)).trans hle, z, by rw [← hz]; ring⟩
  rw [decDiv, hdiv.ctxRound_eq le_rfl hb]
  exact hdiv

theorem round4 (h : Small k b q) (hb : b < 10 ^ 19) : ∃ v, Reporting.round4 q = .ok v := by
  have hnear : |q * 10 ^ 4 - roundHalfEven (q * 10 ^ 4)| ≤ 1 / 2 := (roundHalfEven_nearest _).dist_le
  have hq : q * 10 ^ 4 + 1 < 10 ^ 28 :=
    calc q * 10 ^ 4 + 1 ≤ 10 ^ 19 * 10 ^ 4 + 1 := by gcongr; exact (h.2.1.trans_lt hb).le
      _ < 10 ^ 28 := by norm_num
  have hbetween : ∀ x z : ℚ, |x - z| ≤ 1 / 2 → 0 ≤ x → x + 1 < 10 ^ 28 → -10 ^ 28 < z ∧ z < 10 ^ 28 := by
    intro x z hxz hx0 hx
    obtain ⟨hlow, hhigh⟩ := abs_le.mp hxz
    constructor
    · linarith
    · linarith
  obtain ⟨hlow, hhigh⟩ := hbetween _ _ hnear (mul_nonneg h.1 (by norm_num)) hq
  have hlt : |roundHalfEven (q * 10 ^ 4)| < 10 ^ 28 := abs_lt.mpr ⟨by exact_mod_cast hlow, by exact_mod_cast hhigh⟩
  exact ⟨_, if_pos hlt⟩

end Small

/-- The energies of the rows have the six decimals of their columns, and neither kind reaches
`10 ^ 19` in all. -/
structure Rows.Metered (rows : Rows) : Prop where
  wh : ∀ row ∈ rows.invoiced_rows, Small 6 row.energy_wh row.energy_wh
  kwh : ∀ row ∈ rows.unbilled_rows, Small 6 (row.energy_kwh.getD 0) (row.energy_kwh.getD 0)
  total_wh : (rows.invoiced_rows.map (·.energy_wh)).sum < 10 ^ 19
  total_kwh : (rows.unbilled_rows.map fun row => row.energy_kwh.getD 0).sum < 10 ^ 19

structure Figures.Metered (wh kwh : ℚ) (f : Figures) : Prop where
  wh : Small 6 wh f.energy_wh
  kwh : Small 6 kwh f.unbilled_operating_kwh

/-- Every energy of a report is bounded by those of the rows so far. -/
structure Report.Metered (wh kwh : ℚ) (r : Report) : Prop where
  totals : r.totals.Metered wh kwh
  items : ∀ item ∈ r.cp_map, item.figures.Metered wh kwh
  days : ∀ d ∈ r.daily_map, Small 9 wh d.kwh

namespace Report.Metered

variable {wh kwh wh' kwh' : ℚ} {r : Report}

theorem init {tz : Zone} {range : Stamp × Stamp} : (Report.init tz range).Metered 0 0 where
  totals := ⟨.zero le_rfl, .zero le_rfl⟩
  items := by simp [Report.init]
  days := by
    intro d hd
    obtain ⟨n, -, rfl⟩ := List.mem_map.mp hd
    exact .zero le_rfl

theorem post (h : r.Metered wh kwh) {place : Place} {f : Figures → Figures}
    (hf : ∀ x : Figures, x.Metered wh kwh → (f x).Metered wh' kwh') (hwh : wh ≤ wh') (hkwh : kwh ≤ kwh') :
    (r.post place f).Metered wh' kwh' where
  totals := hf _ h.totals
  items := by
    have hfresh : ({} : Figures).Metered wh kwh :=
      ⟨.zero (h.totals.wh.1.trans h.totals.wh.2.1), .zero (h.totals.kwh.1.trans h.totals.kwh.2.1)⟩
    exact Accumulate.forall_upsert h.items hfresh (fun _ hi => ⟨hi.wh.mono hwh, hi.kwh.mono hkwh⟩)
      fun item hitem => hf _ hitem
  days d hd := (h.days d hd).mono hwh

theorem plot (h : r.Metered wh kwh) {tz : Zone} {t : ℤ} {f : DailyAccumulator → DailyAccumulator}
    (hf : ∀ d, (f d).kwh = d.kwh) : (r.plot tz t f).Metered wh kwh :=
  ⟨h.totals, h.items, Table.forall_modify h.days fun d hd _ => by rw [hf]; exact h.days d hd⟩

theorem addInvoice (h : r.Metered wh kwh) {tz : Zone} {row : InvoicedRow} (hrow : Small 6 row.energy_wh row.energy_wh)
    (hb : wh + row.energy_wh < 10 ^ 19) : (r.addInvoice tz row).Metered (wh + row.energy_wh) kwh := by
  have hwh : 0 ≤ wh := h.totals.wh.1.trans h.totals.wh.2.1
  have hposted : (r.post row.place (·.addInvoice row)).Metered (wh + row.energy_wh) kwh :=
    h.post (fun x hx => ⟨hx.wh.add hrow (by norm_num) hb, hx.kwh⟩) (le_add_of_nonneg_right hrow.1) le_rfl
  refine ⟨hposted.totals, hposted.items, Table.forall_modify hposted.days fun d hd _ => ?_⟩
  exact (h.days d hd).add (hrow.kwh (by linarith)) le_rfl hb

theorem addUnbilled (h : r.Metered wh kwh) {row : UnbilledRow}
    (hrow : Small 6 (row.energy_kwh.getD 0) (row.energy_kwh.getD 0))
    (hb : kwh + row.energy_kwh.getD 0 < 10 ^ 19) : (r.addUnbilled row).Metered wh (kwh + row.energy_kwh.getD 0) := by
  refine h.post (fun x hx => ⟨hx.wh, ?_⟩) le_rfl (le_add_of_nonneg_right hrow.1)
  simp only [Figures.addUnbilled]
  cases hk : row.energy_kwh with
  | none => exact hx.kwh.mono (by simp)
  | some e =>
    rw [hk] at hrow hb
    exact hx.kwh.add hrow (by norm_num) hb

/-- A loop whose turns raise one bound by what they add. -/
theorem foldl {α : Type} (op : Report → α → Report) {e : α → ℚ} {P : ℚ → Report → Prop} {l : List α}
    (hop : ∀ r row b, row ∈ l → P b r → b + e row < 10 ^ 19 → P (b + e row) (op r row)) (h0 : ∀ row ∈ l, 0 ≤ e row) :
    ∀ {b : ℚ} {r : Report}, P b r → b + (l.map e).sum < 10 ^ 19 → P (b + (l.map e).sum) (l.foldl op r) := by
  induction l with
  | nil =>
    intro b r h _
    simpa using h
  | cons row l ih =>
    intro b r h hb
    rw [List.map_cons, List.sum_cons, ← add_assoc] at hb ⊢
    have hrest : 0 ≤ (l.map e).sum := List.sum_nonneg fun x hx => by
      obtain ⟨y, hy, rfl⟩ := List.mem_map.mp hx
      exact h0 y (List.mem_cons_of_mem _ hy)
    exact ih (fun r x b hx => hop r x b (List.mem_cons_of_mem _ hx)) (fun x hx => h0 x (List.mem_cons_of_mem _ hx))
      (hop r row b List.mem_cons_self h (by linarith)) hb

theorem process {tz : Zone} {rows : Rows} (h : r.Metered 0 0) (hrows : rows.Metered) :
    (r.process tz rows).Metered (rows.invoiced_rows.map (·.energy_wh)).sum
      (rows.unbilled_rows.map fun row => row.energy_kwh.getD 0).sum := by
  have hinvoiced := foldl (Report.addInvoice tz) (P := fun b r => Metered b 0 r)
    (fun _ row _ hrow h hb => h.addInvoice (hrows.wh row hrow) hb) (fun row hrow => (hrows.wh row hrow).1) h
    (by rw [zero_add]; exact hrows.total_wh)
  rw [zero_add] at hinvoiced
  have hdebits := List.foldlRecOn rows.debit_rows (Report.addDebit tz) hinvoiced fun _ h row _ =>
    (h.post (f := (·.addDebit row)) (fun x hx => ⟨hx.wh, hx.kwh⟩) le_rfl le_rfl).plot (f := (·.addDebit row))
      fun _ => rfl
  have hreservations := List.foldlRecOn rows.reservation_rows (Report.addReservation tz) hdebits fun _ h row _ =>
    (h.post (f := (·.addReservation row)) (fun x hx => ⟨hx.wh, hx.kwh⟩) le_rfl le_rfl).plot
      (f := (·.addReservation row)) fun _ => rfl
  have hunbilled := foldl Report.addUnbilled (P := fun b r => Metered _ b r)
    (fun _ row _ hrow h hb => h.addUnbilled (hrows.kwh row hrow) hb) (fun row hrow => (hrows.kwh row hrow).1)
    hreservations (by rw [zero_add]; exact hrows.total_kwh)
  rw [zero_add] at hunbilled
  exact hunbilled

end Report.Metered

theorem Figures.Metered.rounded {wh kwh : ℚ} {f : Figures} (h : f.Metered wh kwh) (hwh : wh < 10 ^ 19)
    (hkwh : kwh < 10 ^ 19) : ∃ s, f.rounded = .ok s := by
  obtain ⟨v, hv⟩ := (h.wh.kwh hwh).round4 hwh
  obtain ⟨w, hw⟩ := h.kwh.round4 hkwh
  exact ⟨_, Outcome.bind_eq_ok.mpr ⟨v, hv, Outcome.bind_eq_ok.mpr ⟨w, hw, rfl⟩⟩⟩

theorem revenueData_returns {tz : Zone} {range : Stamp × Stamp} {rows : Rows} (h : rows.Metered) :
    ∃ data, revenueData tz range rows = .ok data := by
  have hr : ((Report.init tz range).process tz rows).Metered _ _ := Report.Metered.init.process h
  obtain ⟨items, hitems⟩ := Outcome.mapM_ok (f := CPAccumulator.item) fun item hitem => by
    obtain ⟨f, hf⟩ := (hr.items item hitem).rounded h.total_wh h.total_kwh
    exact ⟨_, Outcome.bind_eq_ok.mpr ⟨f, hf, rfl⟩⟩
  obtain ⟨summary, hsummary⟩ := hr.totals.rounded h.total_wh h.total_kwh
  obtain ⟨days, hdays⟩ := Outcome.mapM_ok (f := DailyAccumulator.item)
    (l := ((Report.init tz range).process tz rows).daily_map.insertionSort fun a b => a.date ≤ b.date) fun d hd => by
      obtain ⟨v, hv⟩ := (hr.days d ((List.perm_insertionSort _ _).mem_iff.mp hd)).round4 h.total_wh
      exact ⟨_, Outcome.bind_eq_ok.mpr ⟨v, hv, rfl⟩⟩
  exact ⟨_, Outcome.bind_eq_ok.mpr ⟨items, hitems, Outcome.bind_eq_ok.mpr ⟨summary, hsummary,
    Outcome.bind_eq_ok.mpr ⟨days, hdays, rfl⟩⟩⟩⟩

/-! ## 6. The report -/

/-- A report from which nothing is missing: the summary is the sum of its items, which in sessions,
invoices, debits and reservation fees are those of the rows and of the entries; every date has one
entry; and when the invoices are consistent, each is exempt, settled or awaited. -/
structure Exact (tz : Zone) (range : Stamp × Stamp) (rows : Rows) (data : RevenueData) : Prop where
  items : data.summary.amounts = (data.cp_list.map (·.amounts)).sum
  days : data.summary.amounts.daily = (data.daily_timeline.map (·.daily)).sum
  posted : data.summary.amounts.daily = rows.daily
  nodup : (data.daily_timeline.map (·.date)).Nodup
  dates : ∀ text, text ∈ data.daily_timeline.map (·.date) ↔
    ∃ t, Covers tz range t ∧ text = isoformat (tz.localDate t)
  settled : (∀ row ∈ rows.invoiced_rows, row.Consistent) →
    data.summary.amounts.Settled ∧ ∀ item ∈ data.cp_list, item.amounts.Settled

namespace ReportLemmas

theorem rounded_amounts {f : Figures} {s : RevenueSummary} (h : f.rounded = .ok s) : s.amounts = f.amounts := by
  obtain ⟨kwh, -, h⟩ := Outcome.bind_eq_ok.mp h
  obtain ⟨unbilled_kwh, -, h⟩ := Outcome.bind_eq_ok.mp h
  cases h
  rfl

theorem item_amounts {a : CPAccumulator} {item : ChargePointRevenueItem} (h : a.item = .ok item) :
    item.amounts = a.figures.amounts := by
  obtain ⟨f, hf, h⟩ := Outcome.bind_eq_ok.mp h
  cases h
  exact rounded_amounts hf

theorem entry_daily {d d' : DailyAccumulator} (h : d.item = .ok d') : (d'.date, d'.daily) = (d.date, d.daily) := by
  obtain ⟨kwh, -, h⟩ := Outcome.bind_eq_ok.mp h
  cases h
  rfl

/-- What the results of a `mapM` have in common with its elements. -/
theorem map_of_mapM_ok {α β γ : Type} {f : α → Except ReportError β} {g : α → γ} {g' : β → γ} {l : List α}
    {bs : List β} (h : l.mapM f = .ok bs) (hf : ∀ a b, f a = .ok b → g' b = g a) : bs.map g' = l.map g := by
  have hall := Outcome.forall₂_of_mapM_ok h
  clear h
  induction hall with
  | nil => rfl
  | cons hab _ ih => rw [List.map_cons, List.map_cons, hf _ _ hab, ih]

/-- The report holds the accumulators, in another order. -/
theorem revenueData_spec {tz : Zone} {range : Stamp × Stamp} {rows : Rows} {data : RevenueData}
    (h : revenueData tz range rows = .ok data) :
    let r := (Report.init tz range).process tz rows
    data.summary.amounts = r.totals.amounts ∧
      (data.cp_list.map (·.amounts)).Perm (r.cp_map.map (·.figures.amounts)) ∧
      (data.daily_timeline.map fun d => (d.date, d.daily)).Perm (r.daily_map.map fun d => (d.date, d.daily)) := by
  obtain ⟨items, hitems, h⟩ := Outcome.bind_eq_ok.mp h
  obtain ⟨summary, hsummary, h⟩ := Outcome.bind_eq_ok.mp h
  obtain ⟨days, hdays, h⟩ := Outcome.bind_eq_ok.mp h
  cases h
  refine ⟨rounded_amounts hsummary, ?_, ?_⟩
  · rw [← map_of_mapM_ok hitems fun _ _ => item_amounts]
    exact (List.perm_insertionSort _ _).map _
  · rw [map_of_mapM_ok hdays fun _ _ => entry_daily]
    exact (List.perm_insertionSort _ _).map _

end ReportLemmas

open ReportLemmas

theorem revenueData_exact {c now : ℤ} {period : PeriodType} {date_from date_to : Option Date}
    {range : Stamp × Stamp} {rows : Rows} {data : RevenueData}
    (hrange : resolve_report_range (Zone.fixed c) period date_from date_to now = .ok range)
    (hrows : rows.Within (Zone.fixed c) range) (hdata : revenueData (Zone.fixed c) range rows = .ok data) :
    Exact (Zone.fixed c) range rows data := by
  obtain ⟨start_d, end_d, rfl⟩ := resolve_report_range_spec hrange
  obtain ⟨hsummary, hitems, hdays⟩ := revenueData_spec hdata
  have hbalanced := process_balanced hrows (.init : Balanced (Zone.fixed c) (start_d.midnight, end_d.midnight) _)
  have hdaily := process_daily (Zone.fixed c) rows (.init (Zone.fixed c) (start_d.midnight, end_d.midnight))
  have hdates : (data.daily_timeline.map (·.date)).Perm
      ((dates (Zone.fixed c) (start_d.midnight, end_d.midnight)).map isoformat) := by
    have := hdays.map Prod.fst
    rw [List.map_map, List.map_map] at this
    rw [← hbalanced.dates]
    exact this
  refine ⟨?_, ?_, ?_, ?_, ?_, ?_⟩
  · rw [hsummary, hbalanced.items, hitems.sum_eq]
  · have := hdays.map Prod.snd
    rw [List.map_map, List.map_map] at this
    rw [hsummary, hbalanced.days]
    exact this.sum_eq.symm
  · rw [hsummary]
    exact hdaily.trans (zero_add _)
  · exact hdates.nodup_iff.mpr nodup_isoformat
  · intro text
    rw [hdates.mem_iff, List.mem_map]
    constructor
    · rintro ⟨d, hd, rfl⟩
      have hlocal : (Zone.fixed c).localDate (d * DAY - c) = d := by
        simp only [Zone.localDate, Zone.wall, Zone.fixed, DAY]
        omega
      exact ⟨d * DAY - c, covers_iff.mpr (by rwa [hlocal]), by rw [hlocal]⟩
    · rintro ⟨t, ht, rfl⟩
      exact ⟨_, covers_iff.mp ht, rfl⟩
  · intro hconsistent
    have hinit : (Report.init (Zone.fixed c) (start_d.midnight, end_d.midnight)).Settled := ⟨rfl, by simp [Report.init]⟩
    have hsettled := @process_settled (Zone.fixed c) _ _ hconsistent hinit
    refine ⟨hsummary ▸ hsettled.totals, fun item hitem => ?_⟩
    obtain ⟨a, ha, heq⟩ := List.mem_map.mp (hitems.mem_iff.mp (List.mem_map_of_mem hitem))
    exact heq ▸ hsettled.items a ha

theorem selected_within {tz : Zone} {range : Stamp × Stamp} {place : Place → Bool} {db : Rows} :
    (db.selected tz range place).Within tz range where
  invoiced _ h := of_decide_eq_true (Bool.and_eq_true_iff.mp (List.mem_filter.mp h).2).2
  debits _ h := of_decide_eq_true (Bool.and_eq_true_iff.mp (List.mem_filter.mp h).2).2
  reservations _ h := of_decide_eq_true (Bool.and_eq_true_iff.mp (List.mem_filter.mp h).2).2
  unbilled _ h := of_decide_eq_true (Bool.and_eq_true_iff.mp (List.mem_filter.mp h).2).2

/-- The report of a query is exact for the rows that its conditions select. -/
theorem compute_revenue_data_exact {c now : ℤ} {station_owner : ℕ → Option ℕ} {db : Rows}
    {query : RevenueReportQuery} {owner_id : Option ℕ} {data : RevenueData}
    (h : _compute_revenue_data (Zone.fixed c) now station_owner db query owner_id = .ok data) :
    ∃ range, resolve_report_range (Zone.fixed c) query.period query.date_from query.date_to now = .ok range ∧
      Exact (Zone.fixed c) range (db.selected (Zone.fixed c) range (query.selects owner_id)) data := by
  obtain ⟨range, hrange, h⟩ := Outcome.bind_eq_ok.mp h
  refine ⟨range, hrange, revenueData_exact hrange selected_within ?_⟩
  split at h
  · split at h
    · cases h
    · exact h
  · exact h

/-- For every period, every dates and every rows of the range, a report is exact. It is returned unless
a sum of energies no longer fits the 28 digits of its decimals. -/
theorem revenue_report_exact {c now : ℤ} {period : PeriodType} {date_from date_to : Option Date}
    {range : Stamp × Stamp} {rows : Rows}
    (hrange : resolve_report_range (Zone.fixed c) period date_from date_to now = .ok range)
    (hrows : rows.Within (Zone.fixed c) range) :
    (∀ data, revenueData (Zone.fixed c) range rows = .ok data → Exact (Zone.fixed c) range rows data) ∧
      (rows.Metered → ∃ data, revenueData (Zone.fixed c) range rows = .ok data) :=
  ⟨fun _ => revenueData_exact hrange hrows, revenueData_returns⟩

namespace OneMonth

/-- The offset of the report zone, seven hours, and a February. -/
def offset : ℤ := 25200000000

def february : Stamp × Stamp := (.loc (739648 * DAY), .loc (739676 * DAY))

def place (charge_point_id : ℕ) : Place := ⟨1, "Trạm 1", 1, charge_point_id, "CP"⟩

/-- A paid and a partly paid invoice, the latter in the last minute of the month, the debits, a fee and a
session without a meter. -/
def rows : Rows where
  invoiced_rows := [⟨place 1, 739650 * DAY, 50000, some .debited, 12500, 50000, 0, 50000⟩,
    ⟨place 2, 739676 * DAY - offset - MINUTE, 30000, none, 7500, 20000, 10000, 10000⟩]
  debit_rows := [⟨place 1, 739650 * DAY, 50000⟩, ⟨place 2, 739676 * DAY - offset - 1, 10000⟩]
  reservation_rows := [⟨place 2, 739660 * DAY, 5000⟩]
  unbilled_rows := [⟨place 3, 739661 * DAY, none⟩]

end OneMonth

open OneMonth in
theorem revenue_report_exact_one_month :
    ∃ data, revenueData (Zone.fixed offset) february rows = .ok data ∧ Exact (Zone.fixed offset) february rows data := by
  have hrange : resolve_report_range (Zone.fixed offset) .month (some ⟨739661, by decide⟩) none (739700 * DAY) =
      .ok february := by decide +kernel
  have hwithin : rows.Within (Zone.fixed offset) february :=
    ⟨by decide +kernel, by decide +kernel, by decide +kernel, by decide +kernel⟩
  have hsmall : ∀ q : ℚ, 0 ≤ q → (q * 10 ^ 6).isInt → Small 6 q q := fun q hq hint =>
    ⟨hq, le_rfl, _, (Rat.eq_num_of_isInt hint)⟩
  have hmetered : rows.Metered := by
    refine ⟨fun row hrow => hsmall _ ?_ ?_, fun row hrow => hsmall _ ?_ ?_, by decide +kernel, by decide +kernel⟩
    · revert row
      decide +kernel
    · revert row
      decide +kernel
    · revert row
      decide +kernel
    · revert row
      decide +kernel
  obtain ⟨hexact, hreturns⟩ := revenue_report_exact hrange hwithin
  obtain ⟨data, hdata⟩ := hreturns hmetered
  exact ⟨data, hdata, hexact data hdata⟩

end Csms.Reporting
