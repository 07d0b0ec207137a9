import Csms.Charging.System

/-!
# Review reasons

Results:
1. `Later`: what a session keeps for good.
2. `review_reasons_block_billing`: which reasons may go, and that a session with one that stays is never
   billed or debited again.
-/

namespace Csms.Charging

open Tx Csms.Wallets Csms.Accounts Csms.Pricing
open SystemLemmas InvariantLemmas CallsLemmas
open Csms.Billing (InvoiceRow)

variable {A : Permits} {Z : Billing.Station → Prop} {now : ℤ} {env : Environment} {s s' : Database} {t t' : Core}
variable {c c' : Session}

/-! ## 1. What a session keeps -/

/-- `c'` is `c` at a later time. -/
structure Later (c c' : Session) : Prop where
  id : c'.id = c.id
  startWh : c'.meter_start_wh = c.meter_start_wh
  ended : ∀ stop, c.ended_at = some stop → c'.ended_at = some stop ∧ c'.meter_stop_wh = c.meter_stop_wh
  reasons : ∀ r ∈ c.review_reasons, r ∈ c'.review_reasons ∨ (r ∈ SETTLED_BY_STOP ∧ c.ended_at = none)

namespace Later

theorem refl (c : Session) : Later c c := ⟨rfl, rfl, fun _ h => ⟨h, rfl⟩, fun _ h => .inl h⟩

theorem trans {c'' : Session} (h : Later c c') (h' : Later c' c'') : Later c c'' where
  id := h'.id.trans h.id
  startWh := h'.startWh.trans h.startWh
  ended stop he :=
    have h1 := h.ended stop he
    have h2 := h'.ended stop h1.1
    ⟨h2.1, h2.2.trans h1.2⟩
  reasons r hr := by
    rcases h.reasons r hr with hr' | hgone
    · rcases h'.reasons r hr' with hr'' | ⟨hset, hopen⟩
      · exact .inl hr''
      -- a session that is open later was open before
      · refine .inr ⟨hset, ?_⟩
        cases hend : c.ended_at with
        | none => rfl
        | some stop => exact nomatch (h.ended stop hend).1.symm.trans hopen
    · exact .inr hgone

theorem of_reviewed (h : Reviewed c c') : Later c c' where
  id := h.get (·.id) fun _ _ => rfl
  startWh := h.get (·.meter_start_wh) fun _ _ => rfl
  ended _ he := ⟨(h.get (·.ended_at) fun _ _ => rfl).trans he, h.get (·.meter_stop_wh) fun _ _ => rfl⟩
  reasons _ hr := .inl (h.reasons hr)

theorem of_evolve (h : Evolve c c') : Later c c' where
  id := h.id
  startWh := h.get (·.meter_start_wh) fun _ _ _ _ _ _ _ _ _ _ _ _ => rfl
  ended stop he := (of_reviewed (h.reviewed (by rw [he]; nofun))).ended stop he
  reasons _ hr := h.mem_reasons hr

theorem of_view {id : ℕ} {stamp : Option ℤ} {old l : List Interval} {o : Occupied} (h : View id stamp c old o l) :
    Later c o.session where
  id := h.get (·.id) fun _ _ _ _ => rfl
  startWh := h.get (·.meter_start_wh) fun _ _ _ _ => rfl
  ended _ he := ⟨(h.get (·.ended_at) fun _ _ _ _ => rfl).trans he, h.get (·.meter_stop_wh) fun _ _ _ _ => rfl⟩
  reasons _ hr := .inl (h.reasons hr)

theorem of_stop {payload : StopPayload} {latest : Option ℚ} (hopen : c.ended_at = none)
    (h : Reviewed (withStop payload c) c') : Later c (finishStop payload latest c') where
  id := (Kept.of_stop h).id
  startWh := (finishStop_get (·.meter_start_wh) (fun _ _ _ _ => rfl) payload latest c').trans
    (h.get (·.meter_start_wh) fun _ _ => rfl)
  ended _ he := nomatch hopen.symm.trans he
  reasons _ hr := (finishStop_reasons payload latest (h.reasons hr)).imp_right fun hset => ⟨hset, hopen⟩

end Later

namespace ReasonsLemmas

/-- One session is written. -/
theorem later_saveSession (h : CoreOk t) (hc : c ∈ t.sessions) (hl : Later c c') {x : Session}
    (hx : x ∈ t.sessions) : ∃ x' ∈ (t.saveSession c').sessions, Later x x' := by
  by_cases hid : x.id = c'.id
  · obtain rfl := h.eq hc hx (hid.trans hl.id).symm
    exact ⟨c', Table.mem_modify.mpr ⟨c, hc, by rw [if_pos hid]⟩, hl⟩
  · exact ⟨x, Table.mem_modify.mpr ⟨x, hx, by rw [if_neg hid]⟩, .refl x⟩

theorem move_later (h : CoreOk t) (hm : Move A Z now t t') {x : Session} (hx : x ∈ t.sessions) :
    ∃ x' ∈ t'.sessions, Later x x' := by
  cases hm with
  | seqs | connectors | invoice | tariffs | wallet => exact ⟨x, hx, .refl x⟩
  | sessions f evolve => exact ⟨f x, List.mem_map_of_mem hx, .of_evolve (evolve x hx)⟩
  | insert c fresh id => exact ⟨x, List.mem_append_left _ hx, .refl x⟩
  | store seq c c' rows blocks backfill mem takes stored numeric =>
    exact later_saveSession h mem (.of_reviewed (storeSamples_frame stored).1) hx
  | stop seq payload c c' rows backfill latest mem opened stored numeric =>
    exact later_saveSession h mem (.of_stop opened (storeSamples_frame stored).1) hx
  | status status stamp c events mem version unbilled unreleased since latest =>
    obtain ⟨l, hv⟩ := status_view h mem version unreleased latest status events
    obtain ⟨intervals, seq, -, hflush⟩ := Core.flush_eq _ t
    rw [hflush]
    exact later_saveSession h mem (.of_view hv) hx
  | stopped c ended_at mem version unbilled ended =>
    have hview : View t.interval_seq none c (t.intervalsOf c.id)
        ⟨c, (t.intervalsOf c.id).getLast?, []⟩ (t.intervalsOf c.id) := .start (h.occupation c mem version) []
    obtain ⟨l, hv⟩ := stopped_view hview ended_at
    obtain ⟨intervals, seq, -, hflush⟩ := Core.flush_eq _ t
    rw [hflush]
    exact later_saveSession h mem (.of_view hv) hx
  | settle c i w mem clean billed session unsettled paid =>
    have hl : Later c { c with settlement := some (if i.total_vnd = 0 then .zero_invoice else .debited) } :=
      ⟨rfl, rfl, fun _ he => ⟨he, rfl⟩, fun _ hr => .inl hr⟩
    exact later_saveSession h mem hl hx

theorem moves_later (h : CoreOk t) (hm : Moves A Z now t t') {x : Session} (hx : x ∈ t.sessions) :
    ∃ x' ∈ t'.sessions, Later x x' := by
  induction hm with
  | refl => exact ⟨x, hx, .refl x⟩
  | tail hms hm ih =>
    obtain ⟨y, hy, hxy⟩ := ih
    obtain ⟨z, hz, hyz⟩ := move_later (Moves.ok h hms) hm hy
    exact ⟨z, hz, hxy.trans hyz⟩

/-! ## 2. Sessions that stay in review -/

/-- The session has a reason that no stop settles, or one and has ended. -/
def Blocked (t : Core) (session_id : ℕ) : Prop :=
  ∃ c ∈ t.sessions, c.id = session_id ∧ ∃ r ∈ c.review_reasons, r ∈ SETTLED_BY_STOP → c.ended_at ≠ none

theorem move_blocked (h : CoreOk t) (hm : Move A Z now t t') {session_id : ℕ} (hb : Blocked t session_id) :
    Blocked t' session_id := by
  obtain ⟨c, hc, hid, r, hr, hkeep⟩ := hb
  obtain ⟨c', hc', hl⟩ := move_later h hm hc
  refine ⟨c', hc', hl.id.trans hid, r, ?_, fun hset => ?_⟩
  · rcases hl.reasons r hr with hr' | ⟨hset, hopen⟩
    · exact hr'
    · exact absurd hopen (hkeep hset)
  · obtain ⟨stop, hstop⟩ := Option.ne_none_iff_exists'.mp (hkeep hset)
    rw [(hl.ended stop hstop).1]
    nofun

/-- A new invoice is for a session without reasons. -/
theorem move_invoices (hm : Move A Z now t t') {i : InvoiceRow} (hi : i ∈ t'.invoices) :
    i ∈ t.invoices ∨ ∃ c ∈ t.sessions, c.review_reasons = [] ∧ i.session_id = c.id := by
  cases hm with
  | seqs | sessions | insert | store | stop | connectors | tariffs | wallet | settle => exact .inl hi
  | status status stamp c events | stopped c ended_at =>
    obtain ⟨intervals, seq, -, hflush⟩ := Core.flush_eq _ t
    rw [hflush] at hi
    exact .inl hi
  | invoice tables new_id c stop row b mem clean ended unbilled released samples intervals stations created =>
    obtain ⟨k, hrow, -, rfl⟩ := wp_ok (Billing._create_invoice_ok tables new_id now _ stop _) created
    rcases List.mem_append.mp hi with hi | hi
    · exact .inl hi
    · rw [List.mem_singleton.mp hi, hrow]
      exact .inr ⟨c, mem, clean, rfl⟩

/-- What is billed and debited for a session. -/
structure Frozen (session_id : ℕ) (t t' : Core) : Prop where
  invoices : ∀ i ∈ t'.invoices, i.session_id = session_id → i ∈ t.invoices
  debits : ∀ row ∈ t'.wallet.wallet_ledger, row.key = (.charging_debit, toString session_id) →
    row ∈ t.wallet.wallet_ledger

theorem move_frozen (h : CoreOk t) (hm : Move NotDebit Z now t t') {session_id : ℕ} (hb : Blocked t session_id) :
    Frozen session_id t t' := by
  obtain ⟨c, hc, hid, r, hr, -⟩ := hb
  have hclean : ∀ a ∈ t.sessions, a.review_reasons = [] → a.id ≠ session_id := by
    intro a ha hnil haid
    rw [h.eq ha hc (haid.trans hid.symm)] at hnil
    rw [hnil] at hr
    cases hr
  refine ⟨fun i hi hiid => ?_, fun row hrow hkey => ?_⟩
  · rcases move_invoices hm hi with hi' | ⟨a, ha, hnil, haid⟩
    · exact hi'
    · exact absurd (haid.symm.trans hiid) (hclean a ha hnil)
  · rcases move_wallet hm with hq | ⟨key, ref, he, hposted⟩
    · exact hq.ledger ▸ hrow
    rcases he.mem hrow with hmem | ⟨hk, -⟩
    · exact hmem
    · rw [hk] at hkey
      obtain ⟨a, ha, hnil, haid⟩ := hposted.resolve_left (fun hno => hno (congrArg Prod.fst hkey))
      have haid : key.2 = toString a.id := congrArg Prod.snd haid
      have heq : toString a.id = toString session_id := haid.symm.trans (congrArg Prod.snd hkey)
      exact absurd (Text.toString_inj.mp heq) (hclean a ha hnil)

theorem moves_frozen (h : CoreOk t) (hm : Moves NotDebit Z now t t') {session_id : ℕ} (hb : Blocked t session_id) :
    Blocked t' session_id ∧ Frozen session_id t t' := by
  induction hm with
  | refl => exact ⟨hb, fun _ hi _ => hi, fun _ hr _ => hr⟩
  | tail hms hm ih =>
    obtain ⟨hb', hf⟩ := ih
    have hok := Moves.ok h hms
    have hf' := move_frozen hok hm hb'
    exact ⟨move_blocked hok hm hb', fun i hi hid => hf.invoices i (hf'.invoices i hi hid) hid,
      fun row hr hk => hf.debits row (hf'.debits row hr hk) hk⟩

theorem reach_frozen (h : Reach Z s s') (hs : Sound s) {session_id : ℕ} (hb : Blocked s.core session_id) :
    Blocked s'.core session_id ∧ Frozen session_id s.core s'.core := by
  induction h with
  | refl => exact ⟨hb, fun _ hi _ => hi, fun _ hr _ => hr⟩
  | tail hreach hstep ih =>
    obtain ⟨env, hz, hstep⟩ := hstep
    obtain ⟨hb', hf⟩ := ih
    have hs' := Reach.sound hreach hs
    obtain ⟨hb'', hf'⟩ := moves_frozen hs'.core (hstep.moves hs' hz) hb'
    exact ⟨hb'', fun i hi hid => hf.invoices i (hf'.invoices i hi hid) hid,
      fun row hr hk => hf.debits row (hf'.debits row hr hk) hk⟩

end ReasonsLemmas

open ReasonsLemmas

/-- The reasons that a step takes from a session are ones that a stop settles, and the session was open
before the step. A session with another reason is never billed or debited again. -/
theorem review_reasons_block_billing {s₀ : Database} (sound : Sound s₀) (reach : Reach Z s₀ s) :
    (∀ env s', Admits Z env → Step env s s' → ∀ c ∈ s.charging_sessions, ∃ c' ∈ s'.charging_sessions,
      c'.id = c.id ∧ ∀ r ∈ c.review_reasons, r ∉ c'.review_reasons →
        r ∈ ["offline_timeout", "available_with_open_session", "remote_stop_not_confirmed"] ∧
        c.ended_at = none) ∧
    ∀ c ∈ s.charging_sessions, (∃ r ∈ c.review_reasons,
        r ∉ ["offline_timeout", "available_with_open_session", "remote_stop_not_confirmed"]) →
      ∀ s', Reach Z s s' → (∀ i ∈ s'.invoices, i.session_id = c.id → i ∈ s.invoices) ∧
        ∀ row ∈ s'.books.wallet.wallet_ledger, row.key = (.charging_debit, toString c.id) →
          row ∈ s.books.wallet.wallet_ledger := by
  have hs := Reach.sound reach sound
  refine ⟨fun env s' hz hstep c hc => ?_, fun c hc hr s' hreach => ?_⟩
  · obtain ⟨c', hc', hl⟩ := moves_later hs.core (hstep.moves hs hz) hc
    exact ⟨c', hc', hl.id, fun r hr hgone => (hl.reasons r hr).resolve_left hgone⟩
  · obtain ⟨r, hr, hkeep⟩ := hr
    obtain ⟨-, hf⟩ := reach_frozen hreach hs ⟨c, hc, rfl, r, hr, fun hset => absurd hset hkeep⟩
    exact ⟨hf.invoices, hf.debits⟩

/-- A session whose meter fell back is never billed. -/
theorem review_reasons_block_regression : Sound (OneSession.charging ["meter_regression"]) ∧
    ∀ s', Reach (fun _ => True) (OneSession.charging ["meter_regression"]) s' →
      (∀ i ∈ s'.invoices, i.session_id ≠ 0) ∧
      ∀ row ∈ s'.books.wallet.wallet_ledger, row.key ≠ (.charging_debit, toString 0) := by
  have hsound := OneSession.charging_sound ["meter_regression"]
  refine ⟨hsound, fun s' hreach => ?_⟩
  have hblock := (review_reasons_block_billing hsound .refl).2 (OneSession.session ["meter_regression"])
    (List.mem_singleton_self _) ⟨"meter_regression", List.mem_singleton_self _, by decide⟩ s' hreach
  exact ⟨fun i hi hid => absurd (hblock.1 i hi hid) List.not_mem_nil,
    fun row hrow hkey => absurd (hblock.2 row hrow hkey) List.not_mem_nil⟩

end Csms.Charging
