import Csms.Charging.System
import Csms.Lib.Keyset

/-!
# The closure scan (`billing/closure.py`)

`scan_unsettled_sessions` visits the ended sessions that are not settled, page by page and each in a
transaction of its own, while other workers settle and lock them.
-/

namespace Csms.Charging

open Tx Csms.Wallets
open Csms.Billing (InvoiceStatus InvoiceResult)

/-! ## 1. The code -/

/-- Where a statement of the scan raises: in the query of a page, before the row of a candidate is locked,
inside `chot_phien`, or in the commit of the transaction. -/
inductive Failure where
  | page | lock | closure | commit
  deriving DecidableEq, Repr

/-- What happens around the scan. Before its `n`-th transaction the other workers change the tables, also
with the effects of a commit that was not acknowledged; `locked n` are the rows they then hold. -/
structure Surroundings where
  others : ℕ → Database → Database
  locked : ℕ → ℕ → Bool
  failure : ℕ → Option Failure
  env : ℕ → Environment
  hidden : ℕ → List ℕ
  new_id : ℕ → Uuid

structure ScanResult where
  scanned : ℕ := 0
  ready : ℕ := 0
  needs_review : ℕ := 0
  pending : ℕ := 0
  busy : ℕ := 0
  failed : ℕ := 0
  deriving DecidableEq, Repr

/-- The predicate of both queries. -/
def Session.unsettled (c : Session) : Bool := c.ended_at ≠ none && c.settlement = none

/-- The sessions that the predicate selects. -/
def unsettledIds (s : Database) : List ℕ := (s.charging_sessions.filter (·.unsettled)).map (·.id)

/-- The `n`-th transaction of a scan visited a candidate, with these tables. -/
structure Visit where
  number : ℕ
  session_id : ℕ
  tables : Database

/-- A scan. The visits, and the tables that its pages were cut from, are recorded. -/
structure Scan where
  db : Database
  number : ℕ := 0
  cursor : ℕ := 0
  result : ScanResult := {}
  visits : List Visit := []
  pages : List Database := []

/-- The row of the candidate, which is locked unless another worker holds it. -/
def lockable (w : Surroundings) (v : Visit) : Bool :=
  decide (v.session_id ∈ unsettledIds v.tables) && !w.locked v.number v.session_id

def ScanResult.count (status : InvoiceStatus) (r : ScanResult) : ScanResult :=
  match status with
  | .ready => { r with ready := r.ready + 1 }
  | .needs_review => { r with needs_review := r.needs_review + 1 }
  | .pending => { r with pending := r.pending + 1 }

def ScanResult.fail (r : ScanResult) : ScanResult := { r with failed := r.failed + 1 }

/-- The `try` statement of a candidate: what is counted, and the tables. `busy` is counted inside of the
transaction, which is then still to be committed. -/
def closeCandidate (w : Surroundings) (settle : Bool) (v : Visit) (r : ScanResult) : ScanResult × Database :=
  let failure := w.failure v.number
  if failure = some .lock then (r.fail, v.tables)
  else if lockable w v = false then
    let r := { r with busy := r.busy + 1 }
    (if failure = some .commit then r.fail else r, v.tables)
  else
    match chot_phien (w.env v.number) (w.hidden v.number) (w.new_id v.number) v.session_id settle v.tables with
    | (.error _, s') => (r.fail, v.tables.rollback s')
    | (.ok outcome, s') =>
      if failure = some .closure ∨ failure = some .commit then (r.fail, v.tables.rollback s')
      else (r.count outcome.status, s')

/-- One turn of the `for` loop. -/
def visit (w : Surroundings) (settle : Bool) (st : Scan) (session_id : ℕ) : Scan :=
  let v : Visit := ⟨st.number, session_id, w.others st.number st.db⟩
  let closed := closeCandidate w settle v { st.result with scanned := st.result.scanned + 1 }
  { st with db := closed.2, number := st.number + 1, result := closed.1, visits := st.visits ++ [v] }

inductive Ending where
  | returned | raised
  deriving DecidableEq, Repr

/-- The `while` loop. The query of a page is outside of every `try`. -/
def scanPages (w : Surroundings) (batch_size : ℕ) (settle : Bool) : ℕ → Scan → Option (Ending × Scan)
  | 0, _ => none
  | fuel + 1, st =>
    let db := w.others st.number st.db
    let st := { st with db := db, number := st.number + 1, pages := st.pages ++ [db] }
    if w.failure (st.number - 1) = some .page then some (.raised, st)
    else
      let identifiers := Keyset.page (unsettledIds db) st.cursor batch_size
      match identifiers.getLast? with
      | none => some (.returned, st)
      | some cursor => scanPages w batch_size settle fuel (identifiers.foldl (visit w settle) { st with cursor := cursor })

def scan_unsettled_sessions (w : Surroundings) (batch_size : ℕ) (settle : Bool) (fuel : ℕ) (s : Database) :
    Option (Ending × Scan) :=
  if batch_size < 1 then some (.raised, { db := s }) else scanPages w batch_size settle fuel { db := s }

/-! ## 2. No session is added or removed by a closure -/

def Database.sessionIds (s : Database) : List ℕ := s.charging_sessions.map (·.id)

namespace ClosureScanLemmas

/-- A call keeps the ids of the sessions. -/
def KeepsIds (x : ChargingTx α) (s : Database) : Prop :=
  wp x (fun _ s' => s'.sessionIds = s.sessionIds) (fun _ s' => s'.sessionIds = s.sessionIds) s

theorem saveSession_ids (c : Session) (s : Database) : (saveSession c s).sessionIds = s.sessionIds :=
  Table.map_key_modify fun _ _ _ => rfl

theorem lap_hoa_don_ids (env : Environment) (session_id : ℕ) (s : Database) :
    KeepsIds (lap_hoa_don env session_id) s := by
  unfold KeepsIds lap_hoa_don
  rw [wp_bind, wp_read, wp_zoom]
  refine wp_mono (Billing.lap_hoa_don_outcome _ env.new_id env.now session_id s.billing)
    (fun r b hb => ?_) fun e b hb => ?_
  swap
  · rw [hb, CallsLemmas.putBilling_same]
  cases hb.1 with
  | same r => rw [CallsLemmas.putBilling_same]
  | rejected charging reason hfound hclean =>
    rw [CallsLemmas.putBilling_review]
    simp only [Database.sessionIds, rejectedFor, List.map_map]
    refine List.map_congr_left fun c _ => ?_
    rw [Function.comp_apply]
    split <;> rfl
  | created charging stop row b' hfound hclean hended hreleased hunbilled hcreated =>
    obtain ⟨k, -, -, hs'⟩ := wp_ok (Billing._create_invoice_ok _ _ _ _ _ _) hcreated
    have hsame : (Database.putBilling b s).charging_sessions = s.charging_sessions := by
      have := congrArg Database.charging_sessions (CallsLemmas.putBilling_same s)
      simpa only [Database.putBilling, hs'] using this
    exact congrArg (List.map (·.id)) hsame

theorem settleInvoice_ids (hidden : List ℕ) (new_id : Uuid) (c : Session) (i : Billing.InvoiceRow)
    (outcome : InvoiceResult) (s : Database) : KeepsIds (settleInvoice hidden new_id c i outcome) s := by
  unfold KeepsIds settleInvoice
  simp only [wp_bind, wp_read]
  split
  · exact saveSession_ids _ _
  split
  · refine wp_bind.mpr (wp_mono (CallsLemmas.debit_spec hidden new_id i) (fun _ s' hs' => ?_) fun _ s' hs' => ?_)
    · obtain ⟨w, rfl, -⟩ := hs'
      exact saveSession_ids _ _
    · obtain ⟨w, rfl, -⟩ := hs'
      rfl
  · exact saveSession_ids _ _

theorem chot_phien_ids (env : Environment) (hidden : List ℕ) (new_id : Uuid) (session_id : ℕ) (settle : Bool)
    (s : Database) : KeepsIds (chot_phien env hidden new_id session_id settle) s := by
  unfold KeepsIds chot_phien
  simp only [wp_bind, wp_read]
  split
  · exact lap_hoa_don_ids env session_id s
  split
  · exact lap_hoa_don_ids env session_id s
  refine wp_bind.mpr (wp_mono (lap_hoa_don_ids env session_id s) (fun r s' hs' => ?_) fun _ _ h => h)
  split
  · split
    · exact wp_mono (settleInvoice_ids hidden new_id _ _ r s') (fun _ _ h => h.trans hs') fun _ _ h => h.trans hs'
    · exact hs'
  · exact hs'

theorem closeCandidate_ids (w : Surroundings) (settle : Bool) (v : Visit) (r : ScanResult) :
    (closeCandidate w settle v r).2.sessionIds = v.tables.sessionIds := by
  have hrun := wp_state (chot_phien_ids (w.env v.number) (w.hidden v.number) (w.new_id v.number) v.session_id settle
    v.tables)
  simp only [closeCandidate]
  split
  · rfl
  split
  · rfl
  split
  · rfl
  · next outcome s' hclosed =>
    rw [hclosed] at hrun
    split
    · rfl
    · exact hrun

end ClosureScanLemmas

/-! ## 3. Counters -/

def ScanResult.outcomes (r : ScanResult) : ℕ := r.ready + r.needs_review + r.pending + r.busy + r.failed

/-- The row of the candidate was not available, and the commit then failed: two counters. -/
def CountedTwice (w : Surroundings) (v : Visit) : Prop := w.failure v.number = some .commit ∧ lockable w v = false

instance (w : Surroundings) (v : Visit) : Decidable (CountedTwice w v) := inferInstanceAs (Decidable (_ ∧ _))

/-- What a scan does to the sessions, and what it returns. -/
structure CoversOnce (ending : Ending) (st : Scan) : Prop where
  once : (st.visits.map (·.session_id)).Nodup
  covered : ending = .returned → ∀ id, (∀ s ∈ st.pages, id ∈ unsettledIds s) → id ∈ st.visits.map (·.session_id)
  balanced : ending = .returned → st.result.scanned =
    st.result.ready + st.result.needs_review + st.result.pending + st.result.busy + st.result.failed

namespace ClosureScanLemmas

variable {w : Surroundings} {batch_size : ℕ} {base : List ℕ} {st : Scan}

theorem count_outcomes (status : InvoiceStatus) (r : ScanResult) :
    (r.count status).outcomes = r.outcomes + 1 ∧ (r.count status).scanned = r.scanned := by
  cases status <;> refine ⟨?_, rfl⟩ <;> simp only [ScanResult.count, ScanResult.outcomes] <;> omega

theorem fail_outcomes (r : ScanResult) : r.fail.outcomes = r.outcomes + 1 ∧ r.fail.scanned = r.scanned := by
  refine ⟨?_, rfl⟩
  simp only [ScanResult.fail, ScanResult.outcomes]
  omega

/-- A candidate is counted once, or twice. -/
theorem closeCandidate_outcomes (settle : Bool) (v : Visit) (r : ScanResult) :
    (closeCandidate w settle v r).1.outcomes = r.outcomes + 1 + (if CountedTwice w v then 1 else 0) ∧
      (closeCandidate w settle v r).1.scanned = r.scanned := by
  simp only [closeCandidate]
  split
  · next hlock =>
    rw [if_neg (by simp [CountedTwice, hlock])]
    exact fail_outcomes r
  split
  · next hbusy =>
    by_cases hcommit : w.failure v.number = some .commit
    · rw [if_pos hcommit, if_pos ⟨hcommit, hbusy⟩]
      refine ⟨?_, rfl⟩
      simp only [ScanResult.fail, ScanResult.outcomes]
      omega
    · rw [if_neg hcommit, if_neg fun h => hcommit h.1]
      refine ⟨?_, rfl⟩
      simp only [ScanResult.outcomes]
      omega
  next hlocked =>
  rw [if_neg fun h : CountedTwice w v => hlocked h.2]
  split
  · exact fail_outcomes r
  split
  · exact fail_outcomes r
  · exact count_outcomes _ r

/-! ## 4. Runs -/

/-- What holds of a scan before each page. `base` are the sessions at its start. -/
structure Progress (w : Surroundings) (base : List ℕ) (st : Scan) : Prop where
  tables : st.db.sessionIds.Subperm base
  ordered : (st.visits.map (·.session_id)).Pairwise (· < ·)
  bounded : ∀ id ∈ st.visits.map (·.session_id), id ≤ st.cursor
  covered : ∀ id, 0 < id → (∀ s ∈ st.pages, id ∈ unsettledIds s) → id ≤ st.cursor → id ∈ st.visits.map (·.session_id)
  counted : st.result.outcomes = st.result.scanned + st.visits.countP (CountedTwice w ·)

theorem unsettledIds_sublist (s : Database) : (unsettledIds s).Sublist s.sessionIds :=
  List.filter_sublist.map _

theorem nodup_of_subperm {l l' : List ℕ} (h : l.Subperm l') (hnodup : l'.Nodup) : l.Nodup := by
  obtain ⟨l₀, hperm, hsub⟩ := h
  exact hperm.nodup_iff.mp (hnodup.sublist hsub)

/-- The candidates of a page. -/
theorem foldl_visit (settle : Bool) (hothers : ∀ n s, (w.others n s).sessionIds.Subperm s.sessionIds) (ids : List ℕ)
    (htables : st.db.sessionIds.Subperm base)
    (hcounted : st.result.outcomes = st.result.scanned + st.visits.countP (CountedTwice w ·)) :
    ∃ st', ids.foldl (visit w settle) st = st' ∧ st'.cursor = st.cursor ∧ st'.pages = st.pages ∧
      st'.visits.map (·.session_id) = st.visits.map (·.session_id) ++ ids ∧ st'.db.sessionIds.Subperm base ∧
      st'.result.outcomes = st'.result.scanned + st'.visits.countP (CountedTwice w ·) := by
  induction ids generalizing st with
  | nil => exact ⟨st, rfl, rfl, rfl, (List.append_nil _).symm, htables, hcounted⟩
  | cons id ids ih =>
    let v : Visit := ⟨st.number, id, w.others st.number st.db⟩
    let r : ScanResult := { st.result with scanned := st.result.scanned + 1 }
    have htables' : (visit w settle st id).db.sessionIds.Subperm base := by
      change (closeCandidate w settle v r).2.sessionIds.Subperm base
      rw [closeCandidate_ids]
      exact (hothers _ _).trans htables
    have hcounted' : (visit w settle st id).result.outcomes =
        (visit w settle st id).result.scanned + (visit w settle st id).visits.countP (CountedTwice w ·) := by
      obtain ⟨houtcomes, hscanned⟩ := closeCandidate_outcomes settle v r
      change (closeCandidate w settle v r).1.outcomes =
        (closeCandidate w settle v r).1.scanned + (st.visits ++ [v]).countP (CountedTwice w ·)
      have hr : r.outcomes = st.result.outcomes := rfl
      have hs : r.scanned = st.result.scanned + 1 := rfl
      rw [houtcomes, hscanned, List.countP_append, List.countP_singleton, hr, hs, hcounted]
      simp only [decide_eq_true_eq]
      omega
    obtain ⟨st', hfold, hcursor, hpages, hvisits, hrest⟩ := ih htables' hcounted'
    refine ⟨st', hfold, hcursor, hpages, hvisits.trans ?_, hrest⟩
    simp [visit]

/-- The tables that a page is cut from. -/
def fetch (w : Surroundings) (st : Scan) : Scan :=
  { st with
    db := w.others st.number st.db
    number := st.number + 1
    pages := st.pages ++ [w.others st.number st.db] }

theorem Progress.fetched (h : Progress w base st)
    (hothers : ∀ n s, (w.others n s).sessionIds.Subperm s.sessionIds) : Progress w base (fetch w st) where
  tables := (hothers _ _).trans h.tables
  ordered := h.ordered
  bounded := h.bounded
  covered id hpos hid := h.covered id hpos fun s hs => hid s (List.mem_append_left _ hs)
  counted := h.counted

/-- A page that is not empty. The cursor moves to a session that the scan started with. -/
theorem Progress.page (settle : Bool) (h : Progress w base st) (hbase : base.Nodup)
    (hothers : ∀ n s, (w.others n s).sessionIds.Subperm s.sessionIds) {cursor : ℕ}
    (hlast : (Keyset.page (unsettledIds (fetch w st).db) st.cursor batch_size).getLast? = some cursor) :
    Progress w base ((Keyset.page (unsettledIds (fetch w st).db) st.cursor batch_size).foldl (visit w settle)
        { fetch w st with cursor := cursor }) ∧
      ((Keyset.page (unsettledIds (fetch w st).db) st.cursor batch_size).foldl (visit w settle)
        { fetch w st with cursor := cursor }).cursor = cursor ∧ st.cursor < cursor ∧ cursor ∈ base := by
  have hf := h.fetched hothers
  set ids := Keyset.page (unsettledIds (fetch w st).db) st.cursor batch_size with hids
  have hnodup : (unsettledIds (fetch w st).db).Nodup :=
    (nodup_of_subperm hf.tables hbase).sublist (unsettledIds_sublist _)
  have hsorted : ids.Pairwise (· < ·) := Keyset.page_sorted hnodup
  have hmem : cursor ∈ ids := List.mem_of_getLast? hlast
  obtain ⟨hunsettled, hcursor⟩ := Keyset.mem_of_mem_page hmem
  obtain ⟨st', hfold, hcursor', hpages, hvisits, htables, hcounted⟩ :=
    @foldl_visit w base { fetch w st with cursor := cursor } settle hothers ids hf.tables hf.counted
  rw [hfold]
  refine ⟨⟨htables, ?_, ?_, ?_, hcounted⟩, hcursor', hcursor, hf.tables.subset ((unsettledIds_sublist _).subset hunsettled)⟩
  · rw [hvisits]
    refine List.pairwise_append.mpr ⟨hf.ordered, hsorted, fun a ha b hb => ?_⟩
    exact (h.bounded a ha).trans_lt (Keyset.mem_of_mem_page hb).2
  · rw [hvisits, hcursor']
    intro id hid
    rcases List.mem_append.mp hid with hid | hid
    · exact (h.bounded id hid).trans hcursor.le
    · -- the last one of the page is its largest
      obtain ⟨front, hfront⟩ := List.getLast?_eq_some_iff.mp hlast
      rw [hfront] at hid hsorted
      rcases List.mem_append.mp hid with hid | hid
      · exact ((List.pairwise_append.mp hsorted).2.2 id hid cursor (List.mem_singleton_self _)).le
      · exact (List.mem_singleton.mp hid).le
  · rw [hvisits, hcursor', hpages]
    intro id hpos hthroughout hle
    rcases le_or_gt id st.cursor with hold | hnew
    · exact List.mem_append_left _ (hf.covered id hpos hthroughout hold)
    · have hid := hthroughout (fetch w st).db (List.mem_append_right _ (List.mem_singleton_self _))
      exact List.mem_append_right _ (Keyset.mem_page_of_le hid hnew hmem hle)

/-- With more turns than there are sessions behind the cursor the loop ends, and no session is left behind the
cursor that was there for every page. -/
theorem scanPages_ends (settle : Bool) (hbatch : 1 ≤ batch_size) (hbase : base.Nodup)
    (hothers : ∀ n s, (w.others n s).sessionIds.Subperm s.sessionIds) (fuel : ℕ) (h : Progress w base st)
    (hfuel : (base.filter (st.cursor < ·)).length < fuel) :
    ∃ ending st', (∀ more, fuel ≤ more → scanPages w batch_size settle more st = some (ending, st')) ∧
      Progress w base st' ∧
      (ending = .returned → ∀ id, (∀ s ∈ st'.pages, id ∈ unsettledIds s) → id ∈ base ∧ id ≤ st'.cursor) := by
  induction fuel generalizing st with
  | zero => exact absurd hfuel (Nat.not_lt_zero _)
  | succ fuel ih =>
    by_cases hpage : w.failure st.number = some .page
    · refine ⟨.raised, fetch w st, fun more hmore => ?_, h.fetched hothers, nofun⟩
      obtain ⟨k, rfl⟩ := Nat.exists_eq_add_of_le' (Nat.le_of_add_left_le hmore)
      simp only [scanPages, Nat.add_sub_cancel, if_pos hpage, fetch]
    rcases hlast : (Keyset.page (unsettledIds (fetch w st).db) st.cursor batch_size).getLast? with _ | cursor
    · refine ⟨.returned, fetch w st, fun more hmore => ?_, h.fetched hothers, fun _ id hid => ?_⟩
      · obtain ⟨k, rfl⟩ := Nat.exists_eq_add_of_le' (Nat.le_of_add_left_le hmore)
        rw [fetch] at hlast
        simp only [scanPages, Nat.add_sub_cancel, if_neg hpage, hlast, fetch]
      · have hunsettled := hid (fetch w st).db (List.mem_append_right _ (List.mem_singleton_self _))
        exact ⟨(h.fetched hothers).tables.subset ((unsettledIds_sublist _).subset hunsettled),
          Keyset.page_eq_nil hbatch (List.getLast?_eq_none_iff.mp hlast) hunsettled⟩
    · obtain ⟨hnext, hcursor, hlt, hmem⟩ := h.page settle hbase hothers hlast
      have hsub : (base.filter (cursor < ·)).Sublist (base.filter (st.cursor < ·)) :=
        List.monotone_filter_right base fun id hid => decide_eq_true (hlt.trans (of_decide_eq_true hid))
      have hfewer : (base.filter (cursor < ·)).length < (base.filter (st.cursor < ·)).length := by
        refine hsub.length_le.lt_of_ne fun heq => ?_
        have hin : cursor ∈ base.filter (st.cursor < ·) := List.mem_filter.mpr ⟨hmem, decide_eq_true hlt⟩
        rw [← hsub.eq_of_length heq, List.mem_filter, decide_eq_true_eq] at hin
        exact lt_irrefl _ hin.2
      obtain ⟨ending, st', hruns, hend⟩ := ih hnext (by rw [hcursor]; omega)
      refine ⟨ending, st', fun more hmore => ?_, hend⟩
      obtain ⟨k, rfl⟩ := Nat.exists_eq_add_of_le' (Nat.le_of_add_left_le hmore)
      rw [← hruns k (by omega)]
      rw [fetch] at hlast
      simp only [scanPages, Nat.add_sub_cancel, if_neg hpage, hlast, fetch]

/-- Of the three parts of `CoversOnce` only the last one depends on the failures. -/
theorem Progress.coversOnce (h : Progress w base st) (hpos : ∀ id ∈ base, 0 < id) {ending : Ending}
    (hbehind : ending = .returned → ∀ id, (∀ s ∈ st.pages, id ∈ unsettledIds s) → id ∈ base ∧ id ≤ st.cursor) :
    CoversOnce ending st ↔ (ending = .returned → ∀ v ∈ st.visits, ¬ CountedTwice w v) := by
  have hbalance : st.result.scanned = st.result.outcomes ↔ ∀ v ∈ st.visits, ¬ CountedTwice w v := by
    rw [h.counted, Nat.left_eq_add, List.countP_eq_zero]
    simp only [decide_eq_true_eq]
  constructor
  · intro hcovers hreturned
    exact hbalance.mp (hcovers.balanced hreturned)
  · intro hclean
    exact
      { once := h.ordered.imp fun hlt => hlt.ne
        covered := fun hreturned id hid =>
          h.covered id (hpos id (hbehind hreturned id hid).1) hid (hbehind hreturned id hid).2
        balanced := fun hreturned => hbalance.mpr (hclean hreturned) }

end ClosureScanLemmas

open ClosureScanLemmas in
/-- A scan ends, visits no session twice, and visits every session that every page found ended and not settled. It
counts one outcome for each candidate if and only if no commit fails after a row was not available. -/
theorem scan_unsettled_sessions_covers_once (w : Surroundings) (batch_size : ℕ) (settle : Bool) (s : Database)
    (hbatch : 1 ≤ batch_size) (hids : s.sessionIds.Nodup) (hpos : ∀ id ∈ s.sessionIds, 0 < id)
    (hothers : ∀ n s, (w.others n s).sessionIds.Subperm s.sessionIds) :
    ∃ fuel ending st, (∀ more, fuel ≤ more → scan_unsettled_sessions w batch_size settle more s = some (ending, st)) ∧
      (CoversOnce ending st ↔
        (ending = .returned → ∀ v ∈ st.visits, w.failure v.number = some .commit → lockable w v = true)) := by
  have hstart : Progress w s.sessionIds ({ db := s } : Scan) :=
    ⟨List.Subperm.refl _, List.Pairwise.nil, nofun, fun id hid _ hle => absurd hle (not_le.mpr hid), rfl⟩
  obtain ⟨ending, st, hruns, hprogress, hbehind⟩ :=
    scanPages_ends settle hbatch hids hothers (s.sessionIds.length + 1) hstart
      (Nat.lt_succ_of_le (List.length_filter_le _ _))
  refine ⟨s.sessionIds.length + 1, ending, st, fun more hmore => ?_, ?_⟩
  · rw [scan_unsettled_sessions, if_neg (not_lt.mpr hbatch)]
    exact hruns more hmore
  · rw [hprogress.coversOnce hpos hbehind]
    simp only [CountedTwice, not_and, Bool.not_eq_false]

namespace OneSession

/-- A session that has ended, with the id 1. -/
def ended : Database :=
  { charging [] with charging_sessions := [{ session [] with id := 1, ended_at := some 0 }] }

/-- Another worker holds the row, and the `n`-th transaction fails in this way. -/
def held (failure : ℕ → Option Failure) : Surroundings where
  others _ s := s
  locked _ _ := true
  failure := failure
  env n := site n
  hidden _ := []
  new_id _ := admin

/-- The connection is lost in the commit of the second transaction, which locked no row. -/
def commitLost : Surroundings := held fun n => if n = 1 then some .commit else none

end OneSession

open OneSession in
theorem scan_unsettled_sessions_covers_once_held :
    ∃ fuel ending st, (∀ more, fuel ≤ more → scan_unsettled_sessions commitLost 100 true more ended = some (ending, st)) ∧
      (CoversOnce ending st ↔ (ending = .returned →
        ∀ v ∈ st.visits, commitLost.failure v.number = some .commit → lockable commitLost v = true)) :=
  scan_unsettled_sessions_covers_once commitLost 100 true ended (by decide) (by decide) (by decide)
    fun _ s => List.Subperm.refl s.sessionIds

open OneSession in
/-- The candidate is counted as busy and as failed. -/
theorem busy_counted_as_failed : ∃ st, scan_unsettled_sessions commitLost 100 true 2 ended = some (.returned, st) ∧
    st.result = { scanned := 1, busy := 1, failed := 1 } ∧ ¬ CoversOnce .returned st := by
  refine ⟨_, rfl, rfl, fun h => ?_⟩
  exact absurd (h.balanced rfl) (by decide)

end Csms.Charging
