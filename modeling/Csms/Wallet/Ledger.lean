import Csms.Wallet.Service

/-!
# The ledger as a journal

What the wallet functions may do to the tables, apart from their code: `QuietMove`s create empty
wallets, change a status and add evidence; `Post` appends one row under a fresh key and moves the
balance of its wallet by the row's amount.

`Ok` is the invariant of the ledger. Results:
1. `Quiet.ok`, `Post.ok`: both kinds of change keep `Ok`.
2. `Quiet.ledger`, `Quiet.balance`: quiet changes move no balance and no ledger row.
3. `Post.balance_other`: a posting moves no other wallet.
-/

namespace Csms.Wallets

/-- The signed 64-bit range. -/
def InRange (value : ℤ) : Prop := MIN_VND ≤ value ∧ value ≤ MAX_VND

/-! ## 1. Changes -/

/-- Changes that move no balance and no ledger row. -/
inductive QuietMove : WalletDb → WalletDb → Prop
  | create {s : WalletDb} {w : Wallet} (fresh : ∀ v ∈ s.wallets, v.id ≠ w.id ∧ v.driver_id ≠ w.driver_id)
      (zero : w.balance_vnd = 0) : QuietMove s { s with wallets := s.wallets ++ [w] }
  | status {s : WalletDb} (wallet_id : Uuid) (status : WalletStatus) :
      QuietMove s { s with
        wallets := s.wallets.map fun w => if w.id = wallet_id then { w with status } else w }
  | evidence {s : WalletDb} (audits : List WalletAudit) (logs : List AuditLog) {seq : ℕ}
      (le : s.ledger_seq ≤ seq) :
      QuietMove s { s with wallet_audits := audits, audit_logs := logs, ledger_seq := seq }

/-- Any number of quiet changes. -/
def Quiet : WalletDb → WalletDb → Prop := Relation.ReflTransGen QuietMove

/-- The posting of `row` with the next id, under a fresh key, on an existing wallet. -/
structure Post (row : WalletLedger) (s s' : WalletDb) : Prop where
  wallet : ∃ w ∈ s.wallets, w.id = row.wallet_id ∧ row.balance_after_vnd = w.balance_vnd + row.amount_vnd
  fresh : ∀ r ∈ s.wallet_ledger, r.key ≠ row.key
  id : row.id = s.ledger_seq
  amount : InRange row.amount_vnd
  sign : ¬ wrongSign row.entry_type row.amount_vnd
  after : InRange row.balance_after_vnd
  trimmed : Text.strip row.reference_id = row.reference_id
  state : s' = WalletDb.setBalance
    { s with ledger_seq := s.ledger_seq + 1, wallet_ledger := s.wallet_ledger ++ [row] }
    row.wallet_id row.balance_after_vnd

/-- The invariant of the ledger. -/
structure Ok (s : WalletDb) : Prop where
  ids : s.wallets.Pairwise fun v w => v.id ≠ w.id ∧ v.driver_id ≠ w.driver_id
  owner : ∀ r ∈ s.wallet_ledger, ∃ w ∈ s.wallets, w.id = r.wallet_id
  order : s.wallet_ledger.Pairwise fun r t => r.id < t.id
  seq : ∀ r ∈ s.wallet_ledger, r.id < s.ledger_seq
  keys : s.wallet_ledger.Pairwise fun r t => r.key ≠ t.key
  balance : ∀ w ∈ s.wallets, w.balance_vnd = ledgerTotal s.wallet_ledger w.id
  running : Journal.Running (·.wallet_id) (·.amount_vnd) (·.balance_after_vnd) s.wallet_ledger
  range : ∀ w ∈ s.wallets, InRange w.balance_vnd
  amounts : ∀ r ∈ s.wallet_ledger, InRange r.amount_vnd ∧ InRange r.balance_after_vnd
  signs : ∀ r ∈ s.wallet_ledger, ¬ wrongSign r.entry_type r.amount_vnd
  trimmed : ∀ r ∈ s.wallet_ledger, Text.strip r.reference_id = r.reference_id

/-- Only row of its key. -/
theorem Ok.key_inj {s : WalletDb} (h : Ok s) {r t : WalletLedger} (hr : r ∈ s.wallet_ledger)
    (ht : t ∈ s.wallet_ledger) (hk : r.key = t.key) : r = t := by
  by_contra hne
  have : Std.Symm fun r t : WalletLedger => r.key ≠ t.key := ⟨fun _ _ h => h.symm⟩
  exact h.keys.forall hr ht hne hk

theorem Ok.wallet_inj {s : WalletDb} (h : Ok s) {v w : Wallet} (hv : v ∈ s.wallets)
    (hw : w ∈ s.wallets) (hid : v.id = w.id ∨ v.driver_id = w.driver_id) : v = w := by
  by_contra hne
  have : Std.Symm fun v w : Wallet => v.id ≠ w.id ∧ v.driver_id ≠ w.driver_id :=
    ⟨fun _ _ h => ⟨h.1.symm, h.2.symm⟩⟩
  have hdiff := h.ids.forall hv hw hne
  tauto

/-- The rows of a key are one row at most. -/
theorem Ok.filter_key {s : WalletDb} (h : Ok s) {r : WalletLedger} (hr : r ∈ s.wallet_ledger) :
    s.wallet_ledger.filter (·.key = r.key) = [r] := by
  have hmem : ∀ t ∈ s.wallet_ledger.filter (·.key = r.key), t = r := fun t ht =>
    h.key_inj (List.mem_filter.mp ht).1 hr (by simpa using (List.mem_filter.mp ht).2)
  have hself : r ∈ s.wallet_ledger.filter (·.key = r.key) := List.mem_filter.mpr ⟨hr, by simp⟩
  have hpair : (s.wallet_ledger.filter (·.key = r.key)).Pairwise fun a b => a.key ≠ b.key :=
    h.keys.filter _
  match hf : s.wallet_ledger.filter (·.key = r.key) with
  | [] => rw [hf] at hself; cases hself
  | [t] => rw [hf, hmem t (hf ▸ List.mem_singleton_self t)]
  | t :: u :: rest =>
    have ht := hmem t (hf ▸ List.mem_cons_self)
    have hu := hmem u (hf ▸ List.mem_cons_of_mem _ List.mem_cons_self)
    rw [hf, ht, hu] at hpair
    exact absurd rfl ((List.pairwise_cons.mp hpair).1 r List.mem_cons_self)

/-- Wallets without a ledger are consistent when they are empty. -/
theorem Ok.of_empty {s : WalletDb} (hl : s.wallet_ledger = [])
    (hids : s.wallets.Pairwise fun v w => v.id ≠ w.id ∧ v.driver_id ≠ w.driver_id)
    (hb : ∀ w ∈ s.wallets, w.balance_vnd = 0) : Ok s where
  ids := hids
  owner := by simp [hl]
  order := by simp [hl]
  seq := by simp [hl]
  keys := by simp [hl]
  balance := fun w hw => by rw [hb w hw, hl]; rfl
  running := by rw [hl]; exact Journal.Running.nil
  range := fun w hw => by rw [hb w hw]; exact ⟨by decide, by decide⟩
  amounts := by simp [hl]
  signs := by simp [hl]
  trimmed := by simp [hl]

namespace LedgerLemmas

theorem mem_setBalance {s : WalletDb} {wallet_id : Uuid} {balance : ℤ} {w : Wallet} :
    w ∈ (s.setBalance wallet_id balance).wallets ↔
      ∃ v ∈ s.wallets, w = if v.id = wallet_id then { v with balance_vnd := balance } else v := by
  simp [WalletDb.setBalance, eq_comm]

theorem ite_id {v : Wallet} {wallet_id : Uuid} {balance : ℤ} :
    (if v.id = wallet_id then { v with balance_vnd := balance } else v).id = v.id ∧
      (if v.id = wallet_id then { v with balance_vnd := balance } else v).driver_id = v.driver_id := by
  split <;> exact ⟨rfl, rfl⟩

end LedgerLemmas

open LedgerLemmas

/-! ## 2. Quiet changes -/

namespace Quiet

variable {s s' : WalletDb}

theorem refl (s : WalletDb) : Quiet s s := Relation.ReflTransGen.refl

theorem trans {t : WalletDb} (h : Quiet s t) (h' : Quiet t s') : Quiet s s' :=
  Relation.ReflTransGen.trans h h'

theorem single (h : QuietMove s s') : Quiet s s' := Relation.ReflTransGen.single h

theorem ledger (h : Quiet s s') : s'.wallet_ledger = s.wallet_ledger := by
  induction h with
  | refl => rfl
  | tail _ hm ih => cases hm <;> exact ih

theorem users (h : Quiet s s') : s'.users = s.users := by
  induction h with
  | refl => rfl
  | tail _ hm ih => cases hm <;> exact ih

theorem seq (h : Quiet s s') : s.ledger_seq ≤ s'.ledger_seq := by
  induction h with
  | refl => exact le_rfl
  | tail _ hm ih =>
    cases hm with
    | create => exact ih
    | status => exact ih
    | evidence _ _ le => exact ih.trans le

/-- A wallet keeps its id, its driver and its balance. -/
theorem balance (h : Quiet s s') {w : Wallet} (hw : w ∈ s.wallets) :
    ∃ w' ∈ s'.wallets, w'.id = w.id ∧ w'.driver_id = w.driver_id ∧ w'.balance_vnd = w.balance_vnd := by
  induction h with
  | refl => exact ⟨w, hw, rfl, rfl, rfl⟩
  | tail _ hm ih =>
    obtain ⟨v, hv, h1, h2, h3⟩ := ih
    cases hm with
    | create => exact ⟨v, List.mem_append_left _ hv, h1, h2, h3⟩
    | status wallet_id st =>
      refine ⟨_, List.mem_map_of_mem hv, ?_⟩
      split <;> exact ⟨h1, h2, h3⟩
    | evidence => exact ⟨v, hv, h1, h2, h3⟩

/-- A wallet is an old one with its balance, or a new one with balance 0. -/
theorem wallet (h : Quiet s s') {w : Wallet} (hw : w ∈ s'.wallets) :
    (∃ v ∈ s.wallets, v.id = w.id ∧ v.driver_id = w.driver_id ∧ v.balance_vnd = w.balance_vnd) ∨
      ((∀ v ∈ s.wallets, v.id ≠ w.id ∧ v.driver_id ≠ w.driver_id) ∧ w.balance_vnd = 0) := by
  induction h generalizing w with
  | refl => exact .inl ⟨w, hw, rfl, rfl, rfl⟩
  | tail hq hm ih =>
    cases hm with
    | create fresh zero =>
      rcases List.mem_append.mp hw with hw | hw
      · exact ih hw
      · rw [List.mem_singleton.mp hw]
        refine .inr ⟨fun v hv => ?_, zero⟩
        obtain ⟨v', hv', h1, h2, -⟩ := Quiet.balance hq hv
        have := fresh v' hv'
        rwa [h1, h2] at this
    | status wallet_id st =>
      obtain ⟨v, hv, rfl⟩ := List.mem_map.mp hw
      have := ih hv
      split <;> exact this
    | evidence => exact ih hw

end Quiet

/-- The same ledger and the same balances; a wallet that is new has balance 0. -/
structure Unmoved (s s' : WalletDb) : Prop where
  ledger : s'.wallet_ledger = s.wallet_ledger
  balance : ∀ w ∈ s.wallets, ∃ w' ∈ s'.wallets, w'.id = w.id ∧ w'.balance_vnd = w.balance_vnd
  created : ∀ w' ∈ s'.wallets, (∃ w ∈ s.wallets, w.id = w'.id) ∨ w'.balance_vnd = 0

theorem Quiet.unmoved {s s' : WalletDb} (h : Quiet s s') : Unmoved s s' where
  ledger := h.ledger
  balance := fun _ hw => let ⟨w', hw', hid, _, hb⟩ := h.balance hw; ⟨w', hw', hid, hb⟩
  created := fun _ hw' => (h.wallet hw').imp (fun ⟨w, hw, hid, _⟩ => ⟨w, hw, hid⟩) (·.2)

theorem QuietMove.ok {s s' : WalletDb} (h : QuietMove s s') (ho : Ok s) : Ok s' := by
  cases h with
  | @create w fresh zero =>
    refine ⟨?_, ?_, ho.order, ho.seq, ho.keys, ?_, ho.running, ?_, ho.amounts, ho.signs, ho.trimmed⟩
    · exact List.pairwise_append.mpr ⟨ho.ids, List.pairwise_singleton _ _,
        fun v hv u hu => by rw [List.mem_singleton.mp hu]; exact fresh v hv⟩
    · intro r hr
      obtain ⟨v, hv, hid⟩ := ho.owner r hr
      exact ⟨v, List.mem_append_left _ hv, hid⟩
    · intro v hv
      rcases List.mem_append.mp hv with hv | hv
      · exact ho.balance v hv
      · rw [List.mem_singleton.mp hv, zero]
        refine (Journal.total_eq_zero fun r hr => ?_).symm
        obtain ⟨u, hu, hid⟩ := ho.owner r hr
        exact hid ▸ (fresh u hu).1
    · intro v hv
      rcases List.mem_append.mp hv with hv | hv
      · exact ho.range v hv
      · rw [List.mem_singleton.mp hv, zero]
        exact ⟨by decide, by decide⟩
  | status wallet_id st =>
    have hmem : ∀ v ∈ s.wallets.map (fun w => if w.id = wallet_id then { w with status := st } else w),
        ∃ w ∈ s.wallets, v.id = w.id ∧ v.balance_vnd = w.balance_vnd := by
      intro v hv
      obtain ⟨w, hw, rfl⟩ := List.mem_map.mp hv
      exact ⟨w, hw, by split <;> exact ⟨rfl, rfl⟩⟩
    refine ⟨?_, ?_, ho.order, ho.seq, ho.keys, ?_, ho.running, ?_, ho.amounts, ho.signs, ho.trimmed⟩
    · refine List.pairwise_map.mpr (ho.ids.imp fun {v w} h => ?_)
      split <;> split <;> exact h
    · intro r hr
      obtain ⟨w, hw, hid⟩ := ho.owner r hr
      refine ⟨_, List.mem_map_of_mem hw, ?_⟩
      split <;> exact hid
    · intro v hv
      obtain ⟨w, hw, hid, hb⟩ := hmem v hv
      rw [hid, hb]
      exact ho.balance w hw
    · intro v hv
      obtain ⟨w, hw, -, hb⟩ := hmem v hv
      rw [hb]
      exact ho.range w hw
  | evidence audits logs le =>
    exact ⟨ho.ids, ho.owner, ho.order, fun r hr => (ho.seq r hr).trans_le le, ho.keys, ho.balance,
      ho.running, ho.range, ho.amounts, ho.signs, ho.trimmed⟩

/-- Quiet changes keep the invariant. -/
theorem Quiet.ok {s s' : WalletDb} (h : Quiet s s') (ho : Ok s) : Ok s' := by
  induction h with
  | refl => exact ho
  | tail _ hm ih => exact hm.ok ih

/-! ## 3. Postings -/

namespace Post

variable {s s' : WalletDb} {row : WalletLedger}

theorem ledger (h : Post row s s') : s'.wallet_ledger = s.wallet_ledger ++ [row] := by
  rw [h.state]
  rfl

theorem users (h : Post row s s') : s'.users = s.users := by
  rw [h.state]
  rfl

theorem mem_wallets (h : Post row s s') {w : Wallet} (hw : w ∈ s'.wallets) :
    ∃ v ∈ s.wallets, w.id = v.id ∧ w.driver_id = v.driver_id ∧ w.status = v.status ∧
      w.balance_vnd = if v.id = row.wallet_id then row.balance_after_vnd else v.balance_vnd := by
  rw [h.state] at hw
  obtain ⟨v, hv, rfl⟩ := mem_setBalance.mp hw
  refine ⟨v, hv, ?_⟩
  split <;> simp_all

theorem exists_wallet (h : Post row s s') {v : Wallet} (hv : v ∈ s.wallets) :
    ∃ w ∈ s'.wallets, w.id = v.id ∧ w.driver_id = v.driver_id := by
  rw [h.state]
  exact ⟨_, mem_setBalance.mpr ⟨v, hv, rfl⟩, ite_id.1, ite_id.2⟩

/-- A posting moves no other wallet. -/
theorem balance_other (h : Post row s s') {w : Wallet} (hw : w ∈ s.wallets) (hne : w.id ≠ row.wallet_id) :
    w ∈ s'.wallets := by
  rw [h.state]
  exact mem_setBalance.mpr ⟨w, hw, by rw [if_neg hne]⟩

/-- A posting keeps the invariant. -/
theorem ok (h : Post row s s') (ho : Ok s) : Ok s' := by
  have hledger := h.ledger
  obtain ⟨w, hw, hid, hafter⟩ := h.wallet
  have hold : row.balance_after_vnd = ledgerTotal s.wallet_ledger row.wallet_id + row.amount_vnd := by
    rw [hafter, ho.balance w hw, hid]
  have hseq : s'.ledger_seq = s.ledger_seq + 1 := by
    rw [h.state]
    rfl
  refine ⟨?_, ?_, ?_, ?_, ?_, ?_, ?_, ?_, ?_, ?_, ?_⟩
  · rw [h.state]
    refine List.pairwise_map.mpr (ho.ids.imp fun {u v} huv => ?_)
    rw [ite_id.1, ite_id.1, ite_id.2, ite_id.2]
    exact huv
  · intro r hr
    rw [hledger] at hr
    have : ∃ v ∈ s.wallets, v.id = r.wallet_id := by
      rcases List.mem_append.mp hr with hr | hr
      · exact ho.owner r hr
      · rw [List.mem_singleton.mp hr]
        exact ⟨w, hw, hid⟩
    obtain ⟨v, hv, hvid⟩ := this
    obtain ⟨v', hv', hid', -⟩ := h.exists_wallet hv
    exact ⟨v', hv', hid'.trans hvid⟩
  · rw [hledger]
    refine List.pairwise_append.mpr ⟨ho.order, List.pairwise_singleton _ _, fun r hr t ht => ?_⟩
    rw [List.mem_singleton.mp ht, h.id]
    exact ho.seq r hr
  · intro r hr
    rw [hledger] at hr
    rw [hseq]
    rcases List.mem_append.mp hr with hr | hr
    · exact (ho.seq r hr).trans (Nat.lt_succ_self _)
    · rw [List.mem_singleton.mp hr, h.id]
      exact Nat.lt_succ_self _
  · rw [hledger]
    refine List.pairwise_append.mpr ⟨ho.keys, List.pairwise_singleton _ _, fun r hr t ht => ?_⟩
    rw [List.mem_singleton.mp ht]
    exact h.fresh r hr
  · intro v hv
    obtain ⟨u, hu, hvu, -, -, hb⟩ := h.mem_wallets hv
    rw [hb, hvu, hledger]
    split
    · next heq => rw [heq, hold]; exact (Journal.total_append_self rfl).symm
    · next hne => rw [ho.balance u hu]; exact (Journal.total_append_other (Ne.symm hne)).symm
  · rw [hledger]
    exact ho.running.append hold
  · intro v hv
    obtain ⟨u, hu, -, -, -, hb⟩ := h.mem_wallets hv
    rw [hb]
    split
    · exact h.after
    · exact ho.range u hu
  · intro r hr
    rw [hledger] at hr
    rcases List.mem_append.mp hr with hr | hr
    · exact ho.amounts r hr
    · rw [List.mem_singleton.mp hr]
      exact ⟨h.amount, h.after⟩
  · intro r hr
    rw [hledger] at hr
    rcases List.mem_append.mp hr with hr | hr
    · exact ho.signs r hr
    · rw [List.mem_singleton.mp hr]
      exact h.sign
  · intro r hr
    rw [hledger] at hr
    rcases List.mem_append.mp hr with hr | hr
    · exact ho.trimmed r hr
    · rw [List.mem_singleton.mp hr]
      exact h.trimmed

end Post

end Csms.Wallets
