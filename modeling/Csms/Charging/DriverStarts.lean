import Csms.Charging.Driver

/-!
# Every run of driver starts (`charging/driver.py`)

Requests of drivers are admitted, sent, answered and lost in any order, while leases run out and chargers
start transactions. `StartMove` lists what any of it can do to the table of start requests, and
`DriverOp.moves` says that nothing else happens; the invariant and what a run never takes back are proved
of the moves.

Result: `driver_starts_safe`.
-/

namespace Csms.Charging

open Tx

/-! ## 1. Runs -/

/-- The tables, the calls of `remote_start` that are about to send or that wait for a reply, and the
RemoteStartTransactions that were put on the wire. -/
structure DriverWorld where
  tables : DriverDb
  toSend : List Uuid
  waiting : List Uuid
  sent : List Uuid

/-- A transaction, undone when it raises. -/
def inTransaction {α : Type} (x : DriverTx α) : DriverTx α :=
  savepoint (fun s s' => { s with db := s.db.rollback s'.db }) x

/-- A start of a charger calls `reject_remote_start`, `reject_unavailable_start` and `attach_remote_start`;
nothing else does. -/
inductive DriverOp where
  | admission (env : Environment) (now replied : ℤ) (connected : Bool) (o : StartOrder)
  | send (request_id : Uuid)
  | reply (received replied : ℤ) (request_id : Uuid) (wire : WireReply)
  | crash (request_id : Uuid)
  | expire (now : ℤ)
  | scan (env : Environment)
  | start (call : StartCall)
  | rest (tables : DriverDb)

/-- A call sends after its admission and is answered after it sent. The rest of the program does not write
start requests. -/
def DriverOp.Valid (w : DriverWorld) : DriverOp → Prop
  | .send request_id => request_id ∈ w.toSend
  | .reply _ _ request_id _ => request_id ∈ w.waiting
  | .rest tables => tables.db.start_requests = w.tables.db.start_requests ∧
    w.tables.db.session_seq ≤ tables.db.session_seq
  | _ => True

def DriverOp.run (w : DriverWorld) : DriverOp → DriverWorld
  | .admission env now replied connected o =>
    match inTransaction (admitStart env now replied connected o) w.tables with
    | (.ok none, tables) => { w with tables, toSend := w.toSend ++ [o.request_id] }
    | (_, tables) => { w with tables }
  | .send request_id => { w with
      toSend := w.toSend.erase request_id, waiting := w.waiting ++ [request_id], sent := w.sent ++ [request_id] }
  | .reply received replied request_id wire => { w with
      tables := (inTransaction (answerStart received replied request_id (send_command wire)) w.tables).2
      waiting := w.waiting.erase request_id }
  | .crash request_id => { w with
      toSend := w.toSend.erase request_id, waiting := w.waiting.erase request_id }
  | .expire now => { w with tables := (inTransaction (expire_start_requests now) w.tables).2 }
  | .scan env =>
    let tables := (scanResults env.now w.tables).2
    { w with tables := { tables with db := (scan_control_deadlines env tables.db).2 } }
  | .start call => { w with tables := { w.tables with db := call.run w.tables.db } }
  | .rest tables => { w with tables }

/-- Any number of operations. -/
def DriverReach : DriverWorld → DriverWorld → Prop :=
  Relation.ReflTransGen fun w w' => ∃ op : DriverOp, op.Valid w ∧ op.run w = w'

def DriverWorld.requests (w : DriverWorld) : List DriverStartRequest := w.tables.db.start_requests

/-- No request was made yet. -/
structure DriverWorld.Fresh (w : DriverWorld) : Prop where
  requests : w.requests = []
  toSend : w.toSend = []
  sent : w.sent = []

/-! ## 2. What happens to start requests -/

/-- The start requests, and the next session id. -/
structure StartRows where
  rows : List DriverStartRequest
  seq : ℕ

def Database.startRows (s : Database) : StartRows := ⟨s.start_requests, s.session_seq⟩

/-- A request that a start of the charger may answer. -/
def DriverStartRequest.unanswered (r : DriverStartRequest) : Prop := r.session_id = none ∧ r.status.mayStart = true

/-- A change of one request. -/
inductive RowMove : DriverStartRequest → DriverStartRequest → Prop
  | same (r : DriverStartRequest) : RowMove r r
  | lapse {r : DriverStartRequest} {now : ℤ} (due : lapsed now r) : RowMove r (expireRequest now r)
  | answer {r : DriverStartRequest} (received : ℤ) (outcome : CommandOutcome) (waits : r.reply_status = .Pending) :
      RowMove r (answered received outcome.status r)
  | reject {r : DriverStartRequest} (reason : Option String) (balance minimum : Option ℤ) (now : ℤ)
      (open_ : r.unanswered) :
      RowMove r { r with
        status := .Rejected, rejection_reason := reason, balance_vnd := balance, minimum_balance_vnd := minimum
        lease_until := now }

/-- A change of the table. -/
inductive StartMove (t : StartRows) : StartRows → Prop
  | seq (seq : ℕ) (later : t.seq ≤ seq) : StartMove t ⟨t.rows, seq⟩
  | rows (f : DriverStartRequest → DriverStartRequest) (moves : ∀ r ∈ t.rows, RowMove r (f r)) :
      StartMove t ⟨t.rows.map f, t.seq⟩
  | save {r r' : DriverStartRequest} (mem : r ∈ t.rows) (move : RowMove r r') :
      StartMove t ⟨Table.modify DriverStartRequest.id r.id (fun _ => r') t.rows, t.seq⟩
  | attach {r : DriverStartRequest} (mem : r ∈ t.rows) (unanswered : r.unanswered) (now : ℤ) :
      StartMove t ⟨Table.modify DriverStartRequest.id r.id
        (fun _ => { r with status := .Started, session_id := some t.seq, lease_until := now }) t.rows, t.seq + 1⟩
  | insert (o : StartOrder) (now : ℤ) (status : StartStatus) (kind : status = .Pending ∨ status = .Offline)
      (fresh : ∀ r ∈ t.rows, r.id ≠ o.request_id)
      (free : ∀ r ∈ t.rows, r.status.leases = true → r.connector_id ≠ o.connector_id ∧ r.driver_id ≠ o.driver_id) :
      StartMove t ⟨t.rows ++ [newRequest now o status], t.seq⟩

/-- Any number of changes. -/
def StartMoves : StartRows → StartRows → Prop := Relation.ReflTransGen StartMove

/-- The invariant of the table. -/
structure StartsOk (t : StartRows) : Prop where
  keyed : Table.Keyed DriverStartRequest.id t.rows
  lease : ∀ a ∈ t.rows, ∀ b ∈ t.rows, a.status.leases = true → b.status.leases = true →
    a.connector_id = b.connector_id ∨ a.driver_id = b.driver_id → a = b
  attached : ∀ r ∈ t.rows, r.session_id ≠ none ↔ r.status = .Started
  once : ∀ a ∈ t.rows, ∀ b ∈ t.rows, ∀ n, a.session_id = some n → b.session_id = some n → a = b
  older : ∀ r ∈ t.rows, ∀ n, r.session_id = some n → n < t.seq
  reply : ∀ r ∈ t.rows, r.reply_status = .Pending → r.status = .Pending ∨ r.status = .Started ∨ r.status = .Rejected

/-- What a later state of a request keeps. -/
structure Follows (r r' : DriverStartRequest) : Prop where
  id : r'.id = r.id
  final : r.status = .Started ∨ r.status = .Rejected → r'.status = r.status ∧ r'.session_id = r.session_id
  timeout : r.status = .Timeout → r'.status = .Timeout ∨ r'.status = .Started ∨ r'.status = .Rejected

variable {t t' : StartRows} {r r' r'' : DriverStartRequest}

theorem Follows.refl (r : DriverStartRequest) : Follows r r := ⟨rfl, fun _ => ⟨rfl, rfl⟩, .inl⟩

theorem Follows.trans (h : Follows r r') (h' : Follows r' r'') : Follows r r'' := by
  refine ⟨h'.id.trans h.id, fun hr => ?_, fun hr => ?_⟩
  · obtain ⟨hstatus, hsession⟩ := h.final hr
    obtain ⟨hstatus', hsession'⟩ := h'.final (hstatus ▸ hr)
    exact ⟨hstatus'.trans hstatus, hsession'.trans hsession⟩
  · rcases h.timeout hr with h₁ | h₁
    · exact h'.timeout h₁
    · rw [(h'.final h₁).1]
      exact .inr h₁

/-- What a change of one request keeps, where the invariant holds of it. -/
structure RowKept (r r' : DriverStartRequest) : Prop where
  follows : Follows r r'
  driver : r'.driver_id = r.driver_id
  connector : r'.connector_id = r.connector_id
  session : r'.session_id = r.session_id
  lease : r'.status.leases = true → r.status.leases = true
  started : r'.status = .Started ↔ r.status = .Started
  reply : r'.reply_status = .Pending → r'.status = .Pending ∨ r'.status = .Started ∨ r'.status = .Rejected

theorem outcome_ne (o : CommandOutcome) : o.status ≠ .Pending ∧ o.status ≠ .Started := by
  cases o <;> exact ⟨nofun, nofun⟩

theorem RowMove.kept (h : RowMove r r')
    (hreply : r.reply_status = .Pending → r.status = .Pending ∨ r.status = .Started ∨ r.status = .Rejected) :
    RowKept r r' := by
  cases h with
  | same => exact ⟨.refl r, rfl, rfl, rfl, id, Iff.rfl, hreply⟩
  | @lapse now due =>
    obtain ⟨hlease, -⟩ := due
    unfold expireRequest
    -- a lease is Pending or Accepted
    cases hs : r.status with
    | Pending =>
      rw [if_pos rfl]
      refine ⟨⟨rfl, ?_, ?_⟩, rfl, rfl, rfl, nofun, ?_, nofun⟩ <;> simp [hs]
    | Accepted =>
      rw [if_neg nofun]
      refine ⟨⟨rfl, ?_, ?_⟩, rfl, rfl, rfl, nofun, ?_, fun hp => ?_⟩
      · simp [hs]
      · simp [hs]
      · simp [hs]
      · rw [hs] at hreply
        rcases hreply hp with h | h | h <;> cases h
    | _ => rw [hs] at hlease; cases hlease
  | answer received outcome waits =>
    obtain ⟨hpending, hstarted⟩ := outcome_ne outcome
    unfold answered
    rcases hreply waits with hs | hs
    · rw [if_neg (by simp [hs])]
      refine ⟨⟨rfl, ?_, ?_⟩, rfl, rfl, rfl, fun _ => by rw [hs]; rfl, ?_, fun hp => absurd hp hpending⟩
      · simp [hs]
      · simp [hs]
      · simp [hs, hstarted]
    · rw [if_pos hs]
      refine ⟨⟨rfl, fun _ => ⟨rfl, rfl⟩, fun _ => .inr hs⟩, rfl, rfl, rfl, id, Iff.rfl, fun hp => absurd hp hpending⟩
  | reject reason balance minimum now unanswered =>
    obtain ⟨-, hmay⟩ := unanswered
    refine ⟨⟨rfl, ?_, fun _ => .inr (.inr rfl)⟩, rfl, rfl, rfl, nofun, ⟨nofun, fun hs => ?_⟩, fun _ => .inr (.inr rfl)⟩
    · rintro (hs | hs) <;> rw [hs] at hmay <;> cases hmay
    · rw [hs] at hmay
      cases hmay

/-- In a keyed table the update of a row is a change of each row, by itself or by that of the update. -/
theorem save_eq_map (h : Table.Keyed DriverStartRequest.id t.rows) (hr : r ∈ t.rows) (hmove : RowMove r r') :
    ∃ f, (∀ a ∈ t.rows, RowMove a (f a)) ∧
      Table.modify DriverStartRequest.id r.id (fun _ => r') t.rows = t.rows.map f := by
  refine ⟨fun a => if a.id = r.id then r' else a, fun a ha => ?_, rfl⟩
  by_cases hid : a.id = r.id
  · simp only [hid, if_true]
    rw [h.eq ha hr hid]
    exact hmove
  · simp only [hid, if_false]
    exact .same a

theorem StartsOk.rows (h : StartsOk t) {f : DriverStartRequest → DriverStartRequest}
    (hf : ∀ r ∈ t.rows, RowMove r (f r)) : StartsOk ⟨t.rows.map f, t.seq⟩ := by
  have hkept : ∀ r ∈ t.rows, RowKept r (f r) := fun r hr => (hf r hr).kept (h.reply r hr)
  have hback : ∀ {x}, x ∈ t.rows.map f → ∃ r ∈ t.rows, x = f r := by
    intro x hx
    obtain ⟨r, hr, rfl⟩ := List.mem_map.mp hx
    exact ⟨r, hr, rfl⟩
  refine ⟨?_, ?_, ?_, ?_, ?_, ?_⟩
  · refine List.pairwise_map.mpr (h.keyed.imp_of_mem fun {a b} ha hb hab => ?_)
    rwa [(hkept a ha).follows.id, (hkept b hb).follows.id]
  · intro x hx y hy hlx hly hshare
    obtain ⟨a, ha, rfl⟩ := hback hx
    obtain ⟨b, hb, rfl⟩ := hback hy
    rw [(hkept a ha).connector, (hkept b hb).connector, (hkept a ha).driver, (hkept b hb).driver] at hshare
    rw [h.lease a ha b hb ((hkept a ha).lease hlx) ((hkept b hb).lease hly) hshare]
  · intro x hx
    obtain ⟨a, ha, rfl⟩ := hback hx
    rw [(hkept a ha).session, (hkept a ha).started]
    exact h.attached a ha
  · intro x hx y hy n hn hn'
    obtain ⟨a, ha, rfl⟩ := hback hx
    obtain ⟨b, hb, rfl⟩ := hback hy
    rw [(hkept a ha).session] at hn
    rw [(hkept b hb).session] at hn'
    rw [h.once a ha b hb n hn hn']
  · intro x hx n hn
    obtain ⟨a, ha, rfl⟩ := hback hx
    rw [(hkept a ha).session] at hn
    exact h.older a ha n hn
  · intro x hx
    obtain ⟨a, ha, rfl⟩ := hback hx
    exact (hkept a ha).reply

theorem StartsOk.attach (h : StartsOk t) (hr : r ∈ t.rows) (now : ℤ) :
    StartsOk ⟨Table.modify DriverStartRequest.id r.id
      (fun _ => { r with status := .Started, session_id := some t.seq, lease_until := now }) t.rows, t.seq + 1⟩ := by
  have hmem := fun x => @Table.mem_modify_of_mem _ _ DriverStartRequest.id t.rows _ r.id
    (fun _ => { r with status := .Started, session_id := some t.seq, lease_until := now }) h.keyed r hr rfl x
  have hnew : ∀ x ∈ t.rows, x.session_id ≠ some t.seq := fun x hx hn => (h.older x hx _ hn).false
  refine ⟨h.keyed.modify fun _ _ => rfl, ?_, ?_, ?_, ?_, ?_⟩
  · intro x hx y hy hlx hly hshare
    rcases (hmem x).mp hx with rfl | ⟨hx, -⟩
    · cases hlx
    rcases (hmem y).mp hy with rfl | ⟨hy, -⟩
    · cases hly
    exact h.lease x hx y hy hlx hly hshare
  · intro x hx
    rcases (hmem x).mp hx with rfl | ⟨hx, -⟩
    · simp
    · exact h.attached x hx
  · intro x hx y hy n hn hn'
    rcases (hmem x).mp hx with rfl | ⟨hx, -⟩
    · cases hn
      rcases (hmem y).mp hy with rfl | ⟨hy, -⟩
      · rfl
      · exact absurd hn' (hnew y hy)
    · rcases (hmem y).mp hy with rfl | ⟨hy, -⟩
      · cases hn'
        exact absurd hn (hnew x hx)
      · exact h.once x hx y hy n hn hn'
  · intro x hx n hn
    rcases (hmem x).mp hx with rfl | ⟨hx, -⟩
    · cases hn
      exact Nat.lt_succ_self _
    · exact (h.older x hx n hn).trans (Nat.lt_succ_self _)
  · intro x hx hp
    rcases (hmem x).mp hx with rfl | ⟨hx, -⟩
    · exact .inr (.inl rfl)
    · exact h.reply x hx hp

theorem StartsOk.insert (h : StartsOk t) {o : StartOrder} {now : ℤ} {status : StartStatus}
    (kind : status = .Pending ∨ status = .Offline) (fresh : ∀ r ∈ t.rows, r.id ≠ o.request_id)
    (free : ∀ r ∈ t.rows, r.status.leases = true → r.connector_id ≠ o.connector_id ∧ r.driver_id ≠ o.driver_id) :
    StartsOk ⟨t.rows ++ [newRequest now o status], t.seq⟩ := by
  have hback : ∀ {x}, x ∈ t.rows ++ [newRequest now o status] → x ∈ t.rows ∨ x = newRequest now o status := by
    intro x hx
    rcases List.mem_append.mp hx with hx | hx
    · exact .inl hx
    · exact .inr (List.mem_singleton.mp hx)
  refine ⟨h.keyed.append fresh, ?_, ?_, ?_, ?_, ?_⟩
  · intro x hx y hy hlx hly hshare
    rcases hback hx with hx | rfl <;> rcases hback hy with hy | rfl
    · exact h.lease x hx y hy hlx hly hshare
    · obtain ⟨hc, hd⟩ := free x hx hlx
      exact (hshare.elim hc hd).elim
    · obtain ⟨hc, hd⟩ := free y hy hly
      exact (hshare.elim (fun e => hc e.symm) fun e => hd e.symm).elim
    · rfl
  · intro x hx
    rcases hback hx with hx | rfl
    · exact h.attached x hx
    · rcases kind with rfl | rfl <;> simp [newRequest]
  · intro x hx y hy n hn hn'
    rcases hback hx with hx | rfl
    · rcases hback hy with hy | rfl
      · exact h.once x hx y hy n hn hn'
      · cases hn'
    · cases hn
  · intro x hx n hn
    rcases hback hx with hx | rfl
    · exact h.older x hx n hn
    · cases hn
  · intro x hx hp
    rcases hback hx with hx | rfl
    · exact h.reply x hx hp
    · exact .inl hp

theorem StartMove.ok (h : StartMove t t') (ok : StartsOk t) : StartsOk t' := by
  cases h with
  | seq seq later =>
    refine ⟨ok.keyed, ok.lease, ok.attached, ok.once, fun r hr n hn => ?_, ok.reply⟩
    exact (ok.older r hr n hn).trans_le later
  | rows f moves => exact ok.rows moves
  | save mem move =>
    obtain ⟨f, hf, heq⟩ := save_eq_map ok.keyed mem move
    rw [heq]
    exact ok.rows hf
  | attach mem unanswered now => exact ok.attach mem now
  | insert o now status kind fresh free => exact ok.insert kind fresh free

theorem StartMove.follows (h : StartMove t t') (ok : StartsOk t) (hr : r ∈ t.rows) : ∃ r' ∈ t'.rows, Follows r r' := by
  cases h with
  | seq => exact ⟨r, hr, .refl r⟩
  | rows f moves => exact ⟨f r, List.mem_map_of_mem hr, ((moves r hr).kept (ok.reply r hr)).follows⟩
  | save mem move =>
    obtain ⟨f, hf, heq⟩ := save_eq_map ok.keyed mem move
    rw [heq]
    exact ⟨f r, List.mem_map_of_mem hr, ((hf r hr).kept (ok.reply r hr)).follows⟩
  | @attach x mem unanswered now =>
    by_cases hid : r.id = x.id
    · obtain rfl := ok.keyed.eq hr mem hid
      refine ⟨_, (Table.mem_modify_of_mem ok.keyed mem rfl).mpr (.inl rfl), rfl, fun hs => ?_, fun _ => .inr (.inl rfl)⟩
      have hmay := unanswered.2
      rcases hs with hs | hs <;> rw [hs] at hmay <;> cases hmay
    · exact ⟨r, (Table.mem_modify_of_mem ok.keyed mem rfl).mpr (.inr ⟨hr, hid⟩), .refl r⟩
  | insert => exact ⟨r, List.mem_append_left _ hr, .refl r⟩

theorem moves_ok (h : StartMoves t t') (ok : StartsOk t) : StartsOk t' := by
  induction h with
  | refl => exact ok
  | tail _ hmove ih => exact hmove.ok ih

theorem moves_follow (h : StartMoves t t') (ok : StartsOk t) (hr : r ∈ t.rows) : ∃ r' ∈ t'.rows, Follows r r' := by
  induction h with
  | refl => exact ⟨r, hr, .refl r⟩
  | tail hmoves hmove ih =>
    obtain ⟨r', hr', hfollows⟩ := ih
    obtain ⟨r'', hr'', hfollows'⟩ := hmove.follows (moves_ok hmoves ok) hr'
    exact ⟨r'', hr'', hfollows.trans hfollows'⟩

theorem moves_seq (h : StartMoves t t') : t.seq ≤ t'.seq := by
  induction h with
  | refl => exact le_rfl
  | tail _ hmove ih =>
    cases hmove with
    | seq _ later => exact ih.trans later
    | attach => exact ih.trans (Nat.le_succ _)
    | _ => exact ih

/-! ## 3. Starts of chargers -/

namespace DriverStartsLemmas

variable {env : Environment} {s s' : Database}

/-- The start requests stay as they are. -/
def Leaves {α : Type} (x : ChargingTx α) (s : Database) : Prop :=
  wp x (fun _ s' => s'.startRows = s.startRows) (fun _ s' => s'.startRows = s.startRows) s

theorem authorize_leaves (charger : ChargePoint) (tag : String) (context : Bool) :
    Leaves (authorize env charger tag context) s := by
  unfold Leaves authorize
  split
  · exact rfl
  simp only [wp_bind, wp_read, wp_raiseIf, wp_write, wp_pure]
  exact ⟨fun _ => trivial, fun _ => ⟨fun _ => trivial, fun _ => rfl⟩⟩

theorem onReservations_leaves {α : Type} (x : Reservations.ReservationTx α) : Leaves (onReservations x) s := by
  unfold Leaves onReservations
  rw [wp_zoom]
  unfold wp
  split <;> rfl

theorem closeOld_leaves (connector : Connector) : Leaves (closeOld env connector) s := by
  unfold Leaves closeOld
  simp only [wp_bind, wp_read]
  split <;> exact rfl

theorem flagPrevious_leaves (previous : Option Session) : Leaves (flagPrevious previous) s := by
  unfold Leaves flagPrevious
  simp only [wp_bind, wp_read]
  split
  · split <;> exact rfl
  · exact rfl

theorem note_power_start_leaves (station_id connector_id : ℕ) : Leaves (note_power_start station_id connector_id) s := by
  unfold Leaves note_power_start
  rw [wp_write]
  split
  · simp only
    split <;> rfl
  · rfl

theorem consumeHold_leaves (session_id : ℕ) (reservation : Option Reservations.Reservation) :
    Leaves (consumeHold env session_id reservation) s := by
  cases reservation with
  | none => exact rfl
  | some r => exact onReservations_leaves _

theorem startRequest_spec {connector_id : ℕ} {card : Option ChargingCard} {r : DriverStartRequest}
    (h : startRequest env s connector_id card = some r) : r ∈ s.start_requests ∧ r.unanswered := by
  unfold startRequest at h
  cases card with
  | none => cases h
  | some card =>
    simp only [Option.bind_eq_bind, Option.bind_some] at h
    split at h
    · obtain ⟨found, hfound, hr⟩ := Option.bind_eq_some_iff.mp h
      cases hr
      obtain ⟨x, hx, hpoint⟩ := List.mem_map.mp (Points.latest_spec hfound).1
      obtain ⟨hmem, hp⟩ := List.mem_filter.mp hx
      simp only [decide_eq_true_eq] at hp
      rw [← hpoint]
      exact ⟨hmem, hp.2.2⟩
    · cases h

/-- The answer of a start that is refused rejects the request. -/
theorem answerRequest_rejects {answer : DriverStartRequest → DriverStartRequest} (connector_id : ℕ)
    (card : Option ChargingCard) (h : ∀ r, ∃ reason balance minimum, answer r = { r with
      status := .Rejected, rejection_reason := reason, balance_vnd := balance, minimum_balance_vnd := minimum }) :
    wp (answerRequest env connector_id card answer) (fun _ s' => StartMoves s.startRows s'.startRows)
      (fun _ _ => False) s := by
  unfold answerRequest
  rw [wp_write]
  split
  · next r hr =>
    obtain ⟨hmem, hopen⟩ := startRequest_spec hr
    obtain ⟨reason, balance, minimum, hanswer⟩ := h r
    rw [hanswer]
    exact .single (@StartMove.save s.startRows r _ hmem (.reject reason balance minimum env.now hopen))
  · exact .refl

theorem reject_remote_start_moves (connector_id : ℕ) (card : Option ChargingCard) (eligibility : ChargingEligibility) :
    wp (reject_remote_start env connector_id card eligibility) (fun _ s' => StartMoves s.startRows s'.startRows)
      (fun _ _ => False) s :=
  answerRequest_rejects connector_id card fun _ => ⟨_, _, _, rfl⟩

theorem refuseStart_moves (charger : ChargePoint) (message_id : String) (connector : Connector)
    (card : Option ChargingCard) (reason : String) :
    wp (refuseStart env charger message_id connector card reason) (fun _ s' => StartMoves s.startRows s'.startRows)
      (fun _ _ => False) s := by
  unfold refuseStart reject_unavailable_start
  rw [wp_bind]
  exact answerRequest_rejects connector.id card fun _ => ⟨_, _, _, rfl⟩

theorem attach_remote_start_rows (c : Session) (card : Option ChargingCard) :
    wp (attach_remote_start env c card) (fun _ s' => s'.session_seq = s.session_seq ∧
      (s'.start_requests = s.start_requests ∨ ∃ r ∈ s.start_requests, r.unanswered ∧
        s'.start_requests = Table.modify DriverStartRequest.id r.id
          (fun _ => { r with status := .Started, session_id := some c.id, lease_until := env.now }) s.start_requests))
      (fun _ _ => False) s := by
  unfold attach_remote_start answerRequest
  split
  · exact ⟨rfl, .inl rfl⟩
  rw [wp_write]
  split
  · next r hr =>
    obtain ⟨hmem, hopen⟩ := startRequest_spec hr
    exact ⟨rfl, .inr ⟨r, hmem, hopen, rfl⟩⟩
  · exact ⟨rfl, .inl rfl⟩

/-- A new session takes the next number, and may be that of a request. -/
theorem beginSession_moves (charger : ChargePoint) (connector : Connector) (payload : StartPayload)
    (result : Billing.AuthorizationStatus) (card : Option ChargingCard)
    (reservation : Option Reservations.Reservation) (hasOld : Bool) :
    wp (beginSession env charger connector payload result card reservation hasOld)
      (fun _ s' => StartMoves s.startRows s'.startRows) (fun _ s' => s.session_seq ≤ s'.session_seq) s := by
  unfold beginSession
  simp only [wp_bind, wp_read, wp_write]
  set c := newSession env charger connector payload result card hasOld s.session_seq
  have hid : c.id = s.session_seq := (CallsLemmas.fresh_newSession _ _ _ _ _ _ _).2
  have hseq : ∀ {s' : Database}, s'.startRows = ⟨s.start_requests, s.session_seq + 1⟩ → s.session_seq ≤ s'.session_seq := by
    intro s' h
    have : s'.session_seq = s.session_seq + 1 := congrArg StartRows.seq h
    omega
  refine wp_mono (consumeHold_leaves c.id reservation) (fun _ s₂ h₂ => ?_) fun _ s₂ h₂ => hseq h₂
  rw [wp_bind, wp_write, wp_bind]
  have hrows : s₂.start_requests = s.start_requests := congrArg StartRows.rows h₂
  have hnext : s₂.session_seq = s.session_seq + 1 := congrArg StartRows.seq h₂
  refine wp_mono (attach_remote_start_rows c card) (fun _ s₃ h₃ => ?_) fun _ _ h => h.elim
  have hmoves : StartMoves s.startRows s₃.startRows := by
    obtain ⟨hseq₃, hattached⟩ := h₃
    change s₃.session_seq = s₂.session_seq at hseq₃
    unfold Database.startRows
    rw [hseq₃, hnext]
    rcases hattached with hsame | ⟨r, hmem, hopen, heq⟩
    · rw [hsame]
      change StartMoves _ ⟨s₂.start_requests, _⟩
      rw [hrows]
      exact .single (.seq _ (Nat.le_succ _))
    · change r ∈ s₂.start_requests at hmem
      change s₃.start_requests = Table.modify _ _ _ s₂.start_requests at heq
      rw [hrows] at hmem heq
      rw [heq, hid]
      exact .single (@StartMove.attach ⟨s.start_requests, s.session_seq⟩ r hmem hopen env.now)
  have hseq₃ : s.session_seq ≤ s₃.session_seq := by
    have : s₃.session_seq = s₂.session_seq := h₃.1
    omega
  split
  · rw [wp_bind]
    refine wp_mono (note_power_start_leaves charger.station_id connector.id) (fun _ s₄ h₄ => ?_) fun _ s₄ h₄ => ?_
    · rw [wp_pure, h₄]
      exact hmoves
    · exact hseq₃.trans_eq (congrArg StartRows.seq h₄).symm
  · exact hmoves

theorem start_transaction_starts (charger : ChargePoint) (message_id : String) (payload : StartPayload) :
    wp (start_transaction env charger message_id payload)
      (fun _ s' => StartMoves s.startRows s'.startRows) (fun _ s' => s.session_seq ≤ s'.session_seq) s := by
  have hseq : ∀ {s' : Database}, s'.startRows = s.startRows → s.session_seq ≤ s'.session_seq := fun h =>
    (congrArg StartRows.seq h).ge
  unfold start_transaction
  simp only [wp_bind, wp_read, wp_orRaise]
  refine ⟨fun _ => le_rfl, fun connector hconnector => ?_⟩
  refine wp_mono (authorize_leaves charger payload.idTag true) (fun r s₁ h₁ => ?_) fun _ s₁ h₁ => hseq h₁
  obtain ⟨result, card, wallet_failure⟩ := r
  rw [wp_bind]
  refine wp_mono (onReservations_leaves _) (fun a s₂ h₂ => ?_) fun _ s₂ h₂ => hseq (h₂.trans h₁)
  obtain ⟨allowed, reservation⟩ := a
  have hrows : s₂.startRows = s.startRows := h₂.trans h₁
  have hrefuse : ∀ reason, wp (refuseStart env charger message_id connector card reason)
      (fun _ s' => StartMoves s.startRows s'.startRows) (fun _ s' => s.session_seq ≤ s'.session_seq) s₂ := fun reason =>
    wp_mono (refuseStart_moves charger message_id connector card reason) (fun _ _ h => hrows ▸ h) fun _ _ h => h.elim
  rw [wp_bind, wp_read]
  split
  · exact hrefuse _
  split
  · exact hrefuse _
  split
  · exact hrefuse _
  split
  · next eligibility _ =>
    rw [wp_bind]
    refine wp_mono (reject_remote_start_moves connector.id card eligibility) (fun _ s₃ h₃ => ?_) fun _ _ h => h.elim
    simp only [wp_bind, wp_orRaise, pending, wp_write, wp_pure]
    have hmoves : StartMoves s.startRows s₃.startRows := hrows ▸ h₃
    exact ⟨fun _ => moves_seq hmoves, fun _ _ => hmoves⟩
  · rw [wp_bind]
    refine wp_mono (closeOld_leaves connector) (fun hasOld s₃ h₃ => ?_) fun _ s₃ h₃ => hseq (h₃.trans hrows)
    rw [wp_bind]
    refine wp_mono (flagPrevious_leaves _) (fun _ s₄ h₄ => ?_) fun _ s₄ h₄ => hseq (h₄.trans (h₃.trans hrows))
    have hrows₄ : s₄.startRows = s.startRows := h₄.trans (h₃.trans hrows)
    refine wp_mono (beginSession_moves charger connector payload result card reservation hasOld)
      (fun _ s₅ h₅ => hrows₄ ▸ h₅) fun _ s₅ h₅ => ?_
    exact (congrArg StartRows.seq hrows₄).symm.le.trans h₅

end DriverStartsLemmas

open DriverStartsLemmas

theorem StartCall.run_starts (call : StartCall) (s : Database) : StartMoves s.startRows (call.run s).startRows := by
  unfold StartCall.run
  obtain ⟨reply, s', hrun, h⟩ | ⟨e, s', hrun, h⟩ :=
    wp_run (@start_transaction_starts call.env s call.charger call.message_id call.payload)
  · rw [hrun]
    exact h
  · rw [hrun]
    exact .single (.seq s'.session_seq h)

/-! ## 4. The transactions of drivers -/

namespace DriverStartsLemmas

variable {env : Environment} {s s' : DriverDb} {o : StartOrder} {now replied : ℤ}

/-- No request has the id of the order. -/
def Unused (o : StartOrder) (s : DriverDb) : Prop := ∀ r ∈ s.db.start_requests, r.id ≠ o.request_id

/-- A transaction that admits the order, if it is to be sent, makes its request. -/
def AdmitsOrder (o : StartOrder) (s : DriverDb) (result : Option StartResult) (s' : DriverDb) : Prop :=
  StartMoves s.db.startRows s'.db.startRows ∧
    (result = none → Unused o s ∧ ∃ r ∈ s'.db.start_requests, r.id = o.request_id)

theorem expire_start_requests_moves (now : ℤ) (s : DriverDb) :
    wp (expire_start_requests now) (fun _ s' => StartMoves s.db.startRows s'.db.startRows ∧
      ∀ r' ∈ s'.db.start_requests, ∃ r ∈ s.db.start_requests, r.id = r'.id) (fun _ _ => False) s := by
  unfold expire_start_requests
  simp only [wp_bind, wp_read, wp_write, wp_pure]
  refine ⟨.single (.rows _ fun r _ => ?_), fun r' hr' => ?_⟩
  · split
    · next hdue => exact .lapse hdue
    · exact .same r
  · obtain ⟨r, hr, rfl⟩ := List.mem_map.mp hr'
    refine ⟨r, hr, ?_⟩
    split
    · unfold expireRequest
      split <;> rfl
    · rfl

theorem insertRequest_rows (charger : ChargePoint) (r : DriverStartRequest) (s : DriverDb) :
    wp (insertRequest charger r) (fun _ s' => s'.db.startRows = ⟨s.db.start_requests ++ [r], s.db.session_seq⟩)
      (fun _ s' => s' = s) s := by
  unfold insertRequest
  simp only [wp_bind, wp_read, wp_raiseIf, wp_write]
  exact ⟨fun _ => trivial, fun _ => ⟨fun _ => trivial, fun _ => ⟨fun _ => trivial, fun _ => rfl⟩⟩⟩

theorem virtual_tag_rows (driver_id : Uuid) (s : DriverDb) :
    wp (virtual_tag env now driver_id) (fun _ s' => s'.db.startRows = s.db.startRows)
      (fun _ s' => s'.db.startRows = s.db.startRows) s := by
  unfold virtual_tag
  rw [wp_bind, wp_zoom]
  unfold wp
  split
  · change wp (raiseIf _ _) _ _ _
    rw [wp_raiseIf]
    exact ⟨fun _ => rfl, fun _ => rfl⟩
  · rfl

/-- After the insert of the order's request the table has moved. -/
theorem inserted_moves (fresh : Unused o s) (free : ¬ leased s.db o) {status : StartStatus}
    (kind : status = .Pending ∨ status = .Offline)
    (h : s'.db.startRows = ⟨s.db.start_requests ++ [newRequest now o status], s.db.session_seq⟩)
    (result : Option StartResult) : AdmitsOrder o s result s' := by
  refine ⟨?_, fun _ => ⟨fresh, newRequest now o status, ?_, rfl⟩⟩
  · rw [h]
    refine .single (@StartMove.insert s.db.startRows o now status kind fresh fun r hr hlease => ?_)
    exact ⟨fun hc => free ⟨r, hr, hlease, .inl hc⟩, fun hd => free ⟨r, hr, hlease, .inr hd⟩⟩
  · rw [show s'.db.start_requests = s.db.start_requests ++ [newRequest now o status] from congrArg StartRows.rows h]
    exact List.mem_append_right _ (List.mem_singleton_self _)

theorem leaseStart_admits (connected : Bool) (connector : Connector) (charger : ChargePoint) (station : Station)
    (reservation : Option Reservations.Reservation) (fresh : Unused o s) :
    wp (leaseStart env now replied connected o connector charger station reservation) (AdmitsOrder o s)
      (fun _ s' => s.db.session_seq ≤ s'.db.session_seq) s := by
  unfold leaseStart
  simp only [wp_bind, wp_read, wp_raiseIf]
  refine ⟨fun _ => le_rfl, fun _ => ⟨fun _ => le_rfl, fun hfree => ⟨fun _ => le_rfl, fun _ => ?_⟩⟩⟩
  have hfree : ¬ leased s.db o := fun h => hfree (.inl h)
  rw [wp_ite]
  refine ⟨fun _ => ?_, fun _ => ?_⟩
  · rw [wp_bind, wp_orRaise]
    exact ⟨fun _ => le_rfl, fun _ _ => le_rfl⟩
  rw [wp_ite]
  refine ⟨fun _ => ?_, fun _ => ?_⟩
  · rw [wp_bind]
    refine wp_mono (insertRequest_rows charger _ s) (fun _ s₁ h₁ => ?_) fun _ s₁ h₁ => h₁ ▸ le_rfl
    rw [wp_bind]
    refine wp_mono (virtual_tag_rows o.driver_id s₁) (fun _ s₂ h₂ => ?_) fun _ s₂ h₂ => ?_
    · exact inserted_moves fresh hfree (.inl rfl) (h₂.trans h₁) none
    · exact (congrArg StartRows.seq (h₂.trans h₁)).ge
  · rw [wp_bind]
    refine wp_mono (insertRequest_rows charger _ s) (fun _ s₁ h₁ => ?_) fun _ s₁ h₁ => h₁ ▸ le_rfl
    exact inserted_moves fresh hfree (.inr rfl) h₁ _

theorem admitStart_admits (env : Environment) (now replied : ℤ) (connected : Bool) (o : StartOrder) (s : DriverDb) :
    wp (admitStart env now replied connected o) (AdmitsOrder o s) (fun _ s' => s.db.session_seq ≤ s'.db.session_seq) s := by
  unfold admitStart
  rw [wp_bind, wp_read]
  split
  · rw [wp_bind, wp_raiseIf]
    exact ⟨fun _ => le_rfl, fun _ => ⟨.refl, nofun⟩⟩
  next hnone =>
  have hunused : Unused o s := fun r hr hid => List.find?_eq_none.mp hnone r hr (decide_eq_true hid)
  simp only [wp_bind, wp_orRaise, wp_raiseIf]
  refine ⟨fun _ => le_rfl, fun connector _ => ⟨fun _ => le_rfl, fun _ => ⟨fun _ => le_rfl, fun _ =>
    ⟨fun _ => le_rfl, fun _ => ⟨fun _ => le_rfl, fun place _ => ?_⟩⟩⟩⟩⟩
  refine wp_mono (expire_start_requests_moves now s) (fun _ s₁ h₁ => ?_) fun _ _ h => h.elim
  obtain ⟨hmoves, hids⟩ := h₁
  have hunused₁ : Unused o s₁ := fun r' hr' hid => by
    obtain ⟨r, hr, heq⟩ := hids r' hr'
    exact hunused r hr (heq.trans hid)
  refine wp_mono (leaseStart_admits connected connector place.1 place.2 _ hunused₁) (fun result s₂ h₂ => ?_)
    fun _ s₂ h₂ => (moves_seq hmoves).trans h₂
  exact ⟨Relation.ReflTransGen.trans hmoves h₂.1, fun hsend => ⟨hunused, (h₂.2 hsend).2⟩⟩

/-- The result of a command that was just recorded is there. -/
theorem command_status_insertResult (s : DriverDb) (command_id : Uuid) (status : CommandOutcome) (now : ℤ) :
    ∃ outcome, command_status { s with control_results := insertResult command_id status now s.control_results }
      command_id = some outcome := by
  have hmem : ∃ r ∈ insertResult command_id status now s.control_results, r.command_id = command_id := by
    unfold insertResult
    split
    · assumption
    · exact ⟨_, List.mem_append_right _ (List.mem_singleton_self _), rfl⟩
  obtain ⟨r, hr, hid⟩ := hmem
  unfold command_status
  cases hfind : (insertResult command_id status now s.control_results).find? (·.command_id = command_id) with
  | some x => exact ⟨x.status, rfl⟩
  | none => exact absurd (decide_eq_true hid) (List.find?_eq_none.mp hfind r hr)

theorem answerStart_moves (received replied : ℤ) (request_id : Uuid) (outcome : CommandOutcome) (s : DriverDb) :
    wp (answerStart received replied request_id outcome) (fun _ s' => StartMoves s.db.startRows s'.db.startRows)
      (fun _ s' => s' = s) s := by
  unfold answerStart
  simp only [wp_bind, wp_read, wp_orRaise]
  refine ⟨fun _ => trivial, fun completed hfind => ?_⟩
  rw [wp_ite]
  refine ⟨fun hwaits => ?_, fun _ => .refl⟩
  simp only [wp_bind, record_result, wp_read, wp_write, wp_pure]
  obtain ⟨stored, hstored⟩ := command_status_insertResult s request_id outcome received
  rw [hstored]
  have hid : (answered received stored.status completed).id = completed.id := by
    unfold answered
    simp only
    split <;> rfl
  unfold saveRequest
  simp only [Option.map_some, Option.getD_some, hid]
  exact .single (@StartMove.save s.db.startRows completed _ (List.mem_of_find?_eq_some hfind)
    (.answer received stored hwaits))

theorem inTransaction_moves {α : Type} {x : DriverTx α} {Q : α → DriverDb → Prop}
    (h : wp x Q (fun _ s' => s.db.session_seq ≤ s'.db.session_seq) s)
    (hQ : ∀ a s', Q a s' → StartMoves s.db.startRows s'.db.startRows) :
    StartMoves s.db.startRows (inTransaction x s).2.db.startRows := by
  have hwp : wp (inTransaction x) (fun _ s' => StartMoves s.db.startRows s'.db.startRows)
      (fun _ s' => StartMoves s.db.startRows s'.db.startRows) s := by
    unfold inTransaction
    rw [wp_savepoint]
    exact wp_mono h hQ fun _ s' hs' => .single (.seq s'.db.session_seq hs')
  exact wp_state hwp

end DriverStartsLemmas

/-! ## 5. Every operation -/

variable {w w' : DriverWorld}

theorem DriverOp.moves (op : DriverOp) (valid : op.Valid w) :
    StartMoves w.tables.db.startRows (op.run w).tables.db.startRows := by
  cases op with
  | admission env now replied connected o =>
    have h := inTransaction_moves (admitStart_admits env now replied connected o w.tables) fun _ _ h => h.1
    simp only [DriverOp.run]
    split
    · next hrun => rwa [hrun] at h
    · next hrun => rwa [hrun] at h
  | send => exact .refl
  | reply received replied request_id wire =>
    refine inTransaction_moves (wp_mono (answerStart_moves received replied request_id (send_command wire) w.tables)
      (fun _ _ h => h) fun _ s' h => ?_) fun _ _ h => h
    rw [h]
  | crash => exact .refl
  | expire now =>
    exact inTransaction_moves (wp_mono (expire_start_requests_moves now w.tables) (fun _ _ h => h) fun _ _ h => h.elim)
      fun _ _ h => h.1
  | scan env => exact .refl
  | start call => exact call.run_starts w.tables.db
  | rest tables =>
    change StartMoves ⟨w.tables.db.start_requests, w.tables.db.session_seq⟩ ⟨tables.db.start_requests, tables.db.session_seq⟩
    rw [valid.1]
    exact .single (.seq _ valid.2)

/-- The invariant of the system: a command is sent once, for a request that is in the table. -/
structure DriverOk (w : DriverWorld) : Prop where
  rows : StartsOk w.tables.db.startRows
  nodup : (w.toSend ++ w.sent).Nodup
  requested : ∀ id ∈ w.toSend ++ w.sent, ∃ r ∈ w.requests, r.id = id

namespace DriverStartsLemmas

/-- A move keeps the invariant where no call is added. -/
theorem ok_of_sublist (h : DriverOk w) (hmoves : StartMoves w.tables.db.startRows w'.tables.db.startRows)
    (hcalls : (w'.toSend ++ w'.sent).Subperm (w.toSend ++ w.sent)) : DriverOk w' := by
  refine ⟨moves_ok hmoves h.rows, ?_, fun id hid => ?_⟩
  · obtain ⟨calls, hperm, hsub⟩ := hcalls
    exact hperm.nodup_iff.mp (h.nodup.sublist hsub)
  · obtain ⟨r, hr, heq⟩ := h.requested id (hcalls.subset hid)
    obtain ⟨r', hr', hfollows⟩ := moves_follow hmoves h.rows hr
    exact ⟨r', hr', hfollows.id.trans heq⟩

theorem admit_ok (h : DriverOk w) (env : Environment) (now replied : ℤ) (connected : Bool) (o : StartOrder) :
    DriverOk ((DriverOp.admission env now replied connected o).run w) := by
  have hmoves : StartMoves w.tables.db.startRows
      (inTransaction (admitStart env now replied connected o) w.tables).2.db.startRows :=
    inTransaction_moves (admitStart_admits env now replied connected o w.tables) fun _ _ h => h.1
  have hwp : wp (inTransaction (admitStart env now replied connected o)) (AdmitsOrder o w.tables) (fun _ _ => True)
      w.tables := by
    unfold inTransaction
    rw [wp_savepoint]
    exact wp_mono (admitStart_admits env now replied connected o w.tables) (fun _ _ h => h) fun _ _ _ => trivial
  simp only [DriverOp.run]
  split
  · next tables hrun =>
    rw [hrun] at hmoves
    obtain ⟨-, hsend⟩ := wp_ok hwp hrun
    obtain ⟨hunused, hmade⟩ := hsend rfl
    have hnew : o.request_id ∉ w.toSend ++ w.sent := fun hid => by
      obtain ⟨r, hr, heq⟩ := h.requested _ hid
      exact hunused r hr heq
    refine ⟨moves_ok hmoves h.rows, ?_, fun id hid => ?_⟩
    · rw [List.append_assoc]
      exact (List.perm_middle.nodup_iff).mpr (List.nodup_cons.mpr ⟨hnew, h.nodup⟩)
    · rw [List.append_assoc] at hid
      rcases List.mem_cons.mp (List.perm_middle.mem_iff.mp hid) with rfl | hid
      · exact hmade
      · obtain ⟨r, hr, heq⟩ := h.requested id hid
        obtain ⟨r', hr', hfollows⟩ := moves_follow hmoves h.rows hr
        exact ⟨r', hr', hfollows.id.trans heq⟩
  · next tables hrun =>
    rw [hrun] at hmoves
    exact ok_of_sublist h hmoves (List.Subperm.refl _)

theorem step_ok (h : DriverOk w) (op : DriverOp) (valid : op.Valid w) : DriverOk (op.run w) := by
  have hmoves := op.moves valid
  cases op with
  | admission env now replied connected o => exact admit_ok h env now replied connected o
  | send request_id =>
    have hmoved : (w.toSend.erase request_id ++ (w.sent ++ [request_id])).Perm
        (request_id :: (w.toSend.erase request_id ++ w.sent)) :=
      (List.perm_append_comm.append_left _).trans List.perm_middle
    have hback : (request_id :: (w.toSend.erase request_id ++ w.sent)).Perm (w.toSend ++ w.sent) :=
      (List.perm_cons_erase valid).symm.append_right _
    exact ok_of_sublist h hmoves (hmoved.trans hback).subperm
  | crash request_id =>
    exact ok_of_sublist h hmoves (List.Sublist.subperm (.append_right List.erase_sublist _))
  | _ => exact ok_of_sublist h hmoves (List.Subperm.refl _)

theorem reach_ok (run : DriverReach w w') (h : DriverOk w) : DriverOk w' := by
  induction run with
  | refl => exact h
  | tail _ step ih =>
    obtain ⟨op, valid, rfl⟩ := step
    exact step_ok ih op valid

theorem reach_moves (run : DriverReach w w') : StartMoves w.tables.db.startRows w'.tables.db.startRows := by
  induction run with
  | refl => exact .refl
  | tail _ step ih =>
    obtain ⟨op, valid, rfl⟩ := step
    exact Relation.ReflTransGen.trans ih (op.moves valid)

theorem DriverOk.of_fresh (h : w.Fresh) : DriverOk w := by
  have hrows : w.tables.db.startRows = ⟨[], w.tables.db.session_seq⟩ :=
    congrArg (StartRows.mk · w.tables.db.session_seq) h.requests
  refine ⟨?_, ?_, ?_⟩
  · rw [hrows]
    refine ⟨.nil, ?_, ?_, ?_, ?_, ?_⟩ <;> intro r hr <;> cases hr
  · rw [h.toSend, h.sent]
    exact .nil
  · rw [h.toSend, h.sent]
    intro id hid
    cases hid

end DriverStartsLemmas

/-- In every state that is reached: no two requests of one driver or of one connector are Pending or
Accepted, a request has a session exactly if it is Started, no session belongs to two, and no request was
sent twice. Whatever follows, a Started or Rejected request stays as it is, and one that timed out is never
Accepted. -/
theorem driver_starts_safe {w₀ w : DriverWorld} (fresh : w₀.Fresh) (run : DriverReach w₀ w) :
    Table.Keyed DriverStartRequest.id w.requests ∧
    (∀ a ∈ w.requests, ∀ b ∈ w.requests, a.status.leases = true → b.status.leases = true →
      a.connector_id = b.connector_id ∨ a.driver_id = b.driver_id → a = b) ∧
    (∀ r ∈ w.requests, r.session_id ≠ none ↔ r.status = .Started) ∧
    (∀ a ∈ w.requests, ∀ b ∈ w.requests, ∀ n, a.session_id = some n → b.session_id = some n → a = b) ∧
    w.sent.Nodup ∧
    ∀ w', DriverReach w w' → ∀ r ∈ w.requests, ∃ r' ∈ w'.requests, r'.id = r.id ∧
      (r.status = .Started ∨ r.status = .Rejected → r'.status = r.status ∧ r'.session_id = r.session_id) ∧
      (r.status = .Timeout → r'.status ≠ .Accepted) := by
  have hok := reach_ok run (DriverOk.of_fresh fresh)
  have hrows := hok.rows
  refine ⟨hrows.keyed, hrows.lease, hrows.attached, hrows.once, (List.nodup_append.mp hok.nodup).2.1, ?_⟩
  intro w' later r hr
  obtain ⟨r', hr', hfollows⟩ := moves_follow (reach_moves later) hrows hr
  refine ⟨r', hr', hfollows.id, hfollows.final, fun htimeout heq => ?_⟩
  rcases hfollows.timeout htimeout with h | h | h <;> rw [heq] at h <;> cases h

/-! ## 6. A late reply -/

namespace LateReply

open Reservations (SECOND)
open Reservations.OneDriver (driver booking)

/-- A driver orders a start, and the charger accepts it when the lease is over. -/
def world : DriverWorld := ⟨⟨OneHold.tables, [], []⟩, [], [], []⟩

def admitted : DriverOp := .admission (OneHold.site 0) 0 0 true ⟨driver, booking, 0⟩

def send : DriverOp := .send booking

def expire : DriverOp := .expire (31 * SECOND)

def reply : DriverOp := .reply (40 * SECOND) (40 * SECOND) booking (.callResult (some "Accepted"))

/-- The world after some operations. -/
def after (ops : List DriverOp) : DriverWorld := ops.foldl (fun w op => op.run w) world

theorem run_expired : DriverReach world (after [admitted, send, expire]) := by
  have hadmitted : DriverReach world (after [admitted]) := .single ⟨admitted, trivial, rfl⟩
  have htoSend : booking ∈ (after [admitted]).toSend := by decide +kernel
  have hsent : DriverReach world (after [admitted, send]) := hadmitted.tail ⟨send, htoSend, rfl⟩
  exact hsent.tail ⟨expire, trivial, rfl⟩

theorem run_reply : DriverReach (after [admitted, send, expire]) (after [admitted, send, expire, reply]) := by
  have hwaiting : booking ∈ (after [admitted, send, expire]).waiting := by decide +kernel
  exact .single ⟨reply, hwaiting, rfl⟩

end LateReply

open LateReply in
/-- The request timed out, and the late reply does not accept it. -/
theorem driver_starts_safe_late_reply : ∃ r ∈ (after [admitted, send, expire]).requests, r.status = .Timeout ∧
    ∃ r' ∈ (after [admitted, send, expire, reply]).requests, r'.id = r.id ∧ r'.status ≠ .Accepted := by
  have htimeout : ∃ r ∈ (after [admitted, send, expire]).requests, r.status = .Timeout := by decide +kernel
  obtain ⟨r, hr, hstatus⟩ := htimeout
  have hsafe := driver_starts_safe (⟨rfl, rfl, rfl⟩ : world.Fresh) run_expired
  obtain ⟨r', hr', hid, -, hlate⟩ := hsafe.2.2.2.2.2 _ run_reply r hr
  exact ⟨r, hr, hstatus, r', hr', hid, hlate hstatus⟩

end Csms.Charging
