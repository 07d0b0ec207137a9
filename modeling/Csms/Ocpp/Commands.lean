import Csms.Ocpp.Control

/-!
# Every run of commands to chargers

Commands are submitted, sent, answered, recorded and lost in any order, while chargers connect, disconnect and
send any frames, the deadlines are scanned, and the rest of the program writes its own tables.

Results, for every run:
1. `commands_sent_once`: a command is on the wire at most once, as it was stored and to its own charger; it has
   one result, which never changes, and only its charger makes it `Accepted` or `Rejected`.
2. `commands_settle`: after a scan every command that is old enough has a result, and a session is flagged only
   for a stop that its charger accepted.
-/

namespace Csms.Ocpp.Control

open Tx Table Csms.Charging

variable {F : Type}

/-! ## 1. Runs -/

/-- A command on the wire. -/
structure Sent where
  command_id : Uuid
  connection : ℕ
  payload : Payload
  deriving DecidableEq, Repr

def Task.sent (k : Task F) : Sent := ⟨k.command_id, k.connection, k.payload⟩

/-- The tables, the current connections, the senders, and what was sent and received. -/
structure CommandWorld (F : Type) where
  tables : ControlDb
  registry : ℕ → Option ℕ
  tasks : List (Task F)
  wire : List Sent
  received : List (ℕ × Frame F)

/-- No command was submitted yet. -/
structure CommandWorld.Fresh (w : CommandWorld F) : Prop where
  requests : w.tables.requests = []
  results : w.tables.results = []
  registry : ∀ p, w.registry p = none
  tasks : w.tasks = []
  wire : w.wire = []

/-- The sender of a command that the first transaction leaves to send. -/
def newTasks (call : CommandCall) : Except ChargingError Next → List (Task F)
  | .ok (.send connection payload) => [⟨call.command_id, connection, payload, .call⟩]
  | _ => []

def CommandWorld.submit (e : ControlEnv) (call : CommandCall) (w : CommandWorld F) : CommandWorld F :=
  { w with
    tables := (submitted e call w.tables).2
    tasks := w.tasks ++ newTasks call (submitted e call w.tables).1 }

/-- `replace`: the calls of the older connection are cancelled. -/
def CommandWorld.replace (charge_point_id connection : ℕ) (w : CommandWorld F) : CommandWorld F :=
  { w with
    registry := Function.update w.registry charge_point_id (some connection)
    tasks := match w.registry charge_point_id with
      | some previous => if previous = connection then w.tasks else w.tasks.map (Task.cancel previous)
      | none => w.tasks }

/-- `remove`: only a connection that is still current. -/
def CommandWorld.remove (charge_point_id connection : ℕ) (w : CommandWorld F) : CommandWorld F :=
  if w.registry charge_point_id = some connection then
    { w with
      registry := Function.update w.registry charge_point_id none
      tasks := w.tasks.map (Task.cancel connection) }
  else w

/-- A CALLRESULT or CALLERROR arrives. -/
def CommandWorld.receive (connection : ℕ) (frame : Frame F) (w : CommandWorld F) : CommandWorld F :=
  { w with received := w.received ++ [(connection, frame)], tasks := w.tasks.map (Task.receive connection frame) }

def CommandWorld.scan (env : Environment) (w : CommandWorld F) : CommandWorld F :=
  let tables := expireCommands env.now w.tables
  { w with tables := { tables with
      db := (scan_control_deadlines { env with remote_stops := remoteStops tables } tables.db).2 } }

/-- A step of a sender among the others. -/
inductive Advance (others : List (Task F)) (k : Task F) : Phase F → Prop
  | call (phase : k.phase = .call) (free : ∀ other ∈ others, k.blocks other = false) :
      Advance others k (.pending false .waiting)
  | returned (reply : Frame F) (phase : k.phase = .pending true (.replied reply)) :
      Advance others k (.record (outcomeOf reply))
  | cancelled (phase : k.phase = .pending true .cancelled) : Advance others k (.record .Disconnected)
  | failed (sent : Bool) (future : Future F) (phase : k.phase = .pending sent future) :
      Advance others k (.record .Disconnected)
  | timeout (sent : Bool) (future : Future F) (phase : k.phase = .pending sent future) :
      Advance others k (.record .Timeout)

/-- One step. `point` is the charge point of a connection. A sender is lost when the program stops, and when its
message id is pending already. -/
inductive CommandStep (point : ℕ → ℕ) (w : CommandWorld F) : CommandWorld F → Prop
  | submit (e : ControlEnv) (call : CommandCall) (registry : e.registry = w.registry) :
      CommandStep point w (w.submit e call)
  | advance (before after : List (Task F)) (k : Task F) (tasks : w.tasks = before ++ k :: after) (phase : Phase F)
      (advance : Advance (before ++ after) k phase) :
      CommandStep point w { w with tasks := before ++ { k with phase } :: after }
  | transmit (before after : List (Task F)) (k : Task F) (tasks : w.tasks = before ++ k :: after) (future : Future F)
      (phase : k.phase = .pending false future) :
      CommandStep point w { w with
        tasks := before ++ { k with phase := .pending true future } :: after, wire := w.wire ++ [k.sent] }
  | record (before after : List (Task F)) (k : Task F) (tasks : w.tasks = before ++ k :: after)
      (outcome : CommandStatus) (phase : k.phase = .record outcome) (now : ℤ) :
      CommandStep point w { w with
        tables := record_result k.command_id outcome now w.tables, tasks := before ++ after }
  | lost (before after : List (Task F)) (k : Task F) (tasks : w.tasks = before ++ k :: after) :
      CommandStep point w { w with tasks := before ++ after }
  | receive (connection : ℕ) (frame : Frame F) (reply : frame.kind ≠ .call) :
      CommandStep point w (w.receive connection frame)
  | replace (connection : ℕ) : CommandStep point w (w.replace (point connection) connection)
  | remove (connection : ℕ) : CommandStep point w (w.remove (point connection) connection)
  | scan (env : Environment) : CommandStep point w (w.scan env)
  | rest (db : Database) : CommandStep point w { w with tables := { w.tables with db } }

/-- Any number of steps. -/
def CommandReach (point : ℕ → ℕ) : CommandWorld F → CommandWorld F → Prop :=
  Relation.ReflTransGen (CommandStep point)

/-! ## 2. The invariant -/

/-- The stored request of what is sent. -/
def Requested (point : ℕ → ℕ) (t : ControlDb) (s : Sent) : Prop :=
  ∃ r ∈ t.requests, r.id = s.command_id ∧ r.payload = s.payload ∧ r.charge_point_id = point s.connection

/-- The command was sent, and a frame with its id came back on the connection it was sent on. -/
def Answered (wire : List Sent) (received : List (ℕ × Frame F)) (command_id : Uuid) (status : CommandStatus) : Prop :=
  ∃ s ∈ wire, s.command_id = command_id ∧
    ∃ reply, (s.connection, reply) ∈ received ∧ reply.message_id = messageId command_id ∧ outcomeOf reply = status

/-- What a result says about its command. -/
structure Final (wire : List Sent) (received : List (ℕ × Frame F)) (command_id : Uuid) (status : CommandStatus) : Prop where
  settled : status ≠ .Pending
  offline : status = .Offline → ∀ s ∈ wire, s.command_id ≠ command_id
  answered : status = .Accepted ∨ status = .Rejected → Answered wire received command_id status

/-- The sender did not send yet. -/
def Phase.unsent : Phase F → Prop
  | .call => True
  | .pending sent _ => sent = false
  | .record _ => False

structure TaskOk (point : ℕ → ℕ) (w : CommandWorld F) (k : Task F) : Prop where
  request : Requested point w.tables k.sent
  online : ∀ r ∈ w.tables.results, r.command_id = k.command_id → r.status ≠ .Offline
  unsent : k.phase.unsent → ∀ s ∈ w.wire, s.command_id ≠ k.command_id
  sent : ∀ future, k.phase = .pending true future → k.sent ∈ w.wire
  replied : ∀ sent reply, k.phase = .pending sent (.replied reply) →
    (k.connection, reply) ∈ w.received ∧ reply.message_id = messageId k.command_id
  outcome : ∀ status, k.phase = .record status → status ≠ .Offline ∧ Final w.wire w.received k.command_id status

/-- What holds in every reachable state. -/
structure Ok (point : ℕ → ℕ) (w : CommandWorld F) : Prop where
  requests : Keyed ControlRequest.id w.tables.requests
  stop : ∀ r ∈ w.tables.requests, r.StopsItsTransaction
  results : Keyed ControlResult.command_id w.tables.results
  known : ∀ r ∈ w.tables.results, ∃ q ∈ w.tables.requests, q.id = r.command_id
  final : ∀ r ∈ w.tables.results, Final w.wire w.received r.command_id r.status
  tasks : Keyed Task.command_id w.tasks
  task : ∀ k ∈ w.tasks, TaskOk point w k
  wire : Keyed Sent.command_id w.wire
  sent : ∀ s ∈ w.wire, Requested point w.tables s
  registry : ∀ p connection, w.registry p = some connection → point connection = p

/-- What later states keep. -/
structure Kept (w w' : CommandWorld F) : Prop where
  requests : w.tables.requests <+: w'.tables.requests
  results : w.tables.results <+: w'.tables.results
  wire : w.wire <+: w'.wire
  received : w.received <+: w'.received

theorem Kept.refl (w : CommandWorld F) : Kept w w :=
  ⟨List.prefix_refl _, List.prefix_refl _, List.prefix_refl _, List.prefix_refl _⟩

theorem Kept.trans {w w' w'' : CommandWorld F} (h : Kept w w') (h' : Kept w' w'') : Kept w w'' :=
  ⟨h.requests.trans h'.requests, h.results.trans h'.results, h.wire.trans h'.wire, h.received.trans h'.received⟩

/-! ## 3. Steps keep the invariant -/

variable {point : ℕ → ℕ} {w w' : CommandWorld F} {t : ControlDb} {before after : List (Task F)} {k k' : Task F}
  {command_id : Uuid} {status : CommandStatus} {now : ℤ}

/-- The first result stays. -/
theorem record_result_cases (command_id : Uuid) (status : CommandStatus) (now : ℤ) (t : ControlDb) :
    (record_result command_id status now t = t ∧ ∃ r ∈ t.results, r.command_id = command_id) ∨
      (record_result command_id status now t = { t with results := t.results ++ [⟨command_id, status, now⟩] } ∧
        ∀ r ∈ t.results, r.command_id ≠ command_id) := by
  unfold record_result
  split
  · next h => exact .inl ⟨rfl, h⟩
  · next h => exact .inr ⟨rfl, fun r hr hid => h ⟨r, hr, hid⟩⟩

theorem record_result_requests : (record_result command_id status now t).requests = t.requests := by
  rcases record_result_cases command_id status now t with ⟨h, -⟩ | ⟨h, -⟩ <;> rw [h]

theorem record_result_db : (record_result command_id status now t).db = t.db := by
  rcases record_result_cases command_id status now t with ⟨h, -⟩ | ⟨h, -⟩ <;> rw [h]

theorem record_result_keeps : t.results <+: (record_result command_id status now t).results := by
  rcases record_result_cases command_id status now t with ⟨h, -⟩ | ⟨h, -⟩ <;> rw [h]
  exact List.prefix_append _ _

theorem mem_record_result : ∃ r ∈ (record_result command_id status now t).results, r.command_id = command_id := by
  rcases record_result_cases command_id status now t with ⟨h, hmem⟩ | ⟨h, -⟩ <;> rw [h]
  · exact hmem
  · exact ⟨_, List.mem_append_right _ List.mem_cons_self, rfl⟩

/-- What every `record_result` of the scan keeps, the scan keeps. -/
theorem expireCommands_of {P : ControlDb → Prop} (h : P t)
    (step : ∀ t', t'.requests = t.requests → P t' → ∀ r ∈ t.requests, P (record_result r.id .Timeout now t')) :
    P (expireCommands now t) := by
  unfold expireCommands
  suffices hall : ∀ rows ⊆ t.requests, ∀ t', t'.requests = t.requests → P t' →
      P (rows.foldl (fun t r => record_result r.id .Timeout now t) t') from
    hall _ (fun r hr => (List.mem_filter.mp hr).1) t rfl h
  intro rows
  induction rows with
  | nil => exact fun _ _ _ h => h
  | cons r rows ih =>
    intro hsub t' hrequests ht'
    rw [List.foldl_cons]
    have hr := hsub List.mem_cons_self
    exact ih (fun q hq => hsub (List.mem_cons_of_mem _ hq)) _ (record_result_requests.trans hrequests)
      (step t' hrequests ht' r hr)

/-- Lists with the same keys. -/
theorem keyed_of_map_eq {ρ κ : Type} {key : ρ → κ} {rows rows' : List ρ} (h : rows'.map key = rows.map key)
    (keyed : Keyed key rows) : Keyed key rows' := by
  have hmap : (rows.map key).Pairwise (· ≠ ·) := List.pairwise_map.mpr keyed
  rw [← h] at hmap
  exact List.pairwise_map.mp hmap

theorem Final.mono {wire : List Sent} {received received' : List (ℕ × Frame F)}
    (h : Final wire received command_id status) (hsub : received ⊆ received') :
    Final wire received' command_id status where
  settled := h.settled
  offline := h.offline
  answered hstatus := by
    obtain ⟨s, hs, hid, reply, hreply, hanswer⟩ := h.answered hstatus
    exact ⟨s, hs, hid, reply, hsub hreply, hanswer⟩

/-- Another command is sent, or this one when it is not offline. -/
theorem Final.send {wire : List Sent} {received : List (ℕ × Frame F)} (h : Final wire received command_id status)
    {s : Sent} (hs : s.command_id = command_id → status ≠ .Offline) :
    Final (wire ++ [s]) received command_id status where
  settled := h.settled
  offline hstatus s' hs' := by
    rcases List.mem_append.mp hs' with hs' | hs'
    · exact h.offline hstatus s' hs'
    · obtain rfl := List.mem_singleton.mp hs'
      exact fun hid => hs hid hstatus
  answered hstatus := by
    obtain ⟨s', hs', hanswer⟩ := h.answered hstatus
    exact ⟨s', List.mem_append_left _ hs', hanswer⟩

theorem Ok.record (h : Ok point w) (known : ∃ q ∈ w.tables.requests, q.id = command_id)
    (final : Final w.wire w.received command_id status)
    (online : status = .Offline → ∀ k ∈ w.tasks, k.command_id ≠ command_id) :
    Ok point { w with tables := record_result command_id status now w.tables } := by
  rcases record_result_cases command_id status now w.tables with ⟨heq, -⟩ | ⟨heq, hnew⟩ <;> rw [heq]
  · exact h
  have hrow : ∀ r ∈ w.tables.results ++ [⟨command_id, status, now⟩],
      r ∈ w.tables.results ∨ r = ⟨command_id, status, now⟩ := fun r hr => by simpa using hr
  refine { h with results := h.results.append hnew, known := ?_, final := ?_, task := fun k hk => ?_ }
  · intro r hr
    rcases hrow r hr with hr | rfl
    · exact h.known r hr
    · exact known
  · intro r hr
    rcases hrow r hr with hr | rfl
    · exact h.final r hr
    · exact final
  · refine { h.task k hk with online := fun r hr hid => ?_ }
    rcases hrow r hr with hr | rfl
    · exact (h.task k hk).online r hr hid
    · exact fun hoffline => online hoffline k hk hid.symm

/-- A new request. -/
def CommandWorld.inserted (w : CommandWorld F) (r : ControlRequest) : CommandWorld F :=
  { w with tables := { w.tables with requests := w.tables.requests ++ [r] } }

theorem Ok.insert (h : Ok point w) {r : ControlRequest} (new : ∀ q ∈ w.tables.requests, q.id ≠ r.id)
    (stop : r.StopsItsTransaction) : Ok point (w.inserted r) := by
  have hold : ∀ {s : Sent}, Requested point w.tables s →
      Requested point { w.tables with requests := w.tables.requests ++ [r] } s := fun hs => by
    obtain ⟨q, hq, hreq⟩ := hs
    exact ⟨q, List.mem_append_left _ hq, hreq⟩
  refine { h with
    requests := h.requests.append new, stop := ?_, known := ?_, task := ?_, sent := fun s hs => hold (h.sent s hs) }
  · intro q hq
    rcases List.mem_append.mp hq with hq | hq
    · exact h.stop q hq
    · obtain rfl := List.mem_singleton.mp hq
      exact stop
  · intro result hresult
    obtain ⟨q, hq, hid⟩ := h.known result hresult
    exact ⟨q, List.mem_append_left _ hq, hid⟩
  · exact fun k hk => { h.task k hk with request := hold (h.task k hk).request }

/-- What is sent, and who sends, has a request. -/
theorem Ok.unknown (h : Ok point w) (new : ∀ q ∈ w.tables.requests, q.id ≠ command_id) :
    (∀ s ∈ w.wire, s.command_id ≠ command_id) ∧ (∀ k ∈ w.tasks, k.command_id ≠ command_id) ∧
      ∀ r ∈ w.tables.results, r.command_id ≠ command_id := by
  refine ⟨fun s hs hid => ?_, fun k hk hid => ?_, fun r hr hid => ?_⟩
  · obtain ⟨q, hq, hreq, -⟩ := h.sent s hs
    exact new q hq (hreq.trans hid)
  · obtain ⟨q, hq, hreq, -⟩ := (h.task k hk).request
    exact new q hq (hreq.trans hid)
  · obtain ⟨q, hq, hreq⟩ := h.known r hr
    exact new q hq (hreq.trans hid)

/-- A sender starts. -/
theorem Ok.start (h : Ok point w) (other : ∀ a ∈ w.tasks, a.command_id ≠ k.command_id) (hk : TaskOk point w k) :
    Ok point { w with tasks := w.tasks ++ [k] } := by
  refine { h with tasks := h.tasks.append other, task := fun a ha => ?_ }
  rcases List.mem_append.mp ha with ha | ha
  · exact { h.task a ha with }
  · obtain rfl := List.mem_singleton.mp ha
    exact { hk with }

/-- Every sender takes a step of its own. -/
theorem Ok.map (h : Ok point w) {f : Task F → Task F} (hid : ∀ a, (f a).command_id = a.command_id)
    (hf : ∀ a ∈ w.tasks, TaskOk point w a → TaskOk point w (f a)) : Ok point { w with tasks := w.tasks.map f } := by
  refine { h with tasks := keyed_of_map_eq ?_ h.tasks, task := fun a ha => ?_ }
  · rw [List.map_map]
    exact List.map_congr_left fun a _ => hid a
  · obtain ⟨b, hb, rfl⟩ := List.mem_map.mp ha
    exact { hf b hb (h.task b hb) with }

/-- One sender takes a step. -/
theorem Ok.set (h : Ok point w) (tasks : w.tasks = before ++ k :: after) (hid : k'.command_id = k.command_id)
    (hk : TaskOk point w k') : Ok point { w with tasks := before ++ k' :: after } := by
  have hmem : ∀ a ∈ before ++ k' :: after, a = k' ∨ a ∈ w.tasks := fun a ha => by
    rw [tasks]
    simp only [List.mem_append, List.mem_cons] at ha ⊢
    tauto
  refine { h with tasks := keyed_of_map_eq ?_ h.tasks, task := fun a ha => ?_ }
  · rw [tasks, List.map_append, List.map_append, List.map_cons, List.map_cons, hid]
  · rcases hmem a ha with rfl | ha
    · exact { hk with }
    · exact { h.task a ha with }

/-- A sender ends. -/
theorem Ok.drop (h : Ok point w) (tasks : w.tasks = before ++ k :: after) :
    Ok point { w with tasks := before ++ after } := by
  have hsub : (before ++ after).Sublist w.tasks := by
    rw [tasks]
    exact List.Sublist.append (List.Sublist.refl _) (List.sublist_cons_self _ _)
  exact { h with tasks := h.tasks.sublist hsub, task := fun a ha => { h.task a (hsub.mem ha) with } }

theorem outcomeOf_ne (reply : Frame F) : outcomeOf reply ≠ .Offline ∧ outcomeOf reply ≠ .Pending := by
  unfold outcomeOf
  split
  · split
    · exact ⟨CommandStatus.noConfusion, CommandStatus.noConfusion⟩
    · split <;> exact ⟨CommandStatus.noConfusion, CommandStatus.noConfusion⟩
  · exact ⟨CommandStatus.noConfusion, CommandStatus.noConfusion⟩

theorem Final.failed {wire : List Sent} {received : List (ℕ × Frame F)}
    (hstatus : status = .Disconnected ∨ status = .Timeout) : Final wire received command_id status := by
  have hne : status ≠ .Offline ∧ status ≠ .Pending ∧ status ≠ .Accepted ∧ status ≠ .Rejected := by
    rcases hstatus with rfl | rfl <;> decide
  obtain ⟨hoffline, hpending, haccepted, hrejected⟩ := hne
  exact ⟨hpending, fun h => absurd h hoffline, fun h => (h.elim haccepted hrejected).elim⟩

/-- A sender that gives up. -/
theorem TaskOk.fail (hk : TaskOk point w k) (hstatus : status = .Disconnected ∨ status = .Timeout) :
    TaskOk point w { k with phase := .record status } where
  request := hk.request
  online := hk.online
  unsent h := h.elim
  sent _ h := by cases h
  replied _ _ h := by cases h
  outcome status' h := by
    cases h
    refine ⟨?_, .failed hstatus⟩
    rcases hstatus with rfl | rfl <;> exact CommandStatus.noConfusion

theorem Advance.ok {others : List (Task F)} {phase : Phase F} (h : Advance others k phase) (hk : TaskOk point w k) :
    TaskOk point w { k with phase } := by
  cases h with
  | call hphase free =>
    have hunsent : k.phase.unsent := by
      rw [hphase]
      trivial
    exact { hk with
      unsent := fun _ => hk.unsent hunsent
      sent := fun _ h => by cases h
      replied := fun _ _ h => by cases h
      outcome := fun _ h => by cases h }
  | returned reply hphase =>
    obtain ⟨hreceived, hid⟩ := hk.replied true reply hphase
    obtain ⟨hoffline, hpending⟩ := outcomeOf_ne reply
    refine { hk with unsent := fun h => h.elim, sent := ?_, replied := ?_, outcome := ?_ }
    · exact fun _ h => by cases h
    · exact fun _ _ h => by cases h
    · intro status h
      cases h
      exact ⟨hoffline, hpending, fun h => absurd h hoffline,
        fun _ => ⟨k.sent, hk.sent _ hphase, rfl, reply, hreceived, hid, rfl⟩⟩
  | cancelled hphase => exact hk.fail (.inl rfl)
  | failed sent future hphase => exact hk.fail (.inl rfl)
  | timeout sent future hphase => exact hk.fail (.inr rfl)

/-- The frame of a sender goes on the wire. -/
theorem Ok.send (h : Ok point w) (tasks : w.tasks = before ++ k :: after) {future : Future F}
    (phase : k.phase = .pending false future) :
    Ok point { w with
      tasks := before ++ { k with phase := .pending true future } :: after, wire := w.wire ++ [k.sent] } := by
  have hmem : k ∈ w.tasks := by
    rw [tasks]
    exact List.mem_append_right _ List.mem_cons_self
  have hk := h.task k hmem
  have hunsent : ∀ s ∈ w.wire, s.command_id ≠ k.command_id := hk.unsent (by rw [phase]; rfl)
  have hkeyed : Keyed Task.command_id (before ++ k :: after) := tasks ▸ h.tasks
  have hother : ∀ a ∈ before ++ after, a ∈ w.tasks ∧ a.command_id ≠ k.command_id := fun a ha => by
    obtain ⟨-, hcons, hcross⟩ := List.pairwise_append.mp hkeyed
    rw [tasks]
    rcases List.mem_append.mp ha with ha | ha
    · exact ⟨List.mem_append_left _ ha, hcross a ha k List.mem_cons_self⟩
    · exact ⟨List.mem_append_right _ (List.mem_cons_of_mem _ ha),
        ((List.pairwise_cons.mp hcons).1 a ha).symm⟩
  have hwire : ∀ s ∈ w.wire ++ [k.sent], s ∈ w.wire ∨ s = k.sent := fun s hs => by simpa using hs
  refine { h with
    final := fun r hr => (h.final r hr).send fun hid => hk.online r hr hid.symm
    tasks := keyed_of_map_eq ?_ h.tasks, task := ?_, wire := h.wire.append hunsent, sent := ?_ }
  · rw [tasks, List.map_append, List.map_append, List.map_cons, List.map_cons]
  · intro a ha
    have ha : a = { k with phase := .pending true future } ∨ a ∈ before ++ after := by
      simp only [List.mem_append, List.mem_cons] at ha ⊢
      tauto
    rcases ha with rfl | ha
    · refine { hk with unsent := ?_, sent := ?_, replied := ?_, outcome := ?_ }
      · exact fun h => by cases h
      · exact fun _ _ => List.mem_append_right _ List.mem_cons_self
      · intro sent reply h
        cases h
        exact hk.replied false reply phase
      · exact fun _ h => by cases h
    · obtain ⟨hmem, hne⟩ := hother a ha
      have hold := h.task a hmem
      refine { hold with unsent := ?_, sent := ?_, outcome := ?_ }
      · intro hphase s hs
        rcases hwire s hs with hs | rfl
        · exact hold.unsent hphase s hs
        · exact hne.symm
      · exact fun future h => List.mem_append_left _ (hold.sent future h)
      · intro status h
        obtain ⟨hoffline, hfinal⟩ := hold.outcome status h
        exact ⟨hoffline, hfinal.send fun _ => hoffline⟩
  · intro s hs
    rcases hwire s hs with hs | rfl
    · exact h.sent s hs
    · exact hk.request

/-- A frame is received. -/
theorem Ok.hear (h : Ok point w) (x : ℕ × Frame F) : Ok point { w with received := w.received ++ [x] } := by
  have hsub : w.received ⊆ w.received ++ [x] := List.subset_append_left _ _
  refine { h with final := fun r hr => (h.final r hr).mono hsub, task := fun k hk => ?_ }
  have hold := h.task k hk
  refine { hold with replied := fun sent reply h => ?_, outcome := fun status h => ?_ }
  · obtain ⟨hreceived, hid⟩ := hold.replied sent reply h
    exact ⟨hsub hreceived, hid⟩
  · obtain ⟨hoffline, hfinal⟩ := hold.outcome status h
    exact ⟨hoffline, hfinal.mono hsub⟩

theorem TaskOk.receive {connection : ℕ} {frame : Frame F} (hk : TaskOk point w k)
    (received : (connection, frame) ∈ w.received) : TaskOk point w (k.receive connection frame) := by
  unfold Task.receive
  split
  · next sent hphase =>
    split
    · next hmatch =>
      obtain ⟨rfl, hid⟩ := hmatch
      refine { hk with unsent := ?_, sent := ?_, replied := ?_, outcome := ?_ }
      · exact fun h => hk.unsent (by rw [hphase]; exact h)
      · intro future h
        cases h
        exact hk.sent _ hphase
      · intro sent reply h
        cases h
        exact ⟨received, hid.symm⟩
      · exact fun _ h => by cases h
    · exact hk
  · exact hk

theorem TaskOk.cancel {connection : ℕ} (hk : TaskOk point w k) : TaskOk point w (k.cancel connection) := by
  unfold Task.cancel
  split
  · next sent hphase =>
    split
    · refine { hk with unsent := ?_, sent := ?_, replied := ?_, outcome := ?_ }
      · exact fun h => hk.unsent (by rw [hphase]; exact h)
      · intro future h
        cases h
        exact hk.sent _ hphase
      · exact fun _ _ h => by cases h
      · exact fun _ h => by cases h
    · exact hk
  · exact hk

theorem receive_id {connection : ℕ} {frame : Frame F} : (k.receive connection frame).command_id = k.command_id := by
  unfold Task.receive
  split
  · split <;> rfl
  · rfl

theorem cancel_id {connection : ℕ} : (k.cancel connection).command_id = k.command_id := by
  unfold Task.cancel
  split
  · split <;> rfl
  · rfl

theorem Ok.register (h : Ok point w) {p : ℕ} {o : Option ℕ} (ho : ∀ connection ∈ o, point connection = p) :
    Ok point { w with registry := Function.update w.registry p o } := by
  refine { h with task := fun k hk => { h.task k hk with }, registry := fun q connection hq => ?_ }
  replace hq : Function.update w.registry p o q = some connection := hq
  rw [Function.update_apply] at hq
  split at hq
  · next heq => exact (ho connection hq).trans heq.symm
  · exact h.registry q connection hq

theorem Ok.cancel (h : Ok point w) (connection : ℕ) : Ok point { w with tasks := w.tasks.map (Task.cancel connection) } :=
  h.map (fun _ => cancel_id) fun _ _ ha => ha.cancel

theorem Ok.rest (h : Ok point w) (db : Database) : Ok point { w with tables := { w.tables with db } } :=
  { h with task := fun k hk => { h.task k hk with } }

/-- What a first transaction does to the world. -/
theorem submit_cases (e : ControlEnv) (call : CommandCall) (w : CommandWorld F) :
    w.submit e call = w ∨ ∃ r : ControlRequest, r.id = call.command_id ∧ r.StopsItsTransaction ∧
      (∀ q ∈ w.tables.requests, q.id ≠ call.command_id) ∧
      (w.submit e call =
          { w with tables := record_result call.command_id .Offline e.now (w.inserted r).tables } ∨
        ∃ connection, e.registry r.charge_point_id = some connection ∧ w.submit e call =
          { w.inserted r with tasks := w.tasks ++ [⟨call.command_id, connection, r.payload, .call⟩] }) := by
  have hspec : wp (submitted e call) (Submitted e call w.tables) (fun _ t' => t' = w.tables) w.tables :=
    ControlLemmas.submitted_spec
  have hsame : ({ w with tasks := w.tasks ++ [] } : CommandWorld F) = w := by rw [List.append_nil]
  unfold CommandWorld.submit
  rcases wp_run hspec with ⟨next, t', heq, hs⟩ | ⟨error, t', heq, rfl⟩
  · rw [heq]
    cases hs with
    | repeated previous mem id actor action => exact .inl hsame
    | offline new r id stop =>
      refine .inr ⟨r, id, stop, new, .inl ?_⟩
      show ({ w with tables := record_result _ _ _ _, tasks := w.tasks ++ [] } : CommandWorld F) = _
      rw [List.append_nil, CommandWorld.inserted]
    | sent new r id stop connection registered => exact .inr ⟨r, id, stop, new, .inr ⟨connection, registered, rfl⟩⟩
  · rw [heq]
    exact .inl hsame

theorem Ok.submit (h : Ok point w) (e : ControlEnv) (call : CommandCall) (registry : e.registry = w.registry) :
    Ok point (w.submit e call) := by
  rcases submit_cases e call w with heq | ⟨r, hid, hstop, hnew, heq | ⟨connection, hregistered, heq⟩⟩ <;> rw [heq]
  · exact h
  all_goals
    obtain ⟨hwire, htasks, hresults⟩ := h.unknown hnew
    have hinsert := h.insert (hid ▸ hnew) hstop
    have hmem : r ∈ w.tables.requests ++ [r] := List.mem_append_right _ List.mem_cons_self
  · refine hinsert.record ⟨r, hmem, hid⟩ ⟨CommandStatus.noConfusion, fun _ => hwire, fun hstatus => ?_⟩ fun _ => htasks
    rcases hstatus with hstatus | hstatus <;> cases hstatus
  · have hpoint : point connection = r.charge_point_id := h.registry _ _ (registry ▸ hregistered)
    refine hinsert.start (k := ⟨call.command_id, connection, r.payload, .call⟩) htasks ?_
    exact {
      request := ⟨r, hmem, hid, rfl, hpoint.symm⟩
      online := fun result hr hid => absurd hid (hresults result hr)
      unsent := fun _ => hwire
      sent := fun _ h => by cases h
      replied := fun _ _ h => by cases h
      outcome := fun _ h => by cases h }

theorem submit_kept (e : ControlEnv) (call : CommandCall) (w : CommandWorld F) : Kept w (w.submit e call) := by
  rcases submit_cases e call w with heq | ⟨r, -, -, -, heq | ⟨connection, -, heq⟩⟩ <;> rw [heq]
  · exact .refl w
  · refine { Kept.refl w with requests := ?_, results := record_result_keeps (t := (w.inserted r).tables) }
    rw [record_result_requests]
    exact List.prefix_append _ _
  · exact { Kept.refl w with requests := List.prefix_append _ _ }

theorem Ok.expire (h : Ok point w) (now : ℤ) : Ok point { w with tables := expireCommands now w.tables } :=
  expireCommands_of (P := fun t => Ok point { w with tables := t }) h fun _ hrequests ht' r hr =>
    ht'.record ⟨r, hrequests ▸ hr, rfl⟩ (.failed (.inr rfl)) CommandStatus.noConfusion

theorem Ok.scan (h : Ok point w) (env : Environment) : Ok point (w.scan env) := (h.expire env.now).rest _

theorem expired_kept (now : ℤ) (t : ControlDb) :
    (expireCommands now t).db = t.db ∧ (expireCommands now t).requests = t.requests ∧
      t.results <+: (expireCommands now t).results := by
  refine expireCommands_of (P := fun t' => t'.db = t.db ∧ t'.requests = t.requests ∧ t.results <+: t'.results)
    ⟨rfl, rfl, List.prefix_refl _⟩ fun t' _ ht' r _ => ?_
  obtain ⟨hdb, hrequests, hresults⟩ := ht'
  exact ⟨record_result_db.trans hdb, record_result_requests.trans hrequests, hresults.trans record_result_keeps⟩

theorem scan_kept (env : Environment) (w : CommandWorld F) : Kept w (w.scan env) := by
  obtain ⟨-, hrequests, hresults⟩ := expired_kept env.now w.tables
  refine { Kept.refl w with requests := ?_, results := hresults }
  show w.tables.requests <+: (expireCommands env.now w.tables).requests
  rw [hrequests]

theorem CommandStep.ok (step : CommandStep point w w') (h : Ok point w) : Ok point w' := by
  cases step with
  | submit e call registry => exact h.submit e call registry
  | advance before after k tasks phase advance =>
    refine h.set tasks rfl (advance.ok (h.task k ?_))
    rw [tasks]
    exact List.mem_append_right _ List.mem_cons_self
  | transmit before after k tasks future phase => exact h.send tasks phase
  | record before after k tasks outcome phase now =>
    have hk := h.task k (tasks ▸ List.mem_append_right _ List.mem_cons_self)
    obtain ⟨hoffline, hfinal⟩ := hk.outcome outcome phase
    obtain ⟨q, hq, hid, -⟩ := hk.request
    exact (h.record ⟨q, hq, hid⟩ hfinal fun hstatus => absurd hstatus hoffline).drop tasks
  | lost before after k tasks => exact h.drop tasks
  | receive connection frame reply =>
    exact (h.hear (connection, frame)).map (fun _ => receive_id) fun _ _ ha =>
      ha.receive (List.mem_append_right _ List.mem_cons_self)
  | replace connection =>
    unfold CommandWorld.replace
    have hregistry : ∀ c ∈ some connection, point c = point connection := fun c hc => by cases hc; rfl
    split
    · split
      · exact h.register hregistry
      · exact (h.cancel _).register hregistry
    · exact h.register hregistry
  | remove connection =>
    unfold CommandWorld.remove
    split
    · exact (h.cancel connection).register fun c hc => by cases hc
    · exact h
  | scan env => exact h.scan env
  | rest db => exact h.rest db

theorem CommandStep.kept (step : CommandStep point w w') : Kept w w' := by
  cases step with
  | submit e call registry => exact submit_kept e call w
  | advance before after k tasks phase advance => exact { Kept.refl w with }
  | transmit before after k tasks future phase => exact { Kept.refl w with wire := List.prefix_append _ _ }
  | record before after k tasks outcome phase now =>
    refine { Kept.refl w with requests := ?_, results := record_result_keeps }
    rw [record_result_requests]
  | lost before after k tasks => exact { Kept.refl w with }
  | receive connection frame reply => exact { Kept.refl w with received := List.prefix_append _ _ }
  | replace connection => exact { Kept.refl w with }
  | remove connection =>
    unfold CommandWorld.remove
    split
    · exact { Kept.refl w with }
    · exact .refl w
  | scan env => exact scan_kept env w
  | rest db => exact { Kept.refl w with }

theorem CommandWorld.Fresh.ok (h : w.Fresh) : Ok point w where
  requests := by rw [h.requests]; exact List.Pairwise.nil
  stop := by simp [h.requests]
  results := by rw [h.results]; exact List.Pairwise.nil
  known := by simp [h.results]
  final := by simp [h.results]
  tasks := by rw [h.tasks]; exact List.Pairwise.nil
  task := by simp [h.tasks]
  wire := by rw [h.wire]; exact List.Pairwise.nil
  sent := by simp [h.wire]
  registry := by simp [h.registry]

theorem CommandReach.ok (run : CommandReach point w w') (h : Ok point w) : Ok point w' := by
  induction run with
  | refl => exact h
  | tail _ step ih => exact step.ok ih

theorem CommandReach.kept (run : CommandReach point w w') : Kept w w' := by
  induction run with
  | refl => exact .refl w
  | tail _ step ih => exact ih.trans step.kept

/-! ## 4. Commands -/

/-- What is true of the commands. -/
structure Safe (point : ℕ → ℕ) (w : CommandWorld F) : Prop where
  /-- A command is sent at most once. -/
  once : Keyed Sent.command_id w.wire
  /-- It is sent as it was stored, to its own charger. -/
  sent : ∀ s ∈ w.wire, Requested point w.tables s
  /-- No two senders of one connection have the same message id. -/
  free : ∀ k ∈ w.tasks, ∀ other ∈ w.tasks, k.blocks other = true → other = k
  /-- It has one result. -/
  result : Keyed ControlResult.command_id w.tables.results
  /-- An offline command was not sent, and only an answer of the charger is recorded as one. -/
  final : ∀ r ∈ w.tables.results, Final w.wire w.received r.command_id r.status

theorem blocks_id {other : Task F} (h : k.blocks other = true) : other.command_id = k.command_id := by
  unfold Task.blocks at h
  split at h
  · exact (of_decide_eq_true h).2
  · cases h

theorem Ok.safe (h : Ok point w) : Safe point w where
  once := h.wire
  sent := h.sent
  free _ hk _ hother hblocks := h.tasks.eq hother hk (blocks_id hblocks)
  result := h.results
  final := h.final

theorem status_of_mem (h : Keyed ControlResult.command_id t.results) {r : ControlResult} (hr : r ∈ t.results) :
    command_status t r.command_id = r.status := by
  unfold command_status
  cases hfind : t.results.find? (·.command_id = r.command_id) with
  | none =>
    have hne : r.command_id ≠ r.command_id := by simpa using List.find?_eq_none.mp hfind r hr
    exact absurd rfl hne
  | some found =>
    have hid : found.command_id = r.command_id := by simpa using List.find?_some hfind
    have heq : found = r := h.eq (List.mem_of_find?_eq_some hfind) hr hid
    rw [heq]
    rfl

/-- A status other than `Pending` is that of a result. -/
theorem mem_of_status (h : command_status t command_id ≠ .Pending) :
    ∃ r ∈ t.results, r.command_id = command_id ∧ r.status = command_status t command_id := by
  unfold command_status at h ⊢
  cases hfind : t.results.find? (·.command_id = command_id) with
  | none =>
    rw [hfind] at h
    exact absurd rfl h
  | some found => exact ⟨found, List.mem_of_find?_eq_some hfind, by simpa using List.find?_some hfind, rfl⟩

theorem Kept.command_status (h : Kept w w') (hw' : Ok point w') (hstatus : Control.command_status w.tables command_id ≠ .Pending) :
    Control.command_status w'.tables command_id = Control.command_status w.tables command_id := by
  obtain ⟨r, hr, rfl, heq⟩ := mem_of_status hstatus
  rw [← heq, status_of_mem hw'.results (h.results.mem hr)]

/-- A command whose id is stored is answered with its status, or refused. -/
theorem submitted_again {e : ControlEnv} {call : CommandCall} (known : ∃ q ∈ t.requests, q.id = call.command_id) :
    (submitted e call t).2 = t ∧
      ∀ next, (submitted e call t).1 = .ok next → next = .answer (command_status t call.command_id) := by
  obtain ⟨q, hq, hid⟩ := known
  have hspec : wp (submitted e call) (Submitted e call t) (fun _ t' => t' = t) t := ControlLemmas.submitted_spec
  rcases wp_run hspec with ⟨next, t', heq, hs⟩ | ⟨error, t', heq, rfl⟩
  · rw [heq]
    cases hs with
    | repeated previous mem id actor action => exact ⟨rfl, fun next h => by cases h; rfl⟩
    | offline new r id stop => exact absurd hid (new q hq)
    | sent new r id stop connection registered => exact absurd hid (new q hq)
  · rw [heq]
    exact ⟨rfl, fun next h => by cases h⟩

theorem settled_of_expired {r : ControlRequest} (hr : r ∈ t.requests)
    (old : r.created_at < now - (COMMAND_TIMEOUT + 1) * Reservations.SECOND) :
    ∃ result ∈ (expireCommands now t).results, result.command_id = r.id := by
  by_cases hknown : ∃ result ∈ t.results, result.command_id = r.id
  · obtain ⟨result, hresult, hid⟩ := hknown
    exact ⟨result, (expired_kept now t).2.2.mem hresult, hid⟩
  have hdue : r ∈ t.requests.filter (overdue now t ·) :=
    List.mem_filter.mpr ⟨hr, decide_eq_true ⟨fun result hresult hid => hknown ⟨result, hresult, hid⟩, old⟩⟩
  obtain ⟨earlier, rest, heq⟩ := List.append_of_mem hdue
  unfold expireCommands
  rw [heq, List.foldl_append, List.foldl_cons]
  -- the later results are added behind that of the request
  generalize earlier.foldl (fun t q => record_result q.id .Timeout now t) t = t'
  obtain ⟨result, hresult, hid⟩ : ∃ result ∈ (record_result r.id .Timeout now t').results, result.command_id = r.id :=
    mem_record_result
  refine ⟨result, ?_, hid⟩
  clear heq
  generalize record_result r.id .Timeout now t' = t'' at hresult
  induction rest generalizing t'' with
  | nil => exact hresult
  | cons q rest ih => exact ih _ (record_result_keeps.mem hresult)

/-- A stop that the scan goes by. -/
theorem mem_remoteStops {stop : RemoteStop} (h : stop ∈ remoteStops t) (stops : ∀ r ∈ t.requests, r.StopsItsTransaction) :
    ∃ result ∈ t.results, result.status = .Accepted ∧ result.received_at = stop.accepted_at ∧
      ∃ r ∈ t.requests, r.id = result.command_id ∧ r.payload = .stop stop.transaction_id := by
  unfold remoteStops at h
  obtain ⟨result, hresult, hstop⟩ := List.mem_filterMap.mp h
  simp only [Option.bind_eq_bind, Option.bind_eq_some_iff] at hstop
  obtain ⟨r, hfind, transaction_id, htransaction, hif⟩ := hstop
  split at hif
  · next haccepted =>
    cases hif
    obtain ⟨haction, hstatus⟩ := haccepted
    have hr := List.mem_of_find?_eq_some hfind
    obtain ⟨id, hid, hpayload⟩ := stops r hr haction
    obtain rfl : id = transaction_id := Option.some.inj (hid.symm.trans htransaction)
    exact ⟨result, hresult, hstatus, rfl, r, hr, by simpa using List.find?_some hfind, hpayload⟩
  · cases hif

/-- The session was open, and its charger accepted a remote stop of it in time. -/
structure StopAccepted (now : ℤ) (w : CommandWorld F) (c : Session) : Prop where
  isOpen : c.ended_at = none
  accepted : ∃ result ∈ w.tables.results, result.status = .Accepted ∧
    result.received_at ≤ now - STOP_CONFIRMATION_SECONDS * Reservations.SECOND ∧
    ∃ s ∈ w.wire, s.command_id = result.command_id ∧ s.payload = .stop c.id ∧
      ∃ reply, (s.connection, reply) ∈ w.received ∧ reply.message_id = messageId s.command_id ∧
        outcomeOf reply = .Accepted

theorem Ok.stopAccepted (h : Ok point w) {env : Environment} {db : Database} {c : Session}
    (overdue : stopOverdue { env with remote_stops := remoteStops w.tables } c) :
    StopAccepted env.now { w with tables := { w.tables with db } } c := by
  obtain ⟨hopen, -, stop, hstop, hid, haccepted⟩ := overdue
  refine ⟨hopen, ?_⟩
  obtain ⟨result, hresult, hstatus, hreceived, r, hr, hrid, hpayload⟩ := mem_remoteStops hstop h.stop
  obtain ⟨s, hs, hsent, reply, hreply, hmessage, houtcome⟩ := (h.final result hresult).answered (.inl hstatus)
  obtain ⟨q, hq, hqid, hqpayload, -⟩ := h.sent s hs
  -- the request of what was sent is the request of the result
  have hsame : q = r := h.requests.eq hq hr (by rw [hqid, hrid, hsent])
  refine ⟨result, hresult, hstatus, hreceived ▸ haccepted, s, hs, hsent, ?_, reply, hreply, hsent ▸ hmessage, ?_⟩
  · rw [← hqpayload, hsame, hpayload, hid]
  · rw [houtcome, hstatus]

namespace OneStop

open Csms.Charging.OneSession

/-- Connection 7 of charge point 0 is current, and the station is open. -/
def env : ControlEnv :=
  { OneSession.site 0 with
    stations := [{ id := 0, timezone := Zone.fixed 0, status := .active, archived := false }]
    demo_driver_unplug_enabled := false
    demo := fun _ => false
    registry := Function.update (fun _ => none) 0 (some 7)
    boot_accepted := fun _ => true }

def stop : CommandCall := ⟨admin, unit, .remoteStop 0, none⟩

def accepted : Frame Unit := ⟨.result, messageId unit, [("status".str, .str "Accepted".str)], [], [], []⟩

def opening : CommandWorld Unit := ⟨⟨charging [], [], []⟩, fun _ => none, [], [], []⟩

def connected : CommandWorld Unit := opening.replace 0 7

def stored : CommandWorld Unit := connected.submit env stop

def sender (phase : Phase Unit) : Task Unit := ⟨unit, 7, .stop 0, phase⟩

def pending : CommandWorld Unit := { stored with tasks := [sender (.pending false .waiting)] }

def sent : CommandWorld Unit :=
  { pending with tasks := [sender (.pending true .waiting)], wire := [⟨unit, 7, .stop 0⟩] }

def replied : CommandWorld Unit := sent.receive 7 accepted

def returned : CommandWorld Unit := { replied with tasks := [sender (.record .Accepted)] }

def recorded : CommandWorld Unit :=
  { returned with tables := record_result unit .Accepted 5000000 returned.tables, tasks := [] }

/-- 200 seconds later. -/
def late : Environment := OneSession.site (200 * Reservations.SECOND)

theorem opening_fresh : opening.Fresh := ⟨rfl, rfl, fun _ => rfl, rfl, rfl⟩

theorem reach_recorded : CommandReach (fun _ => 0) opening recorded :=
  (((((((Relation.ReflTransGen.refl.tail (.replace 7)).tail (.submit env stop rfl)).tail
    (.advance [] [] (sender .call) rfl _ (.call rfl (List.forall_mem_nil _)))).tail
    (.transmit [] [] (sender (.pending false .waiting)) rfl .waiting rfl)).tail
    (.receive 7 accepted Kind.noConfusion)).tail
    (.advance [] [] (sender (.pending true (.replied accepted))) rfl _ (.returned accepted rfl))).tail
    (.record [] [] (sender (.record .Accepted)) rfl .Accepted rfl 5000000))

end OneStop

end Csms.Ocpp.Control
