import Csms.Lib.Mailbox
import Csms.Power.Settings

/-!
# The admission protocol of a station (`power/worker.py`)

The worker of a station, its chargers and the rest of the program, in any interleaving. `set_limit` has three
transactions and waits for the charger between them; at any of its points its task may end, with a timeout, a lost
connection or a crash of the worker.

A charger takes the messages of a connector in their order, installs a profile or not, whatever it answers, and may
forget profiles. It has the profile of a transaction only while that transaction runs, and reports no less than the
limit that is in force. No limit is not a watt limit.

Results:
1. `LaneMove.ok`, `Step.ok`: what every step preserves.
2. `power_admission`: the reservation of a connector covers each limit that its charger has or may come to have, and
   only an admission reserves more watts.
3. `within_budget`: the watts that are reserved stay below the highest limit.
4. `plan_targets`: the targets of `_reconcile` are limits that the protocol takes.
-/

namespace Csms.Power

open Csms.Charging (ConnectorPower)
open Ocpp (Frame)
open SettingsLemmas

/-! ## 1. Chargers -/

/-- A connector of a charger: its transaction, and the limits of the profiles that are installed. -/
structure Charger where
  running : Option ℕ
  default_w : Option ℤ
  transaction_w : Option ℤ
  deriving DecidableEq, Repr

/-- The limit that is in force. -/
def Charger.limit_w (c : Charger) : Option ℤ := c.transaction_w.or c.default_w

/-- Profiles may get lost. -/
structure Charger.Forgets (c c' : Charger) : Prop where
  running : c'.running = c.running
  default : c'.default_w = c.default_w ∨ c'.default_w = none
  transaction : c'.transaction_w = c.transaction_w ∨ c'.transaction_w = none

/-- A connector begins a transaction or ends it, or forgets profiles. -/
inductive Charger.Acts (c : Charger) : Charger → Prop
  | begin (transaction_id : ℕ) : Acts c { c with running := some transaction_id, transaction_w := none }
  | finish : Acts c { c with running := none, transaction_w := none }
  | forget (c' : Charger) (forgets : c.Forgets c') : Acts c c'

section Protocol

variable {F : Type}

/-- The answer reports no less than the limit that is in force. -/
def Truthful (value : F → Option ℚ) (c : Charger) (reply : Frame F) : Prop :=
  ∀ periods v, scheduleOf value (wire reply).2 = some periods → limitAt periods 0 = some v →
    ∀ w ∈ c.limit_w, (w : ℚ) ≤ v

/-- A charger takes a message and answers it. -/
inductive Charger.Serves (value : F → Option ℚ) (c : Charger) : Payload → Frame F → Charger → Prop
  | default (p : ChargingProfile) (reply : Frame F) (c' : Charger)
      (purpose : p.chargingProfilePurpose = .TxDefaultProfile)
      (forgets : Charger.Forgets { c with default_w := some p.limit } c') : Serves value c (.SetChargingProfile p) reply c'
  | transaction (p : ChargingProfile) (reply : Frame F) (c' : Charger) (transaction_id : ℕ)
      (purpose : p.chargingProfilePurpose = .TxProfile) (bound : p.transactionId = some transaction_id)
      (running : c.running = some transaction_id)
      (forgets : Charger.Forgets { c with transaction_w := some p.limit } c') :
      Serves value c (.SetChargingProfile p) reply c'
  | schedule (connectorId : ℕ) (reply : Frame F) (truthful : Truthful value c reply) :
      Serves value c (.GetCompositeSchedule connectorId) reply c
  | other (m : Payload) (reply : Frame F) (c' : Charger) (plain : ∀ connectorId, m ≠ .GetCompositeSchedule connectorId)
      (forgets : c.Forgets c') : Serves value c m reply c'

/-! ## 2. Tasks -/

/-- Where a run of `set_limit` is. -/
inductive Phase where
  | reserved | sent | accepted
  | reading (request_id : Uuid)
  | verified
  deriving DecidableEq, Repr

/-- A run of `set_limit`, by its variables. -/
structure Task where
  device : Device
  generation : ℕ
  watts : ℤ
  baseline : Bool
  payload : ChargingProfile
  request_id : Uuid
  phase : Phase
  deriving DecidableEq, Repr

/-- A connector: the task that sets its limit, its charger, and the messages between them. -/
structure Lane (F : Type) where
  task : Option Task
  charger : Charger
  box : Mailbox Uuid Payload (Frame F)

/-- The steps of a connector that write no row. -/
inductive LaneMove (rules : ReadbackRules F) (l : Lane F) : Lane F → Prop
  | send (τ : Task) (task : l.task = some τ) (phase : τ.phase = .reserved) :
      LaneMove rules l { l with
        task := some { τ with phase := .sent }, box := l.box.send τ.request_id (.SetChargingProfile τ.payload) }
  | accept (τ : Task) (reply : Frame F) (task : l.task = some τ) (phase : τ.phase = .sent)
      (answered : (τ.request_id, reply) ∈ l.box.answers) (accepted : (wire reply).1 = .Accepted) :
      LaneMove rules l { l with task := some { τ with phase := .accepted } }
  | verify (τ : Task) (id : Uuid) (reply : Frame F) (now : ℤ) (task : l.task = some τ) (phase : τ.phase = .reading id)
      (answered : (id, reply) ∈ l.box.answers) (kept : verify_limit rules now τ.device.number τ.watts reply = true) :
      LaneMove rules l { l with task := some { τ with phase := .verified } }
  | abandon : LaneMove rules l { l with task := none }
  | serve (id : Uuid) (m : Payload) (reply : Frame F) (charger : Charger) (box : Mailbox Uuid Payload (Frame F))
      (taken : l.box.Serves id m reply box) (served : l.charger.Serves rules.value m reply charger) :
      LaneMove rules l { l with charger := charger, box := box }
  | lose (box : Mailbox Uuid Payload (Frame F)) (lost : l.box.Loses box) : LaneMove rules l { l with box := box }
  | act (charger : Charger) (acts : l.charger.Acts charger) : LaneMove rules l { l with charger := charger }

/-! ## 3. The station -/

/-- A run of `_reconcile` that holds the lock of the station. -/
structure Run where
  generation : ℕ
  limit : ℤ
  deriving DecidableEq, Repr

/-- The rows of a station, the open session of each connector, the run of the worker, and the connectors. -/
structure World (F : Type) where
  tables : Tables
  current_transaction : ℕ → Option ℕ
  run : Option Run
  lanes : ℕ → Lane F

/-- One step of the worker, of a connector, or of the rest of the program. -/
inductive Step (rules : ReadbackRules F) (w : World F) : World F → Prop
  | lane (k : ℕ) (l : Lane F) (move : LaneMove rules (w.lanes k) l) :
      Step rules w { w with lanes := Function.update w.lanes k l }
  | reserve (k : ℕ) (run : Run) (device : Device) (watts : ℤ) (baseline : Bool) (profile_id : ℕ) (new_id request_id : Uuid)
      (tables : Tables) (running : w.run = some run) (idle : (w.lanes k).task = none) (connector : device.connector_id = k)
      (target : 0 ≤ watts ∧ (baseline = true ∨ device.transaction_id = none → watts = 0))
      (fresh : ∀ c ∈ w.tables.power_commands, c.id ≠ new_id)
      (admitted : reserve device run.generation watts (profile profile_id device watts baseline) new_id w.tables =
        some (request_id, tables)) :
      Step rules w { w with
        tables := tables
        lanes := Function.update w.lanes k { w.lanes k with
          task := some ⟨device, run.generation, watts, baseline, profile profile_id device watts baseline, request_id,
            .reserved⟩ } }
  | read (k : ℕ) (τ : Task) (new_id : Uuid) (task : (w.lanes k).task = some τ) (phase : τ.phase = .accepted)
      (fresh : ∀ c ∈ w.tables.power_commands, c.id ≠ new_id) :
      Step rules w { w with
        tables := { w.tables with
          power_commands := intend new_id k τ.generation (.GetCompositeSchedule τ.device.number) w.tables.power_commands }
        lanes := Function.update w.lanes k { w.lanes k with
          task := some { τ with phase := .reading new_id }
          box := (w.lanes k).box.send new_id (.GetCompositeSchedule τ.device.number) } }
  | confirm (k : ℕ) (τ : Task) (task : (w.lanes k).task = some τ) (phase : τ.phase = .verified) :
      Step rules w { w with
        tables := (confirm τ.device τ.watts τ.baseline (w.current_transaction k) w.tables).getD w.tables
        lanes := Function.update w.lanes k { w.lanes k with task := none } }
  | command (k : ℕ) (id : Uuid) (generation : ℕ) (payload : Payload)
      (plain : ∀ p connectorId, payload ≠ .SetChargingProfile p ∧ payload ≠ .GetCompositeSchedule connectorId)
      (same : ∀ c ∈ w.tables.power_commands, c.id = id → c.payload = payload) :
      Step rules w { w with
        tables := { w.tables with power_commands := intend id k generation payload w.tables.power_commands }
        lanes := Function.update w.lanes k { w.lanes k with box := (w.lanes k).box.send id payload } }
  | complete (id : Uuid) (outcome : CommandStatus) (now : ℤ) :
      Step rules w { w with
        tables := { w.tables with power_commands := complete id outcome now w.tables.power_commands } }
  | start (k transaction_id : ℕ) (free : w.current_transaction k = none) :
      Step rules w { w with
        tables := note_power_start k w.tables
        current_transaction := Function.update w.current_transaction k (some transaction_id) }
  | stop (k : ℕ) : Step rules w { w with current_transaction := Function.update w.current_transaction k none }
  | event (now : ℤ) : Step rules w { w with tables := { w.tables with config := note_power_event now w.tables.config } }
  | save (registered : List ℕ) (now : ℤ) (body : PowerSetting) (config : Config) (caps : List ConnectorPower)
      (saved : save_settings registered now w.tables.config.station_id body (some w.tables.config) w.tables.caps =
        .ok (config, caps)) :
      Step rules w { w with tables := { w.tables with config := config, caps := caps } }
  | control (registered : List ℕ) (now : ℤ) (version : ℕ) (enable active : Bool) (config : Config)
      (caps : List ConnectorPower)
      (changed : change_control registered now version enable active (some w.tables.config) w.tables.caps =
        .ok (some config, caps)) :
      Step rules w { w with tables := { w.tables with config := config, caps := caps } }
  | turn (scheduled_limit : Option ℤ) (now : ℤ) (config : Config) (unlocked : w.run = none)
      (turned : planTurn scheduled_limit now w.tables.config = some config) :
      Step rules w { w with tables := { w.tables with config := config }, run := some ⟨config.generation, config.limit_w⟩ }
  | applying : Step rules w { w with tables := { w.tables with config := applying w.tables.config } }
  | degrade (issue : String) : Step rules w { w with tables := { w.tables with config := degrade issue w.tables.config } }
  | applied (run : Run) (offline : Bool) (running : w.run = some run) :
      Step rules w { w with
        tables := { w.tables with config := applied run.generation run.limit offline w.tables.config } }
  | disabled (run : Run) (running : w.run = some run) :
      Step rules w { w with tables := { w.tables with config := disabled run.generation w.tables.config } }
  | leave (idle : ∀ k, (w.lanes k).task = none) : Step rules w { w with run := none }
  | crash : Step rules w { w with run := none, lanes := fun k => { w.lanes k with task := none } }

/-- Any number of steps. -/
def Reach (rules : ReadbackRules F) : World F → World F → Prop := Relation.ReflTransGen (Step rules)

/-- Nothing is reserved, installed or under way. -/
structure Initial (w : World F) : Prop where
  keyed : Table.Keyed (·.connector_id) w.tables.caps
  caps : ∀ cap ∈ w.tables.caps, cap.confirmed_w = 0 ∧ cap.reserved_w = 0
  lanes : ∀ k, (w.lanes k).task = none ∧ (w.lanes k).box = .empty ∧ (w.lanes k).charger.default_w = none ∧
    (w.lanes k).charger.transaction_w = none

/-- The limits that a charger has, and those of the profiles that are on their way to it. -/
def Lane.limits (l : Lane F) : List ℤ :=
  l.charger.default_w.toList ++ l.charger.transaction_w.toList ++ l.box.queue.filterMap fun x =>
    match x.2 with
    | .SetChargingProfile p => some p.limit
    | _ => none

/-! ## 4. The invariant -/

def IsProfile : Payload → Prop
  | .SetChargingProfile _ => True
  | _ => False

/-- The answer reports no less than the limit of the transaction. -/
def Reported (value : F → Option ℚ) (c : Charger) (reply : Frame F) : Prop :=
  ∀ periods v, scheduleOf value (wire reply).2 = some periods → limitAt periods 0 = some v →
    ∀ w ∈ c.transaction_w, (w : ℚ) ≤ v

/-- A task at a connector with this reservation. Once its readback is answered no profile is under way, so the
readback is still true. -/
structure TaskOk (rules : ReadbackRules F) (reserved_w : ℤ) (τ : Task) (c : Charger)
    (box : Mailbox Uuid Payload (Frame F)) : Prop where
  watts : 0 ≤ τ.watts ∧ τ.watts ≤ reserved_w
  payload : τ.payload.limit = τ.watts ∧ (τ.payload.chargingProfilePurpose = .TxDefaultProfile → τ.watts = 0)
  reading : ∀ id, τ.phase = .reading id → box.Flushes IsProfile id ∧
    (∀ m, (id, m) ∈ box.queue → ∃ connectorId, m = .GetCompositeSchedule connectorId) ∧
    ∀ reply, (id, reply) ∈ box.answers → Reported rules.value c reply
  verified : τ.phase = .verified → (∀ x ∈ box.queue, ¬ IsProfile x.2) ∧ ∀ v ∈ c.transaction_w, v ≤ τ.watts

/-- A connector with this reservation. -/
structure LaneOk (rules : ReadbackRules F) (reserved_w : ℤ) (l : Lane F) : Prop where
  default : ∀ v ∈ l.charger.default_w, v = 0
  transaction : ∀ v ∈ l.charger.transaction_w, v ≤ reserved_w
  sent : ∀ x ∈ l.box.queue, ∀ p, x.2 = .SetChargingProfile p →
    p.limit ≤ reserved_w ∧ (p.chargingProfilePurpose = .TxDefaultProfile → p.limit = 0)
  task : ∀ τ ∈ l.task, TaskOk rules reserved_w τ l.charger l.box

/-- The task of connector `k` is about it, and its requests have an intent. -/
structure Recorded (k : ℕ) (commands : List PowerCommand) (l : Lane F) : Prop where
  connector : ∀ τ ∈ l.task, τ.device.connector_id = k
  box : l.box.Within fun id => ∃ c ∈ commands, c.id = id
  request : ∀ τ ∈ l.task, ∃ c ∈ commands, c.id = τ.request_id
  reading : ∀ τ ∈ l.task, ∀ id, τ.phase = .reading id → ∃ c ∈ commands, c.id = id ∧
    ∃ connectorId, c.payload = .GetCompositeSchedule connectorId

/-- A sound station. -/
structure Ok (rules : ReadbackRules F) (w : World F) : Prop where
  keyed : Table.Keyed (·.connector_id) w.tables.caps
  caps : ∀ cap ∈ w.tables.caps, 0 ≤ cap.confirmed_w ∧ cap.confirmed_w ≤ cap.reserved_w
  lanes : ∀ k, LaneOk rules (reservedOf w.tables.caps k) (w.lanes k)
  recorded : ∀ k, Recorded k w.tables.power_commands (w.lanes k)

namespace ProtocolLemmas

variable {value : F → Option ℚ} {rules : ReadbackRules F} {c c' : Charger} {m : Payload} {reply : Frame F}
  {reserved_w : ℤ} {l l' : Lane F} {commands commands' : List PowerCommand}

/-! ## 5. Chargers -/

theorem forgets_refl (c : Charger) : c.Forgets c := ⟨rfl, .inl rfl, .inl rfl⟩

theorem Forgets.mem_default (h : c.Forgets c') {v : ℤ} (hv : v ∈ c'.default_w) : v ∈ c.default_w := by
  rcases h.default with heq | hnone
  · exact heq ▸ hv
  · rw [hnone] at hv
    cases hv

theorem Forgets.mem_transaction (h : c.Forgets c') {v : ℤ} (hv : v ∈ c'.transaction_w) : v ∈ c.transaction_w := by
  rcases h.transaction with heq | hnone
  · exact heq ▸ hv
  · rw [hnone] at hv
    cases hv

/-- A limit that is installed is an old one, or that of the message. -/
theorem serves_limits (h : c.Serves value m reply c') :
    (∀ v ∈ c'.default_w, v ∈ c.default_w ∨
      ∃ p, m = .SetChargingProfile p ∧ p.chargingProfilePurpose = .TxDefaultProfile ∧ v = p.limit) ∧
    ∀ v ∈ c'.transaction_w, v ∈ c.transaction_w ∨ ∃ p, m = .SetChargingProfile p ∧ v = p.limit := by
  cases h with
  | default p _ _ purpose forgets =>
    refine ⟨fun v hv => .inr ⟨p, rfl, purpose, ?_⟩, fun v hv => .inl (Forgets.mem_transaction forgets hv)⟩
    exact (Option.some.inj (Forgets.mem_default forgets hv)).symm
  | transaction p _ _ _ purpose bound running forgets =>
    refine ⟨fun v hv => .inl (Forgets.mem_default forgets hv), fun v hv => .inr ⟨p, rfl, ?_⟩⟩
    exact (Option.some.inj (Forgets.mem_transaction forgets hv)).symm
  | schedule => exact ⟨fun v hv => .inl hv, fun v hv => .inl hv⟩
  | other _ _ _ plain forgets =>
    exact ⟨fun v hv => .inl (Forgets.mem_default forgets hv), fun v hv => .inl (Forgets.mem_transaction forgets hv)⟩

theorem serves_plain (h : c.Serves value m reply c') (hm : ¬ IsProfile m) :
    ∀ v ∈ c'.transaction_w, v ∈ c.transaction_w := by
  intro v hv
  rcases (serves_limits h).2 v hv with hold | ⟨p, rfl, -⟩
  · exact hold
  · exact absurd trivial hm

theorem serves_schedule {connectorId : ℕ} (h : c.Serves value (.GetCompositeSchedule connectorId) reply c') :
    Reported value c' reply := by
  cases h with
  | schedule _ _ truthful =>
    intro periods v hperiods hv w hw
    refine truthful periods v hperiods hv w ?_
    rw [Charger.limit_w, Option.mem_def.mp hw]
    rfl
  | other _ _ _ plain => exact absurd rfl (plain connectorId)

theorem acts_limits (h : c.Acts c') :
    (∀ v ∈ c'.default_w, v ∈ c.default_w) ∧ ∀ v ∈ c'.transaction_w, v ∈ c.transaction_w := by
  cases h with
  | begin | finish => exact ⟨fun v hv => hv, fun v hv => by cases hv⟩
  | forget _ forgets => exact ⟨fun v => Forgets.mem_default forgets, fun v => Forgets.mem_transaction forgets⟩

theorem Reported.mono (h : Reported value c reply) (hsub : ∀ v ∈ c'.transaction_w, v ∈ c.transaction_w) :
    Reported value c' reply := fun periods v hperiods hv w hw => h periods v hperiods hv w (hsub w hw)

end ProtocolLemmas

open ProtocolLemmas

/-! ## 6. Connectors -/

section Connectors

variable {value : F → Option ℚ} {rules : ReadbackRules F} {c' : Charger} {m : Payload} {reply : Frame F}
  {reserved_w : ℤ} {l l' : Lane F}

theorem LaneOk.mono {reserved_w' : ℤ} (h : LaneOk rules reserved_w l) (hle : reserved_w ≤ reserved_w') :
    LaneOk rules reserved_w' l where
  default := h.default
  transaction v hv := (h.transaction v hv).trans hle
  sent x hx p hp := ⟨(h.sent x hx p hp).1.trans hle, (h.sent x hx p hp).2⟩
  task τ hτ :=
    have hok := h.task τ hτ
    ⟨⟨hok.watts.1, hok.watts.2.trans hle⟩, hok.payload, hok.reading, hok.verified⟩

/-- The task ends. -/
theorem LaneOk.idle (h : LaneOk rules reserved_w l) : LaneOk rules reserved_w { l with task := none } :=
  ⟨h.default, h.transaction, h.sent, fun τ hτ => by cases hτ⟩

/-- The charger keeps at most the limits that it has. -/
theorem LaneOk.shrink (h : LaneOk rules reserved_w l) (hdefault : ∀ v ∈ c'.default_w, v ∈ l.charger.default_w)
    (htransaction : ∀ v ∈ c'.transaction_w, v ∈ l.charger.transaction_w) :
    LaneOk rules reserved_w { l with charger := c' } where
  default v hv := h.default v (hdefault v hv)
  transaction v hv := h.transaction v (htransaction v hv)
  sent := h.sent
  task τ hτ :=
    have hok := h.task τ hτ
    ⟨hok.watts, hok.payload, fun id hid =>
      have ⟨hflushes, hschedule, hreported⟩ := hok.reading id hid
      ⟨hflushes, hschedule, fun reply hreply => Reported.mono (hreported reply hreply) htransaction⟩,
      fun hphase => ⟨(hok.verified hphase).1, fun v hv => (hok.verified hphase).2 v (htransaction v hv)⟩⟩

/-- The task goes on, to a phase that is checked. -/
theorem LaneOk.advance (h : LaneOk rules reserved_w l) {τ : Task} (hτ : l.task = some τ) {phase : Phase}
    (hreading : ∀ id, phase ≠ .reading id)
    (hverified : phase = .verified →
      (∀ x ∈ l.box.queue, ¬ IsProfile x.2) ∧ ∀ v ∈ l.charger.transaction_w, v ≤ τ.watts) :
    LaneOk rules reserved_w { l with task := some { τ with phase := phase } } where
  default := h.default
  transaction := h.transaction
  sent := h.sent
  task τ' hτ' := by
    cases hτ'
    have hok := h.task τ hτ
    exact ⟨hok.watts, hok.payload, fun id hid => absurd hid (hreading id), hverified⟩

/-- A message that is no profile is sent while no readback is under its id. -/
theorem LaneOk.send (h : LaneOk rules reserved_w l) {id : Uuid} (hm : ¬ IsProfile m)
    (hid : ∀ τ ∈ l.task, τ.phase ≠ .reading id) : LaneOk rules reserved_w { l with box := l.box.send id m } where
  default := h.default
  transaction := h.transaction
  sent x hx p hp := by
    rcases Mailbox.mem_queue_send.mp hx with hx | rfl
    · exact h.sent x hx p hp
    · change m = _ at hp
      rw [hp] at hm
      exact absurd trivial hm
  task τ hτ := by
    have hok := h.task τ hτ
    refine ⟨hok.watts, hok.payload, fun j hj => ?_, fun hphase => ⟨fun x hx => ?_, (hok.verified hphase).2⟩⟩
    · obtain ⟨hflushes, hschedule, hreported⟩ := hok.reading j hj
      refine ⟨hflushes.send hm, fun m' hm' => ?_, hreported⟩
      rcases Mailbox.mem_queue_send.mp hm' with hm' | heq
      · exact hschedule m' hm'
      · have hji : j = id := congrArg Prod.fst heq
        exact absurd (hji ▸ hj) (hid τ hτ)
    · rcases Mailbox.mem_queue_send.mp hx with hx | rfl
      · exact (hok.verified hphase).1 x hx
      · exact hm

/-- Messages are lost. -/
theorem LaneOk.lose (h : LaneOk rules reserved_w l) {box : Mailbox Uuid Payload (Frame F)} (hl : l.box.Loses box) :
    LaneOk rules reserved_w { l with box := box } where
  default := h.default
  transaction := h.transaction
  sent x hx := h.sent x (hl.queue.mem hx)
  task τ hτ :=
    have hok := h.task τ hτ
    ⟨hok.watts, hok.payload, fun id hid =>
      have ⟨hflushes, hschedule, hreported⟩ := hok.reading id hid
      ⟨hflushes.lose hl, fun m hm => hschedule m (hl.queue.mem hm), fun reply hreply =>
        hreported reply (hl.answers hreply)⟩,
      fun hphase => ⟨fun x hx => (hok.verified hphase).1 x (hl.queue.mem hx), (hok.verified hphase).2⟩⟩

/-- The charger takes a message. -/
theorem LaneOk.serve (h : LaneOk rules reserved_w l) {id : Uuid} {box : Mailbox Uuid Payload (Frame F)}
    (taken : l.box.Serves id m reply box) (served : l.charger.Serves rules.value m reply c') :
    LaneOk rules reserved_w { l with charger := c', box := box } where
  default v hv := by
    rcases (serves_limits served).1 v hv with hold | ⟨p, hm, hpurpose, rfl⟩
    · exact h.default v hold
    · exact (h.sent _ taken.head_mem p hm).2 hpurpose
  transaction v hv := by
    rcases (serves_limits served).2 v hv with hold | ⟨p, hm, rfl⟩
    · exact h.transaction v hold
    · exact (h.sent _ taken.head_mem p hm).1
  sent x hx := h.sent x (taken.mem_queue hx)
  task τ hτ := by
    have hok := h.task τ hτ
    refine ⟨hok.watts, hok.payload, fun j hj => ?_, fun hphase => ?_⟩
    · obtain ⟨hflushes, hschedule, hreported⟩ := hok.reading j hj
      refine ⟨hflushes.serve taken, fun m' hm' => hschedule m' (taken.mem_queue hm'), fun reply' hreply => ?_⟩
      rcases taken.mem_answers.mp hreply with heq | hreply
      · cases heq
        obtain ⟨connectorId, rfl⟩ := hschedule m taken.head_mem
        exact serves_schedule served
      · have hplain := hflushes.answered reply' hreply _ taken.head_mem
        exact Reported.mono (hreported reply' hreply) (serves_plain served hplain)
    · obtain ⟨hnone, hle⟩ := hok.verified hphase
      exact ⟨fun x hx => hnone x (taken.mem_queue hx),
        fun v hv => hle v (serves_plain served (hnone _ taken.head_mem) v hv)⟩

/-- The profile is sent. -/
theorem LaneOk.sendProfile (h : LaneOk rules reserved_w l) {τ : Task} (hτ : l.task = some τ) :
    LaneOk rules reserved_w { l with
      task := some { τ with phase := .sent }, box := l.box.send τ.request_id (.SetChargingProfile τ.payload) } where
  default := h.default
  transaction := h.transaction
  sent x hx p hp := by
    rcases Mailbox.mem_queue_send.mp hx with hx | rfl
    · exact h.sent x hx p hp
    · cases hp
      obtain ⟨hlimit, hdefault⟩ := (h.task τ hτ).payload
      exact ⟨hlimit ▸ (h.task τ hτ).watts.2, fun hpurpose => hlimit.trans (hdefault hpurpose)⟩
  task τ' hτ' := by
    cases hτ'
    have hok := h.task τ hτ
    exact ⟨hok.watts, hok.payload, fun id hid => (by cases hid), fun hphase => (by cases hphase)⟩

/-- A readback that is accepted bounds the limit of the transaction. -/
theorem LaneOk.verified_of_reading (h : LaneOk rules reserved_w l) {τ : Task} {id : Uuid} {now : ℤ} (hτ : l.task = some τ)
    (hphase : τ.phase = .reading id) (hanswered : (id, reply) ∈ l.box.answers)
    (hkept : verify_limit rules now τ.device.number τ.watts reply = true) :
    (∀ x ∈ l.box.queue, ¬ IsProfile x.2) ∧ ∀ v ∈ l.charger.transaction_w, v ≤ τ.watts := by
  obtain ⟨hflushes, -, hreported⟩ := (h.task τ hτ).reading id hphase
  obtain ⟨-, periods, hperiods, hkeeps⟩ := verify_limit_bounds hkept
  obtain ⟨v, hv, -, hle⟩ := hkeeps.bounded 0 le_rfl
  refine ⟨hflushes.answered reply hanswered, fun w hw => ?_⟩
  exact_mod_cast (hreported reply hanswered periods v hperiods hv w hw).trans hle

/-- Every step of a connector keeps it within its reservation. -/
theorem LaneMove.ok (move : LaneMove rules l l') (h : LaneOk rules reserved_w l) : LaneOk rules reserved_w l' := by
  cases move with
  | send τ task phase => exact h.sendProfile task
  | accept τ reply task phase answered accepted =>
    exact h.advance task (fun id hid => (by cases hid)) fun hphase => (by cases hphase)
  | verify τ id reply now task phase answered kept =>
    exact h.advance task (fun id hid => by cases hid) fun _ => h.verified_of_reading task phase answered kept
  | abandon => exact h.idle
  | serve id m reply charger box taken served => exact h.serve taken served
  | lose box lost => exact h.lose lost
  | act charger acts => exact h.shrink (acts_limits acts).1 (acts_limits acts).2

/-- The readback is asked for, under a new id. -/
theorem LaneOk.read (h : LaneOk rules reserved_w l) {τ : Task} (hτ : l.task = some τ) {id : Uuid} (connectorId : ℕ)
    (hfresh : l.box.Within (· ≠ id)) :
    LaneOk rules reserved_w { l with
      task := some { τ with phase := .reading id }, box := l.box.send id (.GetCompositeSchedule connectorId) } where
  default := h.default
  transaction := h.transaction
  sent x hx p hp := by
    rcases Mailbox.mem_queue_send.mp hx with hx | rfl
    · exact h.sent x hx p hp
    · cases hp
  task τ' hτ' := by
    cases hτ'
    have hok := h.task τ hτ
    refine ⟨hok.watts, hok.payload, fun j hj => ?_, fun hphase => (by cases hphase)⟩
    cases hj
    refine ⟨(Mailbox.Flushes.of_fresh hfresh).send (fun hm => hm), fun m hm => ?_, fun reply hreply => ?_⟩
    · rcases Mailbox.mem_queue_send.mp hm with hm | heq
      · exact absurd rfl (hfresh.queue _ hm)
      · exact ⟨connectorId, congrArg Prod.snd heq⟩
    · exact absurd rfl (hfresh.answers _ hreply)

/-- An admitted task starts. -/
theorem LaneOk.start (h : LaneOk rules reserved_w l) {τ : Task} (hwatts : 0 ≤ τ.watts ∧ τ.watts ≤ reserved_w)
    (hpayload : τ.payload.limit = τ.watts ∧ (τ.payload.chargingProfilePurpose = .TxDefaultProfile → τ.watts = 0))
    (hphase : τ.phase = .reserved) : LaneOk rules reserved_w { l with task := some τ } where
  default := h.default
  transaction := h.transaction
  sent := h.sent
  task τ' hτ' := by
    cases hτ'
    exact ⟨hwatts, hpayload, fun id hid => (by rw [hphase] at hid; cases hid), fun hid => (by rw [hphase] at hid; cases hid)⟩

/-- A verified limit becomes the reservation. -/
theorem LaneOk.confirm (h : LaneOk rules reserved_w l) {τ : Task} (hτ : l.task = some τ) (hphase : τ.phase = .verified) :
    LaneOk rules τ.watts { l with task := none } where
  default := h.default
  transaction := ((h.task τ hτ).verified hphase).2
  sent x hx p hp := absurd (hp ▸ trivial : IsProfile x.2) (((h.task τ hτ).verified hphase).1 x hx)
  task τ' hτ' := by cases hτ'

/-! ## 7. Requests -/

variable {commands commands' : List PowerCommand} {k : ℕ}

theorem Recorded.mono (h : Recorded k commands l) (hext : Extends commands commands') : Recorded k commands' l where
  connector := h.connector
  box := h.box.mono fun id ⟨c, hc, hid⟩ =>
    have ⟨c', hc', hid', _⟩ := hext c hc
    ⟨c', hc', hid'.trans hid⟩
  request τ hτ := by
    obtain ⟨c, hc, hid⟩ := h.request τ hτ
    obtain ⟨c', hc', hid', -⟩ := hext c hc
    exact ⟨c', hc', hid'.trans hid⟩
  reading τ hτ id hphase := by
    obtain ⟨c, hc, hid, connectorId, hpayload⟩ := h.reading τ hτ id hphase
    obtain ⟨c', hc', hid', hpayload'⟩ := hext c hc
    exact ⟨c', hc', hid'.trans hid, connectorId, hpayload'.trans hpayload⟩

/-- A task in a phase that waits for no readback. -/
theorem Recorded.task (h : Recorded k commands l) {τ : Task} (hconnector : τ.device.connector_id = k)
    (hrequest : ∃ c ∈ commands, c.id = τ.request_id) (hphase : ∀ id, τ.phase ≠ .reading id) :
    Recorded k commands { l with task := some τ } where
  connector τ' hτ' := by
    cases hτ'
    exact hconnector
  box := h.box
  request τ' hτ' := by
    cases hτ'
    exact hrequest
  reading τ' hτ' id hid := by
    cases hτ'
    exact absurd hid (hphase id)

theorem Recorded.idle (h : Recorded k commands l) : Recorded k commands { l with task := none } :=
  ⟨fun τ hτ => (by cases hτ), h.box, fun τ hτ => (by cases hτ), fun τ hτ => (by cases hτ)⟩

theorem LaneMove.recorded (move : LaneMove rules l l') (h : Recorded k commands l) : Recorded k commands l' := by
  cases move with
  | send τ task phase =>
    have hsent := h.task (τ := { τ with phase := .sent }) (h.connector τ task) (h.request τ task) fun id hid => (by cases hid)
    exact ⟨hsent.connector, h.box.send (h.request τ task), hsent.request, hsent.reading⟩
  | accept τ reply task phase answered accepted =>
    exact h.task (h.connector τ task) (h.request τ task) fun id hid => (by cases hid)
  | verify τ id reply now task phase answered kept =>
    exact h.task (h.connector τ task) (h.request τ task) fun id hid => (by cases hid)
  | abandon => exact h.idle
  | serve id m reply charger box taken served => exact ⟨h.connector, h.box.serve taken, h.request, h.reading⟩
  | lose box lost => exact ⟨h.connector, h.box.lose lost, h.request, h.reading⟩
  | act charger acts => exact ⟨h.connector, h.box, h.request, h.reading⟩

/-! ## 8. Steps -/

variable {w w' : World F}

/-- The rows and one connector change; the reservations of the others do not. -/
theorem Ok.lane (h : Ok rules w) {t : Tables} {k : ℕ} (keyed : Table.Keyed (·.connector_id) t.caps)
    (caps : ∀ cap ∈ t.caps, 0 ≤ cap.confirmed_w ∧ cap.confirmed_w ≤ cap.reserved_w)
    (others : ∀ j, j ≠ k → reservedOf t.caps j = reservedOf w.tables.caps j)
    (intents : Extends w.tables.power_commands t.power_commands) (hl : LaneOk rules (reservedOf t.caps k) l)
    (hr : Recorded k t.power_commands l) (current : ℕ → Option ℕ) (run : Option Run) :
    Ok rules ⟨t, current, run, Function.update w.lanes k l⟩ := by
  refine ⟨keyed, caps, fun j => ?_, fun j => ?_⟩ <;> by_cases hj : j = k
  · subst hj
    dsimp only
    rw [Function.update_self]
    exact hl
  · dsimp only
    rw [Function.update_of_ne hj, others j hj]
    exact h.lanes j
  · subst hj
    dsimp only
    rw [Function.update_self]
    exact hr
  · dsimp only
    rw [Function.update_of_ne hj]
    exact (h.recorded j).mono intents

/-- Rows change that reserve nothing. -/
theorem Ok.rows (h : Ok rules w) {t : Tables} (same : SameReservations w.tables.caps t.caps)
    (intents : Extends w.tables.power_commands t.power_commands) (current : ℕ → Option ℕ) (run : Option Run) :
    Ok rules ⟨t, current, run, w.lanes⟩ := by
  refine ⟨same.keyed h.keyed, fun cap hcap => ?_, fun k => same.reserved k ▸ h.lanes k,
    fun k => (h.recorded k).mono intents⟩
  rcases same.rows cap hcap with ⟨old, hold, hreserved, hconfirmed | hzero⟩ | ⟨hzero, hreserved⟩
  · rw [hreserved, hconfirmed]
    exact h.caps old hold
  · rw [hreserved, hzero]
    exact ⟨le_rfl, (h.caps old hold).1.trans (h.caps old hold).2⟩
  · rw [hzero, hreserved]
    exact ⟨le_rfl, le_rfl⟩

/-- The rows after one connector was written, with a reservation that covers what is confirmed. -/
theorem Ok.caps_of_reserves (h : Ok rules w) {k : ℕ} {reserved_w : ℤ} {confirmed_w : ConnectorPower → ℤ}
    {caps : List ConnectorPower} (hr : Reserves k reserved_w confirmed_w w.tables.caps caps)
    (hcovers : ∀ old ∈ w.tables.caps, old.connector_id = k → 0 ≤ confirmed_w old ∧ confirmed_w old ≤ reserved_w) :
    ∀ cap ∈ caps, 0 ≤ cap.confirmed_w ∧ cap.confirmed_w ≤ cap.reserved_w := by
  intro cap hcap
  rcases hr.rows cap hcap with hcap | ⟨old, hold, hid, hreserved, hconfirmed⟩
  · exact h.caps cap hcap
  · rw [hreserved, hconfirmed]
    exact hcovers old hold hid

/-- The readback of another connector, or of no request, is not under the id of a plain command. -/
theorem Recorded.plain (h : Recorded k commands l) {id : Uuid} {payload : Payload}
    (hplain : ∀ connectorId, payload ≠ .GetCompositeSchedule connectorId)
    (hsame : ∀ c ∈ commands, c.id = id → c.payload = payload) : ∀ τ ∈ l.task, τ.phase ≠ .reading id := by
  intro τ hτ hphase
  obtain ⟨c, hc, hid, connectorId, hpayload⟩ := h.reading τ hτ id hphase
  exact hplain connectorId ((hsame c hc hid).symm.trans hpayload)

end Connectors

/-- Every step keeps every connector within its reservation. -/
theorem Step.ok {rules : ReadbackRules F} {w w' : World F} (step : Step rules w w') (h : Ok rules w) : Ok rules w' := by
  cases step with
  | lane k l move =>
    exact h.lane h.keyed h.caps (fun _ _ => rfl) (.refl _) (move.ok (h.lanes k)) (move.recorded (h.recorded k)) _ _
  | reserve k run device watts baseline profile_id new_id request_id tables running idle connector target fresh admitted =>
    subst connector
    obtain ⟨-, hcommands, hr, -⟩ := reserve_spec h.keyed admitted
    have hext : Extends w.tables.power_commands tables.power_commands := hcommands ▸ intend_extends _ _ _ _ _
    have hrequest : ∃ c ∈ tables.power_commands, c.id = request_id := hcommands ▸ intend_recorded _ _ _ _ _
    have hcovers : ∀ old ∈ w.tables.caps, old.connector_id = device.connector_id →
        0 ≤ old.confirmed_w ∧ old.confirmed_w ≤ max (reservedOf w.tables.caps device.connector_id) watts := by
      intro old hold hid
      rw [← hid, reservedOf_mem h.keyed hold]
      exact ⟨(h.caps old hold).1, (h.caps old hold).2.trans (le_max_left _ _)⟩
    refine h.lane hr.keyed (h.caps_of_reserves hr hcovers) hr.others hext ?_
      (((h.recorded _).mono hext).task rfl hrequest fun id hid => (by cases hid)) _ _
    rw [hr.own]
    refine ((h.lanes device.connector_id).mono (le_max_left _ _)).start ⟨target.1, le_max_right _ _⟩ ⟨rfl, fun hpurpose => ?_⟩ rfl
    refine target.2 ?_
    by_contra hnot
    have htransaction : (profile profile_id device watts baseline).chargingProfilePurpose = .TxProfile := if_neg hnot
    exact absurd (htransaction.symm.trans hpurpose) (by decide)
  | read k τ new_id task phase fresh =>
    have hfresh : (w.lanes k).box.Within (· ≠ new_id) :=
      (h.recorded k).box.mono fun id ⟨c, hc, hid⟩ hnew => fresh c hc (hid.trans hnew)
    have hext : Extends w.tables.power_commands _ :=
      intend_extends new_id k τ.generation (.GetCompositeSchedule τ.device.number) w.tables.power_commands
    have hold := (h.recorded k).mono hext
    obtain ⟨c, hc, hid, hpayload⟩ := intend_fresh fresh k τ.generation (.GetCompositeSchedule τ.device.number)
    refine h.lane (t := ⟨_, _, intend ..⟩) h.keyed h.caps (fun _ _ => rfl) hext ((h.lanes k).read task _ hfresh)
      ⟨?_, hold.box.send ⟨c, hc, hid⟩, ?_, ?_⟩ _ _
    · intro τ' hτ'
      cases hτ'
      exact hold.connector τ task
    · intro τ' hτ'
      cases hτ'
      exact hold.request τ task
    · intro τ' hτ' id hphase
      cases hτ'
      cases hphase
      exact ⟨c, hc, hid, _, hpayload⟩
  | confirm k τ task phase =>
    have hid := (h.recorded k).connector τ task
    have hwatts := ((h.lanes k).task τ task).watts
    have hconfirmed := (h.lanes k).confirm task phase
    have hidle := (h.recorded k).idle
    cases hc : Power.confirm τ.device τ.watts τ.baseline (w.current_transaction k) w.tables with
    | none => exact h.lane h.keyed h.caps (fun _ _ => rfl) (.refl _) (h.lanes k).idle hidle _ _
    | some t =>
      rw [Option.getD_some]
      obtain ⟨-, hcommands, ⟨hcaps, -⟩ | hr⟩ := confirm_spec h.keyed hc
      · refine h.lane ?_ ?_ (fun _ _ => ?_) ?_ ?_ ?_ _ _
        · exact hcaps ▸ h.keyed
        · exact hcaps ▸ h.caps
        · rw [hcaps]
        · exact hcommands ▸ .refl _
        · rw [hcaps]
          exact (h.lanes k).idle
        · exact hcommands ▸ hidle
      · rw [hid] at hr
        have hext : Extends w.tables.power_commands t.power_commands := hcommands ▸ .refl _
        refine h.lane hr.keyed (h.caps_of_reserves hr fun _ _ _ => ⟨hwatts.1, le_rfl⟩) hr.others hext ?_ (hidle.mono hext) _ _
        rw [hr.own]
        exact hconfirmed
  | command k id generation payload plain same =>
    have hext := intend_extends id k generation payload w.tables.power_commands
    have hold := (h.recorded k).mono hext
    have hreading := (h.recorded k).plain (fun connectorId => (plain ⟨0, 0, 0, .TxProfile, 0, none⟩ connectorId).2) same
    have hprofile : ¬ IsProfile payload := by
      intro hp
      cases payload with
      | SetChargingProfile p => exact (plain p 0).1 rfl
      | _ => exact hp
    exact h.lane (t := ⟨_, _, intend ..⟩) h.keyed h.caps (fun _ _ => rfl) hext ((h.lanes k).send hprofile hreading)
      ⟨hold.connector, hold.box.send (intend_recorded _ _ _ _ _), hold.request, hold.reading⟩ _ _
  | complete id outcome now => exact h.rows (t := ⟨_, _, Power.complete ..⟩) (.refl _) (complete_extends id outcome now _) _ _
  | start k transaction_id free =>
    refine h.rows (note_power_start_frame k w.tables) ?_ _ _
    unfold note_power_start
    split <;> exact .refl _
  | save registered now body config caps saved =>
    exact h.rows (t := ⟨config, caps, _⟩) (save_settings_frame saved) (.refl _) _ _
  | control registered now version enable active config caps changed =>
    exact h.rows (t := ⟨config, caps, _⟩) (change_control_frame changed).1 (.refl _) _ _
  | stop | event | turn | applying | degrade | applied | disabled | leave =>
    exact ⟨h.keyed, h.caps, h.lanes, h.recorded⟩
  | crash => exact ⟨h.keyed, h.caps, fun k => (h.lanes k).idle, fun k => (h.recorded k).idle⟩


/-- A limit of the run in progress is admitted: in the current generation, and within the limit of the station. -/
structure Admission (w w' : World F) : Prop where
  admitted : ∃ run device watts payload new_id request_id, w.run = some run ∧
    run.generation = w.tables.config.generation ∧
    reserve device run.generation watts payload new_id w.tables = some (request_id, w'.tables)
  within : totalReserved w'.tables.caps ≤ w.tables.config.limit_w

/-- Only an admission reserves more watts. -/
theorem Step.total {rules : ReadbackRules F} {w w' : World F} (step : Step rules w w') (h : Ok rules w) :
    totalReserved w'.tables.caps ≤ totalReserved w.tables.caps ∨ Admission w w' := by
  cases step with
  | reserve k run device watts baseline profile_id new_id request_id tables running idle connector target fresh admitted =>
    obtain ⟨-, -, -, hmore⟩ := reserve_spec h.keyed admitted
    rcases le_or_gt (totalReserved tables.caps) (totalReserved w.tables.caps) with hle | hlt
    · exact .inl hle
    · obtain ⟨hgeneration, hwithin⟩ := hmore hlt
      exact .inr ⟨⟨run, device, watts, _, new_id, request_id, running, hgeneration.symm, admitted⟩, hwithin⟩
  | confirm k τ task phase =>
    left
    have hid := (h.recorded k).connector τ task
    have hwatts := ((h.lanes k).task τ task).watts.2
    dsimp only
    cases hc : Power.confirm τ.device τ.watts τ.baseline (w.current_transaction k) w.tables with
    | none => exact le_rfl
    | some t =>
      rw [Option.getD_some]
      obtain ⟨-, -, ⟨hcaps, -⟩ | hr⟩ := confirm_spec h.keyed hc
      · rw [hcaps]
      · rw [hr.total, hid]
        omega
  | start k transaction_id free => exact .inl (note_power_start_frame k w.tables).total.le
  | save registered now body config caps saved => exact .inl (save_settings_frame saved).total.le
  | control registered now version enable active config caps changed =>
    exact .inl (change_control_frame changed).1.total.le
  | _ => exact .inl le_rfl

theorem Initial.ok {w : World F} (h : Initial w) (rules : ReadbackRules F) : Ok rules w := by
  refine ⟨h.keyed, fun cap hcap => ?_, fun k => ?_, fun k => ?_⟩
  · obtain ⟨hconfirmed, hreserved⟩ := h.caps cap hcap
    rw [hconfirmed, hreserved]
    exact ⟨le_rfl, le_rfl⟩
  · obtain ⟨htask, hbox, hdefault, htransaction⟩ := h.lanes k
    refine ⟨fun v hv => ?_, fun v hv => ?_, fun x hx => ?_, fun τ hτ => ?_⟩
    · rw [hdefault] at hv
      cases hv
    · rw [htransaction] at hv
      cases hv
    · rw [hbox] at hx
      cases hx
    · rw [htask] at hτ
      cases hτ
  · obtain ⟨htask, hbox, -, -⟩ := h.lanes k
    refine ⟨fun τ hτ => ?_, ⟨fun x hx => ?_, fun x hx => ?_⟩, fun τ hτ => ?_, fun τ hτ => ?_⟩
    · rw [htask] at hτ
      cases hτ
    · rw [hbox] at hx
      cases hx
    · rw [hbox] at hx
      cases hx
    · rw [htask] at hτ
      cases hτ
    · rw [htask] at hτ
      cases hτ

theorem Reach.ok {rules : ReadbackRules F} {w₀ w : World F} (run : Reach rules w₀ w) (initial : Initial w₀) :
    Ok rules w := by
  induction run with
  | refl => exact initial.ok rules
  | tail _ step ih => exact step.ok ih

/-- The reservation covers the limits of a connector. -/
theorem LaneOk.limits_le {rules : ReadbackRules F} {reserved_w : ℤ} {l : Lane F} (h : LaneOk rules reserved_w l)
    (hpos : 0 ≤ reserved_w) : ∀ v ∈ l.limits, v ≤ reserved_w := by
  intro v hv
  rcases List.mem_append.mp hv with hv | hv
  · rcases List.mem_append.mp hv with hv | hv
    · exact (h.default v (Option.mem_toList.mp hv)).trans_le hpos
    · exact h.transaction v (Option.mem_toList.mp hv)
  · obtain ⟨x, hx, hlimit⟩ := List.mem_filterMap.mp hv
    cases hm : x.2 with
    | SetChargingProfile p =>
      rw [hm] at hlimit
      exact (Option.some.inj hlimit) ▸ (h.sent x hx p hm).1
    | _ =>
      rw [hm] at hlimit
      cases hlimit

/-- In every state that any interleaving reaches, a reservation covers what is confirmed and each limit that the
charger has or that is on its way to it. The watts that are reserved only grow when a limit is admitted, which takes
the current generation and leaves them within the limit of the station. -/
theorem power_admission {rules : ReadbackRules F} {w₀ w : World F} (initial : Initial w₀) (run : Reach rules w₀ w) :
    (∀ cap ∈ w.tables.caps, 0 ≤ cap.confirmed_w ∧ cap.confirmed_w ≤ cap.reserved_w ∧
      ∀ v ∈ (w.lanes cap.connector_id).limits, v ≤ cap.reserved_w) ∧
    ∀ w', Step rules w w' → totalReserved w.tables.caps < totalReserved w'.tables.caps → Admission w w' := by
  have hok := run.ok initial
  refine ⟨fun cap hcap => ?_, fun w' step hlt => ?_⟩
  · obtain ⟨hpos, hle⟩ := hok.caps cap hcap
    have hlane := hok.lanes cap.connector_id
    rw [reservedOf_mem hok.keyed hcap] at hlane
    exact ⟨hpos, hle, hlane.limits_le (hpos.trans hle)⟩
  · exact (step.total hok).resolve_left (not_le.mpr hlt)

/-- Any number of steps, with the limit of the station never above the budget. -/
def ReachWithin (rules : ReadbackRules F) (budget : ℤ) : World F → World F → Prop :=
  Relation.ReflTransGen fun w w' => Step rules w w' ∧ w'.tables.config.limit_w ≤ budget

/-- Whatever the limit of the station does below a budget, the watts that are reserved stay within the budget, and so
do the limits that are in force at its connectors. -/
theorem within_budget {rules : ReadbackRules F} {budget : ℤ} {w₀ w : World F} (initial : Initial w₀)
    (opening : 0 ≤ budget ∧ w₀.tables.config.limit_w ≤ budget) (run : ReachWithin rules budget w₀ w) :
    totalReserved w.tables.caps ≤ budget ∧
      (w.tables.caps.map fun cap => (w.lanes cap.connector_id).charger.limit_w.getD 0).sum ≤ budget := by
  have hstate : Ok rules w ∧ w.tables.config.limit_w ≤ budget ∧ totalReserved w.tables.caps ≤ budget := by
    induction run with
    | refl =>
      have hzero : totalReserved w₀.tables.caps = 0 :=
        List.sum_eq_zero fun v hv => by
          obtain ⟨cap, hcap, rfl⟩ := List.mem_map.mp hv
          exact (initial.caps cap hcap).2
      exact ⟨initial.ok rules, opening.2, hzero ▸ opening.1⟩
    | tail _ hstep ih =>
      obtain ⟨step, hlimit⟩ := hstep
      obtain ⟨hok, hbefore, htotal⟩ := ih
      refine ⟨step.ok hok, hlimit, ?_⟩
      rcases step.total hok with hle | hadmission
      · exact hle.trans htotal
      · exact hadmission.within.trans hbefore
  obtain ⟨hok, -, htotal⟩ := hstate
  refine ⟨htotal, le_trans (List.sum_le_sum fun cap hcap => ?_) htotal⟩
  obtain ⟨hpos, hle⟩ := hok.caps cap hcap
  have hlane := hok.lanes cap.connector_id
  rw [reservedOf_mem hok.keyed hcap] at hlane
  cases hlimit : (w.lanes cap.connector_id).charger.limit_w with
  | none => exact hpos.trans hle
  | some v =>
    rw [Option.getD_some]
    rcases Option.or_eq_some_iff.mp hlimit with htransaction | ⟨-, hdefault⟩
    · exact hlane.transaction v htransaction
    · exact (hlane.default v hdefault).trans_le (hpos.trans hle)

end Protocol

namespace OneCharger

def config : Config := { Config.new 0 7000 with enabled := true, target_enabled := true, state := .ready }

/-- A car at a connector of 7 kW with a default profile of zero. -/
def device : Device where
  connector_id := 0
  charge_point_id := 0
  number := 1
  boot_at := some 0
  rated_w := 7000
  reserved_w := 0
  confirmed_w := 0
  baseline_boot_at := some 0
  pending_command_id := none
  transaction_id := some 7
  needs_power := true
  online := true

def opening : World Unit where
  tables := ⟨config, [⟨0, 0, 7000, 0, 0, 0, some 0, none⟩], []⟩
  current_transaction := fun _ => some 7
  run := none
  lanes := fun _ => ⟨none, ⟨some 7, none, none⟩, .empty⟩

def rules : ReadbackRules Unit := ⟨fun _ => none, fun _ => some (some 0), 6000000⟩

def turned : World Unit :=
  { opening with
    tables := { opening.tables with config := { config with last_plan_at := some 5 } }, run := some ⟨0, 7000⟩ }

def limit : ChargingProfile := profile 3 device 5000 false

/-- 5 kW are admitted. -/
def admitted : World Unit :=
  { turned with
    tables := ⟨turned.tables.config, [⟨0, 0, 7000, 0, 5000, 5000, some 0, some (.sample 1)⟩],
      [⟨.sample 1, 0, 0, .SetChargingProfile limit, .Pending, none⟩]⟩
    lanes := Function.update turned.lanes 0 { turned.lanes 0 with
      task := some ⟨device, 0, 5000, false, limit, .sample 1, .reserved⟩ } }

def sent : Lane Unit :=
  ⟨some ⟨device, 0, 5000, false, limit, .sample 1, .sent⟩, ⟨some 7, none, none⟩,
    ⟨[(.sample 1, .SetChargingProfile limit)], []⟩⟩

/-- The charger installs them, and its answer is under way. -/
def installed : Lane Unit :=
  ⟨some ⟨device, 0, 5000, false, limit, .sample 1, .sent⟩, ⟨some 7, none, some 5000⟩,
    ⟨[], [(.sample 1, ⟨.result, [], [], [], [], []⟩)]⟩⟩

def limited : World Unit :=
  { admitted with lanes := Function.update (Function.update admitted.lanes 0 sent) 0 installed }

theorem initial : Initial opening where
  keyed := List.pairwise_singleton _ _
  caps cap hcap := by
    rw [List.mem_singleton.mp hcap]
    exact ⟨rfl, rfl⟩
  lanes _ := ⟨rfl, rfl, rfl, rfl⟩

theorem step_turned : Step rules opening turned := .turn none 5 { config with last_plan_at := some 5 } rfl rfl

theorem step_admitted : Step rules turned admitted :=
  .reserve 0 ⟨0, 7000⟩ device 5000 false 3 (.sample 1) (.sample 1) admitted.tables rfl rfl rfl
    ⟨by decide, fun h => absurd h (by decide)⟩ (List.forall_mem_nil _) rfl

theorem step_sent : Step rules admitted { admitted with lanes := Function.update admitted.lanes 0 sent } :=
  .lane 0 sent (.send ⟨device, 0, 5000, false, limit, .sample 1, .reserved⟩ rfl rfl)

theorem step_installed : Step rules { admitted with lanes := Function.update admitted.lanes 0 sent } limited := by
  refine .lane 0 installed ?_
  exact LaneMove.serve (.sample 1) (.SetChargingProfile limit) ⟨.result, [], [], [], [], []⟩ _ _ ⟨rfl, rfl⟩
    (.transaction limit _ _ 7 rfl rfl rfl ⟨rfl, .inl rfl, .inl rfl⟩)

theorem reach_limited : Reach rules opening limited :=
  (((Relation.ReflTransGen.single step_turned).tail step_admitted).tail step_sent).tail step_installed

end OneCharger

open OneCharger

theorem power_admission_one_charger : Admission turned admitted ∧ (limited.lanes 0).limits = [5000] ∧
    ∀ cap ∈ limited.tables.caps, ∀ v ∈ (limited.lanes cap.connector_id).limits, v ≤ cap.reserved_w :=
  ⟨(power_admission initial (.single step_turned)).2 admitted step_admitted (by decide), rfl,
    fun cap hcap => ((power_admission initial reach_limited).1 cap hcap).2.2⟩

theorem within_budget_one_charger : totalReserved limited.tables.caps ≤ 7000 ∧
    (limited.tables.caps.map fun cap => (limited.lanes cap.connector_id).charger.limit_w.getD 0) = [5000] := by
  have hrun : ReachWithin rules 7000 opening limited :=
    (((Relation.ReflTransGen.single ⟨step_turned, le_rfl⟩).tail ⟨step_admitted, le_rfl⟩).tail ⟨step_sent, le_rfl⟩).tail
      ⟨step_installed, le_rfl⟩
  exact ⟨(within_budget initial ⟨by decide, le_rfl⟩ hrun).1, rfl⟩

/-! ## 9. The targets of a run -/

namespace ProtocolLemmas

open EngineLemmas PlanLemmas
open Csms.Charging (Environment Database)

/-- No target of the engine is negative. -/
theorem target_nonneg {budget : ℤ} (hbudget : 0 ≤ budget) {sessions : List (SessionDemand ℕ ℤ)}
    (hids : (ids sessions).Nodup) (hnominal : ∀ s ∈ sessions, 0 ≤ s.nominal_w)
    (hrunning : (phan_bo_cong_suat budget sessions).is_degraded = false) (id : ℕ) :
    0 ≤ ((phan_bo_cong_suat budget sessions).target id).getD 0 := by
  by_cases hnil : sessions = []
  · subst hnil
    exact le_rfl
  rcases hbudget.eq_or_lt with hzero | hpos
  · rw [phan_bo_cong_suat, if_neg hnil, if_pos hzero.symm.le] at hrunning
    cases hrunning
  obtain ⟨target, h⟩ := phan_bo_result hpos hids
  by_cases hid : id ∈ ids (survivors budget sessions)
  · obtain ⟨s, hs, rfl⟩ := List.mem_map.mp hid
    rw [h.sorted.target_eq hs, Option.getD_some]
    rcases lt_or_ge budget (survivors budget sessions).length with hlt | hge
    · rw [h.shares.few hlt s hs]
    · obtain ⟨level, hone, -, heq⟩ := h.shares.enough hge
      rw [heq s hs]
      exact le_min (hnominal s (mem_of_mem_survivors hs)) (zero_le_one.trans hone)
  · rw [h.sorted.target_other hid]
    exact le_rfl

theorem demands_rated {env : Environment} {floor : Floor} {s : Database} {station_id : ℕ}
    (rated : ∀ cap ∈ s.connector_power, 0 < cap.rated_w) (now : ℤ) :
    ∀ demand ∈ session_demands now (devices env floor s station_id), 0 ≤ demand.nominal_w := by
  intro demand hdemand
  obtain ⟨d, hd, hdemand⟩ := List.mem_filterMap.mp hdemand
  obtain ⟨tx, -, rfl⟩ := Option.map_eq_some_iff.mp hdemand
  obtain ⟨cap, hcap, hd⟩ := List.mem_filterMap.mp (List.mem_of_mem_filter hd)
  obtain ⟨connector, -, hd⟩ := Option.bind_eq_some_iff.mp hd
  obtain ⟨charger, -, hd⟩ := Option.bind_eq_some_iff.mp hd
  cases hd
  have hmem : cap ∈ s.connector_power :=
    List.mem_of_mem_filter ((List.perm_insertionSort _ _).subset hcap)
  exact (rated cap hmem).le

end ProtocolLemmas

open ProtocolLemmas PlanLemmas EngineLemmas in
/-- The limits that `_reconcile` sets are targets as the protocol takes them: none is negative, and a connector without
a transaction gets nothing. -/
theorem plan_targets {env : Charging.Environment} {floor : Floor} {s : Charging.Database} {station_id : ℕ} {limit : ℤ}
    {targets : Dict ℕ ℤ} (sessions : Table.Keyed (·.id) s.charging_sessions)
    (caps : Table.Keyed (·.connector_id) s.connector_power) (rated : ∀ cap ∈ s.connector_power, 0 < cap.rated_w)
    (planned : plan limit env.now (devices env floor s station_id) = .ok targets) {d : Device}
    (hd : d ∈ devices env floor s station_id) (online : d.online = true) :
    ∃ watts, targets.lookup d.connector_id = some watts ∧ 0 ≤ watts ∧ (d.transaction_id = none → watts = 0) := by
  rw [plan] at planned
  split at planned
  · cases planned
  next hpinned =>
    dsimp only at planned
    split at planned
    · cases planned
    next hrunning =>
      cases planned
      have hnodup : (((devices env floor s station_id).filter (·.online)).map (·.connector_id)).Nodup :=
        (connector_ids_nodup caps).sublist (List.filter_sublist.map _)
      refine ⟨_, Dict.lookup_ofList hnodup (List.mem_filter.mpr ⟨hd, online⟩), ?_, fun htx => ?_⟩
      · rw [targetOf]
        cases d.transaction_id with
        | none => exact le_rfl
        | some tx_id =>
          dsimp only
          split
          · exact le_rfl
          · exact target_nonneg (sub_nonneg.mpr (not_lt.mp hpinned)) (session_demands_nodup env.now sessions caps)
              (demands_rated rated env.now) (Bool.not_eq_true _ ▸ hrunning) tx_id
      · rw [targetOf, htx]

end Csms.Power
