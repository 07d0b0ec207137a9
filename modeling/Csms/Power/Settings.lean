import Csms.Power.Readback

/-!
# The settings of a station (`power/service.py`, `power/worker.py`)

The rows of a station and the transactions on them: the settings of its owner, the turns of the worker, and the
first and the last transaction of `set_limit`.

Result: `save_settings_frame`, `change_control_frame`, `note_power_start_frame`: only `set_limit` changes what is
reserved.
-/

namespace Csms.Power

open Csms.Charging (ConnectorPower StationPower PowerState)

/-! ## 1. Rows -/

/-- A row of `station_power`. -/
structure Config extends StationPower where
  version : ℕ
  zero_limit_verified : Bool
  offline_retention_verified : Bool
  verification_note : String
  last_plan_at : Option ℤ
  deriving DecidableEq, Repr

/-- The action of a command, with its payload. -/
inductive Payload where
  | GetConfiguration
  | SetChargingProfile (p : ChargingProfile)
  | GetCompositeSchedule (connectorId : ℕ)
  | ClearChargingProfile (id : ℕ)
  | RemoteStopTransaction (transactionId : ℕ)
  deriving DecidableEq, Repr

structure PowerCommand where
  id : Uuid
  connector_id : ℕ
  generation : ℕ
  payload : Payload
  status : CommandStatus
  completed_at : Option ℤ
  deriving DecidableEq, Repr

/-- The rows of a station. -/
structure Tables where
  config : Config
  caps : List ConnectorPower
  power_commands : List PowerCommand

/-- `select(func.sum(ConnectorPower.reserved_w))`. -/
def totalReserved (caps : List ConnectorPower) : ℤ := (caps.map (·.reserved_w)).sum

/-- The refusals of `save_settings` and `change_control`. -/
inductive PowerError where
  | power_version_conflict | power_plan_in_progress | power_connectors_must_match_station
  | cannot_remove_enabled_commissioning_evidence | power_not_configured | power_commissioning_required
  | power_control_requires_no_open_sessions | power_configuration_incomplete
  deriving DecidableEq, Repr

def PowerError.status : PowerError → ℕ
  | .power_connectors_must_match_station => 422
  | _ => 409

/-! ## 2. The owner -/

structure ConnectorSetting where
  connector_id : ℕ
  rated_kw : ℚ
  deriving DecidableEq, Repr

structure PowerSetting where
  version : ℕ
  limit_kw : ℚ
  connectors : List ConnectorSetting
  zero_limit_verified : Bool
  offline_retention_verified : Bool
  verification_note : String
  deriving DecidableEq, Repr

/-- One turn of the loop over the connectors. -/
def saveConnector (station_id : ℕ) (caps : List ConnectorPower) (value : ConnectorSetting) : List ConnectorPower :=
  if caps.any (·.connector_id = value.connector_id) then
    Table.modify (·.connector_id) value.connector_id (fun cap => { cap with rated_w := truncate (value.rated_kw * 1000) })
      caps
  else
    caps ++ [⟨value.connector_id, station_id, truncate (value.rated_kw * 1000), 0, 0, 0, none, none⟩]

/-- A new row of `station_power`. -/
def Config.new (station_id : ℕ) (limit : ℤ) : Config where
  station_id := station_id
  limit_w := limit
  applied_limit_w := limit
  generation := 0
  enabled := false
  target_enabled := false
  state := .disabled
  issue := none
  dirty_at := none
  version := 1
  zero_limit_verified := false
  offline_retention_verified := false
  verification_note := ""
  last_plan_at := none

/-- The row after the settings. -/
def Config.saved (now : ℤ) (body : PowerSetting) (c : Config) : Config :=
  let limit := truncate (body.limit_kw * 1000)
  { c with
    limit_w := limit
    applied_limit_w := if c.enabled then c.applied_limit_w else limit
    generation := c.generation + 1
    dirty_at := some now
    zero_limit_verified := body.zero_limit_verified
    offline_retention_verified := body.offline_retention_verified
    verification_note := Text.strip body.verification_note }

/-- `save_settings`, for the connectors that are registered at the station. -/
def save_settings (registered : List ℕ) (now : ℤ) (station_id : ℕ) (body : PowerSetting) (config : Option Config)
    (caps : List ConnectorPower) : Except PowerError (Config × List ConnectorPower) :=
  let ids := body.connectors.map (·.connector_id)
  if body.version ≠ (config.map (·.version)).getD 0 then .error .power_version_conflict
  else if config.any fun c => c.state = .applying ∨ c.state = .bootstrap ∨ c.state = .disable_pending then
    .error .power_plan_in_progress
  else if ¬ ids.Nodup ∨ ids.toFinset ≠ registered.toFinset then .error .power_connectors_must_match_station
  else if config.any fun c => c.enabled ∧ (body.zero_limit_verified = false ∨ body.offline_retention_verified = false ∨
      Text.strip body.verification_note = "") then
    .error .cannot_remove_enabled_commissioning_evidence
  else
    let config' := match config with
      | none => Config.new station_id (truncate (body.limit_kw * 1000))
      | some c => { c with version := c.version + 1 }
    .ok (config'.saved now body, body.connectors.foldl (saveConnector station_id) caps)

/-- `change_control`, where `active` says that a session is open at the station. -/
def change_control (registered : List ℕ) (now : ℤ) (version : ℕ) (enable active : Bool) (config : Option Config)
    (caps : List ConnectorPower) : Except PowerError (Option Config × List ConnectorPower) :=
  match config with
  | none => .error .power_not_configured
  | some c =>
    if c.version ≠ version then .error .power_version_conflict
    else if c.enabled = enable ∧ ¬ (c.state = .degraded ∨ c.state = .disable_pending) then .ok (config, caps)
    else if c.state = .applying ∨ c.state = .bootstrap then .error .power_plan_in_progress
    else if enable ∧ ¬ (c.zero_limit_verified ∧ c.offline_retention_verified ∧ c.verification_note ≠ "") then
      .error .power_commissioning_required
    else if active then .error .power_control_requires_no_open_sessions
    else if registered.toFinset ≠ (caps.map (·.connector_id)).toFinset ∨ registered = [] then
      .error .power_configuration_incomplete
    else
      .ok (some { c with
        version := c.version + 1
        generation := c.generation + 1
        enabled := true
        target_enabled := enable
        state := if enable then .bootstrap else .disable_pending
        issue := none
        dirty_at := some now },
        if enable then caps.map fun cap => { cap with baseline_boot_at := none } else caps)

/-- `note_power_event`. -/
def note_power_event (now : ℤ) (c : Config) : Config :=
  if c.enabled then { c with generation := c.generation + 1, dirty_at := some (c.dirty_at.getD now) } else c

/-- `note_power_start`. -/
def note_power_start (connector_id : ℕ) (t : Tables) : Tables :=
  if t.config.enabled then
    { t with caps := Table.modify (·.connector_id) connector_id (fun cap => { cap with confirmed_w := 0 }) t.caps }
  else t

/-! ## 3. The worker -/

/-- The first transaction of `_reconcile`; `none` where it returns. -/
def planTurn (scheduled_limit : Option ℤ) (now : ℤ) (c : Config) : Option Config :=
  let target_limit := scheduled_limit.getD c.limit_w
  let boundary_changed := c.limit_w ≠ target_limit ∨
    (scheduled_limit.isSome ∧ c.applied_limit_w ≠ target_limit ∧ c.state = .ready)
  if c.enabled = false then none
  else if boundary_changed then
    some { c with
      limit_w := target_limit, generation := c.generation + 1, dirty_at := none, last_plan_at := some now }
  else if (c.last_plan_at.any fun at_ => now - at_ < 5000000) || (c.dirty_at.any fun at_ => now - at_ < 2000000) then none
  else some { c with last_plan_at := some now }

/-- `degrade`, without its command. -/
def degrade (issue : String) (c : Config) : Config := { c with state := .degraded, issue := some issue }

/-- The profiles are about to change. -/
def applying (c : Config) : Config := { c with state := .applying }

/-- The last transaction of `_reconcile`, of a run with this generation and limit. -/
def applied (generation : ℕ) (limit : ℤ) (offline : Bool) (c : Config) : Config :=
  if c.generation = generation then
    let issue := if offline then some "offline_budget_retained" else none
    { c with
      applied_limit_w := limit, dirty_at := none, issue := issue
      state := if issue.isSome then .degraded else .ready }
  else c

/-- The last transaction of a run that disables the station. -/
def disabled (generation : ℕ) (c : Config) : Config :=
  if c.generation = generation ∧ c.target_enabled = false then
    { c with enabled := false, state := .disabled, issue := none }
  else c

/-- The first transaction of `command`: the intent is written, unless there is one. -/
def intend (id : Uuid) (connector_id generation : ℕ) (payload : Payload) (commands : List PowerCommand) :
    List PowerCommand :=
  if commands.any (·.id = id) then commands else commands ++ [⟨id, connector_id, generation, payload, .Pending, none⟩]

/-- The last transaction of `command`. -/
def complete (id : Uuid) (outcome : CommandStatus) (now : ℤ) (commands : List PowerCommand) : List PowerCommand :=
  Table.modify PowerCommand.id id (fun c => { c with status := outcome, completed_at := some now }) commands

/-- The intent that a new request of the payload goes on with. -/
def priorRequest (cap : ConnectorPower) (payload : Payload) (commands : List PowerCommand) : Option Uuid :=
  cap.pending_command_id.bind fun id => (commands.find? fun c => c.id = id ∧ c.payload = payload).map (·.id)

/-- The reservation comes before the message, so that no lost answer lends these watts twice. -/
def reserveRow (request_id : Uuid) (watts : ℤ) (cap : ConnectorPower) : ConnectorPower :=
  { cap with reserved_w := max cap.reserved_w watts, pending_command_id := some request_id, desired_w := watts }

/-- The row after a verified limit. -/
def confirmRow (device : Device) (watts : ℤ) (baseline : Bool) (cap : ConnectorPower) : ConnectorPower :=
  { cap with
    confirmed_w := watts, reserved_w := watts, pending_command_id := none
    baseline_boot_at := if baseline then device.boot_at else cap.baseline_boot_at }

/-- The first transaction of `set_limit`: the request and the rows, or `none` where the limit is not admitted. -/
def reserve (device : Device) (generation : ℕ) (watts : ℤ) (payload : ChargingProfile) (new_id : Uuid) (t : Tables) :
    Option (Uuid × Tables) := do
  let cap ← t.caps.find? (·.connector_id = device.connector_id)
  if cap.reserved_w < watts ∧ (t.config.generation ≠ generation ∨
      t.config.limit_w < totalReserved t.caps - cap.reserved_w + watts) then none
  else
    let request_id := (priorRequest cap (.SetChargingProfile payload) t.power_commands).getD new_id
    some (request_id, { t with
      power_commands := intend request_id device.connector_id generation (.SetChargingProfile payload) t.power_commands
      caps := Table.modify (·.connector_id) device.connector_id (reserveRow request_id watts) t.caps })

/-- The last transaction of `set_limit`: the rows, or `none` where another transaction has started. -/
def confirm (device : Device) (watts : ℤ) (baseline : Bool) (current_transaction : Option ℕ) (t : Tables) :
    Option Tables :=
  if baseline = false ∧ current_transaction ≠ device.transaction_id then none
  else
    some { t with caps := Table.modify (·.connector_id) device.connector_id (confirmRow device watts baseline) t.caps }

/-! ## 4. Reservations -/

/-- The reservation of a connector, or zero. -/
def reservedOf (caps : List ConnectorPower) (connector_id : ℕ) : ℤ :=
  ((caps.find? (·.connector_id = connector_id)).map (·.reserved_w)).getD 0

/-- The reservations are as they were. What was confirmed is as it was, or zero; new rows are zero. -/
structure SameReservations (caps caps' : List ConnectorPower) : Prop where
  keyed : Table.Keyed (·.connector_id) caps → Table.Keyed (·.connector_id) caps'
  reserved : ∀ k, reservedOf caps' k = reservedOf caps k
  total : totalReserved caps' = totalReserved caps
  rows : ∀ cap ∈ caps', (∃ old ∈ caps, cap.reserved_w = old.reserved_w ∧
    (cap.confirmed_w = old.confirmed_w ∨ cap.confirmed_w = 0)) ∨ (cap.confirmed_w = 0 ∧ cap.reserved_w = 0)

variable {caps caps' caps'' : List ConnectorPower} {k : ℕ}

theorem SameReservations.refl (caps : List ConnectorPower) : SameReservations caps caps :=
  ⟨id, fun _ => rfl, rfl, fun cap hcap => .inl ⟨cap, hcap, rfl, .inl rfl⟩⟩

theorem SameReservations.trans (h : SameReservations caps caps') (h' : SameReservations caps' caps'') :
    SameReservations caps caps'' := by
  refine ⟨fun hk => h'.keyed (h.keyed hk), fun k => (h'.reserved k).trans (h.reserved k), h'.total.trans h.total,
    fun cap hcap => ?_⟩
  rcases h'.rows cap hcap with ⟨mid, hmid, hreserved, hconfirmed⟩ | hzero
  · rcases h.rows mid hmid with ⟨old, hold, hreserved', hconfirmed'⟩ | ⟨hmid0, hmid1⟩
    · refine .inl ⟨old, hold, hreserved.trans hreserved', ?_⟩
      rcases hconfirmed with heq | hz
      · exact heq ▸ hconfirmed'
      · exact .inr hz
    · exact .inr ⟨hconfirmed.elim (fun heq => heq.trans hmid0) id, hreserved.trans hmid1⟩
  · exact .inr hzero

namespace SettingsLemmas

/-- Rows that change neither the connector nor what it reserves. -/
theorem reservedOf_map {f : ConnectorPower → ConnectorPower} (hid : ∀ cap, (f cap).connector_id = cap.connector_id)
    (hreserved : ∀ cap, (f cap).reserved_w = cap.reserved_w) : reservedOf (caps.map f) k = reservedOf caps k := by
  unfold reservedOf
  rw [List.find?_map]
  have hsame : (fun cap : ConnectorPower => decide (cap.connector_id = k)) ∘ f = fun cap => decide (cap.connector_id = k) := by
    funext cap
    rw [Function.comp_apply, hid]
  rw [hsame, Option.map_map]
  exact congrArg (Option.getD · 0) (congrArg (Option.map · _) (funext hreserved))

theorem totalReserved_map {f : ConnectorPower → ConnectorPower} (hreserved : ∀ cap, (f cap).reserved_w = cap.reserved_w) :
    totalReserved (caps.map f) = totalReserved caps := by
  unfold totalReserved
  rw [List.map_map]
  exact congrArg List.sum (congrArg (List.map · caps) (funext hreserved))

/-- The reservation of another connector. -/
theorem reservedOf_modify_ne {f : ConnectorPower → ConnectorPower} {j : ℕ}
    (hid : ∀ cap, (f cap).connector_id = cap.connector_id) (hjk : j ≠ k) :
    reservedOf (Table.modify (·.connector_id) k f caps) j = reservedOf caps j := by
  unfold reservedOf Table.modify
  rw [List.find?_map]
  set g : ConnectorPower → ConnectorPower := fun cap => if cap.connector_id = k then f cap else cap with hg
  have hgid : ∀ cap, (g cap).connector_id = cap.connector_id := by
    intro cap
    rw [hg]
    dsimp only
    split
    · exact hid cap
    · rfl
  have hsame : (fun cap : ConnectorPower => decide (cap.connector_id = j)) ∘ g = fun cap => decide (cap.connector_id = j) := by
    funext cap
    rw [Function.comp_apply, hgid]
  rw [hsame]
  cases hfind : caps.find? (fun cap => decide (cap.connector_id = j)) with
  | none => rfl
  | some cap =>
    have hcap : cap.connector_id = j := by simpa using List.find?_some hfind
    have hgcap : g cap = cap := if_neg fun h => hjk (hcap.symm.trans h)
    rw [Option.map_some, hgcap]

theorem reservedOf_mem (h : Table.Keyed (·.connector_id) caps) {cap : ConnectorPower} (hcap : cap ∈ caps) :
    reservedOf caps cap.connector_id = cap.reserved_w := by
  unfold reservedOf
  cases hfind : caps.find? (fun x => decide (x.connector_id = cap.connector_id)) with
  | none =>
    have hno := List.find?_eq_none.mp hfind cap hcap
    exact absurd (decide_eq_true rfl) hno
  | some x =>
    have hx : x.connector_id = cap.connector_id := by simpa using List.find?_some hfind
    rw [h.eq (List.mem_of_find?_eq_some hfind) hcap hx]
    rfl

theorem reservedOf_of_notMem (h : ∀ cap ∈ caps, cap.connector_id ≠ k) : reservedOf caps k = 0 := by
  unfold reservedOf
  rw [List.find?_eq_none.mpr fun cap hcap => by simpa using h cap hcap]
  rfl

/-- The sum after one row is written. -/
theorem totalReserved_modify (h : Table.Keyed (·.connector_id) caps) {cap : ConnectorPower} (hcap : cap ∈ caps)
    (f : ConnectorPower → ConnectorPower) :
    totalReserved (Table.modify (·.connector_id) cap.connector_id f caps) =
      totalReserved caps - cap.reserved_w + (f cap).reserved_w := by
  unfold totalReserved Table.modify
  induction caps with
  | nil => cases hcap
  | cons x caps ih =>
    obtain ⟨hx, htail⟩ := List.pairwise_cons.mp h
    rw [List.map_cons, List.map_cons, List.map_cons, List.sum_cons, List.sum_cons]
    rcases List.mem_cons.mp hcap with rfl | hcap
    · have hrest : Table.modify (·.connector_id) cap.connector_id f caps = caps :=
        Table.modify_of_notMem fun a ha => (hx a ha).symm
      unfold Table.modify at hrest
      rw [if_pos rfl, hrest]
      ring
    · rw [if_neg (hx cap hcap), ih htail hcap]
      ring

/-! ## 5. Transactions that reserve nothing -/

/-- Rows are written that keep the connector and what it reserves, and may lose what is confirmed. -/
theorem sameReservations_map {f : ConnectorPower → ConnectorPower}
    (hid : ∀ cap, (f cap).connector_id = cap.connector_id) (hreserved : ∀ cap, (f cap).reserved_w = cap.reserved_w)
    (hconfirmed : ∀ cap, (f cap).confirmed_w = cap.confirmed_w ∨ (f cap).confirmed_w = 0) :
    SameReservations caps (caps.map f) := by
  refine ⟨fun hk => ?_, fun k => reservedOf_map hid hreserved, totalReserved_map hreserved, fun cap hcap => ?_⟩
  · refine List.pairwise_map.mpr (hk.imp fun {a b} hab => ?_)
    dsimp only at hab ⊢
    rw [hid, hid]
    exact hab
  · obtain ⟨old, hold, rfl⟩ := List.mem_map.mp hcap
    exact .inl ⟨old, hold, hreserved old, hconfirmed old⟩

theorem sameReservations_modify {f : ConnectorPower → ConnectorPower}
    (hid : ∀ cap, (f cap).connector_id = cap.connector_id) (hreserved : ∀ cap, (f cap).reserved_w = cap.reserved_w)
    (hconfirmed : ∀ cap, (f cap).confirmed_w = cap.confirmed_w ∨ (f cap).confirmed_w = 0) :
    SameReservations caps (Table.modify (·.connector_id) k f caps) := by
  refine sameReservations_map (fun cap => ?_) (fun cap => ?_) fun cap => ?_ <;> split
  · exact hid cap
  · rfl
  · exact hreserved cap
  · rfl
  · exact hconfirmed cap
  · exact .inl rfl

theorem sameReservations_saveConnector (station_id : ℕ) (value : ConnectorSetting) :
    SameReservations caps (saveConnector station_id caps value) := by
  unfold saveConnector
  split
  · exact sameReservations_modify (fun _ => rfl) (fun _ => rfl) fun _ => .inl rfl
  next hnew =>
    have hfresh : ∀ cap ∈ caps, cap.connector_id ≠ value.connector_id := by simpa using hnew
    refine ⟨fun hk => hk.append hfresh, fun k => ?_, ?_, fun cap hcap => ?_⟩
    · unfold reservedOf
      rw [List.find?_append]
      cases caps.find? (fun cap => decide (cap.connector_id = k)) with
      | some cap => rfl
      | none =>
        rw [Option.none_or, List.find?_singleton]
        split <;> rfl
    · unfold totalReserved
      rw [List.map_append, List.sum_append, List.map_singleton, List.sum_singleton]
      exact add_zero _
    · rcases List.mem_append.mp hcap with hcap | hcap
      · exact .inl ⟨cap, hcap, rfl, .inl rfl⟩
      · rw [List.mem_singleton.mp hcap]
        exact .inr ⟨rfl, rfl⟩

end SettingsLemmas

open SettingsLemmas

theorem save_settings_frame {registered : List ℕ} {now : ℤ} {station_id : ℕ} {body : PowerSetting}
    {config : Option Config} {caps : List ConnectorPower} {r : Config × List ConnectorPower}
    (h : save_settings registered now station_id body config caps = .ok r) : SameReservations caps r.2 := by
  unfold save_settings at h
  dsimp only at h
  split at h
  · cases h
  split at h
  · cases h
  split at h
  · cases h
  split at h
  · cases h
  cases h
  generalize body.connectors = values
  change SameReservations caps (values.foldl (saveConnector station_id) caps)
  induction values generalizing caps with
  | nil => exact .refl caps
  | cons value values ih => exact (sameReservations_saveConnector station_id value).trans ih

theorem change_control_frame {registered : List ℕ} {now : ℤ} {version : ℕ} {enable active : Bool}
    {config : Option Config} {caps : List ConnectorPower} {r : Option Config × List ConnectorPower}
    (h : change_control registered now version enable active config caps = .ok r) :
    SameReservations caps r.2 ∧ ∀ c ∈ config, ∃ c' ∈ r.1, c'.limit_w = c.limit_w := by
  cases config with
  | none => cases h
  | some c =>
    unfold change_control at h
    dsimp only at h
    split at h
    · cases h
    split at h
    · cases h
      exact ⟨.refl caps, fun c' hc => ⟨c', hc, rfl⟩⟩
    split at h
    · cases h
    split at h
    · cases h
    split at h
    · cases h
    split at h
    · cases h
    cases h
    refine ⟨?_, fun c' hc => ⟨_, rfl, ?_⟩⟩
    · change SameReservations caps (if enable = true then _ else caps)
      split
      · exact sameReservations_map (fun _ => rfl) (fun _ => rfl) fun _ => .inl rfl
      · exact .refl caps
    · cases hc
      rfl

theorem note_power_start_frame (connector_id : ℕ) (t : Tables) :
    SameReservations t.caps (note_power_start connector_id t).caps := by
  unfold note_power_start
  split
  · exact sameReservations_modify (fun _ => rfl) (fun _ => rfl) fun _ => .inr rfl
  · exact .refl _

/-- Every intent is still there, with its payload. -/
def Extends (commands commands' : List PowerCommand) : Prop :=
  ∀ c ∈ commands, ∃ c' ∈ commands', c'.id = c.id ∧ c'.payload = c.payload

theorem Extends.refl (commands : List PowerCommand) : Extends commands commands := fun c hc => ⟨c, hc, rfl, rfl⟩

theorem intend_extends (id : Uuid) (connector_id generation : ℕ) (payload : Payload) (commands : List PowerCommand) :
    Extends commands (intend id connector_id generation payload commands) := by
  intro c hc
  unfold intend
  split
  · exact ⟨c, hc, rfl, rfl⟩
  · exact ⟨c, List.mem_append_left _ hc, rfl, rfl⟩

theorem intend_recorded (id : Uuid) (connector_id generation : ℕ) (payload : Payload) (commands : List PowerCommand) :
    ∃ c ∈ intend id connector_id generation payload commands, c.id = id := by
  unfold intend
  split
  next hold => simpa using hold
  next => exact ⟨_, List.mem_append_right _ (List.mem_singleton_self _), rfl⟩

/-- An intent under a new id has its payload. -/
theorem intend_fresh {id : Uuid} {commands : List PowerCommand} (hfresh : ∀ c ∈ commands, c.id ≠ id)
    (connector_id generation : ℕ) (payload : Payload) :
    ∃ c ∈ intend id connector_id generation payload commands, c.id = id ∧ c.payload = payload := by
  unfold intend
  rw [if_neg (by simpa using hfresh)]
  exact ⟨_, List.mem_append_right _ (List.mem_singleton_self _), rfl, rfl⟩

theorem complete_extends (id : Uuid) (outcome : CommandStatus) (now : ℤ) (commands : List PowerCommand) :
    Extends commands (complete id outcome now commands) := by
  intro c hc
  refine ⟨_, List.mem_map_of_mem hc, ?_⟩
  split <;> exact ⟨rfl, rfl⟩

/-! ## 6. The transactions of `set_limit` -/

/-- The row of a connector is written, with what it reserves and confirms. -/
structure Reserves (k : ℕ) (reserved_w : ℤ) (confirmed_w : ConnectorPower → ℤ) (caps caps' : List ConnectorPower) :
    Prop where
  keyed : Table.Keyed (·.connector_id) caps'
  rows : ∀ cap ∈ caps', cap ∈ caps ∨ ∃ old ∈ caps, old.connector_id = k ∧ cap.reserved_w = reserved_w ∧
    cap.confirmed_w = confirmed_w old
  own : reservedOf caps' k = reserved_w
  others : ∀ j, j ≠ k → reservedOf caps' j = reservedOf caps j
  total : totalReserved caps' = totalReserved caps - reservedOf caps k + reserved_w

theorem reserves_modify {caps : List ConnectorPower} (h : Table.Keyed (·.connector_id) caps) {cap : ConnectorPower}
    (hcap : cap ∈ caps) {f : ConnectorPower → ConnectorPower} (hid : ∀ cap, (f cap).connector_id = cap.connector_id) :
    Reserves cap.connector_id (f cap).reserved_w (fun old => (f old).confirmed_w) caps
      (Table.modify (·.connector_id) cap.connector_id f caps) := by
  have hkeyed : Table.Keyed (·.connector_id) (Table.modify (·.connector_id) cap.connector_id f caps) :=
    h.modify fun x hx => (hid x).trans hx
  have hmem : f cap ∈ Table.modify (·.connector_id) cap.connector_id f caps :=
    (Table.mem_modify_of_mem h hcap rfl).mpr (.inl rfl)
  refine ⟨hkeyed, fun x hx => ?_, hid cap ▸ reservedOf_mem hkeyed hmem, fun j hj => reservedOf_modify_ne hid hj, ?_⟩
  · rcases (Table.mem_modify_of_mem h hcap rfl).mp hx with rfl | ⟨hx, -⟩
    · exact .inr ⟨cap, hcap, rfl, rfl, rfl⟩
    · exact .inl hx
  · rw [reservedOf_mem h hcap]
    exact totalReserved_modify h hcap f

/-- What an admission writes. More watts are only reserved in the current generation and within the limit. -/
theorem reserve_spec {device : Device} {generation : ℕ} {watts : ℤ} {payload : ChargingProfile} {new_id request_id : Uuid}
    {t t' : Tables} (hk : Table.Keyed (·.connector_id) t.caps)
    (h : reserve device generation watts payload new_id t = some (request_id, t')) :
    t'.config = t.config ∧
    t'.power_commands = intend request_id device.connector_id generation (.SetChargingProfile payload) t.power_commands ∧
    Reserves device.connector_id (max (reservedOf t.caps device.connector_id) watts) (·.confirmed_w) t.caps t'.caps ∧
    (totalReserved t.caps < totalReserved t'.caps →
      t.config.generation = generation ∧ totalReserved t'.caps ≤ t.config.limit_w) := by
  obtain ⟨cap, hfind, h⟩ := Option.bind_eq_some_iff.mp h
  have hcap := List.mem_of_find?_eq_some hfind
  have hid : cap.connector_id = device.connector_id := by simpa using List.find?_some hfind
  split at h
  · cases h
  next hadmitted =>
    obtain ⟨hrequest, rfl⟩ := Prod.mk.inj (Option.some.inj h)
    rw [hrequest, ← hid, reservedOf_mem hk hcap]
    have hreserves := reserves_modify hk hcap (f := reserveRow request_id watts) fun _ => rfl
    refine ⟨rfl, rfl, hreserves, fun hlt => ?_⟩
    have htotal : totalReserved (Table.modify (·.connector_id) cap.connector_id (reserveRow request_id watts) t.caps) =
        totalReserved t.caps - cap.reserved_w + max cap.reserved_w watts := totalReserved_modify hk hcap _
    change totalReserved t.caps < totalReserved (Table.modify (·.connector_id) cap.connector_id _ t.caps) at hlt
    change _ ∧ totalReserved (Table.modify (·.connector_id) cap.connector_id _ t.caps) ≤ _
    rw [htotal] at hlt ⊢
    have hmore : cap.reserved_w < watts := by omega
    rw [max_eq_right hmore.le]
    have hboth := not_or.mp fun h => hadmitted ⟨hmore, h⟩
    exact ⟨not_not.mp hboth.1, not_lt.mp hboth.2⟩

/-- What a confirmation writes, at a connector that has a row. -/
theorem confirm_spec {device : Device} {watts : ℤ} {baseline : Bool} {current_transaction : Option ℕ} {t t' : Tables}
    (hk : Table.Keyed (·.connector_id) t.caps) (h : confirm device watts baseline current_transaction t = some t') :
    t'.config = t.config ∧ t'.power_commands = t.power_commands ∧
      (t'.caps = t.caps ∧ reservedOf t.caps device.connector_id = 0 ∨
        Reserves device.connector_id watts (fun _ => watts) t.caps t'.caps) := by
  unfold confirm at h
  split at h
  · cases h
  cases h
  refine ⟨rfl, rfl, ?_⟩
  by_cases hrow : ∃ cap ∈ t.caps, cap.connector_id = device.connector_id
  · obtain ⟨cap, hcap, hid⟩ := hrow
    rw [← hid]
    exact .inr (reserves_modify hk hcap (f := confirmRow device watts baseline) fun _ => rfl)
  · have hnone : ∀ cap ∈ t.caps, cap.connector_id ≠ device.connector_id := fun cap hcap hid => hrow ⟨cap, hcap, hid⟩
    exact .inl ⟨Table.modify_of_notMem hnone, reservedOf_of_notMem hnone⟩

end Csms.Power
