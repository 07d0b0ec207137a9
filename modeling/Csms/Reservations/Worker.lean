import Csms.Reservations.Service

/-!
# Commands to the charger (`reservations/worker.py`)

`claim` marks a queued command as sending under a lease and hands out a `Delivery`; `deliver`
records the outcome of the wire call if the lease is still its own; `reconcile` clears leases that
ran out, requests the release of expired holds and frees a connector on evidence of the charger.
-/

namespace Csms.Reservations

open Tx Csms.Wallets

structure Delivery where
  command_id : Uuid
  reservation_id : Uuid
  token : Uuid
  action : CommandAction
  deriving DecidableEq, Repr

/-! ## 1. `claim` -/

/-- A command marked as sending under a lease. -/
def ReservationCommand.lease (command : ReservationCommand) (token : Uuid) (now timeout : ℤ) :
    ReservationCommand :=
  { command with
    status := .sending, attempts := command.attempts + 1, lease_token := some token
    locked_until := some (now + (60 + 2 * timeout) * SECOND) }

/-- ReserveNow is refused before it is sent. -/
def rejectUnsent (row : Reservation) (outcome : Outcome) : Reservation :=
  { row with
    reserve := { row.reserve with status := .done, outcome := some outcome }
    status := .rejected, outcome := some outcome }

/-- The capability that `claim` requires for ReserveNow is gone. -/
def capabilityLost (env : Environment) (point : ChargePoint) : Bool :=
  match env.capability point with
  | none => true
  | some cap => !cap.supported || cap.checked_at.isNone || cap.boot_at != point.last_boot_at

/-- `claim` of the ReserveNow command of a row. -/
def claimReserve (env : Environment) (timeout : ℤ) (token : Uuid) (target : Target) (row : Reservation) :
    Reservation × Option Delivery :=
  if row.reserve.status ≠ .queued ∨ env.now < row.reserve.next_attempt_at then (row, none)
  else if row.status.holds = false then
    ({ row with reserve := { row.reserve with status := .suppressed } }, none)
  else if env.connected target.point = false ∨ live target.point env.now = false then (row, none)
  else if target.station.active = false ∨ row.expires_at ≤ env.now ∨ row.cancel_requested_at ≠ none then
    (request_release row env.now env.new_id
      (if target.station.active then .expired else .station_unavailable), none)
  else if capabilityLost env target.point then
    ({ rejectUnsent row .capability_changed with
        updated_at := env.now, events := row.events ++ [(.rejected, env.now)] }, none)
  else if env.virtual_tags.find? (·.1 = row.driver_id) ≠ some (row.driver_id, row.card_id) then
    (rejectUnsent row .identity_changed, none)
  else
    ({ row with reserve := row.reserve.lease token env.now timeout },
      some ⟨row.reserve.id, row.id, token, .ReserveNow⟩)

/-- `claim` of the CancelReservation command of a row. -/
def claimCancel (env : Environment) (timeout : ℤ) (token : Uuid) (target : Target) (row : Reservation)
    (command : ReservationCommand) : Reservation × Option Delivery :=
  if command.status ≠ .queued ∨ env.now < command.next_attempt_at then (row, none)
  else if row.status.holds = false then
    ({ row with cancel := some { command with status := .suppressed } }, none)
  else if env.connected target.point = false ∨ live target.point env.now = false then (row, none)
  else if row.reserve.status = .sending then (row, none)
  else
    ({ row with cancel := some (command.lease token env.now timeout) },
      some ⟨command.id, row.id, token, .CancelReservation⟩)

/-- `claim` of one of the two commands. -/
def claimRow (env : Environment) (timeout : ℤ) (token command_id : Uuid) (target : Target)
    (row : Reservation) : Reservation × Option Delivery :=
  if row.reserve.id = command_id then claimReserve env timeout token target row
  else
    match row.cancel with
    | some command => claimCancel env timeout token target row command
    | none => (row, none)

/-- `claim`; `timeout` is `settings.reservation_command_timeout_seconds`. -/
def claim (env : Environment) (timeout : ℤ) (token command_id : Uuid) :
    ReservationTx (Option Delivery) := do
  let s ← read
  match s.reservations.find? (·.hasCommand command_id) with
  | none => return none
  | some row =>
    let target ← lock_target env row.connector_id
    save (claimRow env timeout token command_id target row).1
    return (claimRow env timeout token command_id target row).2

/-! ## 2. `deliver` -/

/-- A command whose lease is given back with an outcome. -/
def ReservationCommand.finish (command : ReservationCommand) (status : CommandStatus)
    (outcome : WireOutcome) : ReservationCommand :=
  { command with status, outcome := some (.wire outcome), locked_until := none, lease_token := none }

/-- The outcome of ReserveNow. -/
def deliverReserve (now : ℤ) (outcome : WireOutcome) (row : Reservation) : Reservation :=
  let definitive := outcome = .Accepted ∨ outcome.refuses
  let row := { row with reserve := row.reserve.finish (if definitive then .done else .uncertain) outcome }
  if row.status.holds = false then row
  else
    let status := if outcome.refuses then .rejected
      else if row.cancel_requested_at = none then
        if outcome = .Accepted then .active else .uncertain
      else row.status
    let activated_at := if outcome = .Accepted ∧ row.activated_at = none then some now else row.activated_at
    Reservation.event { row with
      status, activated_at, outcome := some (.wire outcome), updated_at := now } .reserve_outcome now

/-- The pause before the next CancelReservation. -/
def backoff (attempts : ℕ) : ℤ := min 300 (15 * 2 ^ min (attempts - 1) 4)

/-- The outcome of CancelReservation. -/
def deliverCancel (now : ℤ) (outcome : WireOutcome) (row : Reservation) (command : ReservationCommand) :
    Reservation :=
  if outcome = .Accepted then
    let row := { row with cancel := some (command.finish .done outcome) }
    if row.status.holds then
      Reservation.event { row with
        status := if row.cancel_reason = some .expired then .expired else .cancelled
        outcome := some (.wire outcome), updated_at := now } .release_confirmed now
    else row
  else
    let row := { row with
      cancel := some { command.finish .queued outcome with
        next_attempt_at := now + backoff command.attempts * SECOND } }
    if row.status.holds then { row with outcome := some (.wire outcome), updated_at := now } else row

/-- The outcome of a delivery whose lease is still its own. -/
def deliverRow (now : ℤ) (d : Delivery) (outcome : WireOutcome) (row : Reservation) : Reservation :=
  match d.action with
  | .ReserveNow => if row.reserve.lease_token = some d.token then deliverReserve now outcome row else row
  | .CancelReservation =>
    match row.cancel with
    | some command =>
      if command.lease_token = some d.token then deliverCancel now outcome row command else row
    | none => row

/-- The database part of `deliver`. -/
def deliver (env : Environment) (d : Delivery) (outcome : WireOutcome) : ReservationTx Unit := do
  let s ← read
  match s.find d.reservation_id with
  | none => return ()
  | some row =>
    let _ ← lock_target env row.connector_id
    save (deliverRow env.now d outcome row)

/-! ## 3. `reconcile` -/

/-- A reboot of the charger makes an active hold uncertain. -/
def observeReboot (env : Environment) (target : Target) (row : Reservation) : Reservation :=
  if (target.point.last_boot_at.any fun boot => row.created_at < boot) ∧ row.status = .active then
    Reservation.event { row with
      status := .uncertain, outcome := some .charger_reboot, updated_at := env.now } .uncertain env.now
  else row

/-- A lease that ran out. -/
def ReservationCommand.leaseExpired (command : ReservationCommand) (now : ℤ) : Bool :=
  command.status == .sending && command.locked_until.any (· ≤ now)

/-- The command after its lease ran out. -/
def ReservationCommand.expire (command : ReservationCommand) (status : CommandStatus) (now : ℤ) :
    ReservationCommand :=
  { command with
    status, lease_token := none, locked_until := none, outcome := some .lease_expired
    next_attempt_at := now }

/-- The leases that ran out. ReserveNow is never sent again; CancelReservation is. -/
def expireLeases (now : ℤ) (row : Reservation) : Reservation :=
  let row :=
    if row.reserve.leaseExpired now then
      let row := { row with reserve := row.reserve.expire .uncertain now }
      if row.status = .pending then
        Reservation.event { row with
          status := .uncertain, outcome := some .lease_expired, updated_at := now } .uncertain now
      else row
    else row
  { row with cancel := row.cancel.map fun c => if c.leaseExpired now then c.expire .queued now else c }

/-- The release of a hold that expired or whose station is out of service. -/
def releaseDue (env : Environment) (target : Target) (row : Reservation) : Reservation :=
  if target.station.active = false then request_release row env.now env.new_id .station_unavailable
  else if row.expires_at ≤ env.now then request_release row env.now env.new_id .expired
  else row

/-- Thirty seconds after expiry, a fresh Available of a live charger with no occupying session. -/
def expiryEvidence (env : Environment) (target : Target) (row : Reservation) : Bool :=
  row.expires_at + 30 * SECOND ≤ env.now && live target.point env.now &&
    target.connector.status == .Available && target.connector.raw_ocpp_status == .Available &&
    (target.connector.last_status_notification_at.any fun seen =>
      row.expires_at ≤ seen && seen ≤ env.now + 30 * SECOND) &&
    row.expires_at ≤ target.connector.status_updated_at &&
    !env.occupied target.connector.id

/-- A queued command that is no longer needed. -/
def ReservationCommand.suppress (command : ReservationCommand) : ReservationCommand :=
  if command.status = .queued then { command with status := .suppressed } else command

/-- The hold freed by the charger's own report. `loaded` tells whether the CancelReservation
command was there when the commands were loaded; one that the release just added is not touched. -/
def freeOnEvidence (env : Environment) (target : Target) (loaded : Bool) (row : Reservation) :
    Reservation :=
  if expiryEvidence env target row then
    Reservation.event { row with
      status := if row.no_show_exempt then .cancelled else .expired
      outcome := some .expiry_observed, updated_at := env.now
      reserve := row.reserve.suppress
      cancel := if loaded then row.cancel.map (·.suppress) else row.cancel } .expiry_observed env.now
  else row

/-- `reconcile` on a row. -/
def reconcileRow (env : Environment) (target : Target) (row : Reservation) : Reservation :=
  if row.status.holds = false then row
  else
    let observed := expireLeases env.now (observeReboot env target (observe_expiry env target row))
    freeOnEvidence env target observed.cancel.isSome (releaseDue env target observed)

/-- `reconcile`. -/
def reconcile (env : Environment) (reservation_id : Uuid) : ReservationTx Unit := do
  let s ← read
  match s.find reservation_id with
  | none => return ()
  | some row =>
    let target ← lock_target env row.connector_id
    save (reconcileRow env target row)

end Csms.Reservations
