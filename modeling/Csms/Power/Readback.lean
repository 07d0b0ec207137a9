import Csms.Ocpp.Frames
import Csms.Power.Plan

/-!
# Profiles and their readback (`power/worker.py`)

`profile` is the limit that the worker sends to a charger, and `verify_limit` its check of the composite schedule
that the charger answers with.

Result: `verify_limit_bounds`: a schedule that is accepted keeps the limit at every instant.
-/

namespace Csms.Power

open Ocpp (Frame)

/-! ## 1. Profiles -/

inductive Purpose where
  | TxDefaultProfile | TxProfile
  deriving DecidableEq, Repr

/-- An absolute profile in watts with one period. -/
structure ChargingProfile where
  connectorId : ℕ
  chargingProfileId : ℕ
  stackLevel : ℕ
  chargingProfilePurpose : Purpose
  limit : ℤ
  transactionId : Option ℕ
  deriving DecidableEq, Repr

/-- `profile`, with the identity of the row of the connector. -/
def profile (profile_id : ℕ) (device : Device) (watts : ℤ) (baseline : Bool) : ChargingProfile where
  connectorId := device.number
  chargingProfileId := profile_id * 2 + if baseline then 0 else 1
  stackLevel := if baseline ∨ device.transaction_id = none then 0 else 1
  chargingProfilePurpose := if baseline ∨ device.transaction_id = none then .TxDefaultProfile else .TxProfile
  limit := watts
  transactionId := if baseline then none else device.transaction_id

/-! ## 2. Answers -/

section Answers

variable {F : Type}

/-- The status of a row of `power_commands`. -/
inductive CommandStatus where
  | Pending | Accepted | Rejected | Unknown | ProtocolError | Timeout | Disconnected | Offline
  deriving DecidableEq, Repr

/-- `payload.get(key)`. -/
def field (payload : List (Str × Json F)) (key : String) : Option (Json F) :=
  (payload.find? (·.1 = key.str)).map Prod.snd

/-- The statuses that `wire` passes on. -/
def CommandStatus.ofReply (status : Str) : Option CommandStatus :=
  if status = "Accepted".str then some .Accepted
  else if status = "Rejected".str then some .Rejected
  else if status = "Unknown".str then some .Unknown
  else none

/-- `wire`, for the reply of a charger. -/
def wire (reply : Frame F) : CommandStatus × List (Str × Json F) :=
  if reply.kind = .result then
    match field reply.payload "status" with
    | some (.str status) =>
      match CommandStatus.ofReply status with
      | some outcome => (outcome, reply.payload)
      | none => (.ProtocolError, [])
    | _ => (.ProtocolError, [])
  else (.ProtocolError, [])

/-! ## 3. The composite schedule -/

/-- What the check reads besides the answer: the finite value of a float, `datetime.fromisoformat` (`none` for a
ValueError, `some none` for a time without a zone), and how old a schedule may be, in microseconds. -/
structure ReadbackRules (F : Type) where
  value : F → Option ℚ
  fromisoformat : Str → Option (Option ℤ)
  max_age : ℤ

/-- A number, and no boolean. -/
def numberOf (value : F → Option ℚ) : Json F → Option ℚ
  | .int n => some n
  | .float x => value x
  | _ => none

/-- The start and the limit of a period. -/
def periodOf (value : F → Option ℚ) : Json F → Option (ℤ × ℚ)
  | .object period =>
    match field period "startPeriod", field period "limit" with
    | some (.int start), some limit => (numberOf value limit).map (start, ·)
    | _, _ => none
  | _ => none

/-- The loop over the periods, after one that starts at `previous`. -/
def periodsOk (value : F → Option ℚ) (duration watts : ℤ) : ℤ → List (Json F) → Bool
  | _, [] => true
  | previous, period :: periods =>
    match periodOf value period with
    | some (start, limit) =>
      decide (previous < start ∧ start < duration ∧ 0 ≤ limit ∧ limit ≤ watts) &&
        periodsOk value duration watts start periods
    | none => false

/-- The schedule started with a zone, before now and not too long ago. -/
def timely (rules : ReadbackRules F) (now : ℤ) (scheduleStart : Str) : Bool :=
  match rules.fromisoformat scheduleStart with
  | some (some scheduled_at) => decide (scheduled_at ≤ now ∧ now - scheduled_at ≤ rules.max_age)
  | _ => false

/-- `verify_limit`, for the reply of a charger. -/
def verify_limit (rules : ReadbackRules F) (now : ℤ) (number : ℕ) (watts : ℤ) (reply : Frame F) : Bool :=
  let payload := (wire reply).2
  match field payload "connectorId", field payload "chargingSchedule", field payload "scheduleStart" with
  | some (.int connectorId), some (.object schedule), some (.str start) =>
    match field schedule "chargingRateUnit", field schedule "duration", field schedule "chargingSchedulePeriod" with
    | some (.str chargingRateUnit), some (.int duration), some (.array periods) =>
      decide ((wire reply).1 = .Accepted ∧ connectorId = number ∧ chargingRateUnit = "W".str ∧ 60 ≤ duration) &&
        timely rules now start && periodsOk rules.value duration watts (-1) periods &&
        decide ((periods.head?.bind (periodOf rules.value)).map Prod.fst = some 0)
    | _, _, _ => false
  | _, _, _ => false

/-! ## 4. The limit at an instant -/

/-- The periods of the schedule in a payload. -/
def scheduleOf (value : F → Option ℚ) (payload : List (Str × Json F)) : Option (List (ℤ × ℚ)) :=
  match field payload "chargingSchedule" with
  | some (.object schedule) =>
    match field schedule "chargingSchedulePeriod" with
    | some (.array periods) => periods.mapM (periodOf value)
    | _ => none
  | _ => none

/-- The limit of the last period that has started. -/
def limitAt (periods : List (ℤ × ℚ)) (t : ℤ) : Option ℚ := (periods.filter (·.1 ≤ t)).getLast?.map Prod.snd

/-- The limits of a schedule are between zero and `watts` from its start on. -/
structure Keeps (periods : List (ℤ × ℚ)) (watts : ℤ) : Prop where
  ordered : periods.Pairwise fun a b => a.1 < b.1
  bounded : ∀ t, 0 ≤ t → ∃ v, limitAt periods t = some v ∧ 0 ≤ v ∧ v ≤ watts

namespace ReadbackLemmas

variable {value : F → Option ℚ} {duration watts previous : ℤ}

theorem periodsOk_spec {items : List (Json F)} (h : periodsOk value duration watts previous items = true) :
    ∃ periods, items.mapM (periodOf value) = some periods ∧ (periods.Pairwise fun a b => a.1 < b.1) ∧
      ∀ p ∈ periods, previous < p.1 ∧ 0 ≤ p.2 ∧ p.2 ≤ watts := by
  induction items generalizing previous with
  | nil => exact ⟨[], rfl, .nil, List.forall_mem_nil _⟩
  | cons period items ih =>
    unfold periodsOk at h
    cases hp : periodOf value period with
    | none =>
      rw [hp] at h
      cases h
    | some p =>
      obtain ⟨start, limit⟩ := p
      rw [hp] at h
      obtain ⟨hhead, htail⟩ := (Bool.and_eq_true _ _).mp h
      obtain ⟨hafter, -, hlow, hhigh⟩ := of_decide_eq_true hhead
      obtain ⟨periods, hmap, hordered, hall⟩ := ih htail
      refine ⟨(start, limit) :: periods, by simp [List.mapM_cons, hp, hmap], ?_, fun p hp => ?_⟩
      · exact List.pairwise_cons.mpr ⟨fun p hp => (hall p hp).1, hordered⟩
      · rcases List.mem_cons.mp hp with rfl | hp
        · exact ⟨hafter, hlow, hhigh⟩
        · exact ⟨hafter.trans (hall p hp).1, (hall p hp).2⟩

theorem limitAt_bounds {periods : List (ℤ × ℚ)} (hall : ∀ p ∈ periods, 0 ≤ p.2 ∧ p.2 ≤ watts) {first : ℤ × ℚ}
    (hfirst : first ∈ periods) (hzero : first.1 = 0) {t : ℤ} (ht : 0 ≤ t) :
    ∃ v, limitAt periods t = some v ∧ 0 ≤ v ∧ v ≤ watts := by
  have hmem : first ∈ periods.filter (·.1 ≤ t) := List.mem_filter.mpr ⟨hfirst, decide_eq_true (hzero ▸ ht)⟩
  have hlast := List.getLast?_eq_some_getLast (List.ne_nil_of_mem hmem)
  refine ⟨_, congrArg (Option.map Prod.snd) hlast, ?_⟩
  exact hall _ (List.mem_of_mem_filter (List.getLast_mem _))

end ReadbackLemmas

open ReadbackLemmas

/-- A schedule that `verify_limit` accepts never allows more than the limit, at any instant from its start on. -/
theorem verify_limit_bounds {rules : ReadbackRules F} {now : ℤ} {number : ℕ} {watts : ℤ} {reply : Frame F}
    (h : verify_limit rules now number watts reply = true) :
    (wire reply).1 = .Accepted ∧ ∃ periods, scheduleOf rules.value (wire reply).2 = some periods ∧ Keeps periods watts := by
  unfold verify_limit at h
  dsimp only at h
  split at h
  next connectorId schedule start hconnector hschedule hstart =>
    split at h
    next unit duration items hunit hduration hitems =>
      simp only [Bool.and_eq_true, decide_eq_true_eq] at h
      obtain ⟨⟨⟨⟨haccepted, -⟩, -⟩, hperiods⟩, hfirst⟩ := h
      obtain ⟨periods, hmap, hordered, hall⟩ := periodsOk_spec hperiods
      refine ⟨haccepted, periods, ?_, hordered, fun t ht => ?_⟩
      · unfold scheduleOf
        rw [hschedule]
        dsimp only
        rw [hitems]
        exact hmap
      · obtain ⟨first, hhead, hzero⟩ := Option.map_eq_some_iff.mp hfirst
        have hmem : first ∈ periods := by
          cases items with
          | nil => cases hhead
          | cons item items =>
            rw [List.head?_cons, Option.bind_some] at hhead
            obtain ⟨rest, -, hrest⟩ : ∃ rest, items.mapM (periodOf rules.value) = some rest ∧ first :: rest = periods := by
              simpa [List.mapM_cons, hhead, Option.bind_eq_some_iff] using hmap
            exact hrest ▸ List.mem_cons_self
        exact limitAt_bounds (fun p hp => (hall p hp).2) hmem hzero ht
    next => cases h
  next => cases h

end Answers

end Csms.Power
