import Csms.Charging.Models

/-!
# Occupation of a connector (`charging/occupation.py`)

A resumable pause is a candidate, not proof of completion. The functions work on `Occupied`: a session,
its current interval and the events to record; `flush` writes them back.

Results:
1. `IntervalsOk`: all intervals but the current one are resumed ones, and the current one is open until
   the connector is released.
2. `noteStamped_ok`, `stopped_ok`: statuses and the stop keep it.
-/

namespace Csms.Charging

open Tx Csms.Reservations
open Csms.Billing (OccupationInterval EndReason)

/-! ## 1. The code -/

/-- A session with its current interval, and the events to record. -/
structure Occupied where
  session : Session
  interval : Option Interval
  events : List EventAction

def Occupied.flag (reason : String) (o : Occupied) : Occupied :=
  { o with session := review reason o.session }

def Occupied.confirm (o : Occupied) : Occupied :=
  { o with interval := o.interval.map fun i => { i with confirmed := true } }

/-- The current interval has not ended. -/
def Occupied.isOpen (o : Occupied) : Bool := o.interval.any (·.ended_at.isNone)

/-- `release`. -/
def release (stamp : ℤ) (o : Occupied) : Occupied :=
  if o.session.connector_released_at ≠ none then o
  else if stamp < o.session.started_at ∨ ∃ i ∈ o.interval, stamp < i.started_at then
    o.flag "occupation_invalid_release_time"
  else
    { session := { o.session with connector_released_at := some stamp }
      interval := o.interval.map fun i =>
        if i.ended_at = none then { i with ended_at := some stamp, end_reason := some .released } else i
      events := o.events ++ [.connector_released] }

/-- A new interval from `stamp` on. -/
def Occupied.begin (id : ℕ) (stamp : ℤ) (o : Occupied) : Occupied :=
  { o with
    session := { o.session with idle_since := some stamp }
    interval := some { id, session_id := o.session.id, started_at := stamp, ended_at := none
                       confirmed := false, end_reason := none } }

/-- The interval ends because charging goes on. -/
def Occupied.resume (stamp : ℤ) (o : Occupied) : Occupied :=
  { o with
    session := { o.session with idle_since := none }
    interval := o.interval.map fun i =>
      { i with ended_at := some stamp, end_reason := some .resumed, confirmed := false } }

/-- The part of `note_status` after the event. `id` is the next id of an interval. -/
def noteStamped (id : ℕ) (status : OcppStatus) (stamp : ℤ) (o : Occupied) : Occupied :=
  match status with
  | .SuspendedEV | .Finishing =>
    let o := if o.isOpen then o else o.begin id stamp
    if status = .Finishing ∨ ∃ e ∈ o.session.ended_at, e ≤ stamp then o.confirm else o
  | .Charging =>
    if o.session.ended_at ≠ none then o.flag "occupation_charging_after_stop"
    else if o.isOpen then o.resume stamp else o
  | .Available => if o.session.release_detection = .available then release stamp o else o
  | _ => if o.isOpen then o.flag "occupation_interrupted_status" else o

/-- `current_interval`. -/
def Database.current_interval (s : Database) (session_id : ℕ) : Option Interval :=
  (s.intervalsOf session_id).getLast?

/-- The insert or the update of an interval. -/
def saveInterval (i : Interval) (s : Database) : Database :=
  if i.id < s.interval_seq then
    { s with occupation_intervals := Table.modify Interval.id i.id (fun _ => i) s.occupation_intervals }
  else
    { s with occupation_intervals := s.occupation_intervals ++ [i], interval_seq := i.id + 1 }

def flush (o : Occupied) (s : Database) : Database :=
  let s := saveSession o.session (o.interval.elim s (saveInterval · s))
  { s with session_events := s.session_events ++ o.events.map (⟨o.session.id, ·⟩) }

/-- The newest session on a connector. -/
def Database.latestSession (s : Database) (connector_id : ℕ) : Option Session :=
  (s.charging_sessions.filter (·.connector_id = connector_id)).getLast?

/-- The session has an invoice. -/
def Database.Invoiced (s : Database) (session_id : ℕ) : Prop := ∃ i ∈ s.invoices, i.session_id = session_id

instance (s : Database) (session_id : ℕ) : Decidable (s.Invoiced session_id) :=
  inferInstanceAs (Decidable (∃ i ∈ s.invoices, i.session_id = session_id))

/-- A status that contradicts a release. -/
def occupies : OcppStatus → Bool
  | .Charging | .SuspendedEV | .Finishing => true
  | _ => false

/-- `note_status`. -/
def note_status (connector_id : ℕ) (status : OcppStatus) (stamp : Option ℤ) : ChargingTx Unit := do
  let s ← read
  match s.latestSession connector_id with
  | none => return ()
  | some c =>
    if c.billing_lifecycle_version = 0 ∨ s.Invoiced c.id then return ()
    else
      match stamp with
      | none => write (saveSession (review "occupation_missing_status_timestamp" c))
      | some stamp =>
        if stamp < c.started_at then return ()
        else if c.connector_released_at ≠ none then
          if occupies status then write (saveSession (review "occupation_status_after_release" c))
          else return ()
        else
          write (flush (noteStamped s.interval_seq status stamp
            ⟨c, s.current_interval c.id, [.occupation_status]⟩))

/-- `note_stop` on the occupation of a session that ended. -/
def stopped (ended_at : ℤ) (o : Occupied) : Occupied :=
  let o := { o with interval := o.interval.map fun i =>
    if i.end_reason = some .resumed then i else { i with confirmed := true } }
  if o.session.stop_reason = some .EVDisconnected then release ended_at o else o

/-- `note_stop`. -/
def note_stop (c : Session) : ChargingTx Unit := do
  if c.billing_lifecycle_version = 0 then return ()
  else
    let ended_at ← orRaise c.ended_at .assertionError
    let s ← read
    write (flush (stopped ended_at ⟨c, s.current_interval c.id, []⟩))

/-- A session whose occupation may have missed a status. -/
def gapCandidate (s : Database) (charger_id : ℕ) (c : Session) : Prop :=
  c.charge_point_id = charger_id ∧ c.billing_lifecycle_version = 1 ∧ c.connector_released_at = none ∧
  (c.idle_since ≠ none ∨ c.ended_at ≠ none) ∧ ¬ s.Invoiced c.id

instance (s : Database) (charger_id : ℕ) (c : Session) : Decidable (gapCandidate s charger_id c) :=
  inferInstanceAs (Decidable (_ ∧ _))

def flagGap (s : Database) (charger_id : ℕ) (c : Session) : Session :=
  if gapCandidate s charger_id c then review "occupation_offline_gap" c else c

/-- `note_offline_gap`. -/
def note_offline_gap (charger_id : ℕ) : ChargingTx Unit :=
  write fun s => { s with charging_sessions := s.charging_sessions.map (flagGap s charger_id) }

/-! ## 2. The intervals of a session -/

/-- An interval that ended because charging went on. -/
structure Resumed (i : Interval) : Prop where
  reason : i.end_reason = some .resumed
  unconfirmed : i.confirmed = false
  ended : ∃ e ∈ i.ended_at, i.started_at ≤ e

/-- The current interval, unless it is a resumed one: open until the release. -/
structure Standing (c : Session) (i : Interval) : Prop where
  waiting : c.connector_released_at = none → i.ended_at = none ∧ i.end_reason = none
  released : ∀ t ∈ c.connector_released_at,
    i.ended_at = some t ∧ i.end_reason = some .released ∧ i.started_at ≤ t

/-- The intervals of a session, the current one last. -/
structure IntervalsOk (c : Session) (intervals : List Interval) : Prop where
  split : ∃ closed, ∃ last : Option Interval, intervals = closed ++ last.toList ∧
    (∀ i ∈ closed, Resumed i) ∧ ∀ i ∈ last, Standing c i
  session : ∀ i ∈ intervals, i.session_id = c.id
  release : ∀ t ∈ c.connector_released_at, c.started_at ≤ t

/-- A list with its last element changed. -/
def mapLast (f : Interval → Interval) (l : List Interval) : List Interval :=
  l.dropLast ++ (l.getLast?.map f).toList

theorem mapLast_concat (f : Interval → Interval) (l : List Interval) (i : Interval) :
    mapLast f (l ++ [i]) = l ++ [f i] := by
  rw [mapLast, List.dropLast_concat, List.getLast?_concat, Option.map_some, Option.toList_some]

@[simp] theorem getLast?_mapLast (f : Interval → Interval) (l : List Interval) :
    (mapLast f l).getLast? = l.getLast?.map f := by
  rcases List.eq_nil_or_concat' l with rfl | ⟨l, i, rfl⟩
  · rfl
  · rw [mapLast_concat, List.getLast?_concat, List.getLast?_concat, Option.map_some]

@[simp] theorem dropLast_mapLast (f : Interval → Interval) (l : List Interval) :
    (mapLast f l).dropLast = l.dropLast := by
  rcases List.eq_nil_or_concat' l with rfl | ⟨l, i, rfl⟩
  · rfl
  · rw [mapLast_concat, List.dropLast_concat, List.dropLast_concat]

theorem mem_mapLast {f : Interval → Interval} {l : List Interval} {i : Interval} (h : i ∈ mapLast f l) :
    i ∈ l.dropLast ∨ ∃ j, l.getLast? = some j ∧ i = f j := by
  rcases List.mem_append.mp h with h | h
  · exact .inl h
  · rw [Option.mem_toList, Option.map_eq_some_iff] at h
    obtain ⟨j, hj, rfl⟩ := h
    exact .inr ⟨j, hj, rfl⟩

namespace IntervalsOk

variable {c c' : Session} {intervals : List Interval}

theorem nil (hr : ∀ t ∈ c.connector_released_at, c.started_at ≤ t) : IntervalsOk c [] :=
  ⟨⟨[], none, rfl, nofun, nofun⟩, nofun, hr⟩

/-- Only the release of the session matters. -/
theorem congr (h : IntervalsOk c intervals) (hid : c'.id = c.id)
    (hr : c'.connector_released_at = c.connector_released_at) (hs : c'.started_at = c.started_at) :
    IntervalsOk c' intervals := by
  obtain ⟨closed, last, hl, hclosed, hlast⟩ := h.split
  exact ⟨⟨closed, last, hl, hclosed, fun i hi => ⟨hr ▸ (hlast i hi).waiting, hr ▸ (hlast i hi).released⟩⟩,
    hid ▸ h.session, hr ▸ hs ▸ h.release⟩

/-- The current interval is a resumed or a standing one. -/
theorem current (h : IntervalsOk c intervals) {i : Interval} (hi : intervals.getLast? = some i) :
    (Resumed i ∧ ∀ j ∈ intervals, Resumed j) ∨ (Standing c i ∧ ∀ j ∈ intervals.dropLast, Resumed j) := by
  obtain ⟨closed, last, hl, hclosed, hlast⟩ := h.split
  cases last with
  | none =>
    rw [hl, Option.toList_none, List.append_nil] at hi ⊢
    exact .inl ⟨hclosed i (List.mem_of_getLast? hi), hclosed⟩
  | some j =>
    rw [hl, Option.toList_some, List.getLast?_concat] at hi
    cases hi
    refine .inr ⟨hlast i rfl, ?_⟩
    rw [hl, Option.toList_some, List.dropLast_concat]
    exact hclosed

/-- All but the current interval are resumed ones. -/
theorem resumed_dropLast (h : IntervalsOk c intervals) : ∀ j ∈ intervals.dropLast, Resumed j := by
  intro j hj
  cases hi : intervals.getLast? with
  | none =>
    rw [List.getLast?_eq_none_iff.mp hi] at hj
    cases hj
  | some i =>
    rcases h.current hi with ⟨-, hall⟩ | ⟨-, hall⟩
    · exact hall j (List.mem_of_mem_dropLast hj)
    · exact hall j hj

/-- Resumed intervals, and a last one. -/
theorem append (hclosed : ∀ j ∈ intervals, Resumed j) (hsession : ∀ j ∈ intervals, j.session_id = c.id)
    (hr : ∀ t ∈ c.connector_released_at, c.started_at ≤ t) {i : Interval} (hi : i.session_id = c.id)
    (h : Resumed i ∨ Standing c i) : IntervalsOk c (intervals ++ [i]) := by
  refine ⟨?_, fun j hj => ?_, hr⟩
  · rcases h with h | h
    · refine ⟨intervals ++ [i], none, by simp, fun j hj => ?_, nofun⟩
      rcases List.mem_append.mp hj with hj | hj
      · exact hclosed j hj
      · rwa [List.mem_singleton.mp hj]
    · exact ⟨intervals, some i, rfl, hclosed, fun j hj => by cases hj; exact h⟩
  · rcases List.mem_append.mp hj with hj | hj
    · exact hsession j hj
    · rwa [List.mem_singleton.mp hj]

/-- The current interval changes. -/
theorem mapLast (h : IntervalsOk c intervals) (hid : c'.id = c.id)
    (hr : ∀ t ∈ c'.connector_released_at, c'.started_at ≤ t) {f : Interval → Interval}
    (hf : ∀ i, intervals.getLast? = some i → (f i).session_id = i.session_id ∧
      (Resumed (f i) ∨ Standing c' (f i))) : IntervalsOk c' (mapLast f intervals) := by
  rcases List.eq_nil_or_concat' intervals with rfl | ⟨l, i, rfl⟩
  · exact nil hr
  rw [mapLast_concat]
  obtain ⟨hsession, hlast⟩ := hf i List.getLast?_concat
  have hmem : i ∈ l ++ [i] := List.mem_append_right _ (List.mem_singleton_self i)
  have hclosed : ∀ j ∈ l, Resumed j := by
    have := h.resumed_dropLast
    rwa [List.dropLast_concat] at this
  exact append hclosed (fun j hj => (h.session j (List.mem_append_left _ hj)).trans hid.symm) hr
    (hsession.trans ((h.session i hmem).trans hid.symm)) hlast

end IntervalsOk

/-! ## 3. Statuses and the stop -/

/-- What the code may have made of the session `c` with the intervals `old`: `o`, with the intervals `l`.
A new interval has the id `id` and starts at `stamp`. -/
structure View (id : ℕ) (stamp : Option ℤ) (c : Session) (old : List Interval) (o : Occupied) (l : List Interval) :
    Prop where
  session : o.session = { c with
    review_reasons := o.session.review_reasons
    idle_since := o.session.idle_since
    connector_released_at := o.session.connector_released_at }
  reasons : c.review_reasons ⊆ o.session.review_reasons
  released : ∀ t ∈ c.connector_released_at, o.session.connector_released_at = some t
  current : o.interval = l.getLast?
  place : (l.dropLast = old.dropLast ∧ l.getLast?.map (·.id) = old.getLast?.map (·.id)) ∨
    (l.dropLast = old ∧ l.getLast?.map (·.id) = some id)
  ok : IntervalsOk o.session l
  started : ∀ i ∈ l, some i.started_at = stamp ∨ ∃ j ∈ old, j.started_at = i.started_at

namespace View

variable {id : ℕ} {stamp : Option ℤ} {c : Session} {old l : List Interval} {o : Occupied}

theorem start (h : IntervalsOk c old) (events : List EventAction) :
    View id stamp c old ⟨c, old.getLast?, events⟩ old :=
  ⟨rfl, fun _ h => h, fun _ h => h, rfl, .inl ⟨rfl, rfl⟩, h, fun i hi => .inr ⟨i, hi, rfl⟩⟩

theorem get (h : View id stamp c old o l) {α : Type} (f : Session → α)
    (hf : ∀ c reasons idle released, f { c with
      review_reasons := reasons, idle_since := idle, connector_released_at := released } = f c) :
    f o.session = f c := by
  rw [h.session]
  exact hf c _ _ _

/-- The session gets reasons, and another idle start. -/
theorem touch (h : View id stamp c old o l) {session : Session} {events : List EventAction}
    (hs : session = { o.session with
      review_reasons := session.review_reasons, idle_since := session.idle_since })
    (hr : o.session.review_reasons ⊆ session.review_reasons) :
    View id stamp c old { o with session, events } l := by
  have hrel : session.connector_released_at = o.session.connector_released_at := by rw [hs]
  refine ⟨?_, fun r hrc => hr (h.reasons hrc), fun t ht => hrel ▸ h.released t ht, h.current, h.place,
    h.ok.congr (by rw [hs]) hrel (by rw [hs]), h.started⟩
  rw [hs, h.session]

theorem flag (h : View id stamp c old o l) (reason : String) : View id stamp c old (o.flag reason) l :=
  h.touch (by rw [review_eq reason o.session]) fun _ hr => mem_review.mpr (.inl hr)

/-- The current interval changes, and keeps its id and start. -/
theorem mapLast (h : View id stamp c old o l) {f : Interval → Interval}
    (hf : ∀ i, l.getLast? = some i → (f i).id = i.id ∧ (f i).started_at = i.started_at ∧
      (f i).session_id = i.session_id ∧ (Resumed (f i) ∨ Standing o.session (f i))) :
    View id stamp c old { o with interval := o.interval.map f } (mapLast f l) := by
  have hids : (l.getLast?.map f).map (·.id) = l.getLast?.map (·.id) := by
    rw [Option.map_map]
    exact Option.map_congr fun i hi => (hf i hi).1
  refine ⟨h.session, h.reasons, h.released, by rw [h.current, getLast?_mapLast], ?_,
    h.ok.mapLast rfl h.ok.release fun i hi => (hf i hi).2.2, fun i hi => ?_⟩
  · rw [dropLast_mapLast, getLast?_mapLast, hids]
    exact h.place
  · rcases mem_mapLast hi with hi | ⟨j, hj, rfl⟩
    · exact h.started i (List.mem_of_mem_dropLast hi)
    · rw [(hf j hj).2.1]
      exact h.started j (List.mem_of_getLast? hj)

/-- An interval that is not a resumed one can be confirmed. -/
theorem standing_confirm {i : Interval} (h : Standing c i) : Standing c { i with confirmed := true } :=
  ⟨h.waiting, h.released⟩

theorem confirm (h : View id stamp c old o l) (hopen : o.isOpen = true) : View id stamp c old o.confirm
    (Charging.mapLast (fun i => { i with confirmed := true }) l) := by
  refine h.mapLast fun i hi => ⟨rfl, rfl, rfl, .inr ?_⟩
  unfold Occupied.isOpen at hopen
  rw [h.current, hi, Option.any_some] at hopen
  rcases h.ok.current hi with ⟨hres, -⟩ | ⟨hstand, -⟩
  · obtain ⟨e, he, -⟩ := hres.ended
    rw [he] at hopen
    cases hopen
  · exact standing_confirm hstand

theorem resume {at_ : ℤ} (h : View id (some at_) c old o l) (hstart : ∀ i ∈ old, i.started_at ≤ at_) :
    View id (some at_) c old (o.resume at_)
      (Charging.mapLast (fun i => { i with ended_at := some at_, end_reason := some .resumed, confirmed := false }) l) := by
  have hview := h.mapLast (f := fun i =>
    { i with ended_at := some at_, end_reason := some .resumed, confirmed := false }) fun i hi => by
      refine ⟨rfl, rfl, rfl, .inl ⟨rfl, rfl, at_, rfl, ?_⟩⟩
      change i.started_at ≤ at_
      rcases h.started i (List.mem_of_getLast? hi) with he | ⟨j, hj, he⟩
      · exact (Option.some.inj he).le
      · exact he ▸ hstart j hj
  exact hview.touch rfl fun _ hr => hr

/-- Without an open interval, and before the release, all intervals are resumed ones. -/
theorem resumed (h : View id stamp c old o l) (hclosed : o.isOpen = false)
    (hrel : o.session.connector_released_at = none) : ∀ i ∈ l, Resumed i := by
  intro j hj
  cases hi : l.getLast? with
  | none =>
    rw [List.getLast?_eq_none_iff.mp hi] at hj
    cases hj
  | some i =>
    rcases h.ok.current hi with ⟨-, hall⟩ | ⟨hstand, -⟩
    · exact hall j hj
    · unfold Occupied.isOpen at hclosed
      rw [h.current, hi, Option.any_some, (hstand.waiting hrel).1] at hclosed
      cases hclosed

theorem begin {at_ : ℤ} (h : View id (some at_) c old o old) (hclosed : o.isOpen = false)
    (hrel : o.session.connector_released_at = none) :
    ∃ i, View id (some at_) c old (o.begin id at_) (old ++ [i]) := by
  set i : Interval := { id, session_id := o.session.id, started_at := at_, ended_at := none
                        confirmed := false, end_reason := none } with hi
  have hstand : Standing o.session i := ⟨fun _ => ⟨rfl, rfl⟩, fun t ht => by rw [hrel] at ht; cases ht⟩
  have hok : IntervalsOk o.session (old ++ [i]) :=
    IntervalsOk.append (h.resumed hclosed hrel) h.ok.session h.ok.release rfl (.inr hstand)
  refine ⟨i, ⟨?_, h.reasons, h.released, List.getLast?_concat.symm, .inr ⟨List.dropLast_concat, ?_⟩,
    hok.congr rfl rfl rfl, fun j hj => ?_⟩⟩
  · change { o.session with idle_since := some at_ } = _
    rw [h.session]
    rfl
  · rw [List.getLast?_concat]
    rfl
  · rcases List.mem_append.mp hj with hj | hj
    · exact .inr ⟨j, hj, rfl⟩
    · rw [List.mem_singleton.mp hj]
      exact .inl rfl

theorem release (h : View id stamp c old o l) (t : ℤ) :
    ∃ l', View id stamp c old (Charging.release t o) l' := by
  unfold Charging.release
  split
  · exact ⟨l, h⟩
  next hrel =>
  split
  · exact ⟨l, h.flag _⟩
  next htime =>
  push Not at hrel htime
  set f : Interval → Interval := fun i =>
    if i.ended_at = none then { i with ended_at := some t, end_reason := some .released } else i with hf
  have hsame : ∀ i, (f i).id = i.id ∧ (f i).started_at = i.started_at ∧ (f i).session_id = i.session_id := by
    intro i
    simp only [hf]
    split <;> exact ⟨rfl, rfl, rfl⟩
  have hids : (l.getLast?.map f).map (·.id) = l.getLast?.map (·.id) := by
    rw [Option.map_map]
    exact Option.map_congr fun i _ => (hsame i).1
  have hok : IntervalsOk { o.session with connector_released_at := some t } (Charging.mapLast f l) := by
    refine h.ok.mapLast ?_ (fun u hu => ?_) fun i hi => ⟨(hsame i).2.2, ?_⟩
    · rfl
    · cases hu
      exact htime.1
    · rcases h.ok.current hi with ⟨hres, -⟩ | ⟨hstand, -⟩
      · obtain ⟨e, he, hle⟩ := hres.ended
        have hkeep : f i = i := by
          simp only [hf]
          exact if_neg (by rw [he]; nofun)
        rw [hkeep]
        exact .inl hres
      · obtain ⟨hopen, -⟩ := hstand.waiting hrel
        have hnew : f i = { i with ended_at := some t, end_reason := some .released } := if_pos hopen
        rw [hnew]
        refine .inr ⟨nofun, fun u hu => ?_⟩
        cases hu
        exact ⟨rfl, rfl, htime.2 i (by rw [h.current]; exact hi)⟩
  refine ⟨Charging.mapLast f l, ⟨?_, h.reasons, fun u hu => ?_, ?_, ?_, hok, ?_⟩⟩
  · change { o.session with connector_released_at := some t } = _
    rw [h.session]
  · exact absurd (h.released u hu) (by rw [hrel]; nofun)
  · rw [getLast?_mapLast, ← h.current]
  · rw [dropLast_mapLast, getLast?_mapLast, hids]
    exact h.place
  · intro i hi
    rcases mem_mapLast hi with hi | ⟨j, hj, rfl⟩
    · exact h.started i (List.mem_of_mem_dropLast hi)
    · rw [(hsame j).2.1]
      exact h.started j (List.mem_of_getLast? hj)

end View

/-- A status before the release. -/
theorem noteStamped_view {id : ℕ} {stamp : ℤ} {c : Session} {old : List Interval} {o : Occupied}
    (h : View id (some stamp) c old o old) (hrel : o.session.connector_released_at = none)
    (hstart : ∀ i ∈ old, i.started_at ≤ stamp) (status : OcppStatus) :
    ∃ l, View id (some stamp) c old (noteStamped id status stamp o) l := by
  set p := if o.isOpen then o else o.begin id stamp with hp
  have hpause : (∃ l, View id (some stamp) c old p l) ∧ ∃ l, View id (some stamp) c old p.confirm l := by
    cases hopen : o.isOpen with
    | true =>
      rw [hopen, if_pos rfl] at hp
      exact ⟨⟨old, hp ▸ h⟩, _, hp ▸ h.confirm hopen⟩
    | false =>
      rw [hopen, if_neg (by nofun)] at hp
      obtain ⟨i, hi⟩ := h.begin hopen hrel
      exact ⟨⟨_, hp ▸ hi⟩, _, hp ▸ hi.confirm rfl⟩
  cases status with
  | SuspendedEV | Finishing =>
    simp only [noteStamped, ← hp]
    split
    · exact hpause.2
    · exact hpause.1
  | Charging =>
    simp only [noteStamped]
    split
    · exact ⟨old, h.flag _⟩
    split
    · exact ⟨_, h.resume hstart⟩
    · exact ⟨old, h⟩
  | Available =>
    simp only [noteStamped]
    split
    · exact h.release stamp
    · exact ⟨old, h⟩
  | Preparing | SuspendedEVSE | Reserved | Unavailable | Faulted | unknown =>
    simp only [noteStamped]
    split
    · exact ⟨old, h.flag _⟩
    · exact ⟨old, h⟩

/-- The stop of a session. -/
theorem stopped_view {id : ℕ} {stamp : Option ℤ} {c : Session} {old : List Interval} {o : Occupied}
    (h : View id stamp c old o old) (ended_at : ℤ) : ∃ l, View id stamp c old (stopped ended_at o) l := by
  have hview := h.mapLast (f := fun i =>
    if i.end_reason = some .resumed then i else { i with confirmed := true }) fun i hi => by
      split
      · next hres =>
        refine ⟨rfl, rfl, rfl, ?_⟩
        rcases h.ok.current hi with ⟨hres, -⟩ | ⟨hstand, -⟩
        · exact .inl hres
        · exact .inr hstand
      · next hres =>
        refine ⟨rfl, rfl, rfl, .inr ?_⟩
        rcases h.ok.current hi with ⟨hres', -⟩ | ⟨hstand, -⟩
        · exact absurd hres'.reason hres
        · exact View.standing_confirm hstand
  unfold stopped
  simp only
  split
  · exact hview.release ended_at
  · exact ⟨_, hview⟩

end Csms.Charging
