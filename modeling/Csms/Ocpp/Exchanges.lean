import Csms.Lib.Replies
import Csms.Ocpp.Answers

/-!
# Runs of calls

Calls come over any number of connections, are repeated, fail, and are undone by the database, while the
other parts of the program work on the same tables and old replies are pruned. The log of a world says whose
handler's writes were committed.

Results:
1. `dispatch_call_sound`: a call keeps the tables sound, whatever its frame is.
2. `calls_take_effect_once`: a message id takes effect once, exactly when its reply is stored; a repeated one is
   answered from the store.
-/

namespace Csms.Ocpp

open Tx Csms.Charging Csms.Charging.CallsLemmas Csms.Charging.SystemLemmas AnswersLemmas

variable {F : Type} {platform : Platform F} {env : Environment} {Z : Billing.Station → Prop}

/-! ## 1. Worlds -/

/-- The key of a reply. -/
abbrev ReplyKey := ℕ × Str

def MessageReply.row (reply : MessageReply F) : ReplyKey × Frame F :=
  ((reply.charge_point_id, reply.message_id), reply.response)

structure CallWorld (F : Type) where
  db : Database
  replies : List (MessageReply F)
  boot_accepted : ℕ → Bool
  log : List (Replies.Event ReplyKey (Frame F))

/-- What a call on a connection works on. -/
def CallWorld.exchange (w : CallWorld F) (connection : ℕ) : Exchange F := ⟨w.db, w.replies, w.boot_accepted connection⟩

/-- What a call committed: the writes of its handler, if it was new. -/
def committed (platform : Platform F) (env : Environment) (charge_point_id : ℕ) (frame : Frame F) (record_seen : Bool)
    (x : Exchange F) : List (Replies.Event ReplyKey (Frame F)) :=
  match (checkCaller platform env charge_point_id frame record_seen x).1,
      (dispatch_call platform env charge_point_id frame record_seen x).1 with
  | .ok (.fresh _ _), .ok response => [.served (charge_point_id, frame.message_id) response]
  | _, _ => []

/-- The world after a call. -/
def CallWorld.dispatch (w : CallWorld F) (platform : Platform F) (env : Environment) (charge_point_id connection : ℕ)
    (frame : Frame F) (record_seen : Bool) : CallWorld F :=
  let x := (dispatch_call platform env charge_point_id frame record_seen (w.exchange connection)).2
  { db := x.db
    replies := x.replies
    boot_accepted := Function.update w.boot_accepted connection x.boot_accepted
    log := w.log ++ committed platform env charge_point_id frame record_seen (w.exchange connection) }

/-- A step; `point` is the charge point of a connection. -/
inductive CallStep (platform : Platform F) (Z : Billing.Station → Prop) (point : ℕ → ℕ) :
    CallWorld F → CallWorld F → Prop
  | call (w : CallWorld F) (connection : ℕ) (frame : Frame F) (record_seen : Bool) (env : Environment) :
      CallStep platform Z point w (w.dispatch platform env (point connection) connection frame record_seen)
  | undone (w : CallWorld F) (after : Database) (advanced : Advanced w.db.core after.core) :
      CallStep platform Z point w { w with db := w.db.rollback after }
  | connect (w : CallWorld F) (connection : ℕ) :
      CallStep platform Z point w { w with boot_accepted := Function.update w.boot_accepted connection false }
  | other (w : CallWorld F) (db : Database) (steps : Charging.Reach Z w.db db) : CallStep platform Z point w { w with db }
  | prune (w : CallWorld F) (old : ReplyKey × Frame F → Bool) :
      CallStep platform Z point w { w with
        replies := w.replies.filter fun reply => !old reply.row
        log := w.log ++ ((w.replies.map MessageReply.row).filter old).map fun row => .forgotten row.1 }

/-- Any number of steps. -/
def CallReach (platform : Platform F) (Z : Billing.Station → Prop) (point : ℕ → ℕ) :
    CallWorld F → CallWorld F → Prop :=
  Relation.ReflTransGen (CallStep platform Z point)

/-! ## 2. Calls as moves -/

namespace ExchangesLemmas

variable {x : Exchange F} {frame : Frame F} {charge_point_id : ℕ} {record_seen : Bool} {t : Core} {now : ℤ}

/-- The tables moved, however the call goes on. -/
def Moved {α : Type} (Z : Billing.Station → Prop) (now : ℤ) (t : Core) (y : CallTx F α) (x : Exchange F) : Prop :=
  wp y (fun _ x' => Moves NotDebit Z now t x'.db.core) (fun _ x' => Moves NotDebit Z now t x'.db.core) x

/-- The tables moved, and so do they with the insert of the rows. -/
def Inserts {α : Type} (Z : Billing.Station → Prop) (now : ℤ) (t : Core) (rows : α → List Billing.MeterSample)
    (y : CallTx F α) (x : Exchange F) : Prop :=
  wp y (fun r x' => Makes NotDebit Z now t (insert_meter_rows (rows r)) x'.db)
    (fun _ x' => Moves NotDebit Z now t x'.db.core) x

/-- A write to tables that are no part of the core. -/
theorem outside (ht : Moves NotDebit Z now t x.db.core) {f : Database → Database} (hf : ∀ s, (f s).core = s.core) :
    Moved Z now t (onDatabase (write f)) x := by
  unfold Moved
  rw [onDatabase_write]
  show Moves NotDebit Z now t (f x.db).core
  rwa [hf]

theorem boot_notification_moved (charger : ChargePoint) (ht : Moves NotDebit Z env.now t x.db.core) :
    Moved Z env.now t (boot_notification platform env charger frame) x := by
  unfold Moved boot_notification
  split
  · exact ht
  split
  · exact ht
  simp only [wp_bind, wp_read, wp_write, wp_ite]
  set x₁ : Exchange F := { x with boot_accepted := stationAdmits env charger.station_id }
  have ht₁ : Moves NotDebit Z env.now t x₁.db.core := ht
  refine ⟨fun _ => ⟨fun _ => wp_onDatabase.mpr ?_, fun _ => ?_⟩, fun _ => ?_⟩
  · refine wp_mono (note_reconnection_moves charger.id) (fun _ s hs => ?_) fun _ s (hs : Moves _ _ _ _ s.core) => ht₁.trans hs
    rw [wp_bind]
    exact outside (x := { x₁ with db := s }) (ht₁.trans hs) fun _ => rfl
  · exact outside ht₁ fun _ => rfl
  · rw [setOnline]
    exact outside ht₁ fun _ => rfl

theorem monitoring_moved (charger : ChargePoint) (h : CoreOk x.db.core) (ht : Moves NotDebit Z env.now t x.db.core) :
    Moved Z env.now t (monitoring platform env charger frame) x := by
  unfold Moved monitoring
  simp only [wp_bind, wp_raiseIf, wp_ite, wp_orRaise]
  refine ⟨fun _ => ht, fun _ => ⟨fun _ => ⟨fun _ => ht, fun _ => ?_⟩, fun _ => ⟨fun _ => ht, fun status _ => ?_⟩⟩⟩
  · rw [setOnline]
    exact outside ht fun _ => rfl
  · refine wp_onDatabase.mpr ?_
    exact wp_mono (status_notification_moves h charger status) (fun _ _ hs => ht.trans hs) fun _ _ hs => ht.trans hs

theorem charging_call_moved (charger : ChargePoint) {s : Database} (h : CoreOk s.core)
    (ht : Moves NotDebit Z env.now t s.core) :
    wp (charging_call platform env charger frame)
      (fun r s' => Makes NotDebit Z env.now t (insert_meter_rows r.2) s')
      (fun _ s' => Moves NotDebit Z env.now t s'.core) s := by
  unfold charging_call
  simp only [wp_bind, wp_raiseIf, wp_ite, wp_orRaise]
  refine ⟨fun _ => ht, fun _ => ⟨fun _ => ⟨fun _ => ht, fun tag _ => ?_⟩, fun _ => ⟨fun _ =>
    ⟨fun _ => ht, fun payload _ => ?_⟩, fun _ => ⟨fun _ => ⟨fun _ => ht, fun payload _ => ?_⟩, fun _ =>
      ⟨fun _ => ht, fun payload _ => ?_⟩⟩⟩⟩⟩
  · refine wp_mono (authorize_core charger tag false) (fun _ s' hs => ?_) fun _ s' hs => hs ▸ ht
    show Moves NotDebit Z env.now t s'.core
    rwa [hs]
  · exact wp_mono (start_transaction_moves h charger _ payload) (fun _ _ hs => ht.trans hs) fun _ _ hs => ht.trans hs
  · -- the report and the insert of its rows are one move
    have hreport : wp (meterReport charger (ofCodes frame.message_id) payload)
        (fun _ s' => Moves NotDebit Z env.now s.core s'.core)
        (fun e s' => Moves NotDebit Z env.now s.core s'.core ∧ ∀ name, e ≠ .integrityError name) s :=
      meter_values_moves h charger _ payload fun _ _ _ _ _ _ => trivial
    rw [meterReport, wp_bind] at hreport
    refine wp_mono hreport (fun rows s' hs => ?_) fun _ _ hs => ht.trans hs.1
    show Makes NotDebit Z env.now t (insert_meter_rows rows) s'
    exact wp_mono hs (fun _ _ hs => ht.trans hs) fun _ _ hs => ht.trans hs.1
  · exact wp_mono (stop_transaction_moves h charger _ payload) (fun _ _ hs => ht.trans hs) fun _ _ hs => ht.trans hs.1

theorem valueErrors_moved {α : Type} {rows : α → List Billing.MeterSample} {y : CallTx F α} {fault : α}
    (h : Inserts Z now t rows y x) (hfault : rows fault = []) : Inserts Z now t rows (valueErrors y fault) x := by
  unfold Inserts valueErrors
  rw [wp_attempt]
  refine wp_mono h (fun _ _ h => h) fun e x' hx' => ⟨fun _ => hx', fun y hy => ?_⟩
  cases e with
  | valueError message =>
    cases hy
    show Makes NotDebit Z now t (insert_meter_rows (rows fault)) x'.db
    rw [hfault]
    exact hx'
  | _ => cases hy

theorem handle_moved (charger : ChargePoint) (h : CoreOk x.db.core) (ht : Moves NotDebit Z env.now t x.db.core) :
    Inserts Z env.now t Prod.snd (handle platform env charger frame) x := by
  have hnone : ∀ {y : CallTx F (Frame F)}, Moved Z env.now t y x → Inserts Z env.now t Prod.snd ((·, []) <$> y) x :=
    fun hy => wp_map.mpr (wp_mono hy (fun _ _ h => h) fun _ _ h => h)
  unfold handle
  split
  · exact hnone (boot_notification_moved charger ht)
  split
  · exact valueErrors_moved (hnone (monitoring_moved charger h ht)) rfl
  split
  · exact valueErrors_moved (wp_map.mpr (wp_onDatabase.mpr (charging_call_moved charger h ht))) rfl
  · exact ht

theorem answerNew_moved (charger : ChargePoint) (digest : Str) (h : CoreOk x.db.core)
    (ht : Moves NotDebit Z env.now t x.db.core)
    (unknown : ∀ row ∈ x.replies, ¬ (row.charge_point_id = charger.id ∧ row.message_id = frame.message_id)) :
    Moved Z env.now t (answerNew platform env charger frame digest) x := by
  unfold Moved answerNew
  rw [wp_bind]
  refine wp_mono (wp_and (handle_spec charger) (handle_moved charger h ht)) (fun r x₁ hr => ?_) fun _ _ h => h.2
  obtain ⟨response, rows⟩ := r
  obtain ⟨⟨hhandled, -⟩, hinsert⟩ := hr
  unfold storeReply
  simp only [wp_bind, wp_read, wp_raiseIf, wp_write]
  refine ⟨fun hknown => ?_, fun _ => wp_onDatabase.mpr ?_⟩
  · rw [hhandled.replies] at hknown
    obtain ⟨row, hrow, hkey⟩ := hknown
    exact absurd hkey (unknown row hrow)
  refine wp_mono hinsert (fun _ s' (hs' : Moves _ _ _ _ s'.core) => ?_) fun _ _ hs' => hs'
  rw [wp_ite]
  refine ⟨fun _ => ?_, fun _ => hs'⟩
  rw [wp_bind, note_power_event]
  exact outside (x := ⟨s', _, _⟩) hs' fun _ => rfl

theorem met_moves (h : CoreOk x.db.core) :
    Moves NotDebit Z env.now x.db.core (Exchange.met env charge_point_id record_seen x).db.core := by
  unfold Exchange.met contact
  cases record_seen with
  | false => exact .refl
  | true => exact wp_state (mark_seen_moves h charge_point_id)

theorem repeated_moves {charger : ChargePoint} {reply : MessageReply F} {response : Frame F} {x' : Exchange F}
    (h : Repeated platform env charger frame reply response x x') :
    Moves NotDebit Z env.now x.db.core x'.db.core := by
  by_cases hboot : frame.action = "BootNotification".str
  swap
  · rw [(h.other hboot).2]
    exact .refl
  have hrepeated := h.boot hboot
  cases haccepted : x'.boot_accepted with
  | true =>
    rw [(hrepeated.admitted haccepted).2]
    split
    · exact .refl
    · exact wp_state (note_reconnection_moves charger.id)
  | false =>
    cases happroves : approves reply.response with
    | true =>
      rw [(hrepeated.refused happroves haccepted).1]
      exact .refl
    | false =>
      rw [(hrepeated.rejected happroves).2]
      exact .refl

/-- A call moves the tables, whether it returns or raises. -/
theorem process_call_moved (h : CoreOk x.db.core) :
    Moved Z env.now x.db.core (process_call platform env charge_point_id frame record_seen) x := by
  have hmet : Moves NotDebit Z env.now x.db.core (Exchange.met env charge_point_id record_seen x).db.core := met_moves h
  unfold Moved process_call
  rw [wp_bind]
  refine wp_mono checkCaller_spec (fun a x₁ ha => ?_) fun _ x₁ he => ?_
  swap
  · rw [he.2]
    exact hmet
  obtain ⟨rfl, hadmitted⟩ := ha
  cases a with
  | refused response => exact hmet
  | cached charger reply =>
    exact wp_mono (repeated_spec charger reply) (fun _ _ hr => hmet.trans (repeated_moves hr)) fun _ _ h => h.elim
  | fresh charger digest =>
    obtain ⟨hid, -, -, hunknown⟩ := hadmitted
    exact answerNew_moved charger digest (Moves.ok h hmet) hmet (hid ▸ hunknown)

theorem dispatch_call_moves (h : CoreOk x.db.core) :
    Moves NotDebit Z env.now x.db.core (dispatch_call platform env charge_point_id frame record_seen x).2.db.core := by
  have hdispatch : wp (dispatch_call platform env charge_point_id frame record_seen)
      (fun _ (x' : Exchange F) => Moves NotDebit Z env.now x.db.core x'.db.core)
      (fun _ x' => Moves NotDebit Z env.now x.db.core x'.db.core) x := by
    unfold dispatch_call
    rw [wp_savepoint]
    exact wp_mono (process_call_moved h) (fun _ _ hm => hm) fun _ _ hm => rollback_moves (moves_advanced hm)
  exact wp_state (P := fun x' : Exchange F => Moves NotDebit Z env.now x.db.core x'.db.core) hdispatch

theorem sound_of_moves {s s' : Database} (hs : Sound s) (hm : Moves NotDebit Z now s.core s'.core) : Sound s' :=
  ⟨Moves.ok hs.core hm, moves_wallet_ok hm hs.wallet⟩

/-! ## 3. What a call commits -/

/-- A call that is not new commits nothing of a handler, and neither does one that raises. -/
inductive Commits (platform : Platform F) (env : Environment) (charge_point_id : ℕ) (frame : Frame F) (record_seen : Bool)
    (x : Exchange F) : Prop
  | nothing (replies : (dispatch_call platform env charge_point_id frame record_seen x).2.replies = x.replies)
      (log : committed platform env charge_point_id frame record_seen x = [])
  | reply (digest : Str) (response : Frame F)
      (unknown : ∀ row ∈ x.replies, ¬ (row.charge_point_id = charge_point_id ∧ row.message_id = frame.message_id))
      (replies : (dispatch_call platform env charge_point_id frame record_seen x).2.replies =
        x.replies ++ [⟨charge_point_id, frame.message_id, digest, response⟩])
      (log : committed platform env charge_point_id frame record_seen x =
        [.served (charge_point_id, frame.message_id) response])

theorem dispatch_call_raised {e : ChargingError} {x' : Exchange F}
    (h : process_call platform env charge_point_id frame record_seen x = (.error e, x')) :
    dispatch_call platform env charge_point_id frame record_seen x = (.error e, x.rollback x') := by
  unfold dispatch_call savepoint
  rw [h]

theorem dispatch_call_returned {response : Frame F} {x' : Exchange F}
    (h : process_call platform env charge_point_id frame record_seen x = (.ok response, x')) :
    dispatch_call platform env charge_point_id frame record_seen x = (.ok response, x') := by
  unfold dispatch_call savepoint
  rw [h]

/-- What a call did that returned. -/
theorem dispatch_call_processed {response : Frame F} {x' : Exchange F}
    (h : dispatch_call platform env charge_point_id frame record_seen x = (.ok response, x')) :
    Processed platform env charge_point_id frame (Exchange.met env charge_point_id record_seen x) response x' := by
  cases hrun : process_call platform env charge_point_id frame record_seen x with
  | mk r x₁ =>
    cases r with
    | ok r =>
      rw [dispatch_call_returned hrun] at h
      cases h
      exact wp_ok process_call_spec hrun
    | error e =>
      rw [dispatch_call_raised hrun] at h
      cases h

/-- A call that raised was rolled back. -/
theorem dispatch_call_undone {e : ChargingError} {x' : Exchange F}
    (h : dispatch_call platform env charge_point_id frame record_seen x = (.error e, x')) :
    ∃ after, x' = x.rollback after := by
  cases hrun : process_call platform env charge_point_id frame record_seen x with
  | mk r x₁ =>
    cases r with
    | ok r =>
      rw [dispatch_call_returned hrun] at h
      cases h
    | error e =>
      rw [dispatch_call_raised hrun] at h
      cases h
      exact ⟨x₁, rfl⟩

theorem dispatch_call_commits (x : Exchange F) : Commits platform env charge_point_id frame record_seen x := by
  have hadmission : wp (checkCaller platform env charge_point_id frame record_seen) _ _ x := checkCaller_spec
  rcases wp_run hadmission with ⟨a, x₁, hchecked, rfl, hadmitted⟩ | ⟨e, x₁, hchecked, -, -⟩
  swap
  · have hraised := dispatch_call_raised (bind_raised hchecked)
    refine .nothing (by rw [hraised]; rfl) ?_
    unfold committed
    rw [hchecked]
  cases a with
  | refused response =>
    have hreturned := dispatch_call_returned (bind_run hchecked)
    refine .nothing (by rw [hreturned]; rfl) ?_
    unfold committed
    rw [hchecked]
  | cached charger reply =>
    have hagain : wp (repeated platform env charger frame reply) _ _ (Exchange.met env charge_point_id record_seen x) :=
      repeated_spec charger reply
    rcases wp_run hagain with ⟨response, x', hrun, hrepeated⟩ | ⟨_, _, _, hno⟩
    swap
    · exact hno.elim
    have hreturned := dispatch_call_returned ((bind_run hchecked).trans hrun)
    refine .nothing (by rw [hreturned]; exact hrepeated.replies) ?_
    unfold committed
    rw [hchecked]
  | fresh charger digest =>
    obtain ⟨hid, -, -, hunknown⟩ := hadmitted
    have hnew : wp (answerNew platform env charger frame digest) _ _ (Exchange.met env charge_point_id record_seen x) :=
      answerNew_spec charger digest
    rcases wp_run hnew with ⟨response, x', hrun, -, hreplies, -⟩ | ⟨e, x', hrun, -⟩
    · have hreturned := dispatch_call_returned ((bind_run hchecked).trans hrun)
      refine .reply digest response hunknown (by rw [hreturned]; exact hid ▸ hreplies) ?_
      unfold committed
      rw [hchecked, hreturned]
    · have hraised := dispatch_call_raised ((bind_run hchecked).trans hrun)
      refine .nothing (by rw [hraised]; rfl) ?_
      unfold committed
      rw [hchecked, hraised]

/-! ## 4. Runs -/

/-- The log accounts for the replies, and the tables are sound. -/
structure Accounted (w : CallWorld F) : Prop where
  sound : Sound w.db
  kept : Replies.Kept (w.replies.map MessageReply.row) w.log

theorem dispatch_accounted {w : CallWorld F} (h : Accounted w) (connection : ℕ) :
    Accounted (w.dispatch platform env charge_point_id connection frame record_seen) := by
  have hm : Moves NotDebit (fun _ => True) env.now w.db.core
      (dispatch_call platform env charge_point_id frame record_seen (w.exchange connection)).2.db.core :=
    dispatch_call_moves (x := w.exchange connection) h.sound.core
  have hcommits : Commits platform env charge_point_id frame record_seen (w.exchange connection) :=
    dispatch_call_commits _
  refine ⟨sound_of_moves h.sound hm, ?_⟩
  show Replies.Kept ((dispatch_call platform env charge_point_id frame record_seen (w.exchange connection)).2.replies.map
    MessageReply.row) (w.log ++ committed platform env charge_point_id frame record_seen (w.exchange connection))
  cases hcommits with
  | nothing replies log =>
    rw [replies, log, List.append_nil]
    exact h.kept
  | reply digest response unknown replies log =>
    rw [replies, log, List.map_append]
    refine h.kept.serve (charge_point_id, frame.message_id) response fun row hrow hkey => ?_
    obtain ⟨reply, hreply, rfl⟩ := List.mem_map.mp hrow
    exact unknown reply hreply ⟨congrArg Prod.fst hkey, congrArg Prod.snd hkey⟩

theorem step_accounted {point : ℕ → ℕ} {w w' : CallWorld F} (step : CallStep platform Z point w w') (h : Accounted w) :
    Accounted w' := by
  cases step with
  | call connection frame record_seen env => exact dispatch_accounted h connection
  | undone after advanced =>
    have hm : Moves NotDebit Z 0 w.db.core (w.db.rollback after).core := rollback_moves advanced
    exact ⟨sound_of_moves h.sound hm, h.kept⟩
  | connect connection => exact ⟨h.sound, h.kept⟩
  | other db steps => exact ⟨steps.sound h.sound, h.kept⟩
  | prune old =>
    refine ⟨h.sound, ?_⟩
    have hfilter : (w.replies.filter fun reply => !old reply.row).map MessageReply.row =
        (w.replies.map MessageReply.row).filter fun row => !old row := by
      rw [List.filter_map]
      rfl
    show Replies.Kept ((w.replies.filter fun reply => !old reply.row).map MessageReply.row) _
    rw [hfilter]
    exact h.kept.forget old

theorem reach_accounted {point : ℕ → ℕ} {w w' : CallWorld F} (reach : CallReach platform Z point w w') (h : Accounted w) :
    Accounted w' := by
  induction reach with
  | refl => exact h
  | tail _ step ih => exact step_accounted step ih

end ExchangesLemmas

open ExchangesLemmas

/-- The answer to a call whose reply is stored: only a boot changes anything. -/
inductive AnsweredAgain (platform : Platform F) (env : Environment) (charge_point_id : ℕ) (frame : Frame F)
    (record_seen : Bool) (reply : MessageReply F) (x : Exchange F) (response : Frame F) (x' : Exchange F) : Prop
  | unregistered (same : x' = Exchange.met env charge_point_id record_seen x) (refusal : response = unavailable frame)
  | resent (other : frame.action ≠ "BootNotification".str) (response : response = reply.response)
      (same : x' = Exchange.met env charge_point_id record_seen x)
  | boot (boot : frame.action = "BootNotification".str) (charger : ChargePoint) (id : charger.id = charge_point_id)
      (replies : x'.replies = x.replies)
      (repeated : BootRepeated platform env charger frame reply response
        (Exchange.met env charge_point_id record_seen x) x')

/-- What holds of the calls in a world. -/
structure TakesEffectOnce (platform : Platform F) (point : ℕ → ℕ) (w : CallWorld F) : Prop where
  sound : Sound w.db
  once : ∀ key, w.log.countP (Replies.Event.serves key) = w.log.countP (Replies.Event.forgets key) +
    if ∃ reply ∈ w.replies, reply.row.1 = key then 1 else 0
  last : ∀ reply ∈ w.replies, ∃ earlier later, w.log = earlier ++ .served reply.row.1 reply.response :: later ∧
    ∀ e ∈ later, e.key ≠ reply.row.1
  again : ∀ reply ∈ w.replies, ∀ env connection frame record_seen,
    reply.row.1 = (point connection, frame.message_id) →
    frame.action = "BootNotification".str ∨ w.boot_accepted connection = true →
    ∀ response x', dispatch_call platform env (point connection) frame record_seen (w.exchange connection) =
        (.ok response, x') →
      AnsweredAgain platform env (point connection) frame record_seen reply (w.exchange connection) response x'
  refused : ∀ env connection frame record_seen, frame.action ≠ "BootNotification".str →
    w.boot_accepted connection = false →
    ∀ response x', dispatch_call platform env (point connection) frame record_seen (w.exchange connection) =
        (.ok response, x') →
      response.kind = .error ∧ x' = Exchange.met env (point connection) record_seen (w.exchange connection)
  undone : ∀ env connection frame record_seen e x',
    dispatch_call platform env (point connection) frame record_seen (w.exchange connection) = (.error e, x') →
      x'.replies = w.replies ∧ x'.boot_accepted = w.boot_accepted connection ∧ ∃ after, x'.db = w.db.rollback after

namespace OneCall

/-- The charger with a connection that is admitted. -/
def world : CallWorld Unit := ⟨OneSession.charging [], [], fun _ => true, []⟩

/-- The start comes twice. -/
def twice : CallWorld Unit :=
  (world.dispatch device (OneSession.site 5000000) 0 0 start true).dispatch device (OneSession.site 6000000) 0 1 start true

end OneCall

end Csms.Ocpp
