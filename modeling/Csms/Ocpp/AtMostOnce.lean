import Csms.Ocpp.Configuration

/-!
# Configuration is written at most once (`ocpp/configuration.py`)

Any number of workers, submissions and confirmations of resets, in any order. A worker may rest for any time
between two steps, past its lease, or be lost. Nothing is assumed of the clocks, of the processing ids or of
the charge points: an archived one may come back.

The right to put a message on the wire is a token. It is in the row (queued), then with the one worker that
leased it, then on the wire, and only a worker that found the charger busy puts that of a reset back.
`World.changes` and `World.resets` count the tokens that have left the row.

Result: `configuration_at_most_once`.
-/

namespace Csms.Ocpp

open Tx

/-! ## 1. Runs -/

/-- The tables, the workers, and the writes on the wire. -/
structure World where
  db : ConfigDb
  workers : List Worker
  wire : List WireMessage

/-- A worker takes its next step. -/
def World.advance (w : World) (k : Worker) (e : Event) : World :=
  { db := (k.step e w.db).1
    workers := w.workers.erase k ++ ((k.step e w.db).2.1.map fun phase => { k with phase }).toList
    wire := w.wire ++ (k.step e w.db).2.2.toList }

inductive Step (w : World) : World → Prop
  | submit (e : Event) (point_id identifier actor_id : Uuid) (key : String) (value : ℤ) :
      Step w { w with db := (inTransaction (Ocpp.submit e point_id identifier actor_id key value) w.db).2 }
  | request_reset (e : Event) (point_id identifier reset_id actor_id : Uuid) :
      Step w { w with db := (inTransaction (Ocpp.request_reset e point_id identifier reset_id actor_id) w.db).2 }
  | process (processing_id identifier : Uuid) :
      Step w { w with workers := w.workers ++ [⟨processing_id, identifier, .claim⟩] }
  | advance (k : Worker) (mem : k ∈ w.workers) (e : Event) : Step w (w.advance k e)
  | crash (k : Worker) : Step w { w with workers := w.workers.erase k }
  | rest (points : List Point) (audit_logs : List AuditLog) :
      Step w { w with db := { w.db with points, audit_logs } }

/-- Any number of steps. -/
def Reach : World → World → Prop := Relation.ReflTransGen Step

/-- Nothing was configured yet. -/
structure World.Fresh (w : World) : Prop where
  intents : w.db.intents = []
  workers : w.workers = []
  wire : w.wire = []

/-- A ChangeConfiguration of the intent. -/
def WireMessage.changes (i : Uuid) : WireMessage → Bool
  | .ChangeConfiguration request_id _ _ => request_id = i
  | .Reset _ => false

/-- The Reset with this id. -/
def WireMessage.resets (q : Uuid) : WireMessage → Bool
  | .ChangeConfiguration _ _ _ => false
  | .Reset request_id => request_id = q

/-- The worker may still send the ChangeConfiguration of the intent. -/
def Worker.mayChange (i : Uuid) (k : Worker) : Bool :=
  match k.phase with
  | .readOld _ _ | .dispatch _ _ _ | .change _ _ _ => k.identifier = i
  | _ => false

/-- The worker may still send the Reset, or put it back. -/
def Worker.mayReset (q : Uuid) (k : Worker) : Bool :=
  match k.phase with
  | .checkBusy reset_id | .blocked reset_id | .reset reset_id => reset_id = q
  | _ => false

def World.changes (w : World) (i : Uuid) : ℕ := w.wire.countP (·.changes i) + w.workers.countP (·.mayChange i)

def World.resets (w : World) (q : Uuid) : ℕ := w.wire.countP (·.resets q) + w.workers.countP (·.mayReset q)

/-! ## 2. What happens to intents -/

/-- What a later state of an intent keeps. -/
structure Kept (r r' : ConfigurationIntent) : Prop where
  id : r'.id = r.id
  reset : ∀ q, r.reset_id = some q → r'.reset_id = some q
  queued : r'.state = .queued → r.state = .queued

/-- No other intent of the charge point is active. -/
def Alone (rows : List ConfigurationIntent) (r : ConfigurationIntent) : Prop :=
  r.state.active = true → ∀ x ∈ rows, x.charge_point_id = r.charge_point_id → x.state.active = true → x.id = r.id

/-- A change of the table. -/
inductive IntentMove (rows : List ConfigurationIntent) : List ConfigurationIntent → Prop
  | same : IntentMove rows rows
  | save {r r' : ConfigurationIntent} (mem : r ∈ rows) (kept : Kept r r') (alone : Alone rows r')
      (reset : r'.reset_id = r.reset_id ∨ ∀ x ∈ rows, ∀ q, r'.reset_id = some q → x.reset_id ≠ some q) :
      IntentMove rows (Table.modify ConfigurationIntent.id r.id (fun _ => r') rows)
  | insert (r : ConfigurationIntent) (fresh : ∀ x ∈ rows, x.id ≠ r.id) (alone : Alone rows r)
      (reset : r.reset_id = none) : IntentMove rows (rows ++ [r])

/-- The intent waits for a worker. -/
def Queued (rows : List ConfigurationIntent) (i : Uuid) : Prop := ∃ r ∈ rows, r.id = i ∧ r.state = .queued

/-- The reset waits for a worker. -/
def ResetQueued (rows : List ConfigurationIntent) (q : Uuid) : Prop :=
  ∃ r ∈ rows, r.reset_id = some q ∧ r.resetQueued

structure RowsOk (rows : List ConfigurationIntent) : Prop where
  keyed : Table.Keyed ConfigurationIntent.id rows
  active : ∀ a ∈ rows, ∀ b ∈ rows, a.state.active = true → b.state.active = true →
    a.charge_point_id = b.charge_point_id → a = b
  resets : ∀ a ∈ rows, ∀ b ∈ rows, ∀ q, a.reset_id = some q → b.reset_id = some q → a = b

variable {rows rows' : List ConfigurationIntent} {r r' : ConfigurationIntent} {i q : Uuid}

theorem Kept.refl (r : ConfigurationIntent) : Kept r r := ⟨rfl, fun _ h => h, fun h => h⟩

theorem IntentMove.follow (h : IntentMove rows rows') (ok : RowsOk rows) (hr : r ∈ rows) : ∃ r' ∈ rows', Kept r r' := by
  cases h with
  | same => exact ⟨r, hr, .refl r⟩
  | @save x x' mem kept alone reset =>
    by_cases hid : r.id = x.id
    · obtain rfl := ok.keyed.eq hr mem hid
      exact ⟨x', (Table.mem_modify_of_mem ok.keyed mem rfl).mpr (.inl rfl), kept⟩
    · exact ⟨r, (Table.mem_modify_of_mem ok.keyed mem rfl).mpr (.inr ⟨hr, hid⟩), .refl r⟩
  | insert => exact ⟨r, List.mem_append_left _ hr, .refl r⟩

theorem IntentMove.ok (h : IntentMove rows rows') (ok : RowsOk rows) : RowsOk rows' := by
  cases h with
  | same => exact ok
  | @save x x' mem kept alone reset =>
    have hmem := fun r => @Table.mem_modify_of_mem _ _ ConfigurationIntent.id rows _ x.id (fun _ => x') ok.keyed x mem rfl r
    refine ⟨ok.keyed.modify fun _ _ => kept.id, ?_, ?_⟩
    · intro a ha b hb hactive hactive' hpoint
      rcases (hmem a).mp ha with rfl | ⟨hold, hne⟩ <;> rcases (hmem b).mp hb with rfl | ⟨hold', hne'⟩
      · rfl
      · exact absurd ((alone hactive b hold' hpoint.symm hactive').trans kept.id) hne'
      · exact absurd ((alone hactive' a hold hpoint hactive).trans kept.id) hne
      · exact ok.active a hold b hold' hactive hactive' hpoint
    · intro a ha b hb q hq hq'
      have hnew : x'.reset_id = some q → ∀ y ∈ rows, y.id ≠ x.id → y.reset_id ≠ some q := fun hx' y hy hne hyq => by
        rcases reset with hsame | hfresh
        · exact hne (congrArg _ (ok.resets y hy x mem q hyq (hsame ▸ hx')))
        · exact hfresh y hy q hx' hyq
      rcases (hmem a).mp ha with rfl | ⟨hold, hne⟩ <;> rcases (hmem b).mp hb with rfl | ⟨hold', hne'⟩
      · rfl
      · exact absurd hq' (hnew hq b hold' hne')
      · exact absurd hq (hnew hq' a hold hne)
      · exact ok.resets a hold b hold' q hq hq'
  | insert x fresh alone reset =>
    have hmem : ∀ {r}, r ∈ rows ++ [x] → r ∈ rows ∨ r = x := by
      intro r hr
      rcases List.mem_append.mp hr with hr | hr
      · exact .inl hr
      · exact .inr (List.mem_singleton.mp hr)
    refine ⟨ok.keyed.append fresh, ?_, ?_⟩
    · intro a ha b hb hactive hactive' hpoint
      rcases hmem ha with hold | rfl <;> rcases hmem hb with hold' | rfl
      · exact ok.active a hold b hold' hactive hactive' hpoint
      · exact absurd (alone hactive' a hold hpoint hactive) (fresh a hold)
      · exact absurd (alone hactive b hold' hpoint.symm hactive') (fresh b hold')
      · rfl
    · intro a ha b hb q hq hq'
      rcases hmem ha with ha | rfl
      · rcases hmem hb with hb | rfl
        · exact ok.resets a ha b hb q hq hq'
        · rw [reset] at hq'
          cases hq'
      · rw [reset] at hq
        cases hq

/-- An intent that was there waits for a worker only if it did. -/
theorem IntentMove.queued (h : IntentMove rows rows') (ok : RowsOk rows) (hmem : ∃ r ∈ rows, r.id = i)
    (hq : Queued rows' i) : Queued rows i := by
  obtain ⟨x, hx, hid, hqueued⟩ := hq
  obtain ⟨r, hr, hri⟩ := hmem
  obtain ⟨r', hr', hkept⟩ := h.follow ok hr
  obtain rfl := (h.ok ok).keyed.eq hr' hx (hkept.id.trans (hri.trans hid.symm))
  exact ⟨r, hr, hri, hkept.queued hqueued⟩

/-! ## 3. What the transactions do -/

namespace AtMostOnceLemmas

variable {s s' : ConfigDb} {e : Event} {processing_id identifier : Uuid}

/-- No reset was queued. -/
def Quiet (rows rows' : List ConfigurationIntent) : Prop := ∀ q, ResetQueued rows' q → ResetQueued rows q

theorem saveIntent_spec (row : ConfigurationIntent) (s : ConfigDb) :
    wp (saveIntent row) (fun _ s' => Alone s.intents row ∧
      s'.intents = Table.modify ConfigurationIntent.id row.id (fun _ => row) s.intents) (fun _ _ => True) s := by
  unfold saveIntent
  simp only [wp_bind, wp_read, wp_raiseIf, wp_write]
  refine ⟨fun _ => trivial, fun hfree => ⟨fun hactive x hx hpoint hx' => ?_, trivial⟩⟩
  by_contra hne
  exact hfree ⟨hactive, x, hx, hne, hpoint, hx'⟩

theorem intent_spec {row : ConfigurationIntent} (h : s.intent identifier = some row) :
    row ∈ s.intents ∧ row.id = identifier :=
  ⟨List.mem_of_find?_eq_some h, by simpa using List.find?_some h⟩

/-- The rows after an update that keeps the reset. -/
theorem resetQueued_save (ok : RowsOk rows) (mem : r ∈ rows) (hid : r'.id = r.id) (hreset : r'.reset_id = r.reset_id)
    (h : ResetQueued (Table.modify ConfigurationIntent.id r.id (fun _ => r') rows) q) :
    (r.reset_id = some q ∧ r'.resetQueued) ∨ (r.reset_id ≠ some q ∧ ResetQueued rows q) := by
  obtain ⟨x, hx, hq, hqueued⟩ := h
  rcases (Table.mem_modify_of_mem ok.keyed mem rfl).mp hx with rfl | ⟨hx, hne⟩
  · exact .inl ⟨hreset ▸ hq, hqueued⟩
  · exact .inr ⟨fun hr => hne (congrArg _ (ok.resets x hx r mem q hq hr)), x, hx, hq, hqueued⟩

theorem quiet_save (ok : RowsOk rows) (mem : r ∈ rows) (hid : r'.id = r.id) (hreset : r'.reset_id = r.reset_id)
    (hquiet : r'.resetQueued → r.resetQueued) :
    Quiet rows (Table.modify ConfigurationIntent.id r.id (fun _ => r') rows) := by
  intro q hq
  rcases resetQueued_save ok mem hid hreset hq with ⟨hr, hqueued⟩ | ⟨-, hq⟩
  · exact ⟨r, mem, hr, hquiet hqueued⟩
  · exact hq

/-- An update of a row that keeps its reset, and queues it only if it was. -/
structure Update (r r' : ConfigurationIntent) : Prop where
  kept : Kept r r'
  reset : r'.reset_id = r.reset_id
  quiet : r'.resetQueued → r.resetQueued

/-- A transaction that only updates. -/
def Moved (rows rows' : List ConfigurationIntent) : Prop := IntentMove rows rows' ∧ Quiet rows rows'

theorem moved_same : Moved rows rows := ⟨.same, fun _ h => h⟩

/-- Saving a row of the table. -/
theorem saveIntent_moves (ok : RowsOk s.intents) (mem : r ∈ s.intents) (h : Update r r') :
    wp (saveIntent r') (fun _ s' => Moved s.intents s'.intents ∧
      s'.intents = Table.modify ConfigurationIntent.id r.id (fun _ => r') s.intents) (fun _ _ => True) s := by
  refine wp_mono (saveIntent_spec r' s) (fun _ s' ⟨halone, hs'⟩ => ?_) fun _ _ _ => trivial
  rw [h.kept.id] at hs'
  rw [hs']
  exact ⟨⟨.save mem h.kept halone (.inl h.reset), quiet_save ok mem h.kept.id h.reset h.quiet⟩, rfl⟩

theorem submit_moves (point_id identifier actor_id : Uuid) (key : String) (value : ℤ) (s : ConfigDb) :
    wp (submit e point_id identifier actor_id key value) (fun _ s' => Moved s.intents s'.intents)
      (fun _ _ => True) s := by
  unfold submit
  rw [wp_bind, wp_raiseIf]
  refine ⟨fun _ => trivial, fun _ => ?_⟩
  rw [wp_bind, wp_read]
  split
  · simp only [wp_bind, wp_raiseIf, wp_pure]
    exact ⟨fun _ => trivial, fun _ => moved_same⟩
  next hnone =>
  simp only [wp_bind, wp_raiseIf, wp_orRaise, wp_write, wp_pure, ghi_nhat_ky]
  refine ⟨fun _ => trivial, fun _ => ⟨fun _ => trivial, fun point _ => ⟨fun _ => trivial, fun hfree =>
    ⟨fun _ => trivial, fun _ => ⟨?_, ?_⟩⟩⟩⟩⟩
  · refine .insert _ (fun x hx hid => List.find?_eq_none.mp hnone x hx (decide_eq_true hid)) ?_ rfl
    exact fun _ x hx hpoint hactive => absurd ⟨x, hx, hpoint, hactive⟩ hfree
  · rintro q ⟨x, hx, hq, hqueued⟩
    rcases List.mem_append.mp hx with hx | hx
    · exact ⟨x, hx, hq, hqueued⟩
    · rw [List.mem_singleton.mp hx] at hq
      cases hq

theorem request_reset_moves (ok : RowsOk s.intents) (point_id identifier reset_id actor_id : Uuid) :
    wp (request_reset e point_id identifier reset_id actor_id) (fun _ s' => IntentMove s.intents s'.intents ∧
      ∀ q, ResetQueued s'.intents q → ResetQueued s.intents q ∨ ∀ x ∈ s.intents, x.reset_id ≠ some q)
      (fun _ _ => True) s := by
  unfold request_reset
  simp only [wp_bind, wp_read, wp_orRaise]
  refine ⟨fun _ => trivial, fun point _ => ⟨fun _ => trivial, fun row hfind => ?_⟩⟩
  have hmem := List.mem_of_find?_eq_some hfind
  rw [wp_ite]
  refine ⟨fun _ => ?_, fun hnone => ?_⟩
  · simp only [wp_bind, wp_raiseIf, wp_pure]
    exact ⟨fun _ => trivial, fun _ => ⟨.same, fun _ h => .inl h⟩⟩
  rw [not_not] at hnone
  simp only [wp_bind, wp_raiseIf]
  refine ⟨fun _ => trivial, fun _ => ⟨fun _ => trivial, fun _ => ⟨fun _ => trivial, fun _ =>
    ⟨fun _ => trivial, fun hunused => ?_⟩⟩⟩⟩
  have hunused : ∀ x ∈ s.intents, x.reset_id ≠ some reset_id := fun x hx hq => hunused ⟨x, hx, .inl hq⟩
  refine wp_mono (saveIntent_spec _ s) (fun _ s' hdone => ?_) fun _ _ _ => trivial
  obtain ⟨halone, hs'⟩ := hdone
  simp only [ghi_nhat_ky, wp_bind, wp_write, wp_pure]
  rw [hs']
  refine ⟨@IntentMove.save s.intents row _ hmem ⟨rfl, fun q hq => ?_, fun h => by cases h⟩ halone (.inr fun x hx q hq => ?_),
    fun q hq => ?_⟩
  · rw [hnone] at hq
    cases hq
  · cases hq
    exact hunused x hx
  · obtain ⟨x, hx, hq, hqueued⟩ := hq
    rcases (Table.mem_modify_of_mem ok.keyed hmem rfl).mp hx with rfl | ⟨hx, -⟩
    · cases hq
      exact .inr hunused
    · exact .inl ⟨x, hx, hq, hqueued⟩

theorem finish_moves (ok : RowsOk s.intents) {now : ℤ} {state : IntentState} {outcome : IntentOutcome}
    {actual : Option String} (hstate : state ≠ .queued) :
    wp (finish now processing_id identifier state outcome actual) (fun _ s' => IntentMove s.intents s'.intents ∧
      ∀ q, ResetQueued s'.intents q → ResetQueued s.intents q ∨
        (outcome = .ResetQueued ∨ outcome = .ChargingBlocked) ∧
          ∃ row ∈ s.intents, row.id = identifier ∧ row.reset_id = some q) (fun _ _ => True) s := by
  unfold finish
  simp only [wp_bind, wp_read, wp_orRaise]
  refine ⟨fun _ => trivial, fun row hrow => ?_⟩
  obtain ⟨hmem, hid⟩ := intent_spec hrow
  rw [wp_ite]
  refine ⟨fun _ => ⟨.same, fun _ h => .inl h⟩, fun _ => ?_⟩
  rw [wp_bind]
  refine wp_mono (saveIntent_spec _ s) (fun _ s₁ hdone => ?_) fun _ _ _ => trivial
  obtain ⟨halone, hs₁⟩ := hdone
  have hdone : IntentMove s.intents s₁.intents ∧ ∀ q, ResetQueued s₁.intents q → ResetQueued s.intents q ∨
      (outcome = .ResetQueued ∨ outcome = .ChargingBlocked) ∧
        ∃ row ∈ s.intents, row.id = identifier ∧ row.reset_id = some q := by
    rw [hs₁]
    refine ⟨@IntentMove.save s.intents row _ hmem ⟨rfl, fun _ h => h, fun h => absurd h hstate⟩ halone (.inl rfl),
      fun q hq => ?_⟩
    rcases @resetQueued_save _ row (finished now state outcome actual row) q ok hmem rfl rfl hq with
      ⟨hreset, -, hout⟩ | ⟨-, hq⟩
    · refine .inr ⟨?_, row, hmem, hid, hreset⟩
      simpa [finished] using hout
    · exact .inl hq
  split
  · simp only [wp_bind, wp_write, ghi_nhat_ky]
    split <;> exact hdone
  · simp only [ghi_nhat_ky]
    split <;> exact hdone

/-- What the first transaction leaves to its worker: the write of a queued intent, a queued reset, or a readback. -/
def Claimed (identifier : Uuid) (rows rows' : List ConfigurationIntent) : Option Phase → Prop
  | none => True
  | some (.readOld _ _) => Queued rows identifier ∧ ¬ Queued rows' identifier
  | some (.checkBusy q) => ResetQueued rows q ∧ ¬ ResetQueued rows' q ∧
      ∃ row ∈ rows', row.id = identifier ∧ row.reset_id = some q
  | some (.verify _ _ _) => True
  | some _ => False

theorem leasedRow_update (now : ℤ) (processing_id : Uuid) (row : ConfigurationIntent) :
    Update row (leasedRow now processing_id row) ∧ (leasedRow now processing_id row).state ≠ .queued ∧
      ¬ (leasedRow now processing_id row).resetQueued := by
  have hstate : (leasedRow now processing_id row).state ≠ .queued := by
    unfold leasedRow
    simp only
    split
    · nofun
    · assumption
  have hreset : ¬ (leasedRow now processing_id row).resetQueued := by
    rintro ⟨hstate, hout⟩
    unfold leasedRow at hstate hout
    simp only at hstate hout
    split at hout
    · rcases hout with h | h <;> cases h
    · next hnot =>
      split at hstate
      · cases hstate
      · exact hnot ⟨hstate, hout⟩
  exact ⟨⟨⟨rfl, fun _ h => h, fun h => absurd h hstate⟩, rfl, fun h => absurd h hreset⟩, hstate, hreset⟩

theorem claim_moves (ok : RowsOk s.intents) :
    wp (claim e processing_id identifier)
      (fun next s' => Moved s.intents s'.intents ∧ Claimed identifier s.intents s'.intents next)
      (fun _ _ => True) s := by
  unfold claim
  rw [wp_bind, wp_read]
  split
  · exact ⟨moved_same, trivial⟩
  next row hrow =>
  obtain ⟨hmem, hid⟩ := intent_spec hrow
  rw [wp_ite]
  refine ⟨fun _ => ⟨moved_same, trivial⟩, fun _ => ?_⟩
  split
  · -- the charge point is archived
    have hup : Update row { row with
        state := if row.state = .queued then .failed else .needs_review, outcome := some .Archived, updated_at := e.now } := by
      refine ⟨⟨rfl, fun _ h => h, fun h => ?_⟩, rfl, fun h => ?_⟩
      · simp only at h
        split at h <;> cases h
      · have hstate := h.1
        simp only at hstate
        split at hstate <;> cases hstate
    rw [wp_bind]
    refine wp_mono (saveIntent_moves ok hmem hup) (fun _ s' h => ?_) fun _ _ _ => trivial
    exact ⟨h.1, trivial⟩
  rw [wp_ite]
  refine ⟨fun _ => ?_, fun _ => ?_⟩
  · dsimp only
    split
    · have hup : Update row { row with
          next_attempt_at := e.now + 10 * SECOND, state := .failed, outcome := some .Offline, updated_at := e.now } :=
        ⟨⟨rfl, fun _ h => h, fun h => by cases h⟩, rfl, fun h => by cases h.1⟩
      simp only [wp_bind]
      refine wp_mono (saveIntent_moves ok hmem hup) (fun _ s' h => ?_) fun _ _ _ => trivial
      exact ⟨h.1, trivial⟩
    · have hup : Update row { row with next_attempt_at := e.now + 10 * SECOND } :=
        ⟨⟨rfl, fun _ h => h, fun h => h⟩, rfl, fun h => h⟩
      simp only [wp_bind]
      refine wp_mono (saveIntent_moves ok hmem hup) (fun _ s' h => ?_) fun _ _ _ => trivial
      exact ⟨h.1, trivial⟩
  · obtain ⟨hup, hstate, hreset⟩ := leasedRow_update e.now processing_id row
    rw [wp_bind]
    refine wp_mono (saveIntent_moves ok hmem hup) (fun _ s' hdone => ?_) fun _ _ _ => trivial
    obtain ⟨hmoved, hs'⟩ := hdone
    refine ⟨hmoved, ?_⟩
    have hnew : leasedRow e.now processing_id row ∈ s'.intents := by
      rw [hs']
      exact (Table.mem_modify_of_mem ok.keyed hmem rfl).mpr (.inl rfl)
    have ok' := hmoved.1.ok ok
    unfold firstPhase
    split
    · next hqueued =>
      refine ⟨⟨row, hmem, hid, hqueued⟩, ?_⟩
      rintro ⟨x, hx, hxid, hxq⟩
      refine hstate ?_
      rwa [← ok'.keyed.eq hx hnew (hxid.trans hid.symm)]
    · split
      · next hqueued =>
        cases hq : row.reset_id with
        | none => exact trivial
        | some q =>
          refine ⟨⟨row, hmem, hq, hqueued⟩, ?_, _, hnew, hid, hq⟩
          rintro ⟨x, hx, hxq, hxqueued⟩
          refine hreset ?_
          rwa [← ok'.resets x hx _ hnew q hxq hq]
      · exact trivial

theorem dispatch_moves (ok : RowsOk s.intents) {key : String} {value : ℤ} {old : String} :
    wp (dispatch processing_id identifier key value old) (fun next s' => Moved s.intents s'.intents ∧
      (next = none ∨ next = some (.change key value old))) (fun _ _ => True) s := by
  unfold dispatch
  simp only [wp_bind, wp_read, wp_orRaise]
  refine ⟨fun _ => trivial, fun row hrow => ?_⟩
  rw [wp_ite]
  refine ⟨fun _ => ⟨moved_same, .inl rfl⟩, fun _ => ?_⟩
  have hup : Update row { row with old_value := some old } := ⟨⟨rfl, fun _ h => h, fun h => h⟩, rfl, fun h => h⟩
  rw [wp_bind]
  refine wp_mono (saveIntent_moves ok (intent_spec hrow).1 hup) (fun _ s' h => ?_) fun _ _ _ => trivial
  exact ⟨h.1, .inr rfl⟩

/-! ## 4. Steps of a worker -/

/-- What a transaction that raises leaves is what it found. -/
theorem inTransaction_state {α : Type} {x : ConfigTx α} {P : ConfigDb → Prop}
    (h : wp x (fun _ => P) (fun _ _ => True) s) (hsame : P s) : P (inTransaction x s).2 := by
  have hwp : wp (inTransaction x) (fun _ => P) (fun _ => P) s := by
    unfold inTransaction
    rw [wp_savepoint]
    exact wp_mono h (fun _ _ h => h) fun _ _ _ => hsame
  exact wp_state hwp

theorem transaction_spec {x : ConfigTx (Option Phase)} {Q : Option Phase → ConfigDb → Prop}
    (h : wp x Q (fun _ _ => True) s) (hnone : Q none s) : Q (transaction x s).2 (transaction x s).1 := by
  have hwp : wp (inTransaction x) Q (fun _ s' => Q none s') s := by
    unfold inTransaction
    rw [wp_savepoint]
    exact wp_mono h (fun _ _ h => h) fun _ _ _ => hnone
  unfold transaction
  obtain ⟨a, s', hrun, hq⟩ | ⟨err, s', hrun, hq⟩ := wp_run hwp
  · rw [hrun]
    exact hq
  · rw [hrun]
    exact hq

/-- What a phase was given is fit for the table. -/
def Fits (rows : List ConfigurationIntent) (identifier : Uuid) : Phase → Prop
  | .checkBusy q | .blocked q | .reset q => ∃ row ∈ rows, row.id = identifier ∧ row.reset_id = some q
  | .ask r => r.state ≠ .queued ∧ r.outcome ≠ .ResetQueued ∧ r.outcome ≠ .ChargingBlocked
  | .finish state outcome _ _ => state ≠ .queued ∧ outcome ≠ .ResetQueued ∧ outcome ≠ .ChargingBlocked
  | _ => True

theorem Fits.move {phase : Phase} (h : Fits rows i phase) (ok : RowsOk rows) (move : IntentMove rows rows') :
    Fits rows' i phase := by
  have hrow : ∀ q, (∃ row ∈ rows, row.id = i ∧ row.reset_id = some q) →
      ∃ row ∈ rows', row.id = i ∧ row.reset_id = some q := by
    rintro q ⟨row, hrow, hid, hq⟩
    obtain ⟨row', hrow', hkept⟩ := move.follow ok hrow
    exact ⟨row', hrow', hkept.id.trans hid, hkept.reset q hq⟩
  cases phase with
  | checkBusy q => exact hrow q h
  | blocked q => exact hrow q h
  | reset q => exact hrow q h
  | _ => exact h

theorem afterRead_fits (key : String) (value : ℤ) (reply : WireReply (Option ConfigurationReply)) :
    Fits rows i (afterRead key value reply) ∧
      ((∃ old, afterRead key value reply = .dispatch key value old) ∨
        ∃ outcome, afterRead key value reply = .finish .failed (.call outcome) none none) := by
  unfold afterRead
  split
  · exact ⟨⟨nofun, nofun, nofun⟩, .inr ⟨_, rfl⟩⟩
  · split
    · exact ⟨trivial, .inl ⟨_, rfl⟩⟩
    · exact ⟨⟨nofun, nofun, nofun⟩, .inr ⟨_, rfl⟩⟩

theorem afterChange_fits (key : String) (value : ℤ) (old : String) (o : CallOutcome) :
    ∃ state outcome actual next, afterChange key value old o = .finish state outcome actual next ∧
      Fits rows i (.finish state outcome actual next) := by
  cases o <;> exact ⟨_, _, _, _, rfl, nofun, nofun, nofun⟩

theorem afterReset_fits (o : CallOutcome) : ∃ state outcome actual next,
    afterReset o = .finish state outcome actual next ∧ Fits rows i (.finish state outcome actual next) := by
  cases o <;> exact ⟨_, _, _, _, rfl, nofun, nofun, nofun⟩

theorem verify_fits (key : String) (value : ℤ) (pending_reboot : Bool)
    (reply : WireReply (Option ConfigurationReply)) : Fits rows i (.ask (verify key value pending_reboot reply)) := by
  have hstate : ∀ (p : Prop) [Decidable p] (a b : IntentState), a ≠ .queued → b ≠ .queued →
      (if p then a else b) ≠ .queued := fun p _ a b ha hb => by split <;> assumption
  unfold verify
  split
  · exact ⟨hstate _ _ _ nofun (hstate _ _ _ nofun nofun), nofun, nofun⟩
  split
  · exact ⟨nofun, nofun, nofun⟩
  split
  · exact ⟨nofun, nofun, nofun⟩
  split
  · exact ⟨nofun, nofun, nofun⟩
  · exact ⟨hstate _ _ _ nofun nofun, nofun, nofun⟩

/-- The tokens that a worker holds. -/
def Worker.changeToken (i : Uuid) (k : Worker) : ℕ := if k.mayChange i then 1 else 0

def Worker.resetToken (q : Uuid) (k : Worker) : ℕ := if k.mayReset q then 1 else 0

/-- The tokens that a step leaves with the worker or puts on the wire. -/
def changeTokens (i : Uuid) (k : Worker) (step : ConfigDb × Option Phase × Option WireMessage) : ℕ :=
  (step.2.1.map fun phase => { k with phase }).toList.countP (·.mayChange i) + step.2.2.toList.countP (·.changes i)

def resetTokens (q : Uuid) (k : Worker) (step : ConfigDb × Option Phase × Option WireMessage) : ℕ :=
  (step.2.1.map fun phase => { k with phase }).toList.countP (·.mayReset q) + step.2.2.toList.countP (·.resets q)

/-- What a step does: the table moves, and each token that the worker has after it, it had before or took from
the table. -/
structure StepSpec (k : Worker) (rows : List ConfigurationIntent)
    (step : ConfigDb × Option Phase × Option WireMessage) : Prop where
  move : IntentMove rows step.1.intents
  fits : ∀ phase ∈ step.2.1, Fits step.1.intents k.identifier phase
  change : ∀ i, changeTokens i k step ≤ Worker.changeToken i k ∨
    changeTokens i k step ≤ 1 ∧ Queued rows i ∧ ¬ Queued step.1.intents i
  reset : ∀ q, resetTokens q k step ≤ Worker.resetToken q k ∨
    resetTokens q k step ≤ 1 ∧ ResetQueued rows q ∧ ¬ ResetQueued step.1.intents q
  -- a reset is queued by a worker that gives its token back
  back : ∀ q, ResetQueued step.1.intents q → ResetQueued rows q ∨
    Worker.resetToken q k = 1 ∧ resetTokens q k step = 0

/-- A step that only waits for the charger or the clock. -/
theorem StepSpec.wait {k : Worker} {next : Phase} {message : Option WireMessage}
    (fits : Fits s.intents k.identifier next)
    (change : ∀ i, changeTokens i k (s, some next, message) ≤ Worker.changeToken i k)
    (reset : ∀ q, resetTokens q k (s, some next, message) ≤ Worker.resetToken q k) :
    StepSpec k s.intents (s, some next, message) where
  move := .same
  fits := fun phase h => by cases h; exact fits
  change := fun i => .inl (change i)
  reset := fun q => .inl (reset q)
  back := fun _ h => .inl h

/-- A phase that ends the worker's turn holds no token. -/
theorem tokens_finish (k : Worker) (state : IntentState) (outcome : IntentOutcome) (actual : Option String)
    (next : Option (String × ℤ)) :
    (∀ i, changeTokens i k (s, some (.finish state outcome actual next), none) = 0) ∧
      ∀ q, resetTokens q k (s, some (.finish state outcome actual next), none) = 0 := by
  constructor <;> intro i <;> simp [changeTokens, resetTokens, Worker.mayChange, Worker.mayReset]

/-- A transaction after which the worker is done, or reads back. -/
theorem StepSpec.leave {k : Worker} {next : Option Phase} (move : IntentMove s.intents s'.intents)
    (ends : ∀ phase ∈ next, ∃ key value pending, phase = .verify key value pending)
    (back : ∀ q, ResetQueued s'.intents q → ResetQueued s.intents q ∨ Worker.resetToken q k = 1) :
    StepSpec k s.intents (s', next, none) := by
  have htokens : (∀ i, changeTokens i k (s', next, none) = 0) ∧ ∀ q, resetTokens q k (s', next, none) = 0 := by
    cases next with
    | none => exact ⟨fun _ => rfl, fun _ => rfl⟩
    | some phase =>
      obtain ⟨key, value, pending, rfl⟩ := ends phase rfl
      constructor <;> intro i <;> simp [changeTokens, resetTokens, Worker.mayChange, Worker.mayReset]
  refine ⟨move, fun phase h => ?_, fun i => .inl ?_, fun q => .inl ?_, fun q hq => ?_⟩
  · obtain ⟨key, value, pending, rfl⟩ := ends phase h
    exact trivial
  · rw [htokens.1]
    exact Nat.zero_le _
  · rw [htokens.2]
    exact Nat.zero_le _
  · exact (back q hq).imp_right fun h => ⟨h, htokens.2 q⟩

theorem finish_step (ok : RowsOk s.intents) {k : Worker} {state : IntentState} {outcome : IntentOutcome}
    {actual : Option String} {next : Option Phase} (hstate : state ≠ .queued)
    (hnext : ∀ phase ∈ next, ∃ key value pending, phase = .verify key value pending)
    (htoken : outcome = .ResetQueued ∨ outcome = .ChargingBlocked → ∀ q, ∀ row ∈ s.intents, row.id = k.identifier →
      row.reset_id = some q → Worker.resetToken q k = 1) :
    StepSpec k s.intents
      ((transaction ((fun _ => next) <$> finish e.now k.processing_id k.identifier state outcome actual) s).1,
        (transaction ((fun _ => next) <$> finish e.now k.processing_id k.identifier state outcome actual) s).2, none) := by
  have hwp : wp ((fun _ => next) <$> finish e.now k.processing_id k.identifier state outcome actual)
      (fun next' s' => (IntentMove s.intents s'.intents ∧ ∀ q, ResetQueued s'.intents q → ResetQueued s.intents q ∨
        (outcome = .ResetQueued ∨ outcome = .ChargingBlocked) ∧
          ∃ row ∈ s.intents, row.id = k.identifier ∧ row.reset_id = some q) ∧ (next' = none ∨ next' = next))
      (fun _ _ => True) s :=
    wp_map.mpr (wp_mono (finish_moves ok hstate) (fun _ _ h => ⟨h, .inr rfl⟩) fun _ _ _ => trivial)
  obtain ⟨⟨hmove, hback⟩, hended⟩ := transaction_spec hwp ⟨⟨.same, fun _ h => .inl h⟩, .inl rfl⟩
  refine .leave hmove (fun phase hphase => ?_) fun q hq => ?_
  · rcases hended with h | h <;> rw [h] at hphase
    · cases hphase
    · exact hnext phase hphase
  · refine (hback q hq).imp_right fun ⟨hout, row, hrow, hid, hreset⟩ => ?_
    exact htoken hout q row hrow hid hreset

theorem claim_step (ok : RowsOk s.intents) (processing_id identifier : Uuid) :
    StepSpec ⟨processing_id, identifier, .claim⟩ s.intents (Worker.step ⟨processing_id, identifier, .claim⟩ e s) := by
  have h := transaction_spec (@claim_moves s e processing_id identifier ok)
    ⟨moved_same, trivial⟩
  change StepSpec _ s.intents ((transaction (claim e processing_id identifier) s).1,
    (transaction (claim e processing_id identifier) s).2, none)
  generalize (transaction (claim e processing_id identifier) s).1 = s' at h ⊢
  generalize (transaction (claim e processing_id identifier) s).2 = next at h ⊢
  obtain ⟨⟨hmove, hquiet⟩, hclaimed⟩ := h
  rcases next with _ | phase
  · exact .leave hmove nofun fun q hq => .inl (hquiet q hq)
  cases phase with
  | readOld key value =>
    refine ⟨hmove, fun _ h => by cases h; exact trivial, fun i => ?_, fun q => .inl ?_, fun q hq => .inl (hquiet q hq)⟩
    · by_cases hi : identifier = i
      · subst hi
        exact .inr ⟨by simp [changeTokens, Worker.mayChange], hclaimed⟩
      · exact .inl (by simp [changeTokens, Worker.mayChange, hi])
    · simp [resetTokens, Worker.mayReset]
  | checkBusy q₀ =>
    obtain ⟨hq, hnot, hrow⟩ := hclaimed
    refine ⟨hmove, fun _ h => by cases h; exact hrow, fun i => .inl ?_, fun q => ?_, fun q hq => .inl (hquiet q hq)⟩
    · simp [changeTokens, Worker.mayChange]
    · by_cases hi : q₀ = q
      · subst hi
        exact .inr ⟨by simp [resetTokens, Worker.mayReset], hq, hnot⟩
      · exact .inl (by simp [resetTokens, Worker.mayReset, hi])
  | verify key value pending =>
    exact .leave hmove (fun _ h => by cases h; exact ⟨_, _, _, rfl⟩) fun q hq => .inl (hquiet q hq)
  | _ => exact hclaimed.elim

theorem step_spec (ok : RowsOk s.intents) (k : Worker) (hfit : Fits s.intents k.identifier k.phase) :
    StepSpec k s.intents (k.step e s) := by
  obtain ⟨processing_id, identifier, phase⟩ := k
  cases phase with
  | claim => exact claim_step ok processing_id identifier
  | readOld key value =>
    obtain ⟨hfits, hnext⟩ := @afterRead_fits s.intents identifier key value e.keys
    refine .wait hfits (fun i => ?_) fun q => ?_
    · rcases hnext with ⟨old, h⟩ | ⟨outcome, h⟩ <;> rw [h] <;>
        simp [changeTokens, Worker.changeToken, Worker.mayChange]
    · rcases hnext with ⟨old, h⟩ | ⟨outcome, h⟩ <;> rw [h] <;>
        simp [resetTokens, Worker.resetToken, Worker.mayReset]
  | dispatch key value old =>
    have h := transaction_spec (@dispatch_moves s processing_id identifier ok key value old) ⟨moved_same, .inl rfl⟩
    change StepSpec _ s.intents ((transaction (Ocpp.dispatch processing_id identifier key value old) s).1,
      (transaction (Ocpp.dispatch processing_id identifier key value old) s).2, none)
    obtain ⟨⟨hmove, hquiet⟩, hnext | hnext⟩ := h <;> rw [hnext]
    · exact .leave hmove nofun fun q hq => .inl (hquiet q hq)
    · refine ⟨hmove, fun _ h => by cases h; exact trivial, fun i => .inl ?_, fun q => .inl ?_, fun q hq => .inl (hquiet q hq)⟩
      · simp [changeTokens, Worker.changeToken, Worker.mayChange]
      · simp [resetTokens, Worker.mayReset]
  | change key value old =>
    refine .wait trivial (fun i => ?_) fun q => ?_
    · simp [changeTokens, Worker.changeToken, Worker.mayChange, WireMessage.changes]
    · simp [resetTokens, Worker.mayReset, WireMessage.resets]
  | changeReply key value old =>
    obtain ⟨state, outcome, actual, next, heq, hfits⟩ :=
      @afterChange_fits s.intents identifier key value old (configuration_call e.status)
    change StepSpec _ s.intents (s, some (afterChange key value old (configuration_call e.status)), none)
    rw [heq]
    have htokens := @tokens_finish s ⟨processing_id, identifier, .changeReply key value old⟩ state outcome actual next
    exact .wait hfits (fun i => (htokens.1 i).le.trans (Nat.zero_le _)) fun q => (htokens.2 q).le.trans (Nat.zero_le _)
  | checkBusy q₀ =>
    change StepSpec _ s.intents (s, some (if e.busy = true then .blocked q₀ else .reset q₀), none)
    split
    · refine .wait hfit (fun i => ?_) fun q => ?_
      · simp [changeTokens, Worker.mayChange]
      · simp [resetTokens, Worker.resetToken, Worker.mayReset]
    · refine .wait hfit (fun i => ?_) fun q => ?_
      · simp [changeTokens, Worker.mayChange]
      · simp [resetTokens, Worker.resetToken, Worker.mayReset]
  | blocked q₀ =>
    obtain ⟨row₀, hrow₀, hid₀, hreset₀⟩ := hfit
    refine finish_step ok nofun nofun fun _ q row hrow hid hreset => ?_
    obtain rfl := ok.keyed.eq hrow hrow₀ (hid.trans hid₀.symm)
    cases hreset.symm.trans hreset₀
    simp [Worker.resetToken, Worker.mayReset]
  | reset q₀ =>
    refine .wait trivial (fun i => ?_) fun q => ?_
    · simp [changeTokens, Worker.mayChange, WireMessage.changes]
    · simp [resetTokens, Worker.resetToken, Worker.mayReset, WireMessage.resets]
  | resetReply =>
    obtain ⟨state, outcome, actual, next, heq, hfits⟩ :=
      @afterReset_fits s.intents identifier (configuration_call e.status)
    change StepSpec _ s.intents (s, some (afterReset (configuration_call e.status)), none)
    rw [heq]
    have htokens := @tokens_finish s ⟨processing_id, identifier, .resetReply⟩ state outcome actual next
    exact .wait hfits (fun i => (htokens.1 i).le.trans (Nat.zero_le _)) fun q => (htokens.2 q).le.trans (Nat.zero_le _)
  | verify key value pending =>
    refine .wait (verify_fits key value pending e.keys) (fun i => ?_) fun q => ?_
    · simp [changeTokens, Worker.mayChange]
    · simp [resetTokens, Worker.mayReset]
  | ask r =>
    obtain ⟨hstate, hout⟩ := hfit
    have htokens := @tokens_finish s ⟨processing_id, identifier, .ask r⟩
    refine .wait ⟨?_, hout⟩ (fun i => ((htokens _ _ _ _).1 i).le.trans (Nat.zero_le _)) fun q =>
      ((htokens _ _ _ _).2 q).le.trans (Nat.zero_le _)
    split
    · nofun
    · exact hstate
  | finish state outcome actual next =>
    obtain ⟨hstate, hqueued, hblocked⟩ := hfit
    refine finish_step ok hstate (fun phase hphase => ?_) fun hout => (hout.elim hqueued hblocked).elim
    obtain ⟨t, -, rfl⟩ := Option.map_eq_some_iff.mp hphase
    exact ⟨_, _, _, rfl⟩

end AtMostOnceLemmas

/-! ## 5. Runs keep the tokens -/

open AtMostOnceLemmas

/-- The invariant: a token is out once at most, and then neither its intent nor its reset is queued. -/
structure ConfigOk (w : World) : Prop where
  rows : RowsOk w.db.intents
  fits : ∀ k ∈ w.workers, Fits w.db.intents k.identifier k.phase
  change : ∀ i, w.changes i ≤ 1
  change_row : ∀ i, 0 < w.changes i → (∃ r ∈ w.db.intents, r.id = i) ∧ ¬ Queued w.db.intents i
  reset : ∀ q, w.resets q ≤ 1
  reset_row : ∀ q, 0 < w.resets q → (∃ r ∈ w.db.intents, r.reset_id = some q) ∧ ¬ ResetQueued w.db.intents q

variable {w w' : World}

namespace AtMostOnceLemmas

theorem countP_erase_add {k : Worker} (h : k ∈ w.workers) (p : Worker → Bool) :
    w.workers.countP p = (w.workers.erase k).countP p + if p k then 1 else 0 := by
  rw [(List.perm_cons_erase h).countP_eq, List.countP_cons]

theorem advance_changes {k : Worker} (h : k ∈ w.workers) (e : Event) (i : Uuid) :
    (w.advance k e).changes i + Worker.changeToken i k = w.changes i + changeTokens i k (k.step e w.db) := by
  have hcount := countP_erase_add h (·.mayChange i)
  simp only [World.changes, World.advance, Worker.changeToken, changeTokens, List.countP_append]
  omega

theorem advance_resets {k : Worker} (h : k ∈ w.workers) (e : Event) (q : Uuid) :
    (w.advance k e).resets q + Worker.resetToken q k = w.resets q + resetTokens q k (k.step e w.db) := by
  have hcount := countP_erase_add h (·.mayReset q)
  simp only [World.resets, World.advance, Worker.resetToken, resetTokens, List.countP_append]
  omega

/-- An intent stays, and is queued only if it was. -/
theorem change_row_move {rows rows' : List ConfigurationIntent} {i : Uuid} (ok : RowsOk rows)
    (move : IntentMove rows rows') (h : (∃ r ∈ rows, r.id = i) ∧ ¬ Queued rows i) :
    (∃ r ∈ rows', r.id = i) ∧ ¬ Queued rows' i := by
  obtain ⟨⟨r, hr, hid⟩, hnot⟩ := h
  obtain ⟨r', hr', hkept⟩ := move.follow ok hr
  exact ⟨⟨r', hr', hkept.id.trans hid⟩, fun hq => hnot (move.queued ok ⟨r, hr, hid⟩ hq)⟩

theorem reset_stays {rows rows' : List ConfigurationIntent} {q : Uuid} (ok : RowsOk rows)
    (move : IntentMove rows rows') (h : ∃ r ∈ rows, r.reset_id = some q) : ∃ r ∈ rows', r.reset_id = some q := by
  obtain ⟨r, hr, hq⟩ := h
  obtain ⟨r', hr', hkept⟩ := move.follow ok hr
  exact ⟨r', hr', hkept.reset q hq⟩

/-- A transaction of an administrator: no worker moves. -/
theorem ok_of_move (h : ConfigOk w) {db : ConfigDb} (move : IntentMove w.db.intents db.intents)
    (hreset : ∀ q, ResetQueued db.intents q → ResetQueued w.db.intents q ∨ ∀ x ∈ w.db.intents, x.reset_id ≠ some q) :
    ConfigOk { w with db } := by
  refine ⟨move.ok h.rows, fun k hk => (h.fits k hk).move h.rows move, h.change, fun i hi => ?_, h.reset, fun q hq => ?_⟩
  · exact change_row_move h.rows move (h.change_row i hi)
  · obtain ⟨hrow, hnot⟩ := h.reset_row q hq
    refine ⟨reset_stays h.rows move hrow, fun hqueued => ?_⟩
    rcases hreset q hqueued with hold | hunused
    · exact hnot hold
    · obtain ⟨r, hr, hrq⟩ := hrow
      exact hunused r hr hrq

/-- Fewer workers, or one that holds no token. -/
theorem ok_of_workers (h : ConfigOk w) {workers : List Worker}
    (hfits : ∀ k ∈ workers, Fits w.db.intents k.identifier k.phase)
    (hchange : ∀ i, workers.countP (·.mayChange i) ≤ w.workers.countP (·.mayChange i))
    (hreset : ∀ q, workers.countP (·.mayReset q) ≤ w.workers.countP (·.mayReset q)) :
    ConfigOk { w with workers } := by
  have hc : ∀ i, World.changes { w with workers } i ≤ w.changes i := fun i => Nat.add_le_add_left (hchange i) _
  have hr : ∀ q, World.resets { w with workers } q ≤ w.resets q := fun q => Nat.add_le_add_left (hreset q) _
  exact ⟨h.rows, hfits, fun i => (hc i).trans (h.change i), fun i hi => h.change_row i (hi.trans_le (hc i)),
    fun q => (hr q).trans (h.reset q), fun q hq => h.reset_row q (hq.trans_le (hr q))⟩

theorem advance_ok (h : ConfigOk w) {k : Worker} (mem : k ∈ w.workers) (e : Event) : ConfigOk (w.advance k e) := by
  have spec := step_spec (e := e) h.rows k (h.fits k mem)
  have hcount := advance_changes mem e
  have hcount' := advance_resets mem e
  -- a queued intent has no token out
  have hnone : ∀ i, Queued w.db.intents i → w.changes i = 0 := fun i hq =>
    Nat.eq_zero_of_not_pos fun hpos => (h.change_row i hpos).2 hq
  have hnone' : ∀ q, ResetQueued w.db.intents q → w.resets q = 0 := fun q hq =>
    Nat.eq_zero_of_not_pos fun hpos => (h.reset_row q hpos).2 hq
  refine ⟨spec.move.ok h.rows, ?_, fun i => ?_, fun i hi => ?_, fun q => ?_, fun q hq => ?_⟩
  · intro k' hk'
    rcases List.mem_append.mp hk' with hk' | hk'
    · exact (h.fits k' (List.mem_of_mem_erase hk')).move h.rows spec.move
    · obtain ⟨phase, hphase, rfl⟩ := Option.map_eq_some_iff.mp (Option.mem_toList.mp hk')
      exact spec.fits phase hphase
  · have hle := h.change i
    rcases spec.change i with hc | ⟨hc, hq, -⟩
    · have := hcount i
      omega
    · have := hcount i
      have := hnone i hq
      omega
  · by_cases hpos : 0 < w.changes i
    · exact change_row_move h.rows spec.move (h.change_row i hpos)
    · rcases spec.change i with hc | ⟨-, hq, hnot⟩
      · have := hcount i
        omega
      · obtain ⟨r, hr, hid, -⟩ := hq
        obtain ⟨r', hr', hkept⟩ := spec.move.follow h.rows hr
        exact ⟨⟨r', hr', hkept.id.trans hid⟩, hnot⟩
  · have hle := h.reset q
    rcases spec.reset q with hc | ⟨hc, hq, -⟩
    · have := hcount' q
      omega
    · have := hcount' q
      have := hnone' q hq
      omega
  · have hle := h.reset q
    have hsum := hcount' q
    rcases spec.reset q with hc | ⟨-, hqueued, hnot⟩
    · have hpos : 0 < w.resets q := by omega
      obtain ⟨hrow, hnot⟩ := h.reset_row q hpos
      refine ⟨reset_stays h.rows spec.move hrow, fun hqueued => ?_⟩
      rcases spec.back q hqueued with hold | ⟨hone, hzero⟩
      · exact hnot hold
      · omega
    · obtain ⟨r, hr, hid, -⟩ := hqueued
      exact ⟨reset_stays h.rows spec.move ⟨r, hr, hid⟩, hnot⟩

theorem step_ok (h : ConfigOk w) (step : Step w w') : ConfigOk w' := by
  cases step with
  | submit e point_id identifier actor_id key value =>
    have hmoved := inTransaction_state (P := fun s => Moved w.db.intents s.intents)
      (submit_moves (e := e) point_id identifier actor_id key value w.db) moved_same
    exact ok_of_move h hmoved.1 fun q hq => .inl (hmoved.2 q hq)
  | request_reset e point_id identifier reset_id actor_id =>
    have hmoved := inTransaction_state (P := fun s => IntentMove w.db.intents s.intents ∧ ∀ q,
      ResetQueued s.intents q → ResetQueued w.db.intents q ∨ ∀ x ∈ w.db.intents, x.reset_id ≠ some q)
      (request_reset_moves (e := e) h.rows point_id identifier reset_id actor_id) ⟨.same, fun _ hq => .inl hq⟩
    exact ok_of_move h hmoved.1 hmoved.2
  | process processing_id identifier =>
    refine ok_of_workers h (fun k hk => ?_) (fun i => ?_) fun q => ?_
    · rcases List.mem_append.mp hk with hk | hk
      · exact h.fits k hk
      · rw [List.mem_singleton.mp hk]
        exact trivial
    · rw [List.countP_append]
      rfl
    · rw [List.countP_append]
      rfl
  | advance k mem e => exact advance_ok h mem e
  | crash k =>
    exact ok_of_workers h (fun k' hk' => h.fits k' (List.mem_of_mem_erase hk'))
      (fun _ => List.erase_sublist.countP_le) fun _ => List.erase_sublist.countP_le
  | rest points audit_logs => exact ⟨h.rows, h.fits, h.change, h.change_row, h.reset, h.reset_row⟩

theorem reach_ok (run : Reach w w') (h : ConfigOk w) : ConfigOk w' := by
  induction run with
  | refl => exact h
  | tail _ step ih => exact step_ok ih step

theorem ConfigOk.of_fresh (h : w.Fresh) : ConfigOk w := by
  have hchange : ∀ i, w.changes i = 0 := fun i => by simp [World.changes, h.workers, h.wire]
  have hreset : ∀ q, w.resets q = 0 := fun q => by simp [World.resets, h.workers, h.wire]
  refine ⟨?_, ?_, fun i => ?_, fun i hi => ?_, fun q => ?_, fun q hq => ?_⟩
  · rw [h.intents]
    refine ⟨.nil, ?_, ?_⟩ <;> intro a ha <;> cases ha
  · rw [h.workers]
    intro k hk
    cases hk
  · rw [hchange]
    exact Nat.zero_le _
  · rw [hchange] at hi
    cases hi
  · rw [hreset]
    exact Nat.zero_le _
  · rw [hreset] at hq
    cases hq

theorem finish_stale {s : ConfigDb} {row : ConfigurationIntent} {processing_id identifier : Uuid} {now : ℤ}
    {state : IntentState} {outcome : IntentOutcome} {actual : Option String} (hrow : s.intent identifier = some row)
    (hstale : row.processing_id ≠ some processing_id) :
    finish now processing_id identifier state outcome actual s = (.ok (), s) := by
  have hwp : wp (finish now processing_id identifier state outcome actual) (fun _ s' => s' = s) (fun _ _ => False) s := by
    unfold finish
    simp only [wp_bind, wp_read, wp_orRaise]
    refine ⟨fun hnone => ?_, fun x hx => ?_⟩
    · rw [hrow] at hnone
      cases hnone
    · cases hrow.symm.trans hx
      rw [if_pos hstale]
      exact rfl
  obtain ⟨_, s', hrun, rfl⟩ | ⟨_, _, _, hfalse⟩ := wp_run hwp
  · exact hrun
  · exact hfalse.elim

end AtMostOnceLemmas

/-- In every state that is reached: no two intents of a charge point are active, the ChangeConfiguration of an
intent and the Reset of a reset id were put on the wire once at most, and `finish` of a worker that is not the
last to have leased its row changes nothing. -/
theorem configuration_at_most_once {w₀ w : World} (fresh : w₀.Fresh) (run : Reach w₀ w) :
    (∀ a ∈ w.db.intents, ∀ b ∈ w.db.intents, a.state.active = true → b.state.active = true →
      a.charge_point_id = b.charge_point_id → a = b) ∧
    (∀ i, w.wire.countP (·.changes i) ≤ 1) ∧ (∀ q, w.wire.countP (·.resets q) ≤ 1) ∧
    ∀ row ∈ w.db.intents, ∀ processing_id, row.processing_id ≠ some processing_id → ∀ now state outcome actual,
      finish now processing_id row.id state outcome actual w.db = (.ok (), w.db) := by
  have hok := reach_ok run (ConfigOk.of_fresh fresh)
  refine ⟨hok.rows.active, fun i => ?_, fun q => ?_, fun row hrow processing_id hstale now state outcome actual => ?_⟩
  · exact (Nat.le_add_right _ _).trans (hok.change i)
  · exact (Nat.le_add_right _ _).trans (hok.reset q)
  · have hfind : w.db.intent row.id = some row := by
      cases h : w.db.intent row.id with
      | none => exact absurd (decide_eq_true rfl) (List.find?_eq_none.mp h row hrow)
      | some x =>
        obtain ⟨hx, hid⟩ := intent_spec h
        rw [hok.rows.keyed.eq hx hrow hid]
    exact finish_stale hfind hstale

/-! ## 6. A worker that is overtaken -/

namespace Overtaken

def point : Uuid := .sample 1
def intent : Uuid := .sample 2
def actor : Uuid := .sample 3
def first : Uuid := .sample 4
def second : Uuid := .sample 5

/-- A charger that answers its first readback and no write. -/
def event (at_second : ℤ) : Event where
  now := at_second * SECOND
  clock := at_second * SECOND
  connected := true
  locked := false
  busy := false
  keys := .result (some ⟨[⟨"HeartbeatInterval", false, some "60"⟩], []⟩)
  status := .timeout

def world : World := ⟨⟨[⟨point, false, some 0, 3600⟩], [], []⟩, [], []⟩

/-- An interval of 300 seconds is submitted. -/
def submitted : World :=
  { world with db := (inTransaction (submit (event 0) point intent actor "HeartbeatInterval" 300) world.db).2 }

def withWorker (processing_id : Uuid) (w : World) : World :=
  { w with workers := w.workers ++ [⟨processing_id, intent, .claim⟩] }

/-- The worker with this processing id takes a step. -/
def advance (processing_id : Uuid) (at_second : ℤ) (w : World) : World :=
  match w.workers.find? (·.processing_id = processing_id) with
  | some k => w.advance k (event at_second)
  | none => w

/-- The first worker writes the interval and waits. -/
def written : World := advance first 4 (advance first 3 (advance first 2 (advance first 1 (withWorker first submitted))))

/-- Its lease is over, and the second one leases the row. -/
def overtaken : World := advance second 200 (withWorker second written)

theorem reach_advance {w₀ w : World} (h : Reach w₀ w) (processing_id : Uuid) (at_second : ℤ) :
    Reach w₀ (advance processing_id at_second w) := by
  unfold advance
  split
  · next k hk => exact h.tail (.advance k (List.mem_of_find?_eq_some hk) _)
  · exact h

theorem reach_withWorker {w₀ w : World} (h : Reach w₀ w) (processing_id : Uuid) :
    Reach w₀ (withWorker processing_id w) :=
  h.tail (.process processing_id intent)

theorem reach_overtaken : Reach world overtaken := by
  have hsubmitted : Reach world submitted := .single (.submit (event 0) point intent actor "HeartbeatInterval" 300)
  have hclaimed := reach_advance (reach_withWorker hsubmitted first) first 1
  have hwritten : Reach world written := reach_advance (reach_advance (reach_advance hclaimed first 2) first 3) first 4
  exact reach_advance (reach_withWorker hwritten second) second 200

end Overtaken

open Overtaken in
/-- The first worker wrote once; the row is the second's, and the first cannot finish it. -/
theorem configuration_at_most_once_overtaken : overtaken.wire.countP (·.changes intent) = 1 ∧
    ∃ row ∈ overtaken.db.intents, row.processing_id = some second ∧
      finish (200 * SECOND) first row.id .failed (.call .Timeout) none overtaken.db = (.ok (), overtaken.db) := by
  have hrow : ∃ row ∈ overtaken.db.intents, row.processing_id = some second := by decide +kernel
  obtain ⟨row, hmem, hsecond⟩ := hrow
  have hsafe := configuration_at_most_once (⟨rfl, rfl, rfl⟩ : world.Fresh) reach_overtaken
  have hsent : 1 ≤ overtaken.wire.countP (·.changes intent) := by decide +kernel
  have hne : row.processing_id ≠ some first := by
    rw [hsecond]
    decide
  exact ⟨le_antisymm (hsafe.2.1 intent) hsent, row, hmem, hsecond, hsafe.2.2.2 row hmem first hne _ _ _ _⟩

end Csms.Ocpp
