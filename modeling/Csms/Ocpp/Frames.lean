import Csms.Lib.Json

/-!
# OCPP frames (`ocpp/frames.py`)

The envelopes of calls, results and errors. `json.loads` and `json.dumps` are a parameter.

Result: `frame_codec`: `decode_frame` accepts three shapes, and is the inverse of `encode_frame`.
-/

namespace Csms.Ocpp

/-! ## 1. The code -/

/-- `json.loads` and `json.dumps`. `none` is a ValueError or a RecursionError. -/
structure JsonCodec (F : Type) where
  finite : F → Prop
  loads : Str → Option (Json F)
  dumps : Json F → Option Str

/-- A text of a finite value is read back, and a dictionary has no key twice. -/
structure JsonCodec.Lawful {F : Type} (codec : JsonCodec F) : Prop where
  loads_dumps : ∀ {v}, Json.Finite codec.finite v → Json.Distinct v → ∃ raw, codec.dumps v = some raw ∧ codec.loads raw = some v
  distinct : ∀ {raw v}, codec.loads raw = some v → Json.Distinct v

structure FrameError where
  message_id : Str
  code : String
  description : String
  deriving DecidableEq, Repr

/-- The tags 2, 3 and 4. -/
inductive Kind where
  | call | result | error
  deriving DecidableEq, Repr

def Kind.tag : Kind → ℤ
  | .call => 2
  | .result => 3
  | .error => 4

/-- `value[0] in (2, 3, 4)`. -/
def Kind.ofTag (n : ℤ) : Option Kind :=
  if n = 2 then some .call else if n = 3 then some .result else if n = 4 then some .error else none

/-- `{2: 4, 3: 3, 4: 5}[kind]`. -/
def Kind.expected : Kind → ℕ
  | .call => 4
  | .result => 3
  | .error => 5

structure Frame (F : Type) where
  kind : Kind
  message_id : Str
  payload : List (Str × Json F)
  action : Str := []
  error_code : Str := []
  description : Str := []

variable {F : Type}

/-- The list that `encode_frame` dumps. -/
def Frame.value (frame : Frame F) : Json F :=
  match frame.kind with
  | .call => .array [.int 2, .str frame.message_id, .str frame.action, .object frame.payload]
  | .result => .array [.int 3, .str frame.message_id, .object frame.payload]
  | .error =>
    .array [.int 4, .str frame.message_id, .str frame.error_code, .str frame.description, .object frame.payload]

def encode_frame (codec : JsonCodec F) (frame : Frame F) : Option Str := codec.dumps frame.value

def error_frame (codec : JsonCodec F) (message_id code description : Str) : Option Str :=
  encode_frame codec { kind := .error, message_id, payload := [], error_code := code, description }

/-- `value[1] if isinstance(value, list) and len(value) > 1 and isinstance(value[1], str) else ""`. -/
def uidOf (value : Json F) : Str :=
  match value with
  | .array (_ :: .str uid :: _) => uid
  | _ => []

/-- The items of a list that starts with a tag. -/
def tagged (value : Json F) : Option (Kind × List (Json F)) :=
  match value with
  | .array (.int n :: items) => (Kind.ofTag n).map fun kind => (kind, .int n :: items)
  | _ => none

/-- The payload, and the other fields of the frame. -/
def decodeFields (kind : Kind) (uid : Str) (items : List (Json F)) :
    Except FrameError (Option (Json F) × Str × Str × Str) :=
  match kind with
  | .call =>
    match items[2]? with
    | some (Json.str action) =>
      if action = [] then .error ⟨uid, "TypeConstraintViolation", "Action must be a string"⟩
      else .ok (items[3]?, action, [], [])
    | _ => .error ⟨uid, "TypeConstraintViolation", "Action must be a string"⟩
  | .result => .ok (items[2]?, [], [], [])
  | .error =>
    match items[2]?, items[3]? with
    | some (Json.str error_code), some (Json.str description) =>
      if error_code = [] then .error ⟨uid, "TypeConstraintViolation", "Invalid error fields"⟩
      else .ok (items[4]?, [], error_code, description)
    | _, _ => .error ⟨uid, "TypeConstraintViolation", "Invalid error fields"⟩

def decodeValue (value : Json F) : Except FrameError (Frame F) :=
  let uid := uidOf value
  match tagged value with
  | none => .error ⟨uid, "FormationViolation", "Invalid message type"⟩
  | some (kind, items) =>
    if uid = [] ∨ 36 < uid.length then .error ⟨uid.take 36, "FormationViolation", "Invalid message identifier"⟩
    else if items.length ≠ kind.expected then .error ⟨uid, "FormationViolation", "Invalid frame length"⟩
    else
      match decodeFields kind uid items with
      | .error e => .error e
      | .ok (some (.object payload), action, error_code, description) =>
        .ok { kind, message_id := uid, payload, action, error_code, description }
      | .ok _ => .error ⟨uid, "TypeConstraintViolation", "Payload must be an object"⟩

def decode_frame (codec : JsonCodec F) (raw : Str) : Except FrameError (Frame F) :=
  match codec.loads raw with
  | none => .error ⟨[], "FormationViolation", "Invalid JSON frame"⟩
  | some value => decodeValue value

/-! ## 2. The grammar -/

/-- The values of the three shapes. -/
inductive IsFrame : Json F → Prop
  | call (id action : Str) (payload : List (Str × Json F)) (nonempty : id ≠ []) (short : id.length ≤ 36)
      (named : action ≠ []) : IsFrame (.array [.int 2, .str id, .str action, .object payload])
  | result (id : Str) (payload : List (Str × Json F)) (nonempty : id ≠ []) (short : id.length ≤ 36) :
      IsFrame (.array [.int 3, .str id, .object payload])
  | error (id code description : Str) (payload : List (Str × Json F)) (nonempty : id ≠ []) (short : id.length ≤ 36)
      (named : code ≠ []) : IsFrame (.array [.int 4, .str id, .str code, .str description, .object payload])

/-- A frame of one of the three shapes, whose other fields are empty. -/
inductive Frame.WellFormed : Frame F → Prop
  | call (id action : Str) (payload : List (Str × Json F)) (nonempty : id ≠ []) (short : id.length ≤ 36)
      (named : action ≠ []) : WellFormed { kind := .call, message_id := id, payload, action }
  | result (id : Str) (payload : List (Str × Json F)) (nonempty : id ≠ []) (short : id.length ≤ 36) :
      WellFormed { kind := .result, message_id := id, payload }
  | error (id code description : Str) (payload : List (Str × Json F)) (nonempty : id ≠ []) (short : id.length ≤ 36)
      (named : code ≠ []) : WellFormed { kind := .error, message_id := id, payload, error_code := code, description }

namespace FramesLemmas

theorem decodeValue_value {frame : Frame F} (h : frame.WellFormed) : decodeValue frame.value = .ok frame := by
  cases h with
  | call id action payload nonempty short named =>
    simp [decodeValue, Frame.value, uidOf, tagged, Kind.ofTag, Kind.expected, decodeFields, nonempty, short, named]
  | result id payload nonempty short =>
    simp [decodeValue, Frame.value, uidOf, tagged, Kind.ofTag, Kind.expected, decodeFields, nonempty, short]
  | error id code description payload nonempty short named =>
    simp [decodeValue, Frame.value, uidOf, tagged, Kind.ofTag, Kind.expected, decodeFields, nonempty, short, named]

theorem tagged_spec {value : Json F} {kind : Kind} {items : List (Json F)} (h : tagged value = some (kind, items)) :
    value = .array items ∧ items.head? = some (.int kind.tag) := by
  unfold tagged at h
  split at h
  · next n rest =>
    obtain ⟨k, hk, heq⟩ := Option.map_eq_some_iff.mp h
    cases heq
    refine ⟨rfl, ?_⟩
    unfold Kind.ofTag at hk
    split at hk
    · next hn => cases hk; rw [hn]; rfl
    split at hk
    · next hn => cases hk; rw [hn]; rfl
    split at hk
    · next hn => cases hk; rw [hn]; rfl
    · cases hk
  · cases h

/-- The fields that the rest of the items give, by kind. -/
theorem decodeFields_spec {kind : Kind} {uid : Str} {items : List (Json F)} {payload : List (Str × Json F)}
    {action error_code description : Str}
    (h : decodeFields kind uid items = .ok (some (.object payload), action, error_code, description)) :
    (kind = .call ∧ items[2]? = some (.str action) ∧ items[3]? = some (.object payload) ∧ action ≠ [] ∧
        error_code = [] ∧ description = []) ∨
      (kind = .result ∧ items[2]? = some (.object payload) ∧ action = [] ∧ error_code = [] ∧ description = []) ∨
      (kind = .error ∧ items[2]? = some (.str error_code) ∧ items[3]? = some (.str description) ∧
        items[4]? = some (.object payload) ∧ error_code ≠ [] ∧ action = []) := by
  cases kind with
  | call =>
    simp only [decodeFields] at h
    split at h
    · next name hname =>
      split at h
      · cases h
      next hne =>
      simp only [Except.ok.injEq, Prod.mk.injEq] at h
      obtain ⟨hpayload, rfl, rfl, rfl⟩ := h
      exact .inl ⟨rfl, hname, hpayload, hne, rfl, rfl⟩
    · cases h
  | result =>
    simp only [decodeFields, Except.ok.injEq, Prod.mk.injEq] at h
    obtain ⟨hpayload, rfl, rfl, rfl⟩ := h
    exact .inr (.inl ⟨rfl, hpayload, rfl, rfl, rfl⟩)
  | error =>
    simp only [decodeFields] at h
    split at h
    · next code text hcode htext =>
      split at h
      · cases h
      next hne =>
      simp only [Except.ok.injEq, Prod.mk.injEq] at h
      obtain ⟨hpayload, rfl, rfl, rfl⟩ := h
      exact .inr (.inr ⟨rfl, hcode, htext, hpayload, hne, rfl⟩)
    · cases h

theorem exists_of_isFrame {value : Json F} (h : IsFrame value) : ∃ frame : Frame F, frame.WellFormed ∧ value = frame.value := by
  cases h with
  | call id action payload nonempty short named => exact ⟨_, .call id action payload nonempty short named, rfl⟩
  | result id payload nonempty short => exact ⟨_, .result id payload nonempty short, rfl⟩
  | error id code description payload nonempty short named =>
    exact ⟨_, .error id code description payload nonempty short named, rfl⟩

theorem finite_value {finite : F → Prop} (frame : Frame F) (h : Json.Finite finite (.object frame.payload)) :
    Json.Finite finite frame.value := by
  unfold Frame.value
  split <;> refine .array fun v hv => ?_ <;> simp only [List.mem_cons, List.not_mem_nil, or_false] at hv
  · rcases hv with rfl | rfl | rfl | rfl
    exacts [.int 2, .str _, .str _, h]
  · rcases hv with rfl | rfl | rfl
    exacts [.int 3, .str _, h]
  · rcases hv with rfl | rfl | rfl | rfl | rfl
    exacts [.int 4, .str _, .str _, .str _, h]

theorem distinct_value (frame : Frame F) (h : Json.Distinct (.object frame.payload)) : Json.Distinct frame.value := by
  unfold Frame.value
  split <;> refine .array fun v hv => ?_ <;> simp only [List.mem_cons, List.not_mem_nil, or_false] at hv
  · rcases hv with rfl | rfl | rfl | rfl
    exacts [.int 2, .str _, .str _, h]
  · rcases hv with rfl | rfl | rfl
    exacts [.int 3, .str _, h]
  · rcases hv with rfl | rfl | rfl | rfl | rfl
    exacts [.int 4, .str _, .str _, .str _, h]

/-- A list is determined by its length and its items. -/
theorem eq_of_items {items : List (Json F)} {a b c : Json F} (h0 : items.head? = some a) (h1 : items[1]? = some b)
    (h2 : items[2]? = some c) : ∃ rest, items = a :: b :: c :: rest := by
  match items, h0, h1, h2 with
  | _ :: _ :: _ :: rest, rfl, rfl, rfl => exact ⟨rest, rfl⟩

/-- An identifier that is not empty is the second item. -/
theorem uidOf_spec {items : List (Json F)} (h : uidOf (.array items) ≠ []) :
    items[1]? = some (.str (uidOf (.array items))) := by
  unfold uidOf at h ⊢
  split at h
  · next heq =>
    cases heq
    rfl
  · exact absurd rfl h

/-- What is accepted is the value of a well formed frame, which is what is given back. -/
theorem decodeValue_ok {value : Json F} {frame : Frame F} (h : decodeValue value = .ok frame) :
    value = frame.value ∧ frame.WellFormed := by
  simp only [decodeValue] at h
  split at h
  · cases h
  next kind items htagged =>
  obtain ⟨rfl, hhead⟩ := tagged_spec htagged
  split at h
  · cases h
  next hid =>
  obtain ⟨hne, hshort⟩ := not_or.mp hid
  have hshort := not_lt.mp hshort
  split at h
  · cases h
  next hlength =>
  rw [not_not] at hlength
  have huid := uidOf_spec hne
  generalize uidOf (.array items) = uid at *
  split at h
  · cases h
  · next payload action error_code description hfields =>
    cases h
    rcases decodeFields_spec hfields with ⟨rfl, h2, h3, hnamed, rfl, rfl⟩ | ⟨rfl, h2, rfl, rfl, rfl⟩ |
      ⟨rfl, h2, h3, h4, hnamed, rfl⟩
    · obtain ⟨rest, rfl⟩ := eq_of_items hhead huid h2
      match rest, hlength, h3 with
      | [_], _, rfl => exact ⟨rfl, .call uid action payload hne hshort hnamed⟩
    · obtain ⟨rest, rfl⟩ := eq_of_items hhead huid h2
      match rest, hlength with
      | [], _ => exact ⟨rfl, .result uid payload hne hshort⟩
    · obtain ⟨rest, rfl⟩ := eq_of_items hhead huid h2
      match rest, hlength, h3, h4 with
      | [_, _], _, rfl, rfl => exact ⟨rfl, .error uid error_code description payload hne hshort hnamed⟩
  · cases h

theorem value_isFrame {frame : Frame F} (h : frame.WellFormed) : IsFrame frame.value := by
  cases h with
  | call id action payload nonempty short named => exact .call id action payload nonempty short named
  | result id payload nonempty short => exact .result id payload nonempty short
  | error id code description payload nonempty short named =>
    exact .error id code description payload nonempty short named

end FramesLemmas

open FramesLemmas in
/-- The decoder accepts the three shapes, inverts the encoder, and keeps the value of what it accepts. -/
theorem frame_codec (codec : JsonCodec F) (h : codec.Lawful) :
    (∀ raw, (∃ frame, decode_frame codec raw = .ok frame) ↔ ∃ value, codec.loads raw = some value ∧ IsFrame value) ∧
    (∀ frame : Frame F, frame.WellFormed → Json.Finite codec.finite (.object frame.payload) →
      Json.Distinct (.object frame.payload) →
      ∃ raw, encode_frame codec frame = some raw ∧ decode_frame codec raw = .ok frame) ∧
    (∀ raw value frame, codec.loads raw = some value → Json.Finite codec.finite value →
      decode_frame codec raw = .ok frame →
      ∃ raw', encode_frame codec frame = some raw' ∧ codec.loads raw' = some value) := by
  refine ⟨fun raw => ⟨?_, ?_⟩, fun frame hframe hfinite hdistinct => ?_, fun raw value frame hloads hfinite hdecode => ?_⟩
  · rintro ⟨frame, hdecode⟩
    unfold decode_frame at hdecode
    split at hdecode
    · cases hdecode
    · next value hloads =>
      obtain ⟨rfl, hframe⟩ := decodeValue_ok hdecode
      exact ⟨_, hloads, value_isFrame hframe⟩
  · rintro ⟨value, hloads, hvalue⟩
    obtain ⟨frame, hframe, rfl⟩ := exists_of_isFrame hvalue
    exact ⟨frame, by rw [decode_frame, hloads]; exact decodeValue_value hframe⟩
  · obtain ⟨raw, hdumps, hloads⟩ := h.loads_dumps (finite_value frame hfinite) (distinct_value frame hdistinct)
    exact ⟨raw, hdumps, by rw [decode_frame, hloads]; exact decodeValue_value hframe⟩
  · rw [decode_frame, hloads] at hdecode
    obtain ⟨rfl, -⟩ := decodeValue_ok hdecode
    exact h.loads_dumps hfinite (h.distinct hloads)

open FramesLemmas in
/-- An error that answers a call is accepted by the other side. -/
theorem error_frame_accepted (codec : JsonCodec F) (h : codec.Lawful) {message_id code description : Str}
    (hid : message_id ≠ [] ∧ message_id.length ≤ 36) (hcode : code ≠ []) :
    ∃ raw, error_frame codec message_id code description = some raw ∧
      decode_frame codec raw = .ok { kind := .error, message_id, payload := [], error_code := code, description } := by
  have hframe : Frame.WellFormed ({ kind := .error, message_id, payload := [], error_code := code, description } : Frame F) :=
    .error message_id code description [] hid.1 hid.2 hcode
  obtain ⟨raw, hdumps, hloads⟩ := h.loads_dumps
    (finite_value { kind := .error, message_id, payload := [], error_code := code, description }
      (.object fun f hf => absurd hf List.not_mem_nil))
    (distinct_value _ (.object List.nodup_nil fun f hf => absurd hf List.not_mem_nil))
  exact ⟨raw, hdumps, by rw [decode_frame, hloads]; exact decodeValue_value hframe⟩

/-- Compact texts, with whole floats and an infinity. -/
def compactCodec : JsonCodec Json.Whole where
  finite x := x.isSome = true
  loads := Json.loads
  dumps := Json.dumps

theorem FramesLemmas.compactCodec_lawful : compactCodec.Lawful where
  loads_dumps := Json.loads_dumps
  distinct := Json.distinct_loads

/-- `[2,"17","Heartbeat",{}]`. -/
def heartbeat : Frame Json.Whole where
  kind := .call
  message_id := "17".str
  payload := []
  action := "Heartbeat".str

theorem frame_codec_heartbeat :
    ∃ raw, encode_frame compactCodec heartbeat = some raw ∧ decode_frame compactCodec raw = .ok heartbeat :=
  (frame_codec compactCodec FramesLemmas.compactCodec_lawful).2.1 heartbeat
    (.call "17".str "Heartbeat".str [] (by decide) (by decide) (by decide)) (.object fun _ h => absurd h List.not_mem_nil)
    (.object List.nodup_nil fun _ h => absurd h List.not_mem_nil)

end Csms.Ocpp
