import Csms.Lib.Json
import Csms.Lib.Redact
import Csms.Lib.Uuid

/-!
# Redaction (`redact_text` and `scrub` of the privacy migration)

An account is erased from free texts and from JSON by writing `[redacted]` over its id and its address. `lower` is
that of the database, for one character.

The loop of `redact_text` ends for a text with a character that the mark has not; the rounds here are enough for
such a text.

Result: `scrub_erases`, for every JSON value.
-/

namespace Csms.Privacy

open Redact

variable {F : Type}

/-! ## 1. The code -/

def REDACTED : Str := "[redacted]".str

/-- The text of some code points. -/
def ofPoints (s : Str) : String := String.ofList (s.map Char.ofNat)

variable (lower : ℕ → ℕ)

/-- `redact_text`. -/
def redact_text (value needle : Str) : Str :=
  if needle = [] then value else redact lower REDACTED needle (value.length + 1) value

/-- What is done to every text: first the id is redacted, then the address. -/
def redactBoth (uid mail value : Str) : Str := redact_text lower (redact_text lower value uid) mail

variable (uid mail : Str)

mutual

/-- `scrub`. -/
def scrub : Json F → Json F
  | .object fields => .object (scrubFields fields [])
  | .array items => .array (scrubItems items)
  | .str s => .str (redactBoth lower uid mail s)
  | .null => .null
  | .bool b => .bool b
  | .int n => .int n
  | .float x => .float x

def scrubItems : List (Json F) → List (Json F)
  | [] => []
  | v :: items => scrub v :: scrubItems items

def scrubFields : List (Str × Json F) → List (Str × Json F) → List (Str × Json F)
  | [], output => output
  | (k, v) :: fields, output => scrubFields fields (Json.assign output (redactBoth lower uid mail k, scrub v))

end

/-! ## 2. Texts -/

mutual

/-- The texts of a value, its keys included. -/
def texts : Json F → List Str
  | .object fields => textsOfFields fields
  | .array items => textsOfItems items
  | .str s => [s]
  | .null | .bool _ | .int _ | .float _ => []

def textsOfItems : List (Json F) → List Str
  | [] => []
  | v :: items => texts v ++ textsOfItems items

def textsOfFields : List (Str × Json F) → List Str
  | [] => []
  | (k, v) :: fields => k :: (texts v ++ textsOfFields fields)

end

mutual

/-- No object has a key twice. -/
def Distinct : Json F → Prop
  | .object fields => (fields.map Prod.fst).Nodup ∧ DistinctFields fields
  | .array items => DistinctItems items
  | .str _ | .null | .bool _ | .int _ | .float _ => True

def DistinctItems : List (Json F) → Prop
  | [] => True
  | v :: items => Distinct v ∧ DistinctItems items

def DistinctFields : List (Str × Json F) → Prop
  | [] => True
  | (_, v) :: fields => Distinct v ∧ DistinctFields fields

end

/-- Case mapping does not touch these characters. -/
structure FixesMarks : Prop where
  dash : ∀ c, lower c = 45 ↔ c = 45
  at_ : ∀ c, lower c = 64 ↔ c = 64
  opening : ∀ c, lower c = 91 ↔ c = 91
  closing : ∀ c, lower c = 93 ↔ c = 93

/-- A text with a dash or an at sign, and no bracket. -/
structure Redactable (text : Str) : Prop where
  sign : 45 ∈ text ∨ 64 ∈ text
  opening : 91 ∉ text
  closing : 93 ∉ text

/-- The text stands in none of the texts. -/
def Free (text : Str) (s : Str) : Prop := ¬ Occurs lower text s

variable {lower uid mail} {text value : Str}

namespace RedactionLemmas

theorem mem_map_lower {p : ℕ} (hp : ∀ c, lower c = p ↔ c = p) : p ∈ text.map lower ↔ p ∈ text := by
  rw [List.mem_map]
  constructor
  · rintro ⟨c, hc, heq⟩
    rwa [(hp c).mp heq] at hc
  · exact fun h => ⟨p, h, (hp p).mpr rfl⟩

/-- The sign of a text is not in the mark, nor in what stands between its brackets. -/
theorem exists_sign (hlower : FixesMarks lower) (h : Redactable text) :
    ∃ p, p ∈ text.map lower ∧ p ∉ REDACTED.map lower ∧ p ∉ "redacted".str.map lower := by
  rcases h.sign with hsign | hsign
  · refine ⟨45, (mem_map_lower hlower.dash).mpr hsign, ?_, ?_⟩
    · rw [mem_map_lower hlower.dash]
      decide
    · rw [mem_map_lower hlower.dash]
      decide
  · refine ⟨64, (mem_map_lower hlower.at_).mpr hsign, ?_, ?_⟩
    · rw [mem_map_lower hlower.at_]
      decide
    · rw [mem_map_lower hlower.at_]
      decide

theorem ne_nil (h : Redactable text) : text ≠ [] := by
  rintro rfl
  rcases h.sign with h | h <;> cases h

theorem redact_text_free (hlower : FixesMarks lower) (h : Redactable text) (value : Str) :
    Free lower text (redact_text lower value text) := by
  obtain ⟨p, hp, hmark, -⟩ := exists_sign hlower h
  unfold Free redact_text
  rw [if_neg (ne_nil h)]
  exact not_occurs_redact hp hmark (Nat.lt_succ_of_le (List.count_le_length.trans (List.length_map lower).le))

/-- A redaction makes no other text occur. -/
theorem free_redact_text {needle : Str} (hlower : FixesMarks lower) (h : Redactable text)
    (hvalue : Free lower text value) : Free lower text (redact_text lower value needle) := by
  unfold redact_text
  split
  · exact hvalue
  obtain ⟨p, hp, -, hinner⟩ := exists_sign hlower h
  have hopening : lower 91 ∉ text.map lower := by
    rw [(hlower.opening 91).mpr rfl, mem_map_lower hlower.opening]
    exact h.opening
  have hclosing : lower 93 ∉ text.map lower := by
    rw [(hlower.closing 93).mpr rfl, mem_map_lower hlower.closing]
    exact h.closing
  have hbetween : ¬ Occurs lower text "redacted".str := fun hin => hinner (hin.subset hp)
  exact fun hoccurs => hvalue (Occurs.of_redact hopening hclosing hbetween hoccurs)

/-- A text that does not occur is not redacted. -/
theorem redact_text_of_free {needle : Str} (h : Free lower needle value) : redact_text lower value needle = value := by
  unfold redact_text
  split
  · rfl
  · rw [redact]
    split
    · rfl
    · next before after hcut =>
      obtain ⟨mid, rfl, hmid⟩ := cut_eq_some hcut
      refine absurd ⟨before.map lower, after.map lower, ?_⟩ h
      rw [← hmid, List.map_append, List.map_append]

/-- Neither the id nor the address occurs. -/
def Erased (lower : ℕ → ℕ) (uid mail s : Str) : Prop := Free lower uid s ∧ Free lower mail s

theorem redactBoth_erased (hlower : FixesMarks lower) (huid : Redactable uid) (hmail : Redactable mail) (s : Str) :
    Erased lower uid mail (redactBoth lower uid mail s) :=
  ⟨free_redact_text hlower huid (redact_text_free hlower huid s), redact_text_free hlower hmail _⟩

theorem redactBoth_of_erased {s : Str} (h : Erased lower uid mail s) : redactBoth lower uid mail s = s := by
  unfold redactBoth
  rw [redact_text_of_free h.1, redact_text_of_free h.2]

/-- The texts after an assignment. -/
theorem assign_erased {P : Str → Prop} {output : List (Str × Json F)} {k : Str} {v : Json F}
    (houtput : ∀ f ∈ output, P f.1 ∧ ∀ s ∈ texts f.2, P s) (hk : P k) (hv : ∀ s ∈ texts v, P s) :
    ∀ f ∈ Json.assign output (k, v), P f.1 ∧ ∀ s ∈ texts f.2, P s := by
  intro f hf
  rcases Json.JsonLemmas.mem_assign hf with rfl | hf
  · exact ⟨hk, hv⟩
  · exact houtput f hf

theorem mem_textsOfFields {fields : List (Str × Json F)} {s : Str} :
    s ∈ textsOfFields fields ↔ ∃ f ∈ fields, s = f.1 ∨ s ∈ texts f.2 := by
  induction fields with
  | nil => simp [textsOfFields]
  | cons f fields ih =>
    rw [textsOfFields, List.mem_cons, List.mem_append, ih]
    simp only [List.mem_cons, exists_eq_or_imp]
    rw [or_assoc]

theorem distinctFields_iff {fields : List (Str × Json F)} : DistinctFields fields ↔ ∀ f ∈ fields, Distinct f.2 := by
  induction fields with
  | nil => simp [DistinctFields]
  | cons f fields ih =>
    rw [DistinctFields, ih, List.forall_mem_cons]

/-- More rounds than the loop makes. -/
theorem redact_text_rounds (hlower : FixesMarks lower) (h : Redactable text) {rounds : ℕ} (hrounds : value.length < rounds) :
    redact lower REDACTED text rounds value = redact_text lower value text := by
  obtain ⟨p, hp, hmark, -⟩ := exists_sign hlower h
  have hcount : (value.map lower).count p ≤ value.length := List.count_le_length.trans (List.length_map lower).le
  unfold redact_text
  rw [if_neg (ne_nil h)]
  exact redact_stable hp hmark (by omega) (by omega)

end RedactionLemmas

open RedactionLemmas

/-! ## 3. Values -/

mutual

theorem texts_scrub (hlower : FixesMarks lower) (huid : Redactable uid) (hmail : Redactable mail) :
    ∀ v : Json F, ∀ s ∈ texts (scrub lower uid mail v), Erased lower uid mail s
  | .object fields, s, hs => by
    rw [scrub, texts, mem_textsOfFields] at hs
    obtain ⟨f, hf, hs⟩ := hs
    have hf := texts_scrubFields hlower huid hmail fields [] (List.forall_mem_nil _) f hf
    rcases hs with rfl | hs
    · exact hf.1
    · exact hf.2 s hs
  | .array items, s, hs => texts_scrubItems hlower huid hmail items s (by rwa [scrub, texts] at hs)
  | .str value, s, hs => by
    rw [scrub, texts, List.mem_singleton] at hs
    rw [hs]
    exact redactBoth_erased hlower huid hmail value
  | .null, s, hs | .bool _, s, hs | .int _, s, hs | .float _, s, hs => by
    rw [scrub, texts] at hs
    cases hs

theorem texts_scrubItems (hlower : FixesMarks lower) (huid : Redactable uid) (hmail : Redactable mail) :
    ∀ items : List (Json F), ∀ s ∈ textsOfItems (scrubItems lower uid mail items), Erased lower uid mail s
  | [], s, hs => by cases hs
  | v :: items, s, hs => by
    rw [scrubItems, textsOfItems, List.mem_append] at hs
    rcases hs with hs | hs
    · exact texts_scrub hlower huid hmail v s hs
    · exact texts_scrubItems hlower huid hmail items s hs

theorem texts_scrubFields (hlower : FixesMarks lower) (huid : Redactable uid) (hmail : Redactable mail) :
    ∀ (fields output : List (Str × Json F)),
    (∀ f ∈ output, Erased lower uid mail f.1 ∧ ∀ s ∈ texts f.2, Erased lower uid mail s) →
    ∀ f ∈ scrubFields lower uid mail fields output, Erased lower uid mail f.1 ∧ ∀ s ∈ texts f.2, Erased lower uid mail s
  | [], output, houtput, f, hf => houtput f hf
  | (k, v) :: fields, output, houtput, f, hf => by
    rw [scrubFields] at hf
    exact texts_scrubFields hlower huid hmail fields _
      (assign_erased houtput (redactBoth_erased hlower huid hmail k) (texts_scrub hlower huid hmail v)) f hf

end

mutual

theorem distinct_scrub : ∀ v : Json F, Distinct (scrub lower uid mail v)
  | .object fields => by
    rw [scrub, Distinct]
    exact distinct_scrubFields fields [] List.nodup_nil trivial
  | .array items => by
    rw [scrub, Distinct]
    exact distinct_scrubItems items
  | .str _ | .null | .bool _ | .int _ | .float _ => by
    rw [scrub]
    trivial

theorem distinct_scrubItems : ∀ items : List (Json F), DistinctItems (scrubItems lower uid mail items)
  | [] => trivial
  | v :: items => ⟨distinct_scrub v, distinct_scrubItems items⟩

theorem distinct_scrubFields : ∀ fields output : List (Str × Json F), (output.map Prod.fst).Nodup → DistinctFields output →
    ((scrubFields lower uid mail fields output).map Prod.fst).Nodup ∧
      DistinctFields (scrubFields lower uid mail fields output)
  | [], output, hnodup, houtput => ⟨hnodup, houtput⟩
  | (k, v) :: fields, output, hnodup, houtput => by
    rw [scrubFields]
    refine distinct_scrubFields fields _ (Json.JsonLemmas.nodup_assign _ hnodup) ?_
    rw [distinctFields_iff] at houtput ⊢
    intro f hf
    rcases Json.JsonLemmas.mem_assign hf with rfl | hf
    · exact distinct_scrub v
    · exact houtput f hf

end

mutual

/-- A value without the id and the address stays as it is. -/
theorem scrub_of_erased : ∀ v : Json F, Distinct v → (∀ s ∈ texts v, Erased lower uid mail s) → scrub lower uid mail v = v
  | .object fields, hdistinct, h => by
    rw [Distinct] at hdistinct
    rw [texts] at h
    rw [scrub, scrubFields_of_erased fields [] hdistinct.1 hdistinct.2 h, List.nil_append]
  | .array items, hdistinct, h => by
    rw [Distinct] at hdistinct
    rw [texts] at h
    rw [scrub, scrubItems_of_erased items hdistinct h]
  | .str value, _, h => by
    rw [texts] at h
    rw [scrub, redactBoth_of_erased (h value (List.mem_singleton_self _))]
  | .null, _, _ | .bool _, _, _ | .int _, _, _ | .float _, _, _ => by rw [scrub]

theorem scrubItems_of_erased : ∀ items : List (Json F), DistinctItems items →
    (∀ s ∈ textsOfItems items, Erased lower uid mail s) → scrubItems lower uid mail items = items
  | [], _, _ => by rw [scrubItems]
  | v :: items, hdistinct, h => by
    rw [textsOfItems] at h
    rw [scrubItems, scrub_of_erased v hdistinct.1 fun s hs => h s (List.mem_append_left _ hs),
      scrubItems_of_erased items hdistinct.2 fun s hs => h s (List.mem_append_right _ hs)]

theorem scrubFields_of_erased : ∀ fields output : List (Str × Json F), ((output ++ fields).map Prod.fst).Nodup →
    DistinctFields fields → (∀ s ∈ textsOfFields fields, Erased lower uid mail s) →
    scrubFields lower uid mail fields output = output ++ fields
  | [], output, _, _, _ => by rw [scrubFields, List.append_nil]
  | (k, v) :: fields, output, hnodup, hdistinct, h => by
    rw [textsOfFields] at h
    have hk := redactBoth_of_erased (h k List.mem_cons_self)
    have hv := scrub_of_erased v hdistinct.1 fun s hs => h s (List.mem_cons_of_mem _ (List.mem_append_left _ hs))
    have hsplit : output ++ (k, v) :: fields = output ++ [(k, v)] ++ fields := by rw [List.append_assoc]; rfl
    have hassign : Json.assign output (k, v) = output ++ [(k, v)] := by
      rw [hsplit, List.map_append] at hnodup
      have hfold := @Json.JsonLemmas.foldl_assign (Json F) [(k, v)] output
      exact hfold (List.nodup_append.mp hnodup).1
    rw [scrubFields, hk, hv, hassign, hsplit]
    rw [hsplit] at hnodup
    exact scrubFields_of_erased fields _ hnodup hdistinct.2
      fun s hs => h s (List.mem_cons_of_mem _ (List.mem_append_right _ hs))

end

/-- The loop of `redact_text` ends, and a scrubbed value mentions neither the id nor the address in any text or
key. A value that mentions neither is left as it is, so that scrubbing twice is scrubbing once. -/
theorem scrub_erases (hlower : FixesMarks lower) (huid : Redactable uid) (hmail : Redactable mail) (v : Json F) :
    (∀ value rounds, value.length < rounds → redact lower REDACTED uid rounds value = redact_text lower value uid) ∧
      (∀ s ∈ texts (scrub lower uid mail v), Free lower uid s ∧ Free lower mail s) ∧
      (Distinct v → (∀ s ∈ texts v, Free lower uid s ∧ Free lower mail s) → scrub lower uid mail v = v) ∧
      scrub lower uid mail (scrub lower uid mail v) = scrub lower uid mail v := by
  refine ⟨fun value rounds hrounds => redact_text_rounds hlower huid hrounds, texts_scrub hlower huid hmail v,
    scrub_of_erased v, ?_⟩
  exact scrub_of_erased _ (distinct_scrub v) (texts_scrub hlower huid hmail v)

namespace OneNote

/-- Letters of ASCII. -/
def asciiLower (c : ℕ) : ℕ := if 65 ≤ c ∧ c ≤ 90 then c + 32 else c

def driver : Str := (Uuid.sample 1).text.str

def address : Str := "an@vidu.vn".str

def note : Json Unit := .object [("reason".str, .str "Refund to AN@vidu.vn, an@Vidu.vn".str), ("amount".str, .int 5)]

def scrubbed : Json Unit :=
  .object [("reason".str, .str "Refund to [redacted], [redacted]".str), ("amount".str, .int 5)]

theorem fixesMarks : FixesMarks asciiLower := by
  constructor <;>
  · intro c
    unfold asciiLower
    split <;> omega

end OneNote

open OneNote in
theorem scrub_erases_note :
    scrub asciiLower driver address note = scrubbed ∧
      ∀ s ∈ texts scrubbed, Free asciiLower driver s ∧ Free asciiLower address s := by
  have hscrub : scrub asciiLower driver address note = scrubbed := by rfl
  exact ⟨hscrub, hscrub ▸
    (scrub_erases fixesMarks ⟨.inl (by decide), by decide, by decide⟩ ⟨.inr (by decide), by decide, by decide⟩ note).2.1⟩

end Csms.Privacy
