import Csms.Lib.Text

/-!
# UUIDs and the texts of identifiers

A UUID is its canonical text: 32 lower-case hexadecimal digits in groups of 8, 4, 4, 4 and 12.

Results:
1. `Uuid.strip_text`: a UUID has no whitespace to strip.
2. `Uuid.text_ne_toString`: the text of a UUID is never a decimal number.
3. `Uuid.hex_inj`: the digits of a UUID determine it.
-/

/-- A lower-case hexadecimal digit. -/
def isHexDigit (c : Char) : Bool := ('0' ≤ c && c ≤ '9') || ('a' ≤ c && c ≤ 'f')

/-- The canonical form of a UUID. -/
def isUuid (s : String) : Bool :=
  s.toList.length == 36 && s.toList.zipIdx.all fun (c, i) =>
    if i = 8 ∨ i = 13 ∨ i = 18 ∨ i = 23 then c == '-' else isHexDigit c

/-- A UUID, by its canonical text. -/
@[ext] structure Uuid where
  text : String
  canonical : isUuid text = true
  deriving DecidableEq, Repr

namespace Uuid

/-- `UUID(s)` for a text with `str(UUID(s)) == s`. -/
def ofText? (s : String) : Option Uuid := if h : isUuid s = true then some ⟨s, h⟩ else none

/-- `uuid.hex`. -/
def hex (u : Uuid) : String := String.ofList (u.text.toList.filter (· ≠ '-'))

/-- The UUIDs of the examples, by their last digit. -/
def sample : ℕ → Uuid
  | 1 => ⟨"00000000-0000-4000-8000-000000000001", by decide⟩
  | 2 => ⟨"00000000-0000-4000-8000-000000000002", by decide⟩
  | 3 => ⟨"00000000-0000-4000-8000-000000000003", by decide⟩
  | 4 => ⟨"00000000-0000-4000-8000-000000000004", by decide⟩
  | 5 => ⟨"00000000-0000-4000-8000-000000000005", by decide⟩
  | 6 => ⟨"00000000-0000-4000-8000-000000000006", by decide⟩
  | 7 => ⟨"00000000-0000-4000-8000-000000000007", by decide⟩
  | 8 => ⟨"00000000-0000-4000-8000-000000000008", by decide⟩
  | _ => ⟨"00000000-0000-4000-8000-000000000000", by decide⟩

theorem ofText?_text (u : Uuid) : ofText? u.text = some u := by
  simp [ofText?, u.canonical]

theorem ofText?_eq_some {s : String} {u : Uuid} (h : ofText? s = some u) : u.text = s := by
  unfold ofText? at h
  split at h
  · cases h; rfl
  · cases h

theorem char_of_mem {u : Uuid} {c : Char} (hc : c ∈ u.text.toList) :
    c = '-' ∨ isHexDigit c = true := by
  have h := u.canonical
  simp only [isUuid, Bool.and_eq_true, List.all_eq_true] at h
  obtain ⟨i, hi, hget⟩ := List.mem_iff_getElem.mp hc
  have hmem : (c, i) ∈ u.text.toList.zipIdx := by
    rw [List.mk_mem_zipIdx_iff_getElem?, List.getElem?_eq_getElem hi, hget]
  have := h.2 (c, i) hmem
  simp only at this
  split at this
  · exact .inl (by simpa using this)
  · exact .inr this

theorem isSpace_of_mem {u : Uuid} {c : Char} (hc : c ∈ u.text.toList) : Text.isSpace c = false := by
  rcases char_of_mem hc with rfl | hc
  · decide
  · simp only [isHexDigit, Bool.or_eq_true, Bool.and_eq_true, decide_eq_true_eq, Char.le_def,
      UInt32.le_iff_toNat_le] at hc
    have hc' : (48 ≤ c.toNat ∧ c.toNat ≤ 57) ∨ (97 ≤ c.toNat ∧ c.toNat ≤ 102) := by simpa using hc
    simp only [Text.isSpace, Bool.or_eq_false_iff, Bool.and_eq_false_imp, decide_eq_true_eq,
      decide_eq_false_iff_not, beq_eq_false_iff_ne]
    omega

theorem strip_text (u : Uuid) : Text.strip u.text = u.text :=
  Text.strip_of_plain fun _ hc => isSpace_of_mem hc

theorem isSpace_hex {u : Uuid} {c : Char} (hc : c ∈ u.hex.toList) : Text.isSpace c = false := by
  rw [hex, String.toList_ofList] at hc
  exact isSpace_of_mem (List.mem_filter.mp hc).1

/-- Where the hyphens of a UUID are. -/
theorem hyphen_iff {u : Uuid} {i : ℕ} {c : Char} (h : u.text.toList[i]? = some c) :
    c = '-' ↔ (i = 8 ∨ i = 13 ∨ i = 18 ∨ i = 23) := by
  have hc := u.canonical
  simp only [isUuid, Bool.and_eq_true, List.all_eq_true] at hc
  have hchar := hc.2 (c, i) (List.mk_mem_zipIdx_iff_getElem?.mpr h)
  dsimp only at hchar
  split at hchar
  · next hi => exact iff_of_true (by simpa using hchar) hi
  · next hi =>
    refine iff_of_false (fun heq => ?_) hi
    rw [heq] at hchar
    exact absurd hchar (by decide)

/-- Texts with their hyphens at the same places are equal if they are without them. -/
theorem eq_of_filter_eq {l l' : List Char} (h : List.Forall₂ (fun a b => a = '-' ↔ b = '-') l l')
    (heq : l.filter (· ≠ '-') = l'.filter (· ≠ '-')) : l = l' := by
  induction h with
  | nil => rfl
  | @cons a b l l' hab _ ih =>
    by_cases ha : a = '-'
    · rw [List.filter_cons_of_neg (by simp [ha]), List.filter_cons_of_neg (by simp [hab.mp ha])] at heq
      rw [ha, hab.mp ha, ih heq]
    · have hb : b ≠ '-' := fun hb => ha (hab.mpr hb)
      rw [List.filter_cons_of_pos (by simp [ha]), List.filter_cons_of_pos (by simp [hb]), List.cons.injEq] at heq
      rw [heq.1, ih heq.2]

/-- The digits of a UUID determine it. -/
theorem hex_inj {u v : Uuid} (h : u.hex = v.hex) : u = v := by
  have hlen : ∀ w : Uuid, w.text.toList.length = 36 := fun w => by
    have hc := w.canonical
    simp only [isUuid, Bool.and_eq_true, beq_iff_eq] at hc
    exact hc.1
  have hsame : List.Forall₂ (fun a b => a = '-' ↔ b = '-') u.text.toList v.text.toList := by
    rw [List.forall₂_iff_get]
    refine ⟨(hlen u).trans (hlen v).symm, fun i hi hi' => ?_⟩
    rw [List.get_eq_getElem, List.get_eq_getElem]
    exact (hyphen_iff (List.getElem?_eq_getElem hi)).trans (hyphen_iff (List.getElem?_eq_getElem hi')).symm
  have hfilter : u.text.toList.filter (· ≠ '-') = v.text.toList.filter (· ≠ '-') := String.ofList_inj.mp h
  have htext : u.text = v.text := String.toList_inj.mp (eq_of_filter_eq hsame hfilter)
  exact Uuid.ext htext

/-- The hyphen at position 8 tells a UUID from a number. -/
theorem text_ne_toString (u : Uuid) (n : ℕ) : u.text ≠ toString n := by
  intro h
  have hc := u.canonical
  simp only [isUuid, Bool.and_eq_true, beq_iff_eq, List.all_eq_true] at hc
  have hlt : 8 < u.text.toList.length := by omega
  have hmem : (u.text.toList[8], 8) ∈ u.text.toList.zipIdx := by
    rw [List.mk_mem_zipIdx_iff_getElem?, List.getElem?_eq_getElem hlt]
  have hdash : u.text.toList[8] = '-' := by simpa using hc.2 _ hmem
  have hall : ∀ c ∈ u.text.toList, c.isDigit = true := by
    rw [h]
    exact Text.toString_plain n
  have hdigit := hall _ (List.getElem_mem hlt)
  rw [hdash] at hdigit
  exact absurd hdigit (by decide)

theorem length_text (u : Uuid) : u.text.length = 36 := by
  have h := u.canonical
  simp only [isUuid, Bool.and_eq_true, beq_iff_eq] at h
  rw [← String.length_toList]
  exact h.1

end Uuid
