import Mathlib

/-!
# Encodings that can be read back

A code maps each symbol to a word. When no word begins another, the concatenation of words
determines the symbols; when no part contains the separator, the joined text determines the parts.

Results: `Readable.flatMap_inj`, `intercalate_inj`, `utf8_inj`.
-/

namespace Encoding

variable {α β : Type*}

/-- A code whose words can be told apart at the front of a text. -/
structure Readable (code : α → List β) : Prop where
  ne_nil : ∀ a, code a ≠ []
  head : ∀ {a b rest rest'}, code a ++ rest = code b ++ rest' → a = b

theorem Readable.flatMap_inj {code : α → List β} (h : Readable code) {l l' : List α}
    (heq : l.flatMap code = l'.flatMap code) : l = l' := by
  induction l generalizing l' with
  | nil =>
    cases l' with
    | nil => rfl
    | cons b l' => exact absurd (List.append_eq_nil_iff.mp heq.symm).1 (h.ne_nil b)
  | cons a l ih =>
    cases l' with
    | nil => exact absurd (List.append_eq_nil_iff.mp heq).1 (h.ne_nil a)
    | cons b l' =>
      rw [List.flatMap_cons, List.flatMap_cons] at heq
      obtain rfl := h.head heq
      rw [ih (List.append_cancel_left heq)]

/-- Parts without the separator, none of them empty, are determined by the joined text. -/
theorem intercalate_inj [DecidableEq β] {separator : β} {parts parts' : List (List β)}
    (h : ∀ p ∈ parts, separator ∉ p ∧ p ≠ []) (h' : ∀ p ∈ parts', separator ∉ p ∧ p ≠ [])
    (heq : [separator].intercalate parts = [separator].intercalate parts') : parts = parts' := by
  have hsplit : ∀ {parts : List (List β)}, (∀ p ∈ parts, separator ∉ p ∧ p ≠ []) → parts ≠ [] →
      ([separator].intercalate parts).splitOn separator = parts :=
    fun h hne => List.splitOn_intercalate separator (fun p hp => (h p hp).1) hne
  have hempty : ∀ {parts : List (List β)}, (∀ p ∈ parts, separator ∉ p ∧ p ≠ []) →
      [separator].intercalate parts = [] → parts = [] := by
    intro parts h heq
    by_contra hne
    have hparts := hsplit h hne
    rw [heq, List.splitOn_nil] at hparts
    exact (h [] (hparts ▸ List.mem_singleton_self _)).2 rfl
  by_cases hp : parts = []
  · subst hp
    exact (hempty h' heq.symm).symm
  by_cases hp' : parts' = []
  · subst hp'
    exact hempty h heq
  rw [← hsplit h hp, heq, hsplit h' hp']

/-- The bytes of a text determine it. -/
theorem utf8_inj {l l' : List Char}
    (heq : l.flatMap String.utf8EncodeChar = l'.flatMap String.utf8EncodeChar) : l = l' := by
  have hencode : l.utf8Encode = l'.utf8Encode := by rw [List.utf8Encode, List.utf8Encode, heq]
  have hdecode := congrArg ByteArray.utf8Decode? hencode
  rw [List.utf8Decode?_utf8Encode, List.utf8Decode?_utf8Encode] at hdecode
  exact congrArg Array.toList (Option.some_inj.mp hdecode)

end Encoding
