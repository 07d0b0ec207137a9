import Mathlib

/-!
# Whitespace at the ends of a text

`strip` removes from both ends the characters that Python's `str.strip` removes, `trim` those with the Unicode
property White_Space: `strip` removes the separators U+001C to U+001F as well.

Results: `strip_of_plain`: a text without such characters is unchanged; `strip_toString`: so is
a decimal number; `exists_plain_of_strip`: what remains is no mere whitespace; `strip_strip`: stripping
twice is stripping once.
-/

namespace Text

/-- The characters with `str.isspace`, which are those `str.strip` removes. -/
def isSpace (c : Char) : Bool :=
  let n := c.toNat
  (9 ≤ n && n ≤ 13) || (28 ≤ n && n ≤ 32) || n == 0x85 || n == 0xA0 || n == 0x1680 ||
    (0x2000 ≤ n && n ≤ 0x200A) || n == 0x2028 || n == 0x2029 || n == 0x202F || n == 0x205F ||
    n == 0x3000

/-- `str.strip`. -/
def strip (s : String) : String :=
  String.ofList ((s.toList.dropWhile isSpace).reverse.dropWhile isSpace).reverse

/-- White_Space of Unicode. -/
def isWhiteSpace (c : Char) : Bool := isSpace c && !(28 ≤ c.toNat && c.toNat ≤ 31)

/-- `strip_whitespace` of a validated text. -/
def trim (s : String) : String :=
  String.ofList ((s.toList.dropWhile isWhiteSpace).reverse.dropWhile isWhiteSpace).reverse

theorem strip_of_plain {s : String} (h : ∀ c ∈ s.toList, isSpace c = false) : strip s = s := by
  have hdrop : ∀ l : List Char, (∀ c ∈ l, isSpace c = false) → l.dropWhile isSpace = l := by
    intro l hl
    cases l with
    | nil => rfl
    | cons c l => rw [List.dropWhile_cons_of_neg (by simp [hl c List.mem_cons_self])]
  rw [strip, hdrop _ h, hdrop _ (by simpa using h), List.reverse_reverse, String.ofList_toList]

theorem strip_strip (s : String) : strip (strip s) = strip s := by
  have hends : ∀ l : List Char, (l.dropWhile isSpace).dropWhile isSpace = l.dropWhile isSpace := fun l =>
    List.dropWhile_idempotent isSpace l
  -- dropping at the end leaves the head as it is
  have hhead : ∀ l : List Char, l.dropWhile isSpace = l →
      (l.reverse.dropWhile isSpace).reverse.dropWhile isSpace = (l.reverse.dropWhile isSpace).reverse := by
    intro l hl
    rw [List.dropWhile_eq_self_iff] at hl ⊢
    intro hpos
    obtain ⟨back, hback⟩ := List.dropWhile_suffix isSpace (l := l.reverse)
    have hprefix : (l.reverse.dropWhile isSpace).reverse ++ back.reverse = l := by
      rw [← List.reverse_append, hback, List.reverse_reverse]
    have hlen : 0 < l.length := by
      rw [← hprefix, List.length_append]
      omega
    have hget : (l.reverse.dropWhile isSpace).reverse[0] = l[0] := by
      conv_rhs => rw [List.getElem_of_eq hprefix.symm]
      rw [List.getElem_append_left]
    rw [hget]
    exact hl hlen
  have hfirst := hhead _ (hends s.toList)
  unfold strip
  rw [String.toList_ofList, hfirst, List.reverse_reverse, hends]

theorem exists_plain_of_strip {s : String} (h : strip s ≠ "") :
    ∃ c ∈ (strip s).toList, isSpace c = false := by
  set l := (s.toList.dropWhile isSpace).reverse.dropWhile isSpace with hl
  have hstrip : (strip s).toList = l.reverse := by rw [strip, String.toList_ofList]
  cases hc : l with
  | nil => exact absurd (by rw [strip, ← hl, hc]; rfl) h
  | cons c rest =>
    refine ⟨c, by rw [hstrip, hc]; simp, ?_⟩
    have hne : l ≠ [] := by rw [hc]; exact List.cons_ne_nil _ _
    have := List.head_dropWhile_not isSpace (l := (s.toList.dropWhile isSpace).reverse) hne
    simpa [← hl, hc] using this

theorem toString_plain (n : ℕ) : ∀ c ∈ (toString n).toList, c.isDigit = true := by
  intro c hc
  have hc' : c ∈ Nat.toDigits 10 n := by simpa [Nat.repr] using hc
  exact Nat.isDigit_of_mem_toDigits (by decide) (by decide) hc'

theorem isSpace_of_isDigit {c : Char} (h : c.isDigit = true) : isSpace c = false := by
  simp only [Char.isDigit, Bool.and_eq_true, decide_eq_true_eq] at h
  have h1 : 48 ≤ c.toNat := by simpa using UInt32.le_iff_toNat_le.mp h.1
  have h2 : c.toNat ≤ 57 := by simpa using UInt32.le_iff_toNat_le.mp h.2
  simp only [isSpace, Bool.or_eq_false_iff, Bool.and_eq_false_imp, decide_eq_true_eq,
    decide_eq_false_iff_not, beq_eq_false_iff_ne]
  omega

theorem strip_toString (n : ℕ) : strip (toString n) = toString n :=
  strip_of_plain fun c hc => isSpace_of_isDigit (toString_plain n c hc)

theorem toString_inj {m n : ℕ} : toString m = toString n ↔ m = n := Nat.repr_inj

end Text
