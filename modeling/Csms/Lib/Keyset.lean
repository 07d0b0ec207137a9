import Mathlib

/-!
# Keyset pages

A page holds the keys after a cursor in ascending order, up to a size. The cursor then moves to the last
key of the page, and the next page is cut from a set that may have changed.

Results: `page_sorted`, `mem_page_of_le`, `page_eq_nil`.
-/

namespace Keyset

variable {κ : Type*} [LinearOrder κ]

/-- `key > cursor`, `ORDER BY key`, `LIMIT size`. -/
def page (keys : List κ) (cursor : κ) (size : ℕ) : List κ :=
  ((keys.filter (cursor < ·)).insertionSort (· ≤ ·)).take size

variable {keys : List κ} {cursor : κ} {size : ℕ}

theorem mem_of_mem_page {k : κ} (h : k ∈ page keys cursor size) : k ∈ keys ∧ cursor < k := by
  have := List.mem_of_mem_take h
  rw [List.mem_insertionSort, List.mem_filter, decide_eq_true_eq] at this
  exact this

theorem page_sorted (h : keys.Nodup) : (page keys cursor size).Pairwise (· < ·) := by
  have hnodup : ((keys.filter (cursor < ·)).insertionSort (· ≤ ·)).Nodup :=
    (List.perm_insertionSort _ _).nodup_iff.mpr (h.filter _)
  have hsorted : ((keys.filter (cursor < ·)).insertionSort (· ≤ ·)).Pairwise (· ≤ ·) := List.pairwise_insertionSort _ _
  exact ((hsorted.and hnodup).imp fun h => lt_of_le_of_ne h.1 h.2).sublist (List.take_sublist _ _)

/-- No key up to the last one is skipped. -/
theorem mem_page_of_le {k last : κ} (hk : k ∈ keys) (hcursor : cursor < k)
    (hlast : last ∈ page keys cursor size) (hle : k ≤ last) : k ∈ page keys cursor size := by
  have hmem : k ∈ (keys.filter (cursor < ·)).insertionSort (· ≤ ·) := by
    rw [List.mem_insertionSort, List.mem_filter, decide_eq_true_eq]
    exact ⟨hk, hcursor⟩
  have hsorted : ((keys.filter (cursor < ·)).insertionSort (· ≤ ·)).Pairwise (· ≤ ·) := List.pairwise_insertionSort _ _
  rw [← List.take_append_drop size ((keys.filter (cursor < ·)).insertionSort (· ≤ ·))] at hmem hsorted
  rcases List.mem_append.mp hmem with hmem | hmem
  · exact hmem
  · -- behind the cut a key is no smaller than the last one
    have hge := (List.pairwise_append.mp hsorted).2.2 last hlast k hmem
    rw [le_antisymm hle hge]
    exact hlast

/-- An empty page ends the keys. -/
theorem page_eq_nil (hsize : 1 ≤ size) (h : page keys cursor size = []) {k : κ} (hk : k ∈ keys) : k ≤ cursor := by
  by_contra hcursor
  have hmem : k ∈ (keys.filter (cursor < ·)).insertionSort (· ≤ ·) := by
    rw [List.mem_insertionSort, List.mem_filter, decide_eq_true_eq]
    exact ⟨hk, not_le.mp hcursor⟩
  rcases List.take_eq_nil_iff.mp h with h | h
  · omega
  · rw [h] at hmem
    cases hmem

end Keyset
