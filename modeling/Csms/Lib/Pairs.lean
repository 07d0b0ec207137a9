import Mathlib

/-!
# Consecutive pairs of a list

`pairs l` lists the neighbours `(l[i], l[i + 1])`. In a list sorted by a key, the pairs cut the
range of the keys into pieces: no element lies strictly between two neighbours, every point of
the range lies in a piece, and differences over the pieces telescope.
-/

namespace Pairs

variable {α : Type*}

/-- `itertools.pairwise`. -/
def pairs (l : List α) : List (α × α) := l.zip l.tail

@[simp] theorem pairs_nil : pairs ([] : List α) = [] := rfl

@[simp] theorem pairs_singleton (a : α) : pairs [a] = [] := rfl

@[simp] theorem pairs_cons_cons (a b : α) (l : List α) : pairs (a :: b :: l) = (a, b) :: pairs (b :: l) :=
  rfl

theorem mem_of_mem_pairs {l : List α} {p : α × α} (h : p ∈ pairs l) : p.1 ∈ l ∧ p.2 ∈ l := by
  have := List.of_mem_zip h
  exact ⟨this.1, List.mem_of_mem_tail this.2⟩

/-- Neighbours are related whenever the list is a chain. -/
theorem rel_of_mem_pairs {R : α → α → Prop} :
    ∀ {l : List α}, l.IsChain R → ∀ {p}, p ∈ pairs l → R p.1 p.2
  | [], _, p, h => by simp at h
  | [_], _, p, h => by simp at h
  | a :: b :: l, hc, p, h => by
    rw [pairs_cons_cons] at h
    obtain ⟨hab, hl⟩ := List.isChain_cons_cons.mp hc
    rcases List.mem_cons.mp h with rfl | h
    · exact hab
    · exact rel_of_mem_pairs hl h

theorem isChain_of_pairs {R : α → α → Prop} :
    ∀ {l : List α}, (∀ p ∈ pairs l, R p.1 p.2) → l.IsChain R
  | [], _ => .nil
  | [_], _ => .singleton _
  | a :: b :: l, h => by
    rw [pairs_cons_cons] at h
    exact List.isChain_cons_cons.mpr ⟨h _ List.mem_cons_self,
      isChain_of_pairs fun p hp => h p (List.mem_cons_of_mem _ hp)⟩

/-- An element of a list in order stands at or before the first of two neighbours, or at or after
the second. -/
theorem rel_or_rel_of_mem_pairs {R : α → α → Prop} :
    ∀ {l : List α}, l.Pairwise R → ∀ {p}, p ∈ pairs l → ∀ {x}, x ∈ l →
      (x = p.1 ∨ R x p.1) ∨ (x = p.2 ∨ R p.2 x)
  | [], _, p, h, x, _ => by simp at h
  | [_], _, p, h, x, _ => by simp at h
  | a :: b :: l, hs, p, h, x, hx => by
    rw [pairs_cons_cons] at h
    obtain ⟨ha, hl⟩ := List.pairwise_cons.mp hs
    rcases List.mem_cons.mp h with rfl | hp
    · rcases List.mem_cons.mp hx with rfl | hx
      · exact .inl (.inl rfl)
      · rcases List.mem_cons.mp hx with rfl | hx
        · exact .inr (.inl rfl)
        · exact .inr (.inr ((List.pairwise_cons.mp hl).1 x hx))
    · rcases List.mem_cons.mp hx with rfl | hx
      · exact .inl (.inr (ha p.1 (mem_of_mem_pairs hp).1))
      · exact rel_or_rel_of_mem_pairs hl hp hx

section Keyed

variable {β : Type*} [LinearOrder β] (key : α → β)

/-- A point at or after the first key and before some key lies in a piece. -/
theorem exists_pair_covering {x : β} :
    ∀ {a : α} {l : List α}, key a ≤ x → (∃ b ∈ l, x < key b) →
      ∃ p ∈ pairs (a :: l), key p.1 ≤ x ∧ x < key p.2
  | _, [], _, h => by simp at h
  | a, b :: l, ha, h => by
    rw [pairs_cons_cons]
    by_cases hb : x < key b
    · exact ⟨(a, b), List.mem_cons_self, ha, hb⟩
    · obtain ⟨c, hc, hxc⟩ := h
      have hcl : c ∈ l := by
        rcases List.mem_cons.mp hc with rfl | hcl
        · exact absurd hxc hb
        · exact hcl
      obtain ⟨p, hp, h1, h2⟩ := exists_pair_covering (not_lt.mp hb) ⟨c, hcl, hxc⟩
      exact ⟨p, List.mem_cons_of_mem _ hp, h1, h2⟩

/-- No element lies strictly between two neighbours of a sorted list. -/
theorem le_or_ge_of_mem_pairs {l : List α} (hs : l.Pairwise fun a b => key a ≤ key b) {p : α × α}
    (hp : p ∈ pairs l) {x : α} (hx : x ∈ l) : key x ≤ key p.1 ∨ key p.2 ≤ key x := by
  rcases rel_or_rel_of_mem_pairs hs hp hx with (rfl | h) | (rfl | h)
  · exact .inl le_rfl
  · exact .inl h
  · exact .inr le_rfl
  · exact .inr h

/-- Two pieces of a sorted list follow one another. -/
theorem pairwise_pairs :
    ∀ {l : List α}, l.Pairwise (fun a b => key a ≤ key b) →
      (pairs l).Pairwise fun p q => key p.2 ≤ key q.1
  | [], _ => List.Pairwise.nil
  | [_], _ => List.Pairwise.nil
  | a :: b :: l, hs => by
    rw [pairs_cons_cons]
    have hl := (List.pairwise_cons.mp hs).2
    refine List.pairwise_cons.mpr ⟨fun p hp => ?_, pairwise_pairs hl⟩
    rcases List.mem_cons.mp (mem_of_mem_pairs hp).1 with h | h
    · rw [h]
    · exact (List.pairwise_cons.mp hl).1 _ h

end Keyed

/-- Differences over the pieces telescope. -/
theorem sum_pairs {γ : Type*} [AddCommGroup γ] (f : α → γ) :
    ∀ (a : α) (l : List α), ((pairs (a :: l)).map fun p => f p.2 - f p.1).sum =
      f ((a :: l).getLast (List.cons_ne_nil _ _)) - f a
  | a, [] => by simp
  | a, b :: l => by
    rw [pairs_cons_cons, List.map_cons, List.sum_cons, sum_pairs f b l, List.getLast_cons_cons]
    abel

end Pairs
