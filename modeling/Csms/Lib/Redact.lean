import Mathlib

/-!
# Replacing a text wherever it occurs

The first occurrence of a needle is replaced by a mark, and the search starts again from the front. Characters
are compared after `fold`.

Results:
1. `not_occurs_redact`: enough rounds leave no occurrence, if the needle has a character that the mark has not.
2. `Occurs.of_redact`: no round makes a new text occur that the mark cannot be part of.
-/

namespace Redact

variable {α : Type*} [DecidableEq α] (fold : α → α) (mark needle : List α)

/-- The needle stands somewhere in the value. -/
def Occurs (value : List α) : Prop := needle.map fold <:+: value.map fold

/-- What stands before the first occurrence, and what after it. -/
def cut : List α → Option (List α × List α)
  | [] => none
  | c :: rest =>
    if needle.map fold <+: (c :: rest).map fold then some ([], (c :: rest).drop needle.length)
    else (cut rest).map fun p => (c :: p.1, p.2)

/-- Some rounds. -/
def redact : ℕ → List α → List α
  | 0, value => value
  | rounds + 1, value =>
    match cut fold needle value with
    | none => value
    | some (before, after) => redact rounds (before ++ mark ++ after)

variable {fold mark needle} {value before after : List α} {rounds : ℕ} {c : α}

/-! ## 1. One round -/

theorem cut_eq_some (h : cut fold needle value = some (before, after)) :
    ∃ mid, value = before ++ mid ++ after ∧ mid.map fold = needle.map fold := by
  induction value generalizing before with
  | nil => cases h
  | cons c rest ih =>
    rw [cut] at h
    split at h
    · next hprefix =>
      cases h
      refine ⟨(c :: rest).take needle.length, by simp, ?_⟩
      rw [List.map_take, ← List.length_map fold]
      exact (List.prefix_iff_eq_take.mp hprefix).symm
    · obtain ⟨p, hp, heq⟩ := Option.map_eq_some_iff.mp h
      cases heq
      obtain ⟨mid, hrest, hmid⟩ := ih hp
      exact ⟨mid, by rw [hrest]; rfl, hmid⟩

theorem cut_eq_none (hneedle : needle ≠ []) (h : cut fold needle value = none) : ¬ Occurs fold needle value := by
  induction value with
  | nil =>
    intro hoccurs
    exact hneedle (List.map_eq_nil_iff.mp (List.infix_nil.mp hoccurs))
  | cons c rest ih =>
    rw [cut] at h
    split at h
    · cases h
    · next hprefix =>
      intro hoccurs
      rcases List.infix_cons_iff.mp hoccurs with hfront | hrest
      · exact hprefix hfront
      · exact ih (Option.map_eq_none_iff.mp h) hrest

/-! ## 2. All rounds -/

/-- A round takes a character away. -/
theorem count_cut (hc : c ∈ needle.map fold) (hmark : c ∉ mark.map fold)
    (h : cut fold needle value = some (before, after)) :
    ((before ++ mark ++ after).map fold).count c < (value.map fold).count c := by
  obtain ⟨mid, rfl, hmid⟩ := cut_eq_some h
  have hpos : 0 < (mid.map fold).count c := List.count_pos_iff.mpr (hmid ▸ hc)
  have hzero : (mark.map fold).count c = 0 := List.count_eq_zero.mpr hmark
  simp only [List.map_append, List.count_append]
  omega

theorem not_occurs_redact (hc : c ∈ needle.map fold) (hmark : c ∉ mark.map fold)
    (hrounds : (value.map fold).count c < rounds) : ¬ Occurs fold needle (redact fold mark needle rounds value) := by
  induction rounds generalizing value with
  | zero => exact absurd hrounds (Nat.not_lt_zero _)
  | succ rounds ih =>
    rw [redact]
    split
    · next hcut =>
      refine cut_eq_none (fun hnil => ?_) hcut
      rw [hnil] at hc
      cases hc
    · next before after hcut =>
      have := count_cut hc hmark hcut
      exact ih (by omega)

/-- More rounds change nothing. -/
theorem redact_stable (hc : c ∈ needle.map fold) (hmark : c ∉ mark.map fold) {more : ℕ}
    (hrounds : (value.map fold).count c < rounds) (hmore : (value.map fold).count c < more) :
    redact fold mark needle more value = redact fold mark needle rounds value := by
  induction rounds generalizing value more with
  | zero => exact absurd hrounds (Nat.not_lt_zero _)
  | succ rounds ih =>
    obtain ⟨more, rfl⟩ : ∃ n, more = n + 1 := ⟨more - 1, by omega⟩
    rw [redact, redact]
    split
    · rfl
    · next before after hcut =>
      have := count_cut hc hmark hcut
      exact ih (by omega) (by omega)

/-! ## 3. Other texts -/

omit [DecidableEq α] in
/-- A text without a character stands on one side of it. -/
theorem infix_split {mid p q : List α} (hc : c ∉ mid) (h : mid <:+: p ++ c :: q) : mid <:+: p ∨ mid <:+: q := by
  obtain ⟨s, t, heq⟩ := h
  rw [List.append_assoc] at heq
  rcases List.append_eq_append_iff.mp heq with ⟨a, hp, hmid⟩ | ⟨a, hs, hq⟩
  · rcases List.append_eq_append_iff.mp hmid with ⟨b, ha, ht⟩ | ⟨b, hmid, hq⟩
    · left
      exact ⟨s, b, by rw [hp, ha, List.append_assoc]⟩
    · cases b with
      | nil =>
        left
        exact ⟨s, [], by rw [hp, hmid, List.append_nil, List.append_nil]⟩
      | cons d b =>
        obtain ⟨rfl, -⟩ := List.cons.inj hq
        exact absurd (hmid ▸ List.mem_append_right _ List.mem_cons_self) hc
  · cases a with
    | nil =>
      cases mid with
      | nil => exact .inl (List.nil_infix)
      | cons d mid =>
        obtain ⟨rfl, -⟩ := List.cons.inj hq
        exact absurd List.mem_cons_self hc
    | cons d a =>
      obtain ⟨-, hq⟩ := List.cons.inj hq
      exact .inr ⟨a, t, (List.append_assoc a mid t).trans hq.symm⟩

omit [DecidableEq α] in
/-- A mark in brackets that the text has not takes no part in it. -/
theorem Occurs.of_marked {text inner : List α} {a b : α} (ha : fold a ∉ text.map fold) (hb : fold b ∉ text.map fold)
    (hinner : ¬ Occurs fold text inner) (h : Occurs fold text (before ++ (a :: inner ++ [b]) ++ after)) :
    Occurs fold text before ∨ Occurs fold text after := by
  unfold Occurs at h
  have heq : (before ++ (a :: inner ++ [b]) ++ after).map fold =
      before.map fold ++ fold a :: (inner.map fold ++ fold b :: after.map fold) := by simp
  rw [heq] at h
  rcases infix_split ha h with hbefore | hrest
  · exact .inl hbefore
  · rcases infix_split hb hrest with hin | hafter
    · exact absurd hin hinner
    · exact .inr hafter

/-- What occurs afterwards occurred before. -/
theorem Occurs.of_redact {text inner : List α} {a b : α} (ha : fold a ∉ text.map fold) (hb : fold b ∉ text.map fold)
    (hinner : ¬ Occurs fold text inner)
    (h : Occurs fold text (redact fold (a :: inner ++ [b]) needle rounds value)) : Occurs fold text value := by
  induction rounds generalizing value with
  | zero => exact h
  | succ rounds ih =>
    rw [redact] at h
    split at h
    · exact h
    · next before after hcut =>
      obtain ⟨mid, rfl, -⟩ := cut_eq_some hcut
      unfold Occurs
      rw [List.map_append, List.map_append]
      rcases (ih h).of_marked ha hb hinner with hbefore | hafter
      · exact hbefore.trans ⟨[], mid.map fold ++ after.map fold, by rw [List.nil_append, List.append_assoc]⟩
      · exact hafter.trans ⟨before.map fold ++ mid.map fold, [], by rw [List.append_nil]⟩

end Redact
