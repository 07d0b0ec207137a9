import Mathlib

/-!
# Append-only journals with running totals

Rows of any type `ρ`, each on an account with a signed amount and the running total it was
written with. `total` sums the amounts of an account, `Running` says that every row carries the
total of its account up to itself.

Results:
1. `total_append_self`, `total_append_other`: a new row moves the total of its own account only.
2. `Running.append`: a row written with the right total keeps `Running`.
-/

namespace Journal

variable {ρ κ : Type*} [DecidableEq κ] (account : ρ → κ) (amount after : ρ → ℤ)

/-- The sum of the amounts of an account. -/
def total (rows : List ρ) (a : κ) : ℤ := ((rows.filter fun r => account r = a).map amount).sum

/-- Every row carries the total of its account up to and including itself. -/
def Running (rows : List ρ) : Prop :=
  ∀ front r back, rows = front ++ r :: back →
    after r = total account amount (front ++ [r]) (account r)

variable {account amount after}

@[simp] theorem total_nil (a : κ) : total account amount ([] : List ρ) a = 0 := rfl

theorem total_append_self {rows : List ρ} {r : ρ} {a : κ} (h : account r = a) :
    total account amount (rows ++ [r]) a = total account amount rows a + amount r := by
  simp [total, List.filter_append, h]

theorem total_append_other {rows : List ρ} {r : ρ} {a : κ} (h : account r ≠ a) :
    total account amount (rows ++ [r]) a = total account amount rows a := by
  simp [total, List.filter_append, h]

/-- An account without rows has total 0. -/
theorem total_eq_zero {rows : List ρ} {a : κ} (h : ∀ r ∈ rows, account r ≠ a) :
    total account amount rows a = 0 := by
  have : rows.filter (fun r => account r = a) = [] :=
    List.filter_eq_nil_iff.mpr fun r hr => by simpa using h r hr
  simp [total, this]

theorem Running.nil : Running account amount after ([] : List ρ) := by
  intro front r back h
  simp at h

theorem Running.append {rows : List ρ} {r : ρ} (h : Running account amount after rows)
    (hr : after r = total account amount rows (account r) + amount r) :
    Running account amount after (rows ++ [r]) := by
  intro front x back hsplit
  rcases List.append_eq_append_iff.mp hsplit with ⟨mid, hfront, hback⟩ | ⟨mid, hrows, hback⟩
  · -- the row `x` is the new one
    cases mid with
    | nil =>
      obtain ⟨rfl, rfl⟩ : r = x ∧ back = [] := by simpa [eq_comm] using hback
      rw [hr, total_append_self rfl, hfront, List.append_nil]
    | cons y mid =>
      have := congrArg List.length hback
      simp at this
  · cases mid with
    | nil =>
      obtain ⟨rfl, rfl⟩ : x = r ∧ back = [] := by simpa [eq_comm] using hback
      rw [hr, total_append_self rfl, hrows, List.append_nil]
    | cons y mid =>
      obtain ⟨rfl, -⟩ : x = y ∧ back = mid ++ [r] := by simpa using hback
      exact h front x mid hrows

end Journal
