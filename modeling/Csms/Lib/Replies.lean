import Mathlib

/-!
# Stores of replies

A server keeps the reply of every request under the key of the request, and serves a request only while the
store has no reply for its key. Replies may be forgotten. The history of the store is a list of events.

Results, for every history:
1. `Kept.nodup`: a key is stored once.
2. `Kept.served`: a key was served as often as its reply was forgotten, and once more exactly when it is stored.
3. `Kept.last`: the stored reply is that of the last time the key was served, and was not forgotten since.
-/

namespace Replies

variable {κ ρ : Type} [DecidableEq κ]

inductive Event (κ ρ : Type) where
  | served (key : κ) (reply : ρ)
  | forgotten (key : κ)

def Event.key : Event κ ρ → κ
  | .served key _ => key
  | .forgotten key => key

/-- The key was served. -/
def Event.serves (k : κ) : Event κ ρ → Bool
  | .served key _ => key = k
  | .forgotten _ => false

/-- The reply of the key was forgotten. -/
def Event.forgets (k : κ) : Event κ ρ → Bool
  | .served _ _ => false
  | .forgotten key => key = k

/-- The stores and their histories. -/
inductive Kept : List (κ × ρ) → List (Event κ ρ) → Prop
  | nil : Kept [] []
  | serve {rows : List (κ × ρ)} {log : List (Event κ ρ)} (kept : Kept rows log) (key : κ) (reply : ρ)
      (unknown : ∀ row ∈ rows, row.1 ≠ key) : Kept (rows ++ [(key, reply)]) (log ++ [.served key reply])
  | forget {rows : List (κ × ρ)} {log : List (Event κ ρ)} (kept : Kept rows log) (old : κ × ρ → Bool) :
      Kept (rows.filter fun row => !old row) (log ++ (rows.filter old).map fun row => .forgotten row.1)

variable {rows : List (κ × ρ)} {log : List (Event κ ρ)}

omit [DecidableEq κ] in
theorem Kept.nodup (h : Kept rows log) : (rows.map Prod.fst).Nodup := by
  induction h with
  | nil => exact List.nodup_nil
  | serve kept key reply unknown ih =>
    rw [List.map_append, List.nodup_append]
    refine ⟨ih, List.nodup_singleton _, fun a ha b hb => ?_⟩
    obtain ⟨row, hrow, rfl⟩ := List.mem_map.mp ha
    obtain rfl : b = key := by simpa using hb
    exact unknown row hrow
  | forget kept old ih => exact ih.sublist (List.filter_sublist.map _)

/-- A key of a store without duplicates is counted once. -/
theorem countP_key {k : κ} (h : (rows.map Prod.fst).Nodup) :
    rows.countP (fun row => row.1 = k) = if ∃ row ∈ rows, row.1 = k then 1 else 0 := by
  have hcount : rows.countP (fun row => row.1 = k) = (rows.map Prod.fst).count k := by
    rw [List.count, List.countP_map]
    rfl
  rw [hcount, h.count]
  simp only [List.mem_map]

/-- The number of rows of a key grows when it is served, and falls when its reply is forgotten. -/
theorem Kept.countP (h : Kept rows log) (k : κ) :
    log.countP (Event.serves k) = log.countP (Event.forgets k) + rows.countP (fun row => row.1 = k) := by
  induction h with
  | nil => rfl
  | serve kept key reply unknown ih =>
    have hserves : [Event.served key reply].countP (Event.serves k) = [(key, reply)].countP fun row => row.1 = k := rfl
    have hforgets : [Event.served key reply].countP (Event.forgets k) = 0 := rfl
    rw [List.countP_append, List.countP_append, List.countP_append, ih, hserves, hforgets, Nat.add_zero, Nat.add_assoc]
  | @forget rows log kept old ih =>
    have hserves : ((rows.filter old).map fun row : κ × ρ => (Event.forgotten row.1 : Event κ ρ)).countP
        (Event.serves k) = 0 := by
      rw [List.countP_map]
      exact List.countP_eq_zero.mpr fun _ _ => Bool.false_ne_true
    have hforgets : ((rows.filter old).map fun row : κ × ρ => (Event.forgotten row.1 : Event κ ρ)).countP (Event.forgets k) =
        (rows.filter old).countP fun row => row.1 = k := by
      rw [List.countP_map]
      rfl
    have hsplit : rows.countP (fun row => row.1 = k) = (rows.filter old).countP (fun row => row.1 = k) +
        (rows.filter fun row => !old row).countP fun row => row.1 = k := by
      rw [List.countP_eq_countP_filter_add rows (fun row => decide (row.1 = k)) old]
    rw [List.countP_append, List.countP_append, hserves, hforgets, ih, hsplit]
    omega

theorem Kept.served (h : Kept rows log) (k : κ) :
    log.countP (Event.serves k) = log.countP (Event.forgets k) + if ∃ row ∈ rows, row.1 = k then 1 else 0 := by
  rw [h.countP, countP_key h.nodup]

omit [DecidableEq κ] in
theorem Kept.last (h : Kept rows log) {row : κ × ρ} (hrow : row ∈ rows) :
    ∃ earlier later, log = earlier ++ .served row.1 row.2 :: later ∧ ∀ e ∈ later, e.key ≠ row.1 := by
  induction h with
  | nil => cases hrow
  | serve kept key reply unknown ih =>
    rcases List.mem_append.mp hrow with hold | hnew
    · obtain ⟨earlier, later, rfl, hlater⟩ := ih hold
      refine ⟨earlier, later ++ [.served key reply], by simp, fun e he => ?_⟩
      rcases List.mem_append.mp he with he | he
      · exact hlater e he
      · obtain rfl := List.mem_singleton.mp he
        exact fun hkey => unknown row hold hkey.symm
    · obtain rfl := List.mem_singleton.mp hnew
      exact ⟨_, [], rfl, fun _ he => by cases he⟩
  | @forget rows log kept old ih =>
    obtain ⟨hold, hkeep⟩ := List.mem_filter.mp hrow
    obtain ⟨earlier, later, rfl, hlater⟩ := ih hold
    refine ⟨earlier, later ++ (rows.filter old).map fun row => .forgotten row.1, by simp, fun e he => ?_⟩
    rcases List.mem_append.mp he with he | he
    · exact hlater e he
    · obtain ⟨other, hother, rfl⟩ := List.mem_map.mp he
      obtain ⟨hmem, hforgot⟩ := List.mem_filter.mp hother
      -- the forgotten row is another one, and a key is stored once
      intro hkey
      have hsame : other = row := List.inj_on_of_nodup_map kept.nodup hmem hold hkey
      rw [hsame] at hforgot
      rw [hforgot] at hkeep
      exact absurd hkeep Bool.false_ne_true

end Replies
