import Csms.Lib.Table

/-!
# Accumulators with a key

A list of accumulators with distinct keys, of which an update changes one. `upsert` creates the
accumulator that is missing, `Table.modify` does nothing then.

Results: `sum_modify`, `sum_upsert`: an update that adds an amount to one accumulator adds it to
the sum over all of them; `foldl_add`: a loop adds up what its turns add.
-/

namespace Accumulate

open Table

variable {ρ κ : Type*} (key : ρ → κ) [DecidableEq κ]

/-- The update of the accumulator with the key of `fresh`, which is created if there is none. -/
def upsert (fresh : ρ) (f : ρ → ρ) (rows : List ρ) : List ρ :=
  modify key (key fresh) f (if rows.any fun r => key r = key fresh then rows else rows ++ [fresh])

variable {key} {rows : List ρ} {fresh : ρ} {f : ρ → ρ}

/-- With or without a new accumulator there is one with the key. -/
theorem created_spec (h : Keyed key rows) :
    Keyed key (if rows.any fun r => key r = key fresh then rows else rows ++ [fresh]) ∧
      ∃ r ∈ (if rows.any fun r => key r = key fresh then rows else rows ++ [fresh]), key r = key fresh := by
  split
  · next hany =>
    obtain ⟨r, hr, hk⟩ := List.any_eq_true.mp hany
    exact ⟨h, r, hr, of_decide_eq_true hk⟩
  · next hany =>
    refine ⟨h.append fun a ha hk => hany ?_, fresh, List.mem_append_right _ List.mem_cons_self, rfl⟩
    exact List.any_eq_true.mpr ⟨a, ha, decide_eq_true hk⟩

theorem keyed_upsert (h : Keyed key rows) (hf : ∀ r, key (f r) = key r) :
    Keyed key (upsert key fresh f rows) :=
  (created_spec h).1.modify fun r hr => (hf r).trans hr

/-- What an update makes of a property of the accumulators. -/
theorem forall_upsert {P Q : ρ → Prop} (hrows : ∀ r ∈ rows, P r) (hfresh : P fresh) (hkeep : ∀ r, P r → Q r)
    (hf : ∀ r, P r → Q (f r)) : ∀ r ∈ upsert key fresh f rows, Q r := by
  have hcreated : ∀ r ∈ (if rows.any fun r => key r = key fresh then rows else rows ++ [fresh]), P r := by
    split
    · exact hrows
    · intro r hr
      rcases List.mem_append.mp hr with hr | hr
      · exact hrows r hr
      · rwa [List.mem_singleton.mp hr]
  exact forall_modify (fun r hr => hkeep r (hcreated r hr)) fun r hr _ => hf r (hcreated r hr)

/-- An update of one key leaves the keys as they are. -/
theorem map_key_modify {k : κ} (hf : ∀ r, key (f r) = key r) : (modify key k f rows).map key = rows.map key := by
  rw [Table.modify, List.map_map]
  refine List.map_congr_left fun r _ => ?_
  simp only [Function.comp_apply]
  split
  · exact hf r
  · rfl

variable {M : Type*} [AddCommMonoid M] {g : ρ → M} {amount : M}

theorem sum_modify {k : κ} (h : Keyed key rows) (hmem : ∃ r ∈ rows, key r = k) (hf : ∀ r, g (f r) = g r + amount) :
    ((modify key k f rows).map g).sum = (rows.map g).sum + amount := by
  induction rows with
  | nil =>
    obtain ⟨r, hr, -⟩ := hmem
    cases hr
  | cons a rows ih =>
    obtain ⟨ha, hrows⟩ := List.pairwise_cons.mp h
    by_cases hk : key a = k
    · have hrest : modify key k f rows = rows := modify_of_notMem fun r hr => hk ▸ (ha r hr).symm
      have hcons : modify key k f (a :: rows) = f a :: modify key k f rows := by simp [Table.modify, hk]
      rw [hcons, hrest, List.map_cons, List.map_cons, List.sum_cons, List.sum_cons, hf, add_right_comm]
    · have hcons : modify key k f (a :: rows) = a :: modify key k f rows := by simp [Table.modify, hk]
      have hmem' : ∃ r ∈ rows, key r = k := by
        obtain ⟨r, hr, hrk⟩ := hmem
        rcases List.mem_cons.mp hr with rfl | hr
        · exact absurd hrk hk
        · exact ⟨r, hr, hrk⟩
      rw [hcons, List.map_cons, List.map_cons, List.sum_cons, List.sum_cons, ih hrows hmem', add_assoc]

theorem sum_upsert (h : Keyed key rows) (hfresh : g fresh = 0) (hf : ∀ r, g (f r) = g r + amount) :
    ((upsert key fresh f rows).map g).sum = (rows.map g).sum + amount := by
  obtain ⟨hkeyed, hmem⟩ := @created_spec _ _ key _ rows fresh h
  rw [upsert, sum_modify hkeyed hmem hf]
  split
  · rfl
  · simp [hfresh]

/-- A loop adds up the amounts of its turns. -/
theorem foldl_add {α β : Type*} {op : β → α → β} {total : β → M} {w : α → M}
    (h : ∀ b a, total (op b a) = total b + w a) (l : List α) (b : β) :
    total (l.foldl op b) = total b + (l.map w).sum := by
  induction l generalizing b with
  | nil => simp
  | cons a l ih => rw [List.foldl_cons, ih, h, List.map_cons, List.sum_cons, add_assoc]

end Accumulate
