import Mathlib

/-!
# Tables with a primary key

A table is a list of rows of any type `ρ` with a key. `Keyed` is the primary key constraint,
`modify` the update of the row of a key.

Results: `Keyed.eq`, `Keyed.modify`, `Keyed.append`, and `mem_modify`: the rows after an update.
-/

namespace Table

variable {ρ κ : Type*} (key : ρ → κ)

/-- No two rows share a key. -/
def Keyed (rows : List ρ) : Prop := rows.Pairwise fun a b => key a ≠ key b

/-- The update of the row with key `k`. -/
def modify [DecidableEq κ] (k : κ) (f : ρ → ρ) (rows : List ρ) : List ρ :=
  rows.map fun r => if key r = k then f r else r

variable {key} {rows : List ρ}

theorem Keyed.eq (h : Keyed key rows) {a b : ρ} (ha : a ∈ rows) (hb : b ∈ rows)
    (hk : key a = key b) : a = b := by
  by_contra hne
  have : Std.Symm fun a b : ρ => key a ≠ key b := ⟨fun _ _ h => h.symm⟩
  exact List.Pairwise.forall h ha hb hne hk

theorem Keyed.append (h : Keyed key rows) {r : ρ} (hr : ∀ a ∈ rows, key a ≠ key r) :
    Keyed key (rows ++ [r]) :=
  List.pairwise_append.mpr ⟨h, List.pairwise_singleton _ _,
    fun a ha b hb => by rw [List.mem_singleton.mp hb]; exact hr a ha⟩

variable [DecidableEq κ] {k : κ} {f : ρ → ρ}

theorem mem_modify {r : ρ} :
    r ∈ modify key k f rows ↔ ∃ a ∈ rows, r = if key a = k then f a else a := by
  simp [modify, eq_comm]

/-- In a keyed table the update changes one row. -/
theorem mem_modify_of_mem (h : Keyed key rows) {a : ρ} (ha : a ∈ rows) (hk : key a = k) {r : ρ} :
    r ∈ modify key k f rows ↔ r = f a ∨ (r ∈ rows ∧ key r ≠ k) := by
  rw [mem_modify]
  constructor
  · rintro ⟨b, hb, rfl⟩
    split
    · next hbk => exact .inl (by rw [h.eq hb ha (hbk.trans hk.symm)])
    · next hbk => exact .inr ⟨hb, hbk⟩
  · rintro (rfl | ⟨hr, hrk⟩)
    · exact ⟨a, ha, by rw [if_pos hk]⟩
    · exact ⟨r, hr, by rw [if_neg hrk]⟩

/-- An update that keeps the key of its row keeps all keys. -/
theorem map_key_modify (hf : ∀ a ∈ rows, key a = k → key (f a) = k) : (modify key k f rows).map key = rows.map key := by
  unfold modify
  rw [List.map_map]
  refine List.map_congr_left fun a ha => ?_
  rw [Function.comp_apply]
  split
  · next hk => exact (hf a ha hk).trans hk.symm
  · rfl

theorem modify_of_notMem (hk : ∀ a ∈ rows, key a ≠ k) : modify key k f rows = rows := by
  unfold modify
  calc rows.map (fun r => if key r = k then f r else r) = rows.map id :=
        List.map_congr_left fun a ha => by rw [if_neg (hk a ha), id]
    _ = rows := List.map_id rows

theorem Keyed.modify (h : Keyed key rows) (hf : ∀ r, key r = k → key (f r) = k) :
    Keyed key (Table.modify key k f rows) := by
  have hkey : ∀ r, key (if key r = k then f r else r) = key r := fun r => by
    split
    · next hr => rw [hf r hr, hr]
    · rfl
  refine List.pairwise_map.mpr (List.Pairwise.imp (fun {a b} hab => ?_) h)
  rwa [hkey, hkey]

theorem modify_modify {a b : ρ} (ha : key a = k) :
    Table.modify key k (fun _ => b) (Table.modify key k (fun _ => a) rows) =
      Table.modify key k (fun _ => b) rows := by
  simp only [Table.modify, List.map_map]
  refine List.map_congr_left fun r _ => ?_
  by_cases hr : key r = k <;> simp [hr, ha]

/-- Writing a row back changes nothing. -/
theorem modify_self (h : Keyed key rows) {a : ρ} (ha : a ∈ rows) (hk : key a = k) :
    Table.modify key k (fun _ => a) rows = rows := by
  unfold Table.modify
  calc rows.map (fun r => if key r = k then a else r) = rows.map id :=
        List.map_congr_left fun r hr => by
          split
          · next hrk => exact h.eq ha hr (hk.trans hrk.symm)
          · rfl
    _ = rows := List.map_id rows

/-- A relation that an update keeps in each row it changes. -/
theorem forall_modify {P : ρ → Prop} (hP : ∀ a ∈ rows, P a) (hf : ∀ a ∈ rows, key a = k → P (f a)) :
    ∀ r ∈ Table.modify key k f rows, P r := by
  intro r hr
  obtain ⟨a, ha, rfl⟩ := mem_modify.mp hr
  split
  · next hk => exact hf a ha hk
  · exact hP a ha

/-- An update that does not change whether a row is selected. -/
theorem filter_modify {p : ρ → Bool} (hp : ∀ a ∈ rows, key a = k → p (f a) = p a) :
    (Table.modify key k f rows).filter p = Table.modify key k f (rows.filter p) := by
  unfold Table.modify
  rw [List.filter_map]
  congr 1
  refine List.filter_congr fun a ha => ?_
  rw [Function.comp_apply]
  split
  · next hk => exact hp a ha hk
  · rfl

/-- The update of the last row. -/
theorem modify_concat {a : ρ} (h : Keyed key (rows ++ [a])) {b : ρ} (hk : key a = k) :
    Table.modify key k (fun _ => b) (rows ++ [a]) = rows ++ [b] := by
  have hne : ∀ r ∈ rows, key r ≠ k := fun r hr =>
    hk ▸ (List.pairwise_append.mp h).2.2 r hr a (List.mem_singleton_self a)
  have hsplit : Table.modify key k (fun _ => b) (rows ++ [a]) =
      Table.modify key k (fun _ => b) rows ++ [b] := by
    unfold Table.modify
    rw [List.map_append, List.map_singleton, if_pos hk]
  rw [hsplit, modify_of_notMem hne]

end Table
