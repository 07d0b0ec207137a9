import Mathlib

/-!
# Dictionaries

A `dict` is an association list with distinct keys. Two of them are equal in Python when they agree at
every key, whatever the order of their entries.

Results: `lookup_setAll` (a loop of assignments), `values_eq` (the values of a dictionary with known keys).
-/

/-- A `dict`. -/
abbrev Dict (κ ν : Type*) := AList fun _ : κ => ν

namespace Dict

variable {κ ν α : Type*} [DecidableEq κ]

/-- `d.values()`. -/
def values (d : Dict κ ν) : List ν := d.entries.map (·.2)

/-- Equality of dictionaries. -/
def Same (d d' : Dict κ ν) : Prop := ∀ k, d.lookup k = d'.lookup k

/-- `for a in l: d[key(a)] = value(a)`. -/
def setAll (key : α → κ) (value : α → ν) (l : List α) (d : Dict κ ν) : Dict κ ν :=
  l.foldl (fun d a => d.insert (key a) (value a)) d

/-- `{key(a): value(a) for a in l}`. -/
def ofList (key : α → κ) (value : α → ν) (l : List α) : Dict κ ν := setAll key value l ∅

/-! ## 1. Loops of assignments -/

section Loops

variable {key : α → κ} {value : α → ν}

theorem lookup_setAll_of_notMem {l : List α} {k : κ} : ∀ {d : Dict κ ν}, (∀ a ∈ l, key a ≠ k) →
    (setAll key value l d).lookup k = d.lookup k := by
  induction l with
  | nil => exact fun _ => rfl
  | cons a l ih =>
    intro d h
    have hrest := ih (d := d.insert (key a) (value a)) fun b hb => h b (List.mem_cons_of_mem a hb)
    exact hrest.trans (AList.lookup_insert_ne (h a List.mem_cons_self).symm)

theorem lookup_setAll {l : List α} {a : α} (hnodup : (l.map key).Nodup) (ha : a ∈ l) :
    ∀ {d : Dict κ ν}, (setAll key value l d).lookup (key a) = some (value a) := by
  induction l with
  | nil => exact absurd ha List.not_mem_nil
  | cons b l ih =>
    intro d
    obtain ⟨hb, hl⟩ := List.nodup_cons.mp hnodup
    rcases List.mem_cons.mp ha with rfl | ha
    · have hrest : ∀ c ∈ l, key c ≠ key a := fun c hc heq => hb (heq ▸ List.mem_map_of_mem hc)
      exact (lookup_setAll_of_notMem hrest).trans (AList.lookup_insert d)
    · exact ih hl ha

theorem mem_setAll {l : List α} {k : κ} : ∀ {d : Dict κ ν},
    k ∈ setAll key value l d ↔ k ∈ d ∨ k ∈ l.map key := by
  induction l with
  | nil => simp [setAll]
  | cons a l ih =>
    intro d
    rw [show setAll key value (a :: l) d = setAll key value l (d.insert (key a) (value a)) from rfl, ih,
      AList.mem_insert, List.map_cons, List.mem_cons]
    tauto

/-- What is looked up after the loop was assigned in it or was there before. -/
theorem of_lookup_setAll {l : List α} {k : κ} {v : ν} : ∀ {d : Dict κ ν},
    (setAll key value l d).lookup k = some v → (∃ a ∈ l, key a = k ∧ value a = v) ∨ d.lookup k = some v := by
  induction l with
  | nil => exact fun h => .inr h
  | cons a l ih =>
    intro d h
    rcases ih h with ⟨b, hb, hk⟩ | h
    · exact .inl ⟨b, List.mem_cons_of_mem a hb, hk⟩
    · by_cases heq : k = key a
      · subst heq
        rw [AList.lookup_insert] at h
        exact .inl ⟨a, List.mem_cons_self, rfl, Option.some_inj.mp h⟩
      · exact .inr ((AList.lookup_insert_ne heq).symm.trans h)

theorem of_lookup_ofList {l : List α} {k : κ} {v : ν} (h : (ofList key value l).lookup k = some v) :
    ∃ a ∈ l, key a = k ∧ value a = v :=
  (of_lookup_setAll h).resolve_right (by simp)

theorem mem_ofList {l : List α} {k : κ} : k ∈ ofList key value l ↔ k ∈ l.map key := by
  simp [ofList, mem_setAll]

theorem lookup_ofList {l : List α} {a : α} (hnodup : (l.map key).Nodup) (ha : a ∈ l) :
    (ofList key value l).lookup (key a) = some (value a) := lookup_setAll hnodup ha

end Loops

/-! ## 2. Values -/

theorem lookup_eq_none_of_notMem {d : Dict κ ν} {k : κ} (h : k ∉ d) : d.lookup k = none :=
  AList.lookup_eq_none.mpr h

theorem mem_of_lookup {d : Dict κ ν} {k : κ} {v : ν} (h : d.lookup k = some v) : k ∈ d :=
  AList.lookup_isSome.mp (by rw [h]; rfl)

/-- An entry is what its key is mapped to. -/
theorem lookup_of_mem_entries {d : Dict κ ν} {e : (_ : κ) × ν} (h : e ∈ d.entries) : d.lookup e.1 = some e.2 :=
  AList.mem_lookup_iff.mpr h

/-- The values are those at the keys. -/
theorem values_eq {d : Dict κ ν} {keys : List κ} (hnodup : keys.Nodup)
    (hkeys : ∀ k, k ∈ d ↔ k ∈ keys) {f : κ → ν} (hf : ∀ k ∈ keys, d.lookup k = some (f k)) :
    (values d : Multiset ν) = (keys.map f : Multiset ν) := by
  have hperm : d.keys.Perm keys := (List.perm_ext_iff_of_nodup d.keys_nodup hnodup).mpr fun k => hkeys k
  have hvalues : values d = d.keys.map f := by
    rw [AList.keys, List.keys, List.map_map]
    refine List.map_congr_left fun e he => ?_
    have hk : e.1 ∈ keys := (hkeys e.1).mp (mem_of_lookup (lookup_of_mem_entries he))
    have := (lookup_of_mem_entries he).symm.trans (hf e.1 hk)
    exact Option.some_inj.mp this
  rw [hvalues]
  exact Multiset.coe_eq_coe.mpr (hperm.map f)

theorem values_ofList {key : α → κ} {value : α → ν} {l : List α} (hnodup : (l.map key).Nodup) :
    (values (ofList key value l) : Multiset ν) = (l.map value : Multiset ν) := by
  have hmem : ∀ k, k ∈ ofList key value l ↔ k ∈ l.map key := fun k => mem_ofList
  have hget : ∀ a ∈ l, (ofList key value l).lookup (key a) = some (value a) := fun a ha => lookup_ofList hnodup ha
  cases l with
  | nil => rfl
  | cons b l =>
    have hf : ∀ k ∈ (b :: l).map key, (ofList key value (b :: l)).lookup k =
        some (((ofList key value (b :: l)).lookup k).getD (value b)) := fun k hk => by
      obtain ⟨a, ha, rfl⟩ := List.mem_map.mp hk
      rw [hget a ha]
      rfl
    rw [values_eq hnodup hmem hf, List.map_map]
    refine congrArg _ (List.map_congr_left fun a ha => ?_)
    rw [Function.comp_apply, hget a ha]
    rfl

end Dict
