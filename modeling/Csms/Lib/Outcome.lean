import Mathlib

/-!
# Computations that may raise

Inversion of `bind` and `mapM` in `Except`, `Raises`: which exceptions a computation may end with, and
`Alike`: two computations that simulate each other.
-/

namespace Outcome

variable {ε α β : Type*}

theorem bind_eq_ok {x : Except ε α} {f : α → Except ε β} {b : β} :
    x.bind f = .ok b ↔ ∃ a, x = .ok a ∧ f a = .ok b := by
  cases x <;> simp [Except.bind]

theorem forall₂_of_mapM_ok {f : α → Except ε β} :
    ∀ {l : List α} {bs : List β}, l.mapM f = .ok bs → List.Forall₂ (fun a b => f a = .ok b) l bs
  | [], bs, h => by
    simp only [List.mapM_nil, pure, Except.pure, Except.ok.injEq] at h
    exact h ▸ .nil
  | a :: l, bs, h => by
    rw [List.mapM_cons] at h
    obtain ⟨b, hb, h⟩ := bind_eq_ok.mp h
    obtain ⟨cs, hcs, h⟩ := bind_eq_ok.mp h
    simp only [pure, Except.pure, Except.ok.injEq] at h
    exact h ▸ .cons hb (forall₂_of_mapM_ok hcs)

theorem mapM_of_forall₂ {f : α → Except ε β} :
    ∀ {l : List α} {bs : List β}, List.Forall₂ (fun a b => f a = .ok b) l bs → l.mapM f = .ok bs
  | _, _, .nil => rfl
  | a :: l, b :: bs, .cons hb hrest => by
    rw [List.mapM_cons, hb, mapM_of_forall₂ hrest]
    rfl

theorem mapM_ok {f : α → Except ε β} :
    ∀ {l : List α}, (∀ a ∈ l, ∃ b, f a = .ok b) → ∃ bs, l.mapM f = .ok bs
  | [], _ => ⟨[], rfl⟩
  | a :: l, h => by
    obtain ⟨b, hb⟩ := h a List.mem_cons_self
    obtain ⟨bs, hbs⟩ := mapM_ok fun x hx => h x (List.mem_cons_of_mem _ hx)
    refine ⟨b :: bs, ?_⟩
    rw [List.mapM_cons, hb, hbs]
    rfl

/-- The results of a `mapM` are those of its elements. -/
theorem mem_of_mapM_ok {f : α → Except ε β} {l : List α} {bs : List β} (h : l.mapM f = .ok bs)
    {b : β} : b ∈ bs ↔ ∃ a ∈ l, f a = .ok b := by
  have h2 := forall₂_of_mapM_ok h
  clear h
  induction h2 with
  | nil => simp
  | @cons a c l bs hac _ ih =>
    constructor
    · intro hb
      rcases List.mem_cons.mp hb with rfl | hb
      · exact ⟨a, List.mem_cons_self, hac⟩
      · obtain ⟨x, hx, hxb⟩ := ih.mp hb
        exact ⟨x, List.mem_cons_of_mem _ hx, hxb⟩
    · rintro ⟨x, hx, hxb⟩
      rcases List.mem_cons.mp hx with rfl | hx
      · rw [hac] at hxb
        cases hxb
        exact List.mem_cons_self
      · exact List.mem_cons_of_mem _ (ih.mpr ⟨x, hx, hxb⟩)

theorem exists_of_forall₂ {R : α → β → Prop} :
    ∀ {l : List α} {bs : List β}, List.Forall₂ R l bs → ∀ {b}, b ∈ bs → ∃ a ∈ l, R a b
  | _, _, .nil, _, hb => by cases hb
  | a :: _, c :: _, .cons hac hrest, b, hb => by
    rcases List.mem_cons.mp hb with rfl | hb
    · exact ⟨a, List.mem_cons_self, hac⟩
    · obtain ⟨x, hx, hxb⟩ := exists_of_forall₂ hrest hb
      exact ⟨x, List.mem_cons_of_mem _ hx, hxb⟩

theorem exists_of_forall₂_left {R : α → β → Prop} {l : List α} {bs : List β}
    (h : List.Forall₂ R l bs) {a : α} (ha : a ∈ l) : ∃ b ∈ bs, R a b :=
  exists_of_forall₂ h.flip ha

theorem forall₂_imp_of_mem {R S : α → β → Prop} :
    ∀ {l : List α} {bs : List β}, List.Forall₂ R l bs → (∀ a ∈ l, ∀ b, R a b → S a b) → List.Forall₂ S l bs
  | _, _, .nil, _ => .nil
  | _ :: _, _ :: _, .cons hab hrest, h =>
    .cons (h _ List.mem_cons_self _ hab) (forall₂_imp_of_mem hrest fun a ha => h a (List.mem_cons_of_mem _ ha))

/-- What every turn of a loop keeps. -/
theorem foldlM_invariant {f : β → α → Except ε β} (P : β → Prop) :
    ∀ {l : List α} {b r : β}, (∀ a ∈ l, ∀ b c, P b → f b a = .ok c → P c) → P b → l.foldlM f b = .ok r → P r
  | [], b, r, _, hb, h => by
    simp only [List.foldlM_nil, pure, Except.pure, Except.ok.injEq] at h
    exact h ▸ hb
  | a :: l, b, r, step, hb, h => by
    rw [List.foldlM_cons] at h
    obtain ⟨c, hc, h⟩ := bind_eq_ok.mp h
    exact foldlM_invariant P (fun x hx => step x (List.mem_cons_of_mem _ hx))
      (step a List.mem_cons_self b c hb hc) h

/-- A loop that keeps `P` returns when each of its turns does. -/
theorem foldlM_ok_iff {f : β → α → Except ε β} {P : β → Prop} {Q : α → Prop} :
    ∀ {l : List α} {b : β}, (∀ a ∈ l, ∀ b c, P b → f b a = .ok c → P c) →
      (∀ a ∈ l, ∀ b, P b → ((∃ c, f b a = .ok c) ↔ Q a)) → P b →
      ((∃ r, l.foldlM f b = .ok r) ↔ ∀ a ∈ l, Q a)
  | [], b, _, _, _ => iff_of_true ⟨b, rfl⟩ nofun
  | a :: l, b, keep, turn, hb => by
    have ih := fun {c : β} (hc : P c) => foldlM_ok_iff (fun x hx => keep x (List.mem_cons_of_mem _ hx))
      (fun x hx => turn x (List.mem_cons_of_mem _ hx)) hc
    rw [List.foldlM_cons, List.forall_mem_cons, ← turn a List.mem_cons_self b hb]
    constructor
    · rintro ⟨r, hr⟩
      obtain ⟨c, hc, hr⟩ := bind_eq_ok.mp hr
      exact ⟨⟨c, hc⟩, (ih (keep a List.mem_cons_self b c hb hc)).mp ⟨r, hr⟩⟩
    · rintro ⟨⟨c, hc⟩, hrest⟩
      obtain ⟨r, hr⟩ := (ih (keep a List.mem_cons_self b c hb hc)).mpr hrest
      exact ⟨r, bind_eq_ok.mpr ⟨c, hc, hr⟩⟩

/-- A `mapM` raises what one of its elements raises. -/
theorem mem_of_mapM_error {f : α → Except ε β} {e : ε} :
    ∀ {l : List α}, l.mapM f = .error e → ∃ a ∈ l, f a = .error e
  | [], h => by cases h
  | a :: l, h => by
    rw [List.mapM_cons] at h
    cases ha : f a with
    | error e' =>
      rw [ha] at h
      cases h
      exact ⟨a, List.mem_cons_self, ha⟩
    | ok b =>
      cases hl : l.mapM f with
      | ok bs => rw [ha, hl] at h; cases h
      | error e' =>
        rw [ha, hl] at h
        cases h
        obtain ⟨x, hx, hxe⟩ := mem_of_mapM_error hl
        exact ⟨x, List.mem_cons_of_mem _ hx, hxe⟩

/-- Whatever `x` raises satisfies `P`. -/
def Raises (P : ε → Prop) (x : Except ε α) : Prop := ∀ e, x = .error e → P e

section Raises

variable {P : ε → Prop}

theorem raises_ok {a : α} : Raises P (.ok a : Except ε α) := fun _ h => by cases h

@[simp] theorem raises_error {e : ε} : Raises P (.error e : Except ε α) ↔ P e :=
  ⟨fun h => h e rfl, fun h e' he => by cases he; exact h⟩

theorem raises_bind {α β : Type} {x : Except ε α} {f : α → Except ε β} :
    Raises P (x >>= f) ↔ Raises P x ∧ ∀ a, x = .ok a → Raises P (f a) := by
  cases x with
  | ok a => exact ⟨fun h => ⟨raises_ok, fun b hb => by cases hb; exact h⟩, fun h => h.2 a rfl⟩
  | error e =>
    have hbind : (Except.error e >>= f) = .error e := rfl
    rw [hbind, raises_error, raises_error]
    exact ⟨fun h => ⟨h, fun b hb => by cases hb⟩, fun h => h.1⟩

theorem raises_mapM {f : α → Except ε β} {l : List α} (h : ∀ a ∈ l, Raises P (f a)) :
    Raises P (l.mapM f) := fun _ he =>
  let ⟨a, ha, hae⟩ := mem_of_mapM_error he
  h a ha _ hae

theorem raises_foldlM {α β : Type} {f : β → α → Except ε β} :
    ∀ {l : List α} {b : β}, (∀ b, ∀ a ∈ l, Raises P (f b a)) → Raises P (l.foldlM f b)
  | [], _, _ => raises_ok
  | a :: l, b, h => by
    rw [List.foldlM_cons]
    exact raises_bind.mpr ⟨h b a List.mem_cons_self, fun _ _ =>
      raises_foldlM fun b x hx => h b x (List.mem_cons_of_mem _ hx)⟩

end Raises

/-- Two computations that end alike: with the same exception, or with related results. -/
inductive Alike (R : α → β → Prop) : Except ε α → Except ε β → Prop
  | ok {a : α} {b : β} (h : R a b) : Alike R (.ok a) (.ok b)
  | error (e : ε) : Alike R (.error e) (.error e)

section Alike

theorem Alike.bind {γ δ : Type*} {R : α → β → Prop} {S : γ → δ → Prop} {x : Except ε α} {y : Except ε β}
    {f : α → Except ε γ} {g : β → Except ε δ} (h : Alike R x y) (hfg : ∀ a b, R a b → Alike S (f a) (g b)) :
    Alike S (x.bind f) (y.bind g) := by
  cases h with
  | ok h => exact hfg _ _ h
  | error e => exact .error e

theorem Alike.eq {x y : Except ε α} (h : Alike Eq x y) : x = y := by
  cases h with
  | ok h => rw [h]
  | error e => rfl

/-- Two loops over one list that simulate each other turn by turn. -/
theorem Alike.foldlM {γ : Type*} {R : α → β → Prop} {f : α → γ → Except ε α} {g : β → γ → Except ε β} :
    ∀ {l : List γ} {a : α} {b : β}, (∀ c ∈ l, ∀ a b, R a b → Alike R (f a c) (g b c)) → R a b →
      Alike R (l.foldlM f a) (l.foldlM g b)
  | [], _, _, _, h => .ok h
  | c :: l, a, b, step, h => by
    rw [List.foldlM_cons, List.foldlM_cons]
    refine (step c List.mem_cons_self a b h).bind fun a' b' h' => ?_
    exact foldlM (fun d hd => step d (List.mem_cons_of_mem _ hd)) h'

/-- Two maps over one list that end alike at each of its elements. -/
theorem Alike.mapM {γ : Type*} {R : α → β → Prop} {f : γ → Except ε α} {g : γ → Except ε β} :
    ∀ {l : List γ}, (∀ c ∈ l, Alike R (f c) (g c)) → Alike (List.Forall₂ R) (l.mapM f) (l.mapM g)
  | [], _ => .ok .nil
  | c :: l, h => by
    rw [List.mapM_cons, List.mapM_cons]
    refine (h c List.mem_cons_self).bind fun a b hab => ?_
    exact (mapM fun d hd => h d (List.mem_cons_of_mem _ hd)).bind fun as bs hs => .ok (.cons hab hs)

end Alike

/-- A relation between elements carries over to their results. -/
theorem pairwise_of_forall₂ {R : α → β → Prop} {S : α → α → Prop} {T : β → β → Prop}
    (hT : ∀ a a' b b', R a b → R a' b' → S a a' → T b b') :
    ∀ {l : List α} {bs : List β}, List.Forall₂ R l bs → l.Pairwise S → bs.Pairwise T
  | _, _, .nil, _ => .nil
  | a :: l, b :: bs, .cons hab hrest, hS => by
    obtain ⟨ha, hl⟩ := List.pairwise_cons.mp hS
    refine List.pairwise_cons.mpr ⟨fun b' hb' => ?_, pairwise_of_forall₂ hT hrest hl⟩
    obtain ⟨a', ha', hab'⟩ := exists_of_forall₂ hrest hb'
    exact hT a a' b b' hab hab' (ha a' ha')

end Outcome
