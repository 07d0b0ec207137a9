import Mathlib

/-!
# Computations inside a database transaction

A `Tx` reads and writes the state of the session and may raise. What it wrote before raising
stays in the session; only a savepoint, or the caller's own rollback, takes it back.

`wp x Q E` is the weakest precondition of `x`: `Q` holds of the result and the state when `x`
returns, `E` of the exception and the state when it raises. The rules below push `wp` through
every operation, so a proof about a function is a proof about its branches.

Results:
1. `wp_bind`, `wp_raiseIf`, `wp_savepoint`, `wp_attempt`, `wp_zoom`: the rules.
2. `wp_mono`: consequence, the rule to use the specification of a called function.
3. `wp_run`: a weakest precondition read back on a run.
-/

/-- A computation on the state `σ` that returns an `α` or raises an `ε`. -/
def Tx (σ ε α : Type) : Type := σ → Except ε α × σ

namespace Tx

variable {σ τ ε δ α β : Type}

/-! ## 1. The operations -/

instance : Monad (Tx σ ε) where
  pure a := fun s => (.ok a, s)
  bind x f := fun s =>
    match x s with
    | (.ok a, s') => f a s'
    | (.error e, s') => (.error e, s')

/-- The current state of the session. -/
def read : Tx σ ε σ := fun s => (.ok s, s)

/-- A write. -/
def write (f : σ → σ) : Tx σ ε Unit := fun s => (.ok (), f s)

/-- `raise e`. -/
def raise (e : ε) : Tx σ ε α := fun s => (.error e, s)

/-- `if c: raise e`. -/
def raiseIf (c : Prop) [Decidable c] (e : ε) : Tx σ ε Unit := if c then raise e else pure ()

/-- `if x is None: raise e`. -/
def orRaise (o : Option α) (e : ε) : Tx σ ε α :=
  match o with
  | some a => pure a
  | none => raise e

/-- A pure computation. -/
def lift (x : Except ε α) : Tx σ ε α :=
  match x with
  | .ok a => pure a
  | .error e => raise e

/-- A savepoint: an exception takes the writes of `x` back. `rollback before after` is the state
before, with what a rollback does not undo (a sequence) taken from the state after. -/
def savepoint (rollback : σ → σ → σ) (x : Tx σ ε α) : Tx σ ε α := fun s =>
  match x s with
  | (.ok a, s') => (.ok a, s')
  | (.error e, s') => (.error e, rollback s s')

/-- `try`/`except`: an exception for which `handler` gives a continuation is caught. -/
def attempt (x : Tx σ ε α) (handler : ε → Option (Tx σ ε α)) : Tx σ ε α := fun s =>
  match x s with
  | (.ok a, s') => (.ok a, s')
  | (.error e, s') =>
    match handler e with
    | some y => y s'
    | none => (.error e, s')

/-- A computation on a part of a larger state. -/
def zoom (get : τ → σ) (put : σ → τ → τ) (inject : ε → δ) (x : Tx σ ε α) : Tx τ δ α := fun t =>
  match x (get t) with
  | (.ok a, s') => (.ok a, put s' t)
  | (.error e, s') => (.error (inject e), put s' t)

/-! ## 2. Weakest preconditions -/

/-- `Q` after returning, `E` after raising. -/
def wp (x : Tx σ ε α) (Q : α → σ → Prop) (E : ε → σ → Prop) (s : σ) : Prop :=
  match x s with
  | (.ok a, s') => Q a s'
  | (.error e, s') => E e s'

variable {Q Q' : α → σ → Prop} {E E' : ε → σ → Prop} {s : σ}

theorem wp_run {x : Tx σ ε α} (h : wp x Q E s) :
    (∃ a s', x s = (.ok a, s') ∧ Q a s') ∨ ∃ e s', x s = (.error e, s') ∧ E e s' := by
  unfold wp at h
  split at h
  · next a s' hx => exact .inl ⟨a, s', hx, h⟩
  · next e s' hx => exact .inr ⟨e, s', hx, h⟩

theorem wp_ok {x : Tx σ ε α} (h : wp x Q E s) {a : α} {s' : σ} (hx : x s = (.ok a, s')) : Q a s' := by
  unfold wp at h
  rwa [hx] at h

theorem wp_mono {x : Tx σ ε α} (h : wp x Q E s) (hQ : ∀ a s', Q a s' → Q' a s')
    (hE : ∀ e s', E e s' → E' e s') : wp x Q' E' s := by
  unfold wp at h ⊢
  split
  · next a s' hx => exact hQ a s' (by simpa [hx] using h)
  · next e s' hx => exact hE e s' (by simpa [hx] using h)

/-- A computation that goes on where another returned. -/
theorem bind_run {x : Tx σ ε α} {f : α → Tx σ ε β} {a : α} {t : σ} (hx : x s = (.ok a, t)) : (x >>= f) s = f a t := by
  change (match x s with | (.ok a, s') => f a s' | (.error e, s') => (.error e, s')) = _
  rw [hx]

/-- Two specifications of one computation. -/
theorem wp_and {x : Tx σ ε α} (h : wp x Q E s) (h' : wp x Q' E' s) :
    wp x (fun a s' => Q a s' ∧ Q' a s') (fun e s' => E e s' ∧ E' e s') s := by
  unfold wp at h h' ⊢
  split
  · next a s' hx => exact ⟨by simpa [hx] using h, by simpa [hx] using h'⟩
  · next e s' hx => exact ⟨by simpa [hx] using h, by simpa [hx] using h'⟩

/-- What holds of the state whether the computation returns or raises. -/
theorem wp_state {x : Tx σ ε α} {P : σ → Prop} (h : wp x (fun _ => P) (fun _ => P) s) : P (x s).2 := by
  unfold wp at h
  split at h
  · next a s' hx => simpa [hx] using h
  · next e s' hx => simpa [hx] using h

@[simp] theorem wp_pure {a : α} : wp (pure a : Tx σ ε α) Q E s ↔ Q a s := Iff.rfl

@[simp] theorem wp_bind {x : Tx σ ε α} {f : α → Tx σ ε β} {Q : β → σ → Prop} :
    wp (x >>= f) Q E s ↔ wp x (fun a => wp (f a) Q E) E s := by
  unfold wp
  change (match (match x s with
    | (.ok a, s') => f a s'
    | (.error e, s') => (.error e, s')) with
    | (.ok a, s') => Q a s'
    | (.error e, s') => E e s') ↔ _
  split
  · next a s' hx => split at hx <;> simp_all
  · next e s' hx => split at hx <;> simp_all

@[simp] theorem wp_map {x : Tx σ ε α} {f : α → β} {Q : β → σ → Prop} :
    wp (f <$> x) Q E s ↔ wp x (fun a => Q (f a)) E s :=
  wp_bind (f := fun a => pure (f a))

@[simp] theorem wp_read {Q : σ → σ → Prop} : wp (read : Tx σ ε σ) Q E s ↔ Q s s := Iff.rfl

@[simp] theorem wp_write {f : σ → σ} {Q : Unit → σ → Prop} :
    wp (write f : Tx σ ε Unit) Q E s ↔ Q () (f s) := Iff.rfl

@[simp] theorem wp_raise {e : ε} : wp (raise e : Tx σ ε α) Q E s ↔ E e s := Iff.rfl

@[simp] theorem wp_raiseIf {c : Prop} [Decidable c] {e : ε} {Q : Unit → σ → Prop} :
    wp (raiseIf c e : Tx σ ε Unit) Q E s ↔ (c → E e s) ∧ (¬ c → Q () s) := by
  unfold raiseIf
  split
  · next h => simp [h]
  · next h => simp [h]

@[simp] theorem wp_orRaise {o : Option α} {e : ε} :
    wp (orRaise o e : Tx σ ε α) Q E s ↔ (o = none → E e s) ∧ ∀ a, o = some a → Q a s := by
  cases o <;> simp [orRaise]

@[simp] theorem wp_lift {x : Except ε α} :
    wp (lift x : Tx σ ε α) Q E s ↔ (∀ a, x = .ok a → Q a s) ∧ ∀ e, x = .error e → E e s := by
  cases x <;> simp [lift]

theorem wp_ite {c : Prop} [Decidable c] {x y : Tx σ ε α} :
    wp (if c then x else y) Q E s ↔ (c → wp x Q E s) ∧ (¬ c → wp y Q E s) := by
  split
  · next h => simp [h]
  · next h => simp [h]

@[simp] theorem wp_savepoint {rollback : σ → σ → σ} {x : Tx σ ε α} :
    wp (savepoint rollback x) Q E s ↔ wp x Q (fun e s' => E e (rollback s s')) s := by
  unfold wp savepoint
  split
  · next a s' hx => split at hx <;> simp_all
  · next e s' hx => split at hx <;> simp_all

@[simp] theorem wp_attempt {x : Tx σ ε α} {handler : ε → Option (Tx σ ε α)} :
    wp (attempt x handler) Q E s ↔
      wp x Q (fun e s' => (handler e = none → E e s') ∧
        ∀ y, handler e = some y → wp y Q E s') s := by
  unfold wp attempt
  cases x s with
  | mk r s' =>
    cases r with
    | ok a => rfl
    | error e => cases hh : handler e <;> simp [hh]

@[simp] theorem wp_zoom {get : τ → σ} {put : σ → τ → τ} {inject : ε → δ} {x : Tx σ ε α} {t : τ}
    {Q : α → τ → Prop} {E : δ → τ → Prop} :
    wp (zoom get put inject x) Q E t ↔
      wp x (fun a s' => Q a (put s' t)) (fun e s' => E (inject e) (put s' t)) (get t) := by
  unfold wp zoom
  split
  · next a s' hx => split at hx <;> simp_all
  · next e s' hx => split at hx <;> simp_all

/-! ## 3. Runs that agree -/

/-- Two continuations that agree wherever the first computation may return. -/
theorem bind_congr {x : Tx σ ε α} {f g : α → Tx σ ε β} (h : ∀ a s', x s = (.ok a, s') → f a s' = g a s') :
    (x >>= f) s = (x >>= g) s := by
  change (match x s with
    | (.ok a, s') => f a s'
    | (.error e, s') => (.error e, s')) = (match x s with
    | (.ok a, s') => g a s'
    | (.error e, s') => (.error e, s'))
  cases hx : x s with
  | mk r s' =>
    cases r with
    | ok a => exact h a s' hx
    | error e => rfl

end Tx
