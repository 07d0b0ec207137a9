import Csms.Lib.Tx

/-!
# Exceptions of transactions

`RaisesOnly P x`: whatever `x` raises, from any state, satisfies `P`. With `P` false, `x` never raises.

Results: one rule for each operation.
-/

namespace Tx

variable {σ τ ε δ α β : Type} {P : ε → Prop} {s : σ}

/-- Whatever `x` raises satisfies `P`. -/
def RaisesOnly (P : ε → Prop) (x : Tx σ ε α) : Prop := ∀ s, wp x (fun _ _ => True) (fun e _ => P e) s

theorem raisesOnly_pure (a : α) : RaisesOnly P (pure a : Tx σ ε α) := fun _ => trivial

theorem raisesOnly_read : RaisesOnly P (read : Tx σ ε σ) := fun _ => trivial

theorem raisesOnly_write (f : σ → σ) : RaisesOnly P (write f : Tx σ ε Unit) := fun _ => trivial

theorem raisesOnly_raiseIf {c : Prop} [Decidable c] {e : ε} (he : c → P e) : RaisesOnly P (raiseIf c e : Tx σ ε Unit) :=
  fun _ => wp_raiseIf.mpr ⟨he, fun _ => trivial⟩

theorem raisesOnly_orRaise {o : Option α} {e : ε} (he : o = none → P e) : RaisesOnly P (orRaise o e : Tx σ ε α) :=
  fun _ => wp_orRaise.mpr ⟨he, fun _ _ => trivial⟩

theorem raisesOnly_lift {x : Except ε α} (hx : ∀ e, x = .error e → P e) : RaisesOnly P (lift x : Tx σ ε α) :=
  fun _ => wp_lift.mpr ⟨fun _ _ => trivial, hx⟩

theorem RaisesOnly.bind {x : Tx σ ε α} {f : α → Tx σ ε β} (h : RaisesOnly P x) (hf : ∀ a, RaisesOnly P (f a)) :
    RaisesOnly P (x >>= f) := fun s =>
  wp_bind.mpr (wp_mono (h s) (fun a s' _ => hf a s') fun _ _ he => he)

theorem RaisesOnly.ite {c : Prop} [Decidable c] {x y : Tx σ ε α} (hx : c → RaisesOnly P x) (hy : ¬ c → RaisesOnly P y) :
    RaisesOnly P (if c then x else y) := by
  split
  · next h => exact hx h
  · next h => exact hy h

theorem RaisesOnly.zoom {get : τ → σ} {put : σ → τ → τ} {inject : ε → δ} {P : δ → Prop} {x : Tx σ ε α}
    (h : RaisesOnly (fun e => P (inject e)) x) : RaisesOnly P (zoom get put inject x) := fun t =>
  wp_zoom.mpr (wp_mono (h (get t)) (fun _ _ _ => trivial) fun _ _ he => he)

/-- An exception ends the computation. -/
theorem bind_raised {x : Tx σ ε α} {f : α → Tx σ ε β} {e : ε} {t : σ} (hx : x s = (.error e, t)) :
    (x >>= f) s = (.error e, t) := by
  simp only [bind, hx]

end Tx
