import Mathlib.Logic.Relation

/-!
# Computations with related results

Two computations that can fail are related if both fail or their results are related, whatever the
failures are.  Sequences of related computations are related.
-/

namespace Minipg.Lib

variable {α β γ δ ε ζ : Type}

/-- Both fail, or the results are related. -/
def Related (R : α → β → Prop) : Except ε α → Except ζ β → Prop
  | .ok a, .ok b => R a b
  | .error _, .error _ => True
  | _, _ => False

theorem Related.refl {R : α → α → Prop} (h : ∀ a, R a a) : ∀ x : Except ε α, Related R x x
  | .ok a => h a
  | .error _ => trivial

theorem Related.bind {R : α → β → Prop} {S : γ → δ → Prop} {x : Except ε α} {y : Except ζ β}
    {f : α → Except ε γ} {g : β → Except ζ δ} (h : Related R x y)
    (hf : ∀ a b, R a b → Related S (f a) (g b)) : Related S (x >>= f) (y >>= g) := by
  cases x with
  | error e =>
    cases y with
    | error e' => exact trivial
    | ok b => exact h.elim
  | ok a =>
    cases y with
    | error e' => exact h.elim
    | ok b => exact hf a b h

theorem Related.mapError {R : α → β → Prop} {x : Except ε α} {y : Except ζ β} {f : ε → γ}
    {g : ζ → δ} (h : Related R x y) : Related R (x.mapError f) (y.mapError g) := by
  cases x with
  | error e =>
    cases y with
    | error e' => exact trivial
    | ok b => exact h.elim
  | ok a =>
    cases y with
    | error e' => exact h.elim
    | ok b => exact h

/-- A computation with the same results stands for the other one. -/
theorem Related.of_same {R : α → β → Prop} {x x' : Except ε α} {y : Except ζ β}
    (hx : ∀ a, x = .ok a ↔ x' = .ok a) (h : Related R x' y) : Related R x y := by
  cases x' with
  | error e' =>
    cases x with
    | error e =>
      cases y with
      | error e'' => exact trivial
      | ok b => exact h.elim
    | ok a => cases (hx a).mp rfl
  | ok a =>
    rw [(hx a).mpr rfl]
    exact h

theorem Related.symm {R : α → β → Prop} {x : Except ε α} {y : Except ζ β} (h : Related R x y) :
    Related (fun b a => R a b) y x := by
  cases x with
  | error e =>
    cases y with
    | error e' => exact trivial
    | ok b => exact h.elim
  | ok a =>
    cases y with
    | error e' => exact h.elim
    | ok b => exact h

end Minipg.Lib
