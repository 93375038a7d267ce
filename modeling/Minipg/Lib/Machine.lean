import Mathlib.Data.List.Induction
import Mathlib.Logic.Relation

/-!
# Machines, runs and invariants

A machine has a state, labelled steps that may or may not be enabled, and a function for
what an enabled step does; the label carries every choice of the environment, so a run is
a list of labels.  `Reach M ok start` are the states that runs from `start` reach when
every step satisfies `ok` in the state before it; `Free` is the condition that allows
everything.

`Reach.invariant` is the induction every safety proof uses.  `Reach.exec` makes a state of
a concrete run reachable by evaluating the guards.
-/

universe u v

structure Machine (σ : Type u) (ε : Type v) where
  enabled : σ → ε → Bool
  step : σ → ε → σ

namespace Machine

variable {σ : Type u} {ε : Type v} (M : Machine σ ε)

/-- No condition on the steps. -/
def Free : σ → ε → Prop := fun _ _ => True

instance (s : σ) (e : ε) : Decidable (Free s e) := instDecidableTrue

/-- The states of the runs from `start` whose steps all satisfy `ok`. -/
inductive Reach (ok : σ → ε → Prop) (start : σ → Prop) : σ → Prop
  | start {s : σ} : start s → Reach ok start s
  | step {s : σ} (e : ε) : Reach ok start s → M.enabled s e = true → ok s e →
      Reach ok start (M.step s e)

variable {M}

/-- **The invariant rule.** -/
theorem Reach.invariant {ok : σ → ε → Prop} {start I : σ → Prop} (hstart : ∀ s, start s → I s)
    (hstep : ∀ s e, I s → M.enabled s e = true → ok s e → I (M.step s e)) {s : σ}
    (h : M.Reach ok start s) : I s := by
  induction h with
  | start hs => exact hstart _ hs
  | step e _ he hok ih => exact hstep _ e ih he hok

/-- An invariant may use one that is already known. -/
theorem Reach.invariant_with {ok : σ → ε → Prop} {start J I : σ → Prop}
    (hJ : ∀ s, M.Reach ok start s → J s) (hstart : ∀ s, start s → I s)
    (hstep : ∀ s e, J s → I s → M.enabled s e = true → ok s e → I (M.step s e)) {s : σ}
    (h : M.Reach ok start s) : I s := by
  induction h with
  | start hs => exact hstart _ hs
  | step e hr he hok ih => exact hstep _ e (hJ _ hr) ih he hok

theorem Reach.mono {ok ok' : σ → ε → Prop} {start start' : σ → Prop}
    (hok : ∀ s e, ok s e → ok' s e) (hstart : ∀ s, start s → start' s) {s : σ}
    (h : M.Reach ok start s) : M.Reach ok' start' s := by
  induction h with
  | start hs => exact .start (hstart _ hs)
  | step e _ he hk ih => exact .step e ih he (hok _ _ hk)

/-- The state after a list of steps. -/
def exec (M : Machine σ ε) : σ → List ε → σ
  | s, [] => s
  | s, e :: es => M.exec (M.step s e) es

/-- Whether every step of the list is enabled when its turn comes, and satisfies `ok`. -/
def Runs (M : Machine σ ε) (ok : σ → ε → Prop) : σ → List ε → Prop
  | _, [] => True
  | s, e :: es => M.enabled s e = true ∧ ok s e ∧ M.Runs ok (M.step s e) es

instance Runs.decidable (ok : σ → ε → Prop) [∀ s e, Decidable (ok s e)] :
    ∀ s es, Decidable (M.Runs ok s es)
  | _, [] => instDecidableTrue
  | s, e :: es =>
    have := Runs.decidable ok (M.step s e) es
    inferInstanceAs (Decidable (M.enabled s e = true ∧ ok s e ∧ M.Runs ok (M.step s e) es))

/-- The beginning of a run. -/
theorem Runs.initial {ok : σ → ε → Prop} {s : σ} {es es' : List ε} (h : M.Runs ok s es)
    (hes : es' <+: es) : M.Runs ok s es' := by
  induction es' generalizing s es with
  | nil => trivial
  | cons e es' ih =>
    cases es with
    | nil => simp at hes
    | cons e₂ es =>
      obtain ⟨rfl, hrest⟩ := List.cons_prefix_cons.mp hes
      exact ⟨h.1, h.2.1, ih h.2.2 hrest⟩

/-- Two conditions that agree in every state that an invariant allows select the same runs. -/
theorem Runs.congr {ok ok' : σ → ε → Prop} {I : σ → Prop}
    (hI : ∀ s e, I s → M.enabled s e = true → I (M.step s e))
    (hok : ∀ s e, I s → M.enabled s e = true → (ok s e ↔ ok' s e)) :
    ∀ {s}, I s → ∀ es, M.Runs ok s es ↔ M.Runs ok' s es := by
  intro s hs es
  induction es generalizing s with
  | nil => exact Iff.rfl
  | cons e es ih =>
    constructor
    · rintro ⟨he, hk, hr⟩
      exact ⟨he, (hok s e hs he).mp hk, (ih (hI s e hs he)).mp hr⟩
    · rintro ⟨he, hk, hr⟩
      exact ⟨he, (hok s e hs he).mpr hk, (ih (hI s e hs he)).mpr hr⟩

theorem exec_concat (s : σ) (es : List ε) (e : ε) :
    M.exec s (es ++ [e]) = M.step (M.exec s es) e := by
  induction es generalizing s with
  | nil => rfl
  | cons e' es ih => exact ih _

/-- The last step of a run. -/
theorem Runs.last {ok : σ → ε → Prop} {s : σ} {es : List ε} {e : ε} (h : M.Runs ok s (es ++ [e])) :
    M.enabled (M.exec s es) e = true ∧ ok (M.exec s es) e := by
  induction es generalizing s with
  | nil => exact ⟨h.1, h.2.1⟩
  | cons e' es ih => exact ih h.2.2

/-- **The invariant rule for runs**: the invariant may speak about the steps so far. -/
theorem Runs.invariant {ok : σ → ε → Prop} {s : σ} {I : List ε → Prop} (h0 : I [])
    (hstep : ∀ es e, I es → M.enabled (M.exec s es) e = true → ok (M.exec s es) e →
      I (es ++ [e])) {es : List ε} (h : M.Runs ok s es) : I es := by
  induction es using List.reverseRecOn with
  | nil => exact h0
  | append_singleton es e ih =>
    obtain ⟨he, hok⟩ := h.last
    exact hstep es e (ih (h.initial (List.prefix_append ..))) he hok

theorem Reach.exec {ok : σ → ε → Prop} {start : σ → Prop} {s : σ} (h : M.Reach ok start s) :
    ∀ {es : List ε}, M.Runs ok s es → M.Reach ok start (M.exec s es) := by
  intro es
  induction es generalizing s with
  | nil => intro _; exact h
  | cons e es ih => intro hr; exact ih (.step e h hr.1 hr.2.1) hr.2.2

end Machine
