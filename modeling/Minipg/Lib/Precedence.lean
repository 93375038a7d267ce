import Mathlib.Data.List.Induction

/-!
# What has to come before

`Each P l` says that every item of `l` meets a condition on the items before it, as the actions of a
correspondence do.  A process reads items and emits others (`emitted`); what it emits meets `Q`
exactly when what it reads meets `P`, once each step is seen to do so (`each_emitted_iff`).
-/

universe u v w

namespace Precedence

variable {α : Type u} {β : Type v} {σ : Type w} {P : List α → α → Prop}

def Each (P : List α → α → Prop) (l : List α) : Prop :=
  ∀ before a after, l = before ++ a :: after → P before a

@[simp] theorem each_nil : Each P [] := by
  intro before a after h
  simp at h

@[simp] theorem each_cons {a : α} {l : List α} :
    Each P (a :: l) ↔ P [] a ∧ Each (fun before => P (a :: before)) l := by
  constructor
  · intro h
    refine ⟨h [] a l rfl, fun before b after hl => h (a :: before) b after ?_⟩
    rw [hl, List.cons_append]
  · rintro ⟨ha, hl⟩ before b after h
    cases before with
    | nil =>
      obtain ⟨rfl, -⟩ := List.cons_eq_cons.mp h
      exact ha
    | cons c before =>
      obtain ⟨rfl, htail⟩ := List.cons_eq_cons.mp h
      exact hl before b after htail

theorem each_append {l m : List α} :
    Each P (l ++ m) ↔ Each P l ∧ Each (fun before => P (l ++ before)) m := by
  induction l generalizing P with
  | nil => simp
  | cons a l ih =>
    rw [List.cons_append, each_cons, each_cons, ih, and_assoc]
    rfl

/-! ### Processes -/

/-- The state after the items, and what was emitted. -/
def run (step : σ → α → σ × List β) (start : σ) (l : List α) : σ × List β :=
  l.foldl (fun p a => ((step p.1 a).1, p.2 ++ (step p.1 a).2)) (start, [])

variable {step : σ → α → σ × List β} {start : σ} {Q : List β → β → Prop}

def after (step : σ → α → σ × List β) (start : σ) (l : List α) : σ := (run step start l).1

def emitted (step : σ → α → σ × List β) (start : σ) (l : List α) : List β := (run step start l).2

theorem after_concat (l : List α) (a : α) :
    after step start (l ++ [a]) = (step (after step start l) a).1 := by
  simp [after, run]

theorem emitted_concat (l : List α) (a : α) :
    emitted step start (l ++ [a]) = emitted step start l ++ (step (after step start l) a).2 := by
  simp [emitted, after, run]

/-- An invariant of the items read, the state, and what was emitted. -/
theorem invariant {I : List α → σ → List β → Prop} (hstart : I [] start [])
    (hstep : ∀ l s t a, I l s t → I (l ++ [a]) (step s a).1 (t ++ (step s a).2)) (l : List α) :
    I l (after step start l) (emitted step start l) := by
  induction l using List.reverseRecOn with
  | nil => exact hstart
  | append_singleton l a ih =>
    rw [after_concat, emitted_concat]
    exact hstep l _ _ a ih

/-- Every step emits what meets `Q` exactly when the item it reads meets `P`. -/
theorem each_emitted_iff {I : List α → σ → List β → Prop} (hstart : I [] start [])
    (hstep : ∀ l s t a, I l s t → I (l ++ [a]) (step s a).1 (t ++ (step s a).2))
    (hemit : ∀ l s t a, I l s t → s = after step start l →
      (Each (fun before => Q (t ++ before)) (step s a).2 ↔ P l a)) (l : List α) :
    Each Q (emitted step start l) ↔ Each P l := by
  induction l using List.reverseRecOn with
  | nil => exact iff_of_true each_nil each_nil
  | append_singleton l a ih =>
    rw [emitted_concat, each_append, each_append, ih,
      hemit l _ _ a (invariant hstart hstep l) rfl]
    simp

end Precedence
