import Mathlib.Data.List.Count

/-!
# What comes between two occurrences

`between a l` is the part of `l` after the first occurrence of `a`, up to the second one if
there is one.  It only grows as the list does (`mem_between_append`), and it holds all that
comes after the first `a` and before the second (`mem_between_of_count`).
-/

universe u

namespace Repeats

variable {α : Type u} [DecidableEq α]

def between (a : α) : List α → List α
  | [] => []
  | b :: l => if b = a then l.takeWhile (· ≠ a) else between a l

/-- What is between stays between. -/
theorem mem_between_append {a b : α} {l : List α} (h : b ∈ between a l) (l' : List α) :
    b ∈ between a (l ++ l') := by
  induction l with
  | nil => cases h
  | cons c l ih =>
    rw [List.cons_append]
    by_cases hc : c = a
    · simp only [between, if_pos hc] at h ⊢
      rw [List.takeWhile_append]
      split
      · exact List.mem_append_left _ (List.takeWhile_sublist _ |>.subset h)
      · exact h
    · simp only [between, if_neg hc] at h ⊢
      exact ih h

/-- Where `a` has occurred once, whatever is next is between, unless it is `a` again. -/
theorem mem_between_of_count {a b : α} {l : List α} (hl : l.count a = 1) (hb : b ≠ a)
    (l' : List α) : b ∈ between a (l ++ b :: l') := by
  induction l with
  | nil => simp at hl
  | cons c l ih =>
    rw [List.cons_append]
    by_cases hc : c = a
    · subst hc
      rw [List.count_cons_self, Nat.add_eq_right, List.count_eq_zero] at hl
      simp only [between]
      have hpos : ∀ d ∈ l, decide (d ≠ c) = true := fun d hd =>
        decide_eq_true fun he => hl (he ▸ hd)
      rw [List.takeWhile_append_of_pos hpos]
      refine List.mem_append_right _ ?_
      simp [hb]
    · rw [List.count_cons_of_ne hc] at hl
      simp only [between, if_neg hc]
      exact ih hl

end Repeats
