import Mathlib.Algebra.GroupWithZero.Nat
import Mathlib.Algebra.Order.BigOperators.Group.List
import Mathlib.Algebra.Order.Group.Nat

/-!
# A list in slices

The loop `for (let i = 0; i < n; i += k)` with `min(i + k, n)` as the end of each slice, and that
the slices are the list.
-/

namespace Slices

variable {α : Type}

/-- The slices from `i` on, each with its start and its end. -/
def ranges (n k i : Nat) : List (Nat × Nat) :=
  if i < n ∧ 0 < k then (i, min (i + k) n) :: ranges n k (i + k) else []
termination_by n - i

def slice (l : List α) (range : Nat × Nat) : List α := (l.drop range.1).take (range.2 - range.1)

variable {n k i : Nat}

theorem ranges_done (h : n ≤ i) : ranges n k i = [] := by
  rw [ranges, if_neg fun hi => Nat.not_lt.mpr h hi.1]

theorem ranges_next (h : i < n) (hk : 0 < k) :
    ranges n k i = (i, min (i + k) n) :: ranges n k (i + k) := by
  rw [ranges, if_pos ⟨h, hk⟩]

theorem slice_length {l : List α} {a b : Nat} (h : b ≤ l.length) :
    (slice l (a, b)).length = b - a := by
  simp only [slice, List.length_take, List.length_drop]
  omega

/-- **The slices of a list are the list.** -/
theorem slices_flatten (l : List α) (hk : 0 < k) : ∀ i,
    ((ranges l.length k i).map (slice l)).flatten = l.drop i := by
  intro i
  induction hn : l.length - i using Nat.strongRecOn generalizing i with
  | ind n ih =>
    by_cases hi : i < l.length
    · have hrest := ih (l.length - (i + k)) (by omega) (i + k) rfl
      rw [ranges_next hi hk, List.map_cons, List.flatten_cons, hrest, slice]
      -- the last slice may be a short one
      by_cases hik : i + k ≤ l.length
      · rw [Nat.min_eq_left hik, Nat.add_sub_cancel_left, ← List.drop_drop]
        exact List.take_append_drop k (l.drop i)
      · have hdone : l.drop (i + k) = [] := List.drop_of_length_le (by omega)
        rw [Nat.min_eq_right (by omega), hdone, List.append_nil]
        apply List.take_of_length_le
        simp
    · rw [ranges_done (Nat.le_of_not_lt hi), List.drop_of_length_le (Nat.le_of_not_lt hi)]
      rfl

theorem mem_ranges {r : Nat × Nat} (hk : 0 < k) : ∀ i, r ∈ ranges n k i → r.1 < r.2 ∧ r.2 ≤ n := by
  intro i
  induction hn : n - i using Nat.strongRecOn generalizing i with
  | ind m ih =>
    intro hr
    by_cases hi : i < n
    · rw [ranges_next hi hk] at hr
      rcases List.mem_cons.mp hr with rfl | hr
      · exact ⟨by simp only [lt_min_iff]; omega, Nat.min_le_right _ _⟩
      · exact ih (n - (i + k)) (by omega) (i + k) rfl hr
    · rw [ranges_done (Nat.le_of_not_lt hi)] at hr
      cases hr

theorem slice_ne {l : List α} (hk : 0 < k) {r : Nat × Nat} (hr : r ∈ ranges l.length k i) :
    slice l r ≠ [] := by
  obtain ⟨hlt, hle⟩ := mem_ranges hk i hr
  apply List.ne_nil_of_length_pos
  have hlen := slice_length (a := r.1) hle
  rw [hlen]
  exact Nat.sub_pos_of_lt hlt

/-- The slices have as many items as the list. -/
theorem ranges_sum (hk : 0 < k) : ∀ i,
    ((ranges n k i).map fun r => r.2 - r.1).sum = n - i := by
  intro i
  induction hn : n - i using Nat.strongRecOn generalizing i with
  | ind m ih =>
    by_cases hi : i < n
    · rw [ranges_next hi hk, List.map_cons, List.sum_cons, ih (n - (i + k)) (by omega) (i + k) rfl]
      show min (i + k) n - i + (n - (i + k)) = m
      omega
    · rw [ranges_done (Nat.le_of_not_lt hi)]
      show 0 = m
      omega

end Slices
