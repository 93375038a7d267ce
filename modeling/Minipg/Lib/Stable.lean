import Mathlib.Data.List.Basic

/-!
# Stable sorting

A stable sort by a coarse order leaves what the order does not tell apart as it was.  So it is the
sort by a finer order exactly when the list has those in the finer order already.
-/

namespace Stable

variable {α : Type} {coarse fine : α → α → Bool}

/-- Neither comes before the other. -/
def tied (coarse : α → α → Bool) (a b : α) : Bool := coarse a b && coarse b a

section

variable (htrans : ∀ a b c, coarse a b = true → coarse b c = true → coarse a c = true)
  (htotal : ∀ a b, (coarse a b || coarse b a) = true)

include htrans htotal

/-- What is tied with an element comes in the order of the list. -/
theorem filter_mergeSort (l : List α) (a : α) :
    (l.mergeSort coarse).filter (tied coarse a) = l.filter (tied coarse a) := by
  have hsorted : (l.filter (tied coarse a)).Pairwise fun x y => coarse x y = true := by
    refine List.pairwise_of_forall_mem_list fun x hx y hy => ?_
    have hx := (Bool.and_eq_true_iff.mp (List.mem_filter.mp hx).2).2
    have hy := (Bool.and_eq_true_iff.mp (List.mem_filter.mp hy).2).1
    exact htrans x a y hx hy
  have hsub : (l.filter (tied coarse a)).Sublist ((l.mergeSort coarse).filter (tied coarse a)) := by
    have hsub := List.sublist_mergeSort htrans htotal hsorted List.filter_sublist
    have hfilter := hsub.filter (tied coarse a)
    simpa only [List.filter_filter, Bool.and_self] using hfilter
  have hperm := (List.mergeSort_perm l coarse).filter (tied coarse a)
  exact (hsub.eq_of_length hperm.length_eq.symm).symm

/-- **When a stable sort is the sort by a finer order.** -/
theorem mergeSort_eq_iff
    (htrans' : ∀ a b c, fine a b = true → fine b c = true → fine a c = true)
    (htotal' : ∀ a b, (fine a b || fine b a) = true)
    (hantisymm : ∀ a b, fine a b = true → fine b a = true → a = b)
    (hfine : ∀ a b, fine a b = true → coarse a b = true) (l : List α) :
    l.mergeSort coarse = l.mergeSort fine ↔
      l.Pairwise fun a b => tied coarse a b = true → fine a b = true := by
  constructor
  · intro heq
    rw [List.pairwise_iff_forall_sublist]
    intro a b hsub htied
    have hle := (Bool.and_eq_true_iff.mp htied).1
    have hsorted := List.pairwise_mergeSort htrans' htotal' l
    rw [← heq] at hsorted
    exact List.pairwise_iff_forall_sublist.mp hsorted
      (List.pair_sublist_mergeSort htrans htotal hle hsub)
  · intro hties
    have hcoarse := List.pairwise_mergeSort htrans htotal l
    have hsorted : (l.mergeSort coarse).Pairwise fun a b => fine a b = true := by
      rw [List.pairwise_iff_forall_sublist] at hties hcoarse ⊢
      intro a b hsub
      have hle := hcoarse hsub
      by_cases hback : coarse b a = true
      · have htied : tied coarse a b = true := Bool.and_eq_true_iff.mpr ⟨hle, hback⟩
        have hself : tied coarse a a = true := by
          have htotal := htotal a a
          rw [Bool.or_self] at htotal
          exact Bool.and_eq_true_iff.mpr ⟨htotal, htotal⟩
        have hpair := hsub.filter (tied coarse a)
        rw [List.filter_cons_of_pos hself, List.filter_cons_of_pos htied, List.filter_nil,
          filter_mergeSort htrans htotal] at hpair
        exact hties (hpair.trans List.filter_sublist) htied
      · have htotal' := htotal' a b
        rw [Bool.or_eq_true] at htotal'
        exact htotal'.resolve_right fun hba => hback (hfine b a hba)
    refine List.Perm.eq_of_pairwise (fun a b _ _ => hantisymm a b) hsorted
      (List.pairwise_mergeSort htrans' htotal' l) ?_
    exact (List.mergeSort_perm l coarse).trans (List.mergeSort_perm l fine).symm

end

end Stable
