import Mathlib.Algebra.Order.Ring.Nat
import Mathlib.Tactic.Ring

/-!
# Numbers in positional notation

Digits are given from the highest on; beyond the list they are 0.  `leading base ds j` is the number
that the first `j` digits make.  One digit more is one step (`leading_succ`), and `m` digits more
add a number of `m` digits (`leading_add`).
-/

namespace Positional

/-- The digit at a place; before the first there is none. -/
def digitAt (ds : List Nat) (i : Int) : Nat := if 0 ≤ i then ds.getD i.toNat 0 else 0

/-- The number that the first digits make. -/
def leading (base : Nat) (ds : List Nat) : Nat → Nat
  | 0 => 0
  | j + 1 => leading base ds j * base + ds.getD j 0

variable {base : Nat} {ds : List Nat}

theorem digitAt_natCast (j : Nat) : digitAt ds j = ds.getD j 0 := by
  unfold digitAt
  rw [if_pos (Int.natCast_nonneg j), Int.toNat_natCast]

theorem digitAt_lt (hbase : 0 < base) (hd : ∀ d ∈ ds, d < base) (i : Int) :
    digitAt ds i < base := by
  unfold digitAt
  split
  · rw [List.getD_eq_getElem?_getD]
    cases h : ds[i.toNat]? with
    | none => exact hbase
    | some d => exact hd d (List.mem_of_getElem? h)
  · exact hbase

/-- The same step for places before the first digit. -/
theorem leading_succ (z : Int) :
    leading base ds (z + 1).toNat = leading base ds z.toNat * base + digitAt ds z := by
  by_cases hz : 0 ≤ z
  · obtain ⟨j, rfl⟩ := Int.eq_ofNat_of_zero_le hz
    rw [digitAt_natCast]
    rfl
  · have h0 : z.toNat = 0 := by omega
    have h1 : (z + 1).toNat = 0 := by omega
    rw [h0, h1, digitAt, if_neg hz]
    simp [leading]

/-- What the next `m` digits add is a number of `m` digits. -/
theorem leading_add (hbase : 0 < base) (hd : ∀ d ∈ ds, d < base) (z : Int) (m : Nat) :
    ∃ r < base ^ m,
      leading base ds (z + m).toNat = leading base ds z.toNat * base ^ m + r := by
  induction m with
  | zero => exact ⟨0, by simp, by simp⟩
  | succ m ih =>
    obtain ⟨r, hr, heq⟩ := ih
    have hdigit := digitAt_lt hbase hd (z + m)
    refine ⟨r * base + digitAt ds (z + m), ?_, ?_⟩
    · calc r * base + digitAt ds (z + m) < r * base + base := by omega
        _ = (r + 1) * base := by ring
        _ ≤ base ^ m * base := Nat.mul_le_mul_right base hr
        _ = base ^ (m + 1) := (Nat.pow_succ ..).symm
    · have hcast : z + ((m + 1 : Nat) : Int) = z + m + 1 := by omega
      rw [hcast, leading_succ, heq]
      ring

/-- Beyond the list the number only grows by zeros. -/
theorem leading_beyond (j m : Nat) (h : ds.length ≤ j) :
    leading base ds (j + m) = leading base ds j * base ^ m := by
  induction m with
  | zero => simp
  | succ m ih =>
    rw [← Nat.add_assoc, leading, ih, List.getD_eq_getElem?_getD,
      List.getElem?_eq_none (by omega), Option.getD_none]
    ring

end Positional
