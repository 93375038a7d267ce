import Minipg.Js.Calendar
import Minipg.Js.Rounding

/-!
# Doubles near a number

Sums and products of integers past 2 ^ 53 are rounded.  `Near` says that the result is finite and
how far it may lie from what it should be.
-/

namespace Minipg.Js.Double

/-- A finite double within `e` of `q`. -/
structure Near (x : Double) (q e : ℚ) : Prop where
  finite : x.isFinite = true
  close : |x.value - q| ≤ e

theorem Near.mono {x : Double} {q e e' : ℚ} (h : Near x q e) (he : e ≤ e') : Near x q e' :=
  ⟨h.finite, le_trans h.close he⟩

theorem near_ofInt {n : Int} (h : Safe n) : Near (ofInt n) n 0 := by
  refine ⟨isFinite_ofInt h, ?_⟩
  rw [value_ofInt h, sub_self, abs_zero]

/-- A number below 2 ^ 60 has its last bit at 2 ^ 7 or below. -/
theorem near_round (neg : Bool) {q : ℚ} (hq : 0 < q) (h : q < 2 ^ 60) :
    Near (round neg q) ((if neg then -1 else 1) * q) 128 := by
  have hbound : (2 : ℚ) ^ 60 ≤ 2 ^ 1000 := pow_le_pow_right₀ (by norm_num) (by norm_num)
  obtain ⟨hfin, -, hvalue⟩ := round_pos neg hq (lt_of_lt_of_le h hbound)
  refine ⟨hfin, ?_⟩
  have hlog : Int.log 2 q < 60 :=
    (Int.lt_zpow_iff_log_lt (by decide) hq).mp (by exact_mod_cast h)
  have hplace : (2 : ℚ) ^ place q ≤ 2 ^ (7 : Int) := by
    refine zpow_le_zpow_right₀ (by norm_num) ?_
    unfold place
    omega
  have hnear := abs_round_sub_le hq
  have hsign : |(if neg then -1 else 1 : ℚ)| = 1 := by
    cases neg
    · exact abs_one
    · exact (abs_neg 1).trans abs_one
  rw [hvalue, ← mul_sub, abs_mul, hsign, one_mul]
  norm_num at hplace
  linarith

/-- The sign and the size of a number. -/
theorem sign_mul_abs (q : ℚ) : (if decide (q < 0) then -1 else 1) * |q| = q := by
  by_cases hq : q < 0
  · rw [if_pos (decide_eq_true hq), abs_of_neg hq]
    ring
  · rw [if_neg (by simpa using hq), abs_of_nonneg (not_lt.mp hq), one_mul]

theorem near_ofRat {q : ℚ} (h0 : q ≠ 0) (h : |q| < 2 ^ 60) : Near (ofRat q) q 128 := by
  have hnear := near_round (decide (q < 0)) (abs_pos.mpr h0) h
  rw [sign_mul_abs, round_abs] at hnear
  exact hnear

theorem Near.add {x y : Double} {p q d e : ℚ} (hx : Near x p d) (hy : Near y q e)
    (h : |p + q| + d + e < 2 ^ 60) : Near (add x y) (p + q) (d + e + 128) := by
  obtain ⟨hxnan, hxinf⟩ := isNaN_of_finite hx.finite
  obtain ⟨hynan, hyinf⟩ := isNaN_of_finite hy.finite
  have hclose : |x.value + y.value - (p + q)| ≤ d + e := by
    have hsplit : x.value + y.value - (p + q) = (x.value - p) + (y.value - q) := by ring
    rw [hsplit]
    exact le_trans (abs_add_le _ _) (add_le_add hx.close hy.close)
  have hde : 0 ≤ d + e := le_trans (abs_nonneg _) hclose
  unfold Double.add
  simp only [hxnan, hynan, hxinf, hyinf, Bool.or_self, Bool.false_eq_true, if_false]
  by_cases h0 : x.value + y.value = 0
  · rw [if_pos h0]
    have hzero : ∀ s : Bool, (zero s).isFinite = true ∧ (zero s).scaled = 0 := by decide
    obtain ⟨hfin, hscaled⟩ := hzero (x.negative && y.negative)
    refine ⟨hfin, ?_⟩
    have hvalue : (zero (x.negative && y.negative)).value = x.value + y.value := by
      unfold value
      rw [hscaled, Int.cast_zero, zero_div]
      exact h0.symm
    rw [hvalue]
    linarith
  · rw [if_neg h0]
    have habs : |x.value + y.value| < 2 ^ 60 := by
      have htri := abs_add_le (x.value + y.value - (p + q)) (p + q)
      rw [sub_add_cancel] at htri
      linarith
    have hround := near_ofRat h0 habs
    refine ⟨hround.finite, ?_⟩
    have htri := abs_add_le ((ofRat (x.value + y.value)).value - (x.value + y.value))
      (x.value + y.value - (p + q))
    rw [sub_add_sub_cancel] at htri
    have hlast := hround.close
    linarith

theorem near_mul {a b : Int} (ha : Safe a) (hb : Safe b) (hb0 : 0 < b)
    (h : |((a * b : Int) : ℚ)| < 2 ^ 60) : Near (mul (ofInt a) (ofInt b)) (a * b : Int) 128 := by
  by_cases h0 : a = 0
  · subst h0
    have hprod : mul (ofInt 0) (ofInt b) = ofInt (0 * b) :=
      mul_ofInt ha hb (.inr ⟨le_refl 0, le_of_lt hb0⟩)
    rw [hprod, Int.zero_mul]
    exact (near_ofInt ha).mono (by norm_num)
  · have hne : ((a * b : Int) : ℚ) ≠ 0 := by
      exact_mod_cast Int.mul_ne_zero h0 (ne_of_gt hb0)
    have hsign : (decide (a < 0) != decide (b < 0)) = decide (((a * b : Int) : ℚ) < 0) := by
      have hbneg : decide (b < 0) = false := decide_eq_false (by omega)
      have hiff : ((a * b : Int) : ℚ) < 0 ↔ a < 0 := by
        rw [Int.cast_lt_zero]
        exact ⟨fun hlt => by_contra fun hge => absurd hlt
          (not_lt.mpr (Int.mul_nonneg (not_lt.mp hge) (le_of_lt hb0))),
          fun hlt => Int.mul_neg_of_neg_of_pos hlt hb0⟩
      rw [hbneg, Bool.bne_false, decide_eq_decide]
      exact hiff.symm
    have hvalue : mul (ofInt a) (ofInt b) =
        round (decide (((a * b : Int) : ℚ) < 0)) |((a * b : Int) : ℚ)| := by
      unfold mul
      simp only [isNaN_ofInt ha, isNaN_ofInt hb, isInfinite_ofInt ha, isInfinite_ofInt hb,
        value_ofInt ha, value_ofInt hb, negative_ofInt ha, negative_ofInt hb, Bool.or_self,
        Bool.false_eq_true, if_false]
      rw [hsign, round_abs, Int.cast_mul]
    have hnear := near_round (decide (((a * b : Int) : ℚ) < 0)) (abs_pos.mpr hne) h
    rw [sign_mul_abs] at hnear
    rw [hvalue]
    exact hnear

/-! ### Dates -/

theorem newDate_nan {x : Double} (h : x.isNaN = true) : newDate x = .date none := by
  have hfin : x.isFinite = false := by
    cases hx : x.isFinite with
    | false => rfl
    | true =>
      rw [(isNaN_of_finite hx).1] at h
      cases h
  unfold Js.newDate
  rw [hfin]
  rfl

theorem trunc_far {x : Double} (hfin : x.isFinite = true) {n : Nat} :
    ((n : ℚ) ≤ x.value → (n : Int) ≤ x.trunc) ∧ (x.value ≤ -(n : ℚ) → x.trunc ≤ -(n : Int)) := by
  have hexp : ¬x.exponent = 2047 := of_decide_eq_true hfin
  have hunit := unit_pos
  have hcast : (0 : ℚ) < unit := by exact_mod_cast hunit
  unfold value trunc
  rw [if_neg hexp]
  constructor
  · intro h
    rw [le_div_iff₀ hcast] at h
    have hle : (n * unit : Int) ≤ x.scaled := by exact_mod_cast h
    have hpos : 0 ≤ x.scaled := le_trans (Int.mul_nonneg (Int.natCast_nonneg n) (le_of_lt hunit)) hle
    rw [Int.tdiv_eq_ediv_of_nonneg hpos]
    exact (Int.le_ediv_iff_mul_le hunit).mpr hle
  · intro h
    rw [div_le_iff₀ hcast] at h
    have hle : x.scaled ≤ -(n : Int) * unit := by exact_mod_cast h
    have hneg : (n * unit : Int) ≤ -x.scaled := by
      rw [Int.neg_mul] at hle
      omega
    have hpos : 0 ≤ -x.scaled :=
      le_trans (Int.mul_nonneg (Int.natCast_nonneg n) (le_of_lt hunit)) hneg
    have hdiv : (n : Int) ≤ (-x.scaled).tdiv unit := by
      rw [Int.tdiv_eq_ediv_of_nonneg hpos]
      exact (Int.le_ediv_iff_mul_le hunit).mpr hneg
    rw [Int.neg_tdiv] at hdiv
    omega

/-- A `Date` holds nothing that lies so far away. -/
theorem Near.newDate {x : Double} {q e : ℚ} (h : Near x q e) (hfar : 8640000000000001 + e ≤ |q|) :
    newDate x = .date none := by
  have hclose := abs_le.mp h.close
  have hsides : 8640000000000001 ≤ x.value ∨ x.value ≤ -8640000000000001 := by
    rcases le_total 0 q with hq | hq
    · rw [abs_of_nonneg hq] at hfar
      left
      linarith [hclose.1]
    · rw [abs_of_nonpos hq] at hfar
      right
      linarith [hclose.2]
  obtain ⟨habove, hbelow⟩ := trunc_far h.finite (n := 8640000000000001)
  have hout : ¬Clipped x.trunc := by
    unfold Clipped
    rcases hsides with hside | hside
    · have hle := habove (by exact_mod_cast hside)
      omega
    · have hle := hbelow (by exact_mod_cast hside)
      omega
  unfold Js.newDate
  rw [if_pos h.finite, dif_neg hout]

end Minipg.Js.Double
