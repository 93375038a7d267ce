import Minipg.Js.Float

/-!
# Remainders of doubles

`x % y` and `x >>> 0`, and the two doubles whose value is the integer zero.
-/

namespace Minipg.Js.Double

/-- `x % y`, with the sign of `x`. -/
def rem (x y : Double) : Double :=
  if x.isNaN || x.isInfinite || y.isNaN then nan
  else if y.isInfinite then x
  else if y.value = 0 then nan
  else
    let q := x.value / y.value
    let r := x.value - y.value * (if q < 0 then -⌊-q⌋ else ⌊q⌋ : Int)
    if r = 0 then zero x.negative else ofRat r

/-- `x >>> 0` -/
def toUint32 (x : Double) : Int := x.trunc % 4294967296

theorem rem_ofInt {n d : Nat} (hn : Safe n) (hd : 0 < d) (hd' : Safe d) :
    rem (ofInt n) (ofInt d) = ofInt (n % d : Nat) := by
  have hdq : (d : ℚ) ≠ 0 := by exact_mod_cast Nat.ne_of_gt hd
  have hfloor : ⌊(n : ℚ) / d⌋ = (n / d : Nat) := Rat.floor_natCast_div_natCast n d
  have hnonneg : ¬(n : ℚ) / d < 0 := not_lt.mpr (by positivity)
  have hrem : (n : ℚ) - d * ((n / d : Nat) : ℚ) = (n % d : Nat) := by
    have hsum : (n : ℚ) = d * (n / d : Nat) + (n % d : Nat) := by
      exact_mod_cast (Nat.div_add_mod n d).symm
    rw [sub_eq_iff_eq_add']
    exact hsum
  unfold rem
  simp only [isNaN_ofInt hn, isInfinite_ofInt hn, isNaN_ofInt hd', isInfinite_ofInt hd',
    value_ofInt hn, value_ofInt hd', Int.cast_natCast, Bool.or_self, Bool.false_eq_true, if_false,
    hdq, hnonneg, hfloor, hrem]
  by_cases h0 : n % d = 0
  · rw [h0, Nat.cast_zero, if_pos rfl, negative_ofInt hn, decide_eq_false (by omega),
      Int.natCast_zero, ofInt_zero]
    rfl
  · rw [if_neg (by exact_mod_cast h0)]
    rfl

/-- Zero, with either sign. -/
theorem eq_zero_of_integer {x : Double} (h : x.integer? = some 0) : x = ofInt 0 ∨ x = neg 0 := by
  obtain ⟨hexp, hscaled⟩ := integer?_eq_some.mp h
  have hsig : x.significand = 0 := by
    have hmul : x.significand * 2 ^ x.scale = 0 := by
      unfold scaled at hscaled
      rw [Int.zero_mul] at hscaled
      split at hscaled
      · exact Int.ofNat_eq_zero.mp (Int.neg_eq_zero.mp hscaled)
      · exact Int.ofNat_eq_zero.mp hscaled
    exact (Nat.mul_eq_zero.mp hmul).resolve_right (Nat.ne_of_gt (Nat.two_pow_pos _))
  have hzero : x.exponent = 0 ∧ x.fraction = 0 := by
    unfold significand at hsig
    split at hsig
    · next h0 => exact ⟨h0, hsig⟩
    · omega
  have hbits := toNat_eq x
  rw [hzero.1, hzero.2] at hbits
  cases hneg : x.negative with
  | true =>
    right
    apply BitVec.eq_of_toNat_eq
    rw [hbits, hneg]
    rfl
  | false =>
    left
    rw [ofInt_zero]
    apply BitVec.eq_of_toNat_eq
    rw [hbits, hneg]
    rfl

/-- An integer of at most 53 bits; zero may have a sign. -/
structure Counts (x : Double) (n : Int) : Prop where
  safe : Safe n
  eq : x = ofInt n ∨ n = 0 ∧ x = neg 0

theorem counts_of_safeInteger {x : Double} {n : Int} (h : x.safeInteger? = some n) :
    Counts x n := by
  unfold safeInteger? at h
  obtain ⟨hint, hsafe⟩ := Option.filter_eq_some_iff.mp h
  have hsafe : Safe n := of_decide_eq_true hsafe
  refine ⟨hsafe, ?_⟩
  by_cases h0 : n = 0
  · rw [h0] at hint ⊢
    exact (eq_zero_of_integer hint).imp id fun hx => ⟨rfl, hx⟩
  · exact .inl (eq_ofInt hint hsafe h0)

namespace Counts

variable {x : Double} {n d : Int}

theorem integer? (h : Counts x n) : x.integer? = some n := by
  rcases h.eq with rfl | ⟨rfl, rfl⟩
  · exact integer?_ofInt h.safe
  · decide +kernel

/-- `Math.floor(x / d)` -/
theorem floor_div (h : Counts x n) (hd : 0 < d) (hd' : Safe d) :
    Counts (floor (div x (ofInt d))) (n / d) := by
  have hbounds := h.safe
  unfold Safe at hbounds
  have hsafe : Safe (n / d) := by
    have hle := Int.natAbs_ediv_le_natAbs n d
    constructor
    · omega
    · omega
  rcases h.eq with rfl | ⟨rfl, rfl⟩
  · exact ⟨hsafe, .inl (Double.floor_div h.safe hd hd')⟩
  · refine ⟨hsafe, .inr ⟨Int.zero_ediv d, ?_⟩⟩
    have hdq : (d : ℚ) ≠ 0 := by exact_mod_cast Int.ne_of_gt hd
    have hzero : (neg 0).isNaN = false ∧ (neg 0).isInfinite = false ∧ (neg 0).negative = true ∧
        (neg 0).isFinite = true ∧ (neg 0).scaled = 0 := by decide
    obtain ⟨hnan, hinf, hneg, hfin, hscaled⟩ := hzero
    have hvalue : (neg 0).value = 0 := by
      unfold value
      rw [hscaled]
      simp
    have hround : round true 0 = neg 0 := by
      rw [← Bool.not_false, ← neg_round]
      congr 1
    have hdiv : div (neg 0) (ofInt d) = neg 0 := by
      unfold div
      simp only [hnan, hinf, hneg, hvalue, isNaN_ofInt hd', isInfinite_ofInt hd', value_ofInt hd',
        negative_ofInt hd', Bool.or_self, Bool.false_eq_true, if_false, hdq, zero_div]
      rw [decide_eq_false (by omega)]
      exact hround
    rw [hdiv]
    unfold floor
    rw [hfin, if_pos rfl, if_pos hvalue]

/-- `x >= 10` -/
theorem ten_le (h : Counts x n) : le (ofInt 10) x = decide (10 ≤ n) := by
  rcases h.eq with rfl | ⟨rfl, rfl⟩
  · exact le_ofInt (by decide) h.safe
  · decide +kernel

/-- `x < 0` -/
theorem lt_zero (h : Counts x n) : lt x (ofInt 0) = decide (n < 0) := by
  rcases h.eq with rfl | ⟨rfl, rfl⟩
  · exact lt_ofInt h.safe (by decide)
  · decide +kernel

/-- `48 + (x % 10)` -/
theorem digit {n : Nat} (h : Counts x n) :
    Counts (add (ofInt 48) (rem x (ofInt 10))) (48 + n % 10 : Nat) := by
  have hsafe : Safe (48 + n % 10 : Nat) := ⟨by omega, by omega⟩
  refine ⟨hsafe, .inl ?_⟩
  rcases h.eq with rfl | ⟨h0, rfl⟩
  · have hrem : rem (ofInt n) (ofInt 10) = ofInt (n % 10 : Nat) :=
      rem_ofInt (d := 10) h.safe (by decide) (by decide)
    rw [hrem, add_ofInt (by decide) ⟨by omega, by omega⟩]
    rfl
  · rw [Int.natCast_eq_zero.mp h0]
    decide +kernel

/-- Its sign is taken away. -/
theorem abs (h : Counts x n) : Counts (if lt x (ofInt 0) then neg x else x) n.natAbs := by
  have hsafe := h.safe
  unfold Safe at hsafe
  have habs : Safe n.natAbs := ⟨by omega, by omega⟩
  rw [h.lt_zero]
  by_cases hn : n < 0
  · rw [if_pos (decide_eq_true hn)]
    refine ⟨habs, .inl ?_⟩
    have hx := h.eq.resolve_right fun h0 => by omega
    rw [hx, neg_ofInt (by omega)]
    congr 1
    omega
  · rw [if_neg (by rw [decide_eq_true_eq]; exact hn)]
    have heq : (n.natAbs : Int) = n := Int.natAbs_of_nonneg (by omega)
    rw [heq]
    exact h

end Counts

end Minipg.Js.Double
