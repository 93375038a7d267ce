import Minipg.Js.Rounding

/-!
# An integer and a power of ten

A double that is an integer, times or through an exact power of ten, is rounded once
(`mul_pow_ten`, `div_pow_ten`).  The exponent of a literal is a sum of doubles: where it is small it
is exact, and otherwise it is seen to be out of bounds (`effective_spec`).
-/

namespace Minipg.Js.Double

/-! ### Comparing -/

theorem Large.isNaN {x : Double} (h : Large x) : x.isNaN = false :=
  decide_eq_false fun hx => hx.2 (h.2 hx.1)

theorem Large.value_le {x : Double} (h : Large x) (hneg : x.negative = true) :
    x.value ≤ -2 ^ 53 := by
  have habs := h.scaled_natAbs
  have hnonpos : x.scaled ≤ 0 := by
    unfold scaled
    rw [hneg]
    exact Int.neg_nonpos_of_nonneg (Int.natCast_nonneg _)
  have hle : x.scaled ≤ -(9007199254740992 * unit : Int) := by
    have hcast : ((9007199254740992 * unit : Nat) : Int) ≤ x.scaled.natAbs :=
      Int.ofNat_le.mpr habs
    rw [Int.ofNat_natAbs_of_nonpos hnonpos] at hcast
    push_cast at hcast
    omega
  have hunit : (0 : ℚ) < unit := by exact_mod_cast unit_pos
  unfold value
  rw [div_le_iff₀ hunit]
  have hrat : (x.scaled : ℚ) ≤ ((-(9007199254740992 * unit : Int) : Int) : ℚ) := by
    exact_mod_cast hle
  push_cast at hrat
  norm_num
  linarith

section Compare

variable {x : Double} {a : Int} (ha : Safe a)
include ha

theorem Large.above (h : Large x) (hpos : x.negative = false) : lt (ofInt a) x = true := by
  unfold lt
  simp only [isNaN_ofInt ha, isInfinite_ofInt ha, value_ofInt ha, h.isNaN, Bool.or_self,
    Bool.false_eq_true, if_false, hpos, Bool.not_false]
  by_cases hinf : x.isInfinite = true
  · rw [if_pos hinf]
  · rw [if_neg hinf]
    have hvalue := h.value_ge hpos
    have hle : (a : ℚ) ≤ 9007199254740991 := by exact_mod_cast ha.2
    refine decide_eq_true (lt_of_le_of_lt hle (lt_of_lt_of_le ?_ hvalue))
    norm_num

theorem Large.below (h : Large x) (hneg : x.negative = true) : lt x (ofInt a) = true := by
  unfold lt
  simp only [isNaN_ofInt ha, isInfinite_ofInt ha, value_ofInt ha, h.isNaN, Bool.or_self,
    Bool.false_eq_true, if_false, hneg, Bool.not_false, Bool.false_and, Bool.and_true]
  by_cases hinf : x.isInfinite = true
  · rw [if_pos hinf]
  · rw [if_neg hinf]
    have hvalue := h.value_le hneg
    have hle : (-9007199254740991 : ℚ) ≤ a := by exact_mod_cast ha.1
    refine decide_eq_true (lt_of_le_of_lt hvalue (lt_of_lt_of_le ?_ hle))
    norm_num

end Compare

/-- An integer is exact, or large with its sign. -/
theorem ofInt_cases (n : Int) : Safe n ∨ 9007199254740992 ≤ n ∧ Large (ofInt n) ∧
      (ofInt n).negative = false ∨
    n ≤ -9007199254740992 ∧ Large (ofInt n) ∧ (ofInt n).negative = true := by
  have hlarge : 9007199254740992 ≤ n.natAbs →
      Large (ofInt n) ∧ (ofInt n).negative = decide (n < 0) := by
    intro h
    have hcast : ((9007199254740992 : Nat) : ℚ) ≤ n.natAbs := by exact_mod_cast h
    rw [ofInt_natAbs, pow_zero, mul_one]
    refine round_large _ ?_
    norm_num at hcast ⊢
    exact hcast
  by_cases hhigh : 9007199254740992 ≤ n
  · obtain ⟨h, hneg⟩ := hlarge (by omega)
    exact .inr (.inl ⟨hhigh, h, hneg.trans (decide_eq_false (by omega))⟩)
  · by_cases hlow : n ≤ -9007199254740992
    · obtain ⟨h, hneg⟩ := hlarge (by omega)
      exact .inr (.inr ⟨hlow, h, hneg.trans (decide_eq_true (by omega))⟩)
    · exact .inl ⟨by omega, by omega⟩

theorem Large.not_above {x : Double} {a : Int} (ha : Safe a) (h : Large x)
    (hneg : x.negative = true) : lt (ofInt a) x = false := by
  have hbelow := h.below ha hneg
  unfold lt at hbelow ⊢
  simp only [isNaN_ofInt ha, isInfinite_ofInt ha, value_ofInt ha, h.isNaN, Bool.or_self,
    Bool.false_eq_true, if_false, hneg, Bool.not_true] at hbelow ⊢
  split at hbelow
  · next hinf => rw [if_pos hinf]
  · next hinf =>
    rw [if_neg hinf]
    exact decide_eq_false (not_lt.mpr (le_of_lt (of_decide_eq_true hbelow)))

theorem Large.not_below {x : Double} {a : Int} (ha : Safe a) (h : Large x)
    (hpos : x.negative = false) : lt x (ofInt a) = false := by
  have habove := h.above ha hpos
  unfold lt at habove ⊢
  simp only [isNaN_ofInt ha, isInfinite_ofInt ha, value_ofInt ha, h.isNaN, Bool.or_self,
    Bool.false_eq_true, if_false, hpos, Bool.false_and] at habove ⊢
  split at habove
  · next hinf => rw [if_pos hinf]
  · next hinf =>
    rw [if_neg hinf]
    exact decide_eq_false (not_lt.mpr (le_of_lt (of_decide_eq_true habove)))

theorem lt_ofInt_right {a : Int} (ha : Safe a) (n : Int) :
    lt (ofInt a) (ofInt n) = decide (a < n) := by
  have hbounds := ha
  unfold Safe at hbounds
  rcases ofInt_cases n with hn | ⟨hn, h, hneg⟩ | ⟨hn, h, hneg⟩
  · exact lt_ofInt ha hn
  · exact (h.above ha hneg).trans (decide_eq_true (by omega)).symm
  · exact (h.not_above ha hneg).trans (decide_eq_false (by omega)).symm

theorem lt_ofInt_left {a : Int} (ha : Safe a) (n : Int) :
    lt (ofInt n) (ofInt a) = decide (n < a) := by
  have hbounds := ha
  unfold Safe at hbounds
  rcases ofInt_cases n with hn | ⟨hn, h, hneg⟩ | ⟨hn, h, hneg⟩
  · exact lt_ofInt hn ha
  · exact (h.not_below ha hneg).trans (decide_eq_false (by omega)).symm
  · exact (h.below ha hneg).trans (decide_eq_true (by omega)).symm

/-! ### Exponents -/

/-- The signed sum of the digits of an exponent. -/
def Signed (x : Double) (n : Int) : Prop :=
  ∃ (y : Double) (m : Nat) (s : Bool), Accumulated y m ∧ x = (if s then neg y else y) ∧
    n = if s then -(m : Int) else m

/-- What an exponent is compared as. -/
structure Compares (x : Double) (n : Int) : Prop where
  above : lt (ofInt 22) x = decide (22 < n)
  below : lt x (ofInt (-22)) = decide (n < -22)
  exact : -22 ≤ n → n ≤ 22 → x = ofInt n ∨ n = 0 ∧ x = neg (ofInt 0)

theorem compares_ofInt (n : Int) : Compares (ofInt n) n :=
  ⟨lt_ofInt_right (by decide) n, lt_ofInt_left (by decide) n, fun _ _ => .inl rfl⟩

theorem Large.compares_pos {x : Double} (h : Large x) (hpos : x.negative = false) {n : Int}
    (hn : 22 < n) : Compares x n :=
  ⟨(h.above (by decide) hpos).trans (decide_eq_true hn).symm,
    (h.not_below (by decide) hpos).trans (decide_eq_false (by omega)).symm,
    fun _ hle => absurd hn (by omega)⟩

theorem Large.compares_neg {x : Double} (h : Large x) (hneg : x.negative = true) {n : Int}
    (hn : n < -22) : Compares x n :=
  ⟨(h.not_above (by decide) hneg).trans (decide_eq_false (by omega)).symm,
    (h.below (by decide) hneg).trans (decide_eq_true hn).symm,
    fun hle _ => absurd hn (by omega)⟩

/-- A number that is rounded from 2 ^ 52 on. -/
theorem compares_round {q : ℚ} (hq : 2 ^ 52 ≤ q) {n : Int} (hn : 22 < n) :
    Compares (round false q) n := by
  by_cases hlarge : 2 ^ 53 ≤ q
  · obtain ⟨h, hpos⟩ := round_large false hlarge
    exact h.compares_pos hpos hn
  · have hlt := not_le.mp hlarge
    have hpos : 0 < q := lt_of_lt_of_le (by norm_num) hq
    obtain ⟨hfin, -, hvalue⟩ := round_pos false hpos
      (lt_trans hlt (pow_lt_pow_right₀ (by norm_num) (by norm_num)))
    obtain ⟨hnan, hinf⟩ := isNaN_of_finite hfin
    have hplace : (2 : ℚ) ^ place q ≤ 1 := by
      have hlog : Int.log 2 q < 53 :=
        (Int.lt_zpow_iff_log_lt (by decide) hpos).mp (by exact_mod_cast hlt)
      have hle : place q ≤ 0 := by
        unfold place
        omega
      exact zpow_le_one_of_nonpos₀ (by norm_num) hle
    have hnear := (abs_le.mp (abs_round_sub_le hpos)).1
    have hbig : (22 : ℚ) < (round false q).value := by
      rw [hvalue]
      norm_num at hq ⊢
      linarith
    have h22 : Safe 22 := by decide
    have h22' : Safe (-22) := by decide
    refine ⟨?_, ?_, fun _ hle => absurd hn (by omega)⟩
    · unfold lt
      simp only [isNaN_ofInt h22, isInfinite_ofInt h22, value_ofInt h22, hnan, hinf, Bool.or_self,
        Bool.false_eq_true, if_false]
      rw [decide_eq_decide]
      exact iff_of_true (by exact_mod_cast hbig) hn
    · unfold lt
      simp only [isNaN_ofInt h22', isInfinite_ofInt h22', value_ofInt h22', hnan, hinf,
        Bool.or_self, Bool.false_eq_true, if_false]
      rw [decide_eq_decide]
      refine iff_of_false (not_lt.mpr ?_) (by omega)
      push_cast
      linarith

theorem negative_neg (x : Double) : (neg x).negative = !x.negative := by
  have hlt := x.isLt
  unfold neg negative
  rw [BitVec.toNat_add, BitVec.toNat_ofNat, ← decide_not, decide_eq_decide]
  omega

/-- The negation of a natural number, which may be zero. -/
theorem neg_natCast {a : Int} (ha : Safe a) : (neg (ofInt a)).isNaN = false ∧
    (neg (ofInt a)).isInfinite = false ∧ (neg (ofInt a)).value = -a := by
  by_cases h0 : a = 0
  · have hzero : (neg 0).isNaN = false ∧ (neg 0).isInfinite = false ∧ (neg 0).scaled = 0 := by
      decide
    rw [h0, ofInt_zero]
    refine ⟨hzero.1, hzero.2.1, ?_⟩
    unfold value
    rw [hzero.2.2]
    simp
  · have hneg : Safe (-a) := ⟨by have := ha.2; omega, by have := ha.1; omega⟩
    rw [neg_ofInt h0]
    exact ⟨isNaN_ofInt hneg, isInfinite_ofInt hneg, by rw [value_ofInt hneg, Int.cast_neg]⟩

/-- `-0 - fd` -/
theorem compares_negZero {fd : Nat} (hfd : fd < 2 ^ 52) :
    Compares (sub (neg (ofInt 0)) (ofInt fd)) (-(fd : Int)) := by
  by_cases h0 : fd = 0
  · subst h0
    have hsub : sub (neg (ofInt 0)) (ofInt (0 : Nat)) = neg (ofInt 0) := by decide +kernel
    rw [hsub]
    exact ⟨by decide +kernel, by decide +kernel, fun _ _ => .inr ⟨rfl, rfl⟩⟩
  · have hneg : Safe (-(fd : Int)) := ⟨by omega, by omega⟩
    obtain ⟨hnan, hinf, hvalue⟩ := neg_natCast (a := 0) (by decide)
    have hne : (-(fd : Int) : Int) ≠ 0 := by omega
    have hneq : ((-(fd : Int) : Int) : ℚ) ≠ 0 := by exact_mod_cast hne
    have hsub : sub (neg (ofInt 0)) (ofInt fd) = ofInt (-(fd : Int)) := by
      unfold sub add
      rw [neg_ofInt (a := fd) (by omega)]
      simp only [hnan, hinf, hvalue, isNaN_ofInt hneg, isInfinite_ofInt hneg, value_ofInt hneg,
        Bool.or_self, Bool.false_eq_true, if_false, Int.cast_zero, neg_zero, zero_add, hneq]
      rfl
    rw [hsub]
    exact compares_ofInt _

/-- An exponent that is too long to be exact. -/
theorem compares_large {y : Double} (h : Large y) (hpos : y.negative = false) (s : Bool)
    {m fd : Nat} (hm : 9007199254740991 < m) (hfd : fd < 2 ^ 52) :
    Compares (sub (if s then neg y else y) (ofInt fd)) ((if s then -(m : Int) else m) - fd) := by
  have hfds : Safe fd := ⟨by omega, by omega⟩
  have hfdq : (fd : ℚ) < 4503599627370496 := by exact_mod_cast hfd
  have hfd0 : (0 : ℚ) ≤ fd := Nat.cast_nonneg fd
  obtain ⟨hnan, hinf, hvalue⟩ := neg_natCast hfds
  cases s with
  | false =>
    have hn : 22 < (m : Int) - fd := by omega
    have hge := h.value_ge hpos
    show Compares (sub y (ofInt fd)) ((m : Int) - fd)
    unfold sub add
    simp only [hnan, hinf, hvalue, h.isNaN, Bool.or_self, Bool.false_eq_true, if_false,
      Bool.false_and, Int.cast_natCast]
    by_cases hy : y.isInfinite = true
    · rw [if_pos hy]
      exact h.compares_pos hpos hn
    · have hsum : (2 : ℚ) ^ 52 ≤ y.value + -(fd : ℚ) := by
        norm_num at hge ⊢
        linarith
      have hsum0 : 0 < y.value + -(fd : ℚ) := lt_of_lt_of_le (by norm_num) hsum
      rw [if_neg hy, if_neg (ne_of_gt hsum0), ofRat_nonneg (le_of_lt hsum0)]
      exact compares_round hsum hn
  | true =>
    have hn : -(m : Int) - fd < -22 := by omega
    have hneg : (neg y).negative = true := by rw [negative_neg, hpos, Bool.not_false]
    have hle := h.neg.value_le hneg
    show Compares (sub (neg y) (ofInt fd)) (-(m : Int) - fd)
    unfold sub add
    simp only [hnan, hinf, hvalue, h.neg.isNaN, Bool.or_self, Bool.false_eq_true, if_false,
      Bool.false_and, Int.cast_natCast]
    by_cases hy : (neg y).isInfinite = true
    · rw [if_pos hy]
      exact h.neg.compares_neg hneg hn
    · have hsum : (2 : ℚ) ^ 53 ≤ -((neg y).value + -(fd : ℚ)) := by linarith
      have hsum0 : (neg y).value + -(fd : ℚ) < 0 := by
        norm_num at hle
        linarith
      obtain ⟨hlarge, hsign⟩ := round_large true hsum
      rw [if_neg hy, if_neg (ne_of_lt hsum0)]
      unfold ofRat
      rw [decide_eq_true hsum0, ← round_abs, abs_of_neg hsum0]
      exact hlarge.compares_neg hsign hn

/-- **`es * exp - fd`** is compared as the exact difference, however long the exponent is. -/
theorem effective_spec {x : Double} {n : Int} (h : Signed x n) {fd : Nat} (hfd : fd < 2 ^ 52) :
    Compares (sub x (ofInt fd)) (n - fd) := by
  obtain ⟨y, m, s, hy, rfl, rfl⟩ := h
  have hfds : Safe fd := ⟨by omega, by omega⟩
  unfold Accumulated at hy
  by_cases hm : m ≤ 9007199254740991
  · rw [if_pos hm] at hy
    subst hy
    have hms : Safe m := ⟨by omega, by omega⟩
    have hms' : Safe (-(m : Int)) := ⟨by omega, by omega⟩
    cases s with
    | false =>
      show Compares (sub (ofInt m) (ofInt fd)) ((m : Int) - fd)
      rw [sub_ofInt hms hfds]
      exact compares_ofInt _
    | true =>
      show Compares (sub (neg (ofInt m)) (ofInt fd)) (-(m : Int) - fd)
      by_cases h0 : m = 0
      · subst h0
        rw [Int.natCast_zero, Int.neg_zero, Int.zero_sub]
        exact compares_negZero hfd
      · rw [neg_ofInt (by omega), sub_ofInt hms' hfds]
        exact compares_ofInt _
  · rw [if_neg hm] at hy
    exact compares_large hy.1 hy.2 s (by omega) hfd

/-! ### Powers of ten -/

theorem mul_of_finite {x y : Double} (hx : x.isFinite = true) (hy : y.isFinite = true) :
    mul x y = round (x.negative != y.negative) (x.value * y.value) := by
  obtain ⟨hxnan, hxinf⟩ := isNaN_of_finite hx
  obtain ⟨hynan, hyinf⟩ := isNaN_of_finite hy
  unfold mul
  simp only [hxnan, hxinf, hynan, hyinf, Bool.or_self, Bool.false_eq_true, if_false]

theorem div_of_finite {x y : Double} (hx : x.isFinite = true) (hy : y.isFinite = true)
    (h0 : y.value ≠ 0) : div x y = round (x.negative != y.negative) (x.value / y.value) := by
  obtain ⟨hxnan, hxinf⟩ := isNaN_of_finite hx
  obtain ⟨hynan, hyinf⟩ := isNaN_of_finite hy
  unfold div
  simp only [hxnan, hxinf, hynan, hyinf, h0, Bool.or_self, Bool.false_eq_true, if_false]

/-- The powers of ten up to the 22nd are doubles. -/
theorem pow_ten_spec {k : Nat} (hk : k ≤ 22) : (ofInt (10 ^ k)).isFinite = true ∧
    (ofInt (10 ^ k)).negative = false ∧ (ofInt (10 ^ k)).value = 10 ^ k := by
  have hsplit : (((10 : Int) ^ k : Int) : ℚ) = (5 ^ k : Nat) * 2 ^ k := by
    push_cast
    rw [← mul_pow]
    norm_num
  have hfive : 5 ^ k < 2 ^ 53 := by
    have hle : 5 ^ k ≤ 5 ^ 22 := Nat.pow_le_pow_right (by decide) hk
    omega
  obtain ⟨hfin, hneg, hvalue⟩ := round_exact false (m := 5 ^ k) (k := k) (by positivity) hfive
    (by omega)
  have hround : ofInt (10 ^ k) = round false ((5 ^ k : Nat) * 2 ^ k) := by
    unfold ofInt
    rw [hsplit, ofRat_nonneg (by positivity)]
  rw [hround]
  refine ⟨hfin, hneg, ?_⟩
  rw [hvalue, ← hsplit]
  push_cast
  simp

/-- **One rounding**: a product with a power of ten. -/
theorem mul_pow_ten {n k : Nat} (hn : Safe n) (hk : k ≤ 22) :
    mul (ofInt n) (ofInt (10 ^ k)) = round false (n * 10 ^ (k : Int)) := by
  obtain ⟨hfin, hneg, hvalue⟩ := pow_ten_spec hk
  rw [mul_of_finite (isFinite_ofInt hn) hfin, negative_ofInt hn, hneg, value_ofInt hn, hvalue,
    decide_eq_false (by omega), zpow_natCast]
  rfl

theorem div_pow_ten {n k : Nat} (hn : Safe n) (hk : k ≤ 22) :
    div (ofInt n) (ofInt (10 ^ k)) = round false (n * 10 ^ (-(k : Int))) := by
  obtain ⟨hfin, hneg, hvalue⟩ := pow_ten_spec hk
  have h0 : (ofInt (10 ^ k)).value ≠ 0 := by
    rw [hvalue]
    positivity
  rw [div_of_finite (isFinite_ofInt hn) hfin h0, negative_ofInt hn, hneg, value_ofInt hn, hvalue,
    decide_eq_false (by omega), zpow_neg, zpow_natCast, div_eq_mul_inv]
  rfl

end Minipg.Js.Double
