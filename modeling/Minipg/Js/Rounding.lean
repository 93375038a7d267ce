import Minipg.Js.Float

/-!
# Numbers of more than 53 bits

From 2 ^ 53 on every finite double is an integer, and none is safe (`Large.unsafe`); from
2 ^ 1024 - 2 ^ 970 on numbers are rounded to an infinity (`isFinite_round`).  An integer whose
digits are added up one after the other is exact, or it is large (`Accumulated.step`).
-/

namespace Minipg.Js.Double

/-- At least 2 ^ 53, or an infinity, of any sign. -/
def Large (x : Double) : Prop := 1076 ≤ x.exponent ∧ (x.exponent = 2047 → x.fraction = 0)

namespace Large

variable {x : Double}

theorem scaled_natAbs (h : Large x) : 9007199254740992 * unit ≤ x.scaled.natAbs := by
  have hexp : x.exponent ≠ 0 := by
    intro h0
    have h1 := h.1
    omega
  have hsig : 2 ^ 52 ≤ x.significand := by
    unfold significand
    rw [if_neg hexp]
    omega
  have hscale : 1075 ≤ x.scale := by
    have h1 := h.1
    unfold scale
    omega
  obtain ⟨e, he⟩ : ∃ e, x.scale = e + 1 := ⟨x.scale - 1, by omega⟩
  have hpow : unit * 2 ≤ 2 ^ x.scale := by
    have hunit : unit ≤ 2 ^ e := by
      have hexp : 1074 ≤ e := by omega
      have hle := Nat.pow_le_pow_right (n := 2) Nat.zero_lt_two hexp
      unfold unit
      exact hle
    rw [he, Nat.pow_succ]
    exact Nat.mul_le_mul_right 2 hunit
  have hmul := Nat.mul_le_mul hsig hpow
  have habs : x.scaled.natAbs = x.significand * 2 ^ x.scale := by
    unfold scaled
    split
    · exact (Int.natAbs_neg _).trans (Int.natAbs_natCast _)
    · exact Int.natAbs_natCast _
  rw [habs]
  generalize unit = u at hmul ⊢
  omega

theorem neg (h : Large x) : Large (Double.neg x) := by
  have hlt := x.isLt
  have hbits : (Double.neg x).exponent = x.exponent ∧ (Double.neg x).fraction = x.fraction := by
    unfold Double.neg exponent fraction
    rw [BitVec.toNat_add, BitVec.toNat_ofNat]
    omega
  unfold Large
  rw [hbits.1, hbits.2]
  exact h

/-- A finite one is an integer. -/
theorem integer (h : Large x) (hfin : x.exponent ≠ 2047) :
    ∃ n, x.integer? = some n ∧ 9007199254740992 ≤ n.natAbs := by
  have hscale : 1074 ≤ x.scale := by
    have h1 := h.1
    unfold scale
    omega
  have hsome : ∃ n, x.integer? = some n := by
    unfold integer?
    rw [if_neg hfin, if_pos hscale]
    exact ⟨_, rfl⟩
  obtain ⟨n, hn⟩ := hsome
  refine ⟨n, hn, ?_⟩
  have habs := h.scaled_natAbs
  rw [(integer?_eq_some.mp hn).2, Int.natAbs_mul, Int.natAbs_natCast] at habs
  exact Nat.le_of_mul_le_mul_right habs (by exact_mod_cast unit_pos)

theorem unsafe_integer (h : Large x) : x.safeInteger? = none := by
  unfold safeInteger?
  rw [Option.filter_eq_none_iff]
  intro n hn
  have hfin : x.exponent ≠ 2047 := (integer?_eq_some.mp hn).1
  obtain ⟨m, hm, hlarge⟩ := h.integer hfin
  rw [hm] at hn
  cases hn
  simp only [decide_eq_true_eq]
  omega

theorem value_ge (h : Large x) (hpos : x.negative = false) : 2 ^ 53 ≤ x.value := by
  have habs := h.scaled_natAbs
  have hnonneg : 0 ≤ x.scaled := by
    unfold scaled
    rw [hpos]
    exact Int.natCast_nonneg _
  have hle : (9007199254740992 : Int) * unit ≤ x.scaled := by
    have hcast : ((9007199254740992 * unit : Nat) : Int) ≤ x.scaled.natAbs :=
      Int.ofNat_le.mpr habs
    rw [Int.natAbs_of_nonneg hnonneg] at hcast
    exact_mod_cast hcast
  have hunit : (0 : ℚ) < unit := by exact_mod_cast unit_pos
  unfold value
  rw [le_div_iff₀ hunit]
  have hrat : (((9007199254740992 : Int) * unit : Int) : ℚ) ≤ x.scaled := by exact_mod_cast hle
  push_cast at hrat
  norm_num
  exact hrat

end Large

/-! ### Rounding -/

theorem magnitude_ge {q : ℚ} (hq : 2 ^ 53 ≤ q) : 1076 * 2 ^ 52 ≤ magnitude q := by
  have hpos : 0 < q := lt_of_lt_of_le (by norm_num) hq
  have hlog : 53 ≤ Int.log 2 q := by
    refine (Int.zpow_le_iff_le_log (by decide) hpos).mp ?_
    exact_mod_cast hq
  have hplace : 1 ≤ place q := by
    unfold place
    omega
  have hm := (significand_bounds hpos).2
  unfold magnitude
  rw [if_neg (ne_of_gt hpos)]
  omega

theorem magnitude_le (q : ℚ) : magnitude q ≤ 2047 * 2 ^ 52 := by
  unfold magnitude
  split
  · omega
  · exact Nat.min_le_left _ _

theorem round_large (neg : Bool) {q : ℚ} (hq : 2 ^ 53 ≤ q) :
    Large (round neg q) ∧ (round neg q).negative = neg := by
  have habs : |q| = q := abs_of_nonneg (le_trans (by norm_num) hq)
  have hge := magnitude_ge hq
  have hle := magnitude_le q
  have hlt := magnitude_lt q
  unfold round
  rw [habs]
  refine ⟨⟨?_, ?_⟩, negative_bits neg hlt⟩
  · rw [exponent_bits neg hlt]
    omega
  · rw [exponent_bits neg hlt, fraction_bits neg hlt]
    omega

/-- A half is rounded up to an even number. -/
theorem le_nearest_iff {q : ℚ} {n : Nat} (hn : n % 2 = 0) (h0 : 0 < n) :
    n ≤ nearest q ↔ (n : ℚ) - 1 / 2 ≤ q := by
  have hfloor := Nat.lt_floor_add_one q
  by_cases hq : 0 ≤ q
  · have hle := Nat.floor_le hq
    unfold nearest
    dsimp only
    generalize ⌊q⌋₊ = m at hfloor hle ⊢
    have hcast : ∀ a b : Nat, a ≤ b → (a : ℚ) ≤ b := fun a b h => by exact_mod_cast h
    constructor
    · intro h
      split at h
      · have hm := hcast n m h
        linarith
      · rename_i hup
        have hm := hcast n (m + 1) h
        push_cast at hm
        have hhalf : 1 / 2 ≤ q - m := not_lt.mp fun hlt => hup (.inl hlt)
        linarith
    · intro h
      by_contra hlt
      have hlow : m + 1 ≤ n := by
        split at hlt
        all_goals omega
      rcases Nat.lt_or_ge (m + 1) n with hless | hge
      · have hm := hcast (m + 2) n hless
        push_cast at hm
        linarith
      · have hmn : n = m + 1 := by omega
        have hhalf : 1 / 2 ≤ q - m := by
          rw [hmn] at h
          push_cast at h
          linarith
        have hodd : m % 2 ≠ 0 := by omega
        rw [if_neg (by
          rintro (hs | ⟨-, he⟩)
          · linarith
          · exact hodd he)] at hlt
        omega
  · have hneg : q < 0 := not_le.mp hq
    have hzero : ⌊q⌋₊ = 0 := Nat.floor_of_nonpos (le_of_lt hneg)
    have hnear : nearest q = 0 := by
      unfold nearest
      dsimp only
      rw [hzero, if_pos (.inl (by push_cast; linarith))]
    have hone : (1 : ℚ) ≤ n := by exact_mod_cast h0
    rw [hnear]
    constructor
    · intro h
      omega
    · intro h
      linarith

/-- Where a number is rounded to an infinity. -/
theorem isFinite_round (neg : Bool) {q : ℚ} (hq : 0 < q) :
    (round neg q).isFinite = true ↔ q < 2 ^ 1024 - 2 ^ 970 := by
  have hlt := magnitude_lt q
  have hle := magnitude_le q
  have hmag : (round neg q).isFinite = true ↔ magnitude q < 2047 * 2 ^ 52 := by
    unfold round isFinite
    rw [abs_of_pos hq, exponent_bits neg hlt, decide_eq_true_eq]
    omega
  rw [hmag]
  unfold magnitude
  rw [if_neg (ne_of_gt hq)]
  obtain ⟨hm, hk⟩ := significand_bounds hq
  have hlower := Int.zpow_log_le_self (R := ℚ) (b := 2) (by decide) hq
  have hupper := Int.lt_zpow_succ_log_self (R := ℚ) (b := 2) (by decide) q
  push_cast at hlower hupper
  have hmono : ∀ a b : Int, a ≤ b → (2 : ℚ) ^ a ≤ 2 ^ b := fun a b h =>
    zpow_le_zpow_right₀ (by norm_num) h
  rcases lt_trichotomy (Int.log 2 q) 1023 with hsmall | heq | hbig
  · have hplace : place q ≤ 970 := by
      unfold place
      omega
    have hpow := hmono (Int.log 2 q + 1) 1023 (by omega)
    have hbound : q < 2 ^ 1024 - 2 ^ 970 := by
      refine lt_of_lt_of_le (lt_of_lt_of_le hupper hpow) ?_
      have hhalf : (2 : ℚ) ^ 1024 = 2 ^ (1023 : Int) + 2 ^ (1023 : Int) := by
        rw [← mul_two]
        exact pow_succ 2 1023
      have hless : (2 : ℚ) ^ 970 ≤ 2 ^ (1023 : Int) := by
        have hm := hmono 970 1023 (by decide)
        exact_mod_cast hm
      rw [hhalf]
      generalize (2 : ℚ) ^ (1023 : Int) = y at hless ⊢
      generalize (2 : ℚ) ^ 970 = z at hless ⊢
      linarith
    refine iff_of_true ?_ hbound
    omega
  · have hplace : place q = 971 := by
      unfold place
      omega
    rw [hplace] at hm ⊢
    have hiff := le_nearest_iff (q := q / 2 ^ (971 : Int)) (n := 2 ^ 53) (by decide) (by decide)
    have hpow : (0 : ℚ) < 2 ^ (971 : Int) := by positivity
    have hsame : (((2 ^ 53 : Nat) : ℚ) - 1 / 2) ≤ q / 2 ^ (971 : Int) ↔
        2 ^ 1024 - 2 ^ 970 ≤ q := by
      have hhalf : (2 : ℚ) ^ (971 : Int) = 2 ^ 970 * 2 := by
        rw [← zpow_natCast]
        exact zpow_add_one₀ (two_ne_zero (α := ℚ)) 970
      have htop : (2 : ℚ) ^ 1024 = 2 ^ 53 * 2 ^ (971 : Int) := by
        rw [← zpow_natCast, ← zpow_natCast]
        exact zpow_add₀ (two_ne_zero (α := ℚ)) 53 971
      rw [le_div_iff₀ hpow, htop, sub_mul, hhalf]
      push_cast
      generalize (2 : ℚ) ^ 970 = y
      constructor
      · intro h
        linarith
      · intro h
        linarith
    rw [hsame] at hiff
    rw [← not_le, ← not_le, not_iff_not, ← hiff]
    omega
  · have hplace : 972 ≤ place q := by
      unfold place
      omega
    have hpow := hmono 1024 (Int.log 2 q) (by omega)
    have hbound : ¬q < 2 ^ 1024 - 2 ^ 970 := by
      refine not_lt.mpr (le_trans ?_ (le_trans hpow hlower))
      norm_num
    refine iff_of_false ?_ hbound
    omega

/-! ### Digit by digit -/

/-- What the digits of an integer add up to. -/
def Accumulated (x : Double) (n : Nat) : Prop :=
  if n ≤ 9007199254740991 then x = ofInt n else Large x ∧ x.negative = false

theorem ofRat_nonneg {q : ℚ} (hq : 0 ≤ q) : ofRat q = round false q := by
  unfold ofRat
  rw [decide_eq_false (not_lt.mpr hq)]

theorem round_natCast (n : Nat) : Accumulated (round false n) n := by
  unfold Accumulated
  split
  · have hcast : ((n : Int) : ℚ) = n := Int.cast_natCast n
    unfold ofInt
    rw [hcast, ofRat_nonneg (Nat.cast_nonneg n)]
  · refine round_large false ?_
    have hn : 9007199254740992 ≤ n := by omega
    have hcast : ((9007199254740992 : Nat) : ℚ) ≤ n := by exact_mod_cast hn
    norm_num at hcast ⊢
    exact hcast

theorem Large.mul_ten {x : Double} (h : Large x) (hpos : x.negative = false) :
    Large (mul x (ofInt 10)) ∧ (mul x (ofInt 10)).negative = false := by
  have hten : Safe 10 := by decide
  unfold mul
  simp only [isNaN_ofInt hten, isInfinite_ofInt hten, negative_ofInt hten, value_ofInt hten,
    isFinite_ofInt hten, hpos]
  by_cases hexp : x.exponent = 2047
  · have hfrac := h.2 hexp
    have hnan : x.isNaN = false := decide_eq_false fun hx => hx.2 hfrac
    have hinf : x.isInfinite = true := decide_eq_true ⟨hexp, hfrac⟩
    have hfin : x.isFinite = false := decide_eq_false fun hx => hx hexp
    rw [hnan, hinf, hfin]
    simp only [Bool.false_or, Bool.true_or, if_true, Bool.false_eq_true, if_false, Bool.false_and]
    norm_num
    exact ⟨⟨by decide, by decide⟩, by decide⟩
  · obtain ⟨hnan, hinf⟩ := isNaN_of_finite (x := x) (decide_eq_true hexp)
    rw [hnan, hinf]
    have hvalue := h.value_ge hpos
    have hbig : (2 : ℚ) ^ 53 ≤ x.value * 10 := by linarith
    exact round_large false hbig

theorem Large.add_digit {x : Double} (h : Large x) (hpos : x.negative = false) {d : Nat}
    (hd : d ≤ 9) : Large (add x (ofInt d)) ∧ (add x (ofInt d)).negative = false := by
  have hsafe : Safe d := ⟨by omega, by omega⟩
  unfold add
  simp only [isNaN_ofInt hsafe, isInfinite_ofInt hsafe, negative_ofInt hsafe, value_ofInt hsafe,
    hpos]
  by_cases hexp : x.exponent = 2047
  · have hfrac := h.2 hexp
    have hnan : x.isNaN = false := decide_eq_false fun hx => hx.2 hfrac
    have hinf : x.isInfinite = true := decide_eq_true ⟨hexp, hfrac⟩
    rw [hnan, hinf]
    exact ⟨h, hpos⟩
  · obtain ⟨hnan, hinf⟩ := isNaN_of_finite (x := x) (decide_eq_true hexp)
    rw [hnan, hinf]
    have hvalue := h.value_ge hpos
    have hdigit : (0 : ℚ) ≤ ((d : Int) : ℚ) := by exact_mod_cast Nat.zero_le d
    have hbig : (2 : ℚ) ^ 53 ≤ x.value + ((d : Int) : ℚ) := by linarith
    have hsum : (0 : ℚ) < x.value + ((d : Int) : ℚ) := lt_of_lt_of_le (by norm_num) hbig
    simp only [Bool.or_self, Bool.false_eq_true, if_false, ne_of_gt hsum]
    rw [ofRat_nonneg (le_of_lt hsum)]
    exact round_large false hbig

/-- A natural number with a sign. -/
theorem round_safe (neg : Bool) {n : Nat} (h : n ≤ 9007199254740991) :
    (round neg n).safeInteger? = some (if neg then -(n : Int) else n) := by
  have hsafe : Safe n := ⟨by omega, by omega⟩
  have hnat : round false n = ofInt n := by
    have hround := round_natCast n
    unfold Accumulated at hround
    rwa [if_pos h] at hround
  have hsome : ∀ {x : Double} {k : Int}, x.integer? = some k → Safe k →
      x.safeInteger? = some k := by
    intro x k hx hk
    unfold safeInteger?
    rw [hx]
    exact if_pos (decide_eq_true hk)
  cases neg with
  | false =>
    rw [hnat]
    exact hsome (integer?_ofInt hsafe) hsafe
  | true =>
    have hneg : round true n = Double.neg (ofInt n) := by
      rw [← hnat, neg_round]
      rfl
    rw [hneg]
    by_cases h0 : n = 0
    · subst h0
      have hzero : Double.exponent (Double.neg 0) ≠ 2047 ∧ scaled (Double.neg 0) = 0 := by decide
      rw [show ((0 : Nat) : Int) = 0 from rfl, ofInt_zero]
      refine hsome (integer?_eq_some.mpr ⟨hzero.1, ?_⟩) (by decide)
      rw [hzero.2]
      exact (Int.zero_mul _).symm
    · rw [neg_ofInt (by omega)]
      have hsafe' : Safe (-n) := ⟨by omega, by omega⟩
      exact hsome (integer?_ofInt hsafe') hsafe'

theorem round_unsafe (neg : Bool) {n : Nat} (h : 9007199254740991 < n) :
    Large (round neg n) := by
  have hn : 9007199254740992 ≤ n := h
  have hcast : ((9007199254740992 : Nat) : ℚ) ≤ n := by exact_mod_cast hn
  refine (round_large neg ?_).1
  norm_num at hcast ⊢
  exact hcast

/-- **One more digit.** -/
theorem Accumulated.step {x : Double} {n d : Nat} (h : Accumulated x n) (hd : d ≤ 9) :
    Accumulated (add (mul x (ofInt 10)) (ofInt d)) (n * 10 + d) := by
  have hsafe : Safe d := ⟨by omega, by omega⟩
  have hlarge : ∀ {y : Double}, Large y ∧ y.negative = false → 9007199254740991 < n * 10 + d →
      Accumulated (add y (ofInt d)) (n * 10 + d) := by
    intro y hy hn
    unfold Accumulated
    rw [if_neg (Nat.not_le.mpr hn)]
    exact hy.1.add_digit hy.2 hd
  unfold Accumulated at h
  by_cases hn : n ≤ 9007199254740991
  · rw [if_pos hn] at h
    subst h
    by_cases hten : n * 10 ≤ 9007199254740991
    · have hprod : mul (ofInt n) (ofInt 10) = ofInt (n * 10 : Nat) := by
        rw [mul_ofInt ⟨by omega, by omega⟩ (by decide) (.inr ⟨by omega, by decide⟩)]
        norm_cast
      have hsum : add (ofInt (n * 10 : Nat)) (ofInt d) = ofRat (n * 10 + d : Nat) := by
        rw [add_ofInt ⟨by omega, by omega⟩ hsafe]
        unfold ofInt
        norm_cast
      rw [hprod, hsum, ofRat_nonneg (Nat.cast_nonneg _)]
      exact round_natCast _
    · have hprod : mul (ofInt n) (ofInt 10) = round false (n * 10 : Nat) := by
        have hten : Safe 10 := by decide
        have hsafe' : Safe n := ⟨by omega, by omega⟩
        have hnonneg : decide ((n : Int) < 0) = false := decide_eq_false (by omega)
        unfold mul
        simp [isNaN_ofInt hten, isInfinite_ofInt hten, negative_ofInt hten, value_ofInt hten,
          isNaN_ofInt hsafe', isInfinite_ofInt hsafe', negative_ofInt hsafe', value_ofInt hsafe',
          hnonneg]
      have hround := round_natCast (n * 10)
      unfold Accumulated at hround
      rw [if_neg hten] at hround
      rw [hprod]
      exact hlarge hround (by omega)
  · rw [if_neg hn] at h
    exact hlarge (h.1.mul_ten h.2) (by omega)

end Minipg.Js.Double
