import Minipg.Js
import Mathlib.Algebra.Order.Field.Power
import Mathlib.Algebra.Order.Floor.Semifield
import Mathlib.Data.Int.Log
import Mathlib.Data.Rat.Floor
import Mathlib.Tactic.FieldSimp
import Mathlib.Tactic.Linarith
import Mathlib.Tactic.NormNum
import Mathlib.Tactic.Positivity
import Mathlib.Tactic.Ring

/-!
# Arithmetic of doubles

The value of a finite double is a rational number, and an operation is the exact one followed by
`round`, to the nearest double and of two the even one.  An integer of at most 53 bits is a double
(`value_ofInt`), so on such integers the arithmetic is that of the integers.
-/

namespace Minipg.Js.Double

def isFinite (x : Double) : Bool := x.exponent ≠ 2047

def isNaN (x : Double) : Bool := x.exponent = 2047 ∧ x.fraction ≠ 0

def isInfinite (x : Double) : Bool := x.exponent = 2047 ∧ x.fraction = 0

def nan : Double := 0x7ff8000000000000

def signBit (neg : Bool) : Nat := if neg then 2 ^ 63 else 0

def infinity (neg : Bool) : Double := BitVec.ofNat 64 (signBit neg + 2047 * 2 ^ 52)

def zero (neg : Bool) : Double := BitVec.ofNat 64 (signBit neg)

def value (x : Double) : ℚ := x.scaled / unit

/-! ### Rounding -/

/-- The nearest integer, and of two the even one. -/
def nearest (q : ℚ) : Nat :=
  let n := ⌊q⌋₊
  if q - n < 1 / 2 ∨ q - n = 1 / 2 ∧ n % 2 = 0 then n else n + 1

/-- The exponent of the last bit. -/
def place (q : ℚ) : Int := max (-1074) (Int.log 2 q - 52)

/-- The bits without the sign; a significand of 2 ^ 53 carries. -/
def magnitude (q : ℚ) : Nat :=
  if q = 0 then 0
  else min (2047 * 2 ^ 52) ((place q + 1074).toNat * 2 ^ 52 + nearest (q / 2 ^ place q))

def round (neg : Bool) (q : ℚ) : Double := BitVec.ofNat 64 (signBit neg + magnitude |q|)

def ofRat (q : ℚ) : Double := round (q < 0) q

def ofInt (n : Int) : Double := ofRat n

/-! ### Operations -/

/-- The other sign bit. -/
def neg (x : Double) : Double := x + BitVec.ofNat 64 (2 ^ 63)

def add (x y : Double) : Double :=
  if x.isNaN || y.isNaN then nan
  else if x.isInfinite then if y.isInfinite && x.negative != y.negative then nan else x
  else if y.isInfinite then y
  else if x.value + y.value = 0 then zero (x.negative && y.negative)
  else ofRat (x.value + y.value)

def sub (x y : Double) : Double := add x (neg y)

def mul (x y : Double) : Double :=
  let sign := x.negative != y.negative
  if x.isNaN || y.isNaN then nan
  else if x.isInfinite || y.isInfinite then
    if x.isFinite && x.value = 0 || y.isFinite && y.value = 0 then nan else infinity sign
  else round sign (x.value * y.value)

def div (x y : Double) : Double :=
  let sign := x.negative != y.negative
  if x.isNaN || y.isNaN then nan
  else if x.isInfinite then if y.isInfinite then nan else infinity sign
  else if y.isInfinite then zero sign
  else if y.value = 0 then if x.value = 0 then nan else infinity sign
  else round sign (x.value / y.value)

/-- `Math.floor`. -/
def floor (x : Double) : Double :=
  if x.isFinite then if x.value = 0 then x else ofInt ⌊x.value⌋ else x

/-- `x < y`. -/
def lt (x y : Double) : Bool :=
  if x.isNaN || y.isNaN then false
  else if x.isInfinite then x.negative && !(y.isInfinite && y.negative)
  else if y.isInfinite then !y.negative
  else x.value < y.value

/-- `x <= y`. -/
def le (x y : Double) : Bool := !x.isNaN && !y.isNaN && !lt y x

def isZero (x : Double) : Bool := x.isFinite && x.value = 0

/-! ### Integers -/

@[simp] theorem nearest_natCast (n : Nat) : nearest n = n := by
  simp [nearest]

theorem signBit_cases (neg : Bool) :
    neg = false ∧ signBit neg = 0 ∨ neg = true ∧ signBit neg = 9223372036854775808 := by
  cases neg with
  | false => exact .inl ⟨rfl, rfl⟩
  | true => exact .inr ⟨rfl, by decide⟩

theorem toNat_bits (neg : Bool) {n : Nat} (h : n < 9223372036854775808) :
    (BitVec.ofNat 64 (signBit neg + n)).toNat = signBit neg + n := by
  rw [BitVec.toNat_ofNat]
  have hsign := signBit_cases neg
  omega

theorem negative_bits (neg : Bool) {n : Nat} (h : n < 9223372036854775808) :
    negative (BitVec.ofNat 64 (signBit neg + n)) = neg := by
  unfold negative
  rw [toNat_bits neg h]
  rcases signBit_cases neg with ⟨rfl, hs⟩ | ⟨rfl, hs⟩
  · rw [hs]
    refine decide_eq_false ?_
    omega
  · rw [hs]
    refine decide_eq_true ?_
    omega

theorem exponent_bits (neg : Bool) {n : Nat} (h : n < 9223372036854775808) :
    exponent (BitVec.ofNat 64 (signBit neg + n)) = n / 2 ^ 52 := by
  unfold exponent
  rw [toNat_bits neg h]
  have hsign := signBit_cases neg
  omega

theorem fraction_bits (neg : Bool) {n : Nat} (h : n < 9223372036854775808) :
    fraction (BitVec.ofNat 64 (signBit neg + n)) = n % 2 ^ 52 := by
  unfold fraction
  rw [toNat_bits neg h]
  have hsign := signBit_cases neg
  omega

/-- The value of the bits that `magnitude` makes of a significand. -/
theorem scaled_bits (neg : Bool) {k m : Nat} (hm : m ≤ 2 ^ 53) (hk : k = 0 ∨ 2 ^ 52 ≤ m)
    (hfin : k * 2 ^ 52 + m < 2047 * 2 ^ 52) :
    scaled (BitVec.ofNat 64 (signBit neg + (k * 2 ^ 52 + m))) =
      (if neg then -1 else 1) * (m * 2 ^ k : Nat) := by
  have hlt : k * 2 ^ 52 + m < 9223372036854775808 := by omega
  have hsig : significand (BitVec.ofNat 64 (signBit neg + (k * 2 ^ 52 + m))) *
      2 ^ scale (BitVec.ofNat 64 (signBit neg + (k * 2 ^ 52 + m))) = m * 2 ^ k := by
    unfold significand scale
    rw [exponent_bits neg hlt, fraction_bits neg hlt]
    rcases Nat.lt_or_ge m (2 ^ 52) with hsub | hnormal
    · obtain rfl : k = 0 := hk.resolve_right (by omega)
      have hexp : (0 * 2 ^ 52 + m) / 2 ^ 52 = 0 := by omega
      have hfrac : (0 * 2 ^ 52 + m) % 2 ^ 52 = m := by omega
      rw [hexp, hfrac, if_pos rfl]
    rcases Nat.lt_or_ge m (2 ^ 53) with hlt | hcarry
    · have hexp : (k * 2 ^ 52 + m) / 2 ^ 52 = k + 1 := by omega
      have hfrac : (k * 2 ^ 52 + m) % 2 ^ 52 = m - 2 ^ 52 := by omega
      have hsum : 2 ^ 52 + (m - 2 ^ 52) = m := by omega
      rw [hexp, hfrac, if_neg (Nat.succ_ne_zero k), Nat.add_sub_cancel, hsum]
    · have hexp : (k * 2 ^ 52 + m) / 2 ^ 52 = k + 2 := by omega
      have hfrac : (k * 2 ^ 52 + m) % 2 ^ 52 = 0 := by omega
      have hm53 : m = 2 ^ 52 * 2 := by omega
      have hpow : 2 ^ (k + 2 - 1) = 2 * 2 ^ k := Nat.pow_succ' 
      rw [hexp, hfrac, if_neg (Nat.succ_ne_zero _), hpow, hm53, Nat.add_zero, Nat.mul_assoc]
  unfold scaled
  rw [hsig, negative_bits neg hlt]
  cases neg <;> simp

theorem nearest_le {q : ℚ} {n : Nat} (hn : n ≠ 0) (h : q < n) : nearest q ≤ n := by
  have hfloor : ⌊q⌋₊ < n := (Nat.floor_lt' hn).mpr h
  unfold nearest
  dsimp only
  split <;> omega

theorem le_nearest {q : ℚ} {n : Nat} (h : (n : ℚ) ≤ q) : n ≤ nearest q := by
  have hfloor : n ≤ ⌊q⌋₊ := Nat.le_floor h
  unfold nearest
  dsimp only
  split <;> omega

/-- The significand of a positive number has at most 53 bits, or one more in a carry. -/
theorem significand_bounds {q : ℚ} (hq : 0 < q) : nearest (q / 2 ^ place q) ≤ 2 ^ 53 ∧
    ((place q + 1074).toNat = 0 ∨ 2 ^ 52 ≤ nearest (q / 2 ^ place q)) := by
  have hpos : (0 : ℚ) < 2 ^ place q := by positivity
  refine ⟨?_, ?_⟩
  · have hlt : q < 2 ^ (place q + 53) := by
      have hlog := Int.lt_zpow_succ_log_self (R := ℚ) (b := 2) (by decide) q
      refine lt_of_lt_of_le hlog (zpow_le_zpow_right₀ (by norm_num) ?_)
      unfold place
      omega
    refine nearest_le (by norm_num) ?_
    rw [div_lt_iff₀ hpos]
    rw [zpow_add₀ (by norm_num)] at hlt
    push_cast
    linarith
  · rcases lt_or_ge (-1074) (Int.log 2 q - 52) with hbig | hsmall
    · right
      refine le_nearest ?_
      have hlog := Int.zpow_log_le_self (R := ℚ) (b := 2) (by decide) hq
      have hplace : Int.log 2 q = 52 + place q := by
        unfold place
        omega
      rw [hplace, zpow_add₀ (by norm_num)] at hlog
      rw [le_div_iff₀ hpos]
      push_cast at hlog ⊢
      exact hlog
    · left
      unfold place
      omega

theorem abs_nearest_sub_le {q : ℚ} (hq : 0 ≤ q) : |(nearest q : ℚ) - q| ≤ 1 / 2 := by
  have hle : (⌊q⌋₊ : ℚ) ≤ q := Nat.floor_le hq
  have hlt : q < ⌊q⌋₊ + 1 := Nat.lt_floor_add_one q
  unfold nearest
  dsimp only
  rw [abs_le]
  split
  · next h =>
    have hhalf : q - ⌊q⌋₊ ≤ 1 / 2 := by
      rcases h with h | h
      · exact le_of_lt h
      · exact le_of_eq h.1
    refine ⟨?_, ?_⟩ <;> linarith
  · next h =>
    have hhalf : 1 / 2 ≤ q - ⌊q⌋₊ := not_lt.mp fun hlt => h (.inl hlt)
    push_cast
    refine ⟨?_, ?_⟩ <;> linarith

theorem bits_lt {q : ℚ} (hq : 0 < q) (hbound : q < 2 ^ 1000) :
    (place q + 1074).toNat * 2 ^ 52 + nearest (q / 2 ^ place q) < 2047 * 2 ^ 52 := by
  have hlog : Int.log 2 q < 1000 := by
    refine (Int.lt_zpow_iff_log_lt (by decide) hq).mp ?_
    exact_mod_cast hbound
  have hplace : place q ≤ 948 := by
    unfold place
    omega
  have hm := (significand_bounds hq).1
  omega

theorem two_pow_toNat {e : Int} (k : Nat) (h : 0 ≤ e + k) :
    (2 : ℚ) ^ (e + k).toNat = 2 ^ e * (2 ^ k : Nat) := by
  have hnat : (2 : ℚ) ^ (e + k).toNat = 2 ^ (((e + k).toNat : Nat) : Int) :=
    (zpow_natCast 2 _).symm
  rw [hnat, Int.toNat_of_nonneg h, zpow_add₀ (by norm_num), zpow_natCast, Nat.cast_pow]
  rfl

/-- What a positive number is rounded to. -/
theorem round_pos (neg : Bool) {q : ℚ} (hq : 0 < q) (hbound : q < 2 ^ 1000) :
    (round neg q).isFinite = true ∧ (round neg q).negative = neg ∧
      (round neg q).value = (if neg then -1 else 1) * (nearest (q / 2 ^ place q) * 2 ^ place q) := by
  obtain ⟨hm, hk⟩ := significand_bounds hq
  have hfin := bits_lt hq hbound
  have hbits : round neg q = BitVec.ofNat 64 (signBit neg +
      ((place q + 1074).toNat * 2 ^ 52 + nearest (q / 2 ^ place q))) := by
    unfold round magnitude
    rw [abs_of_pos hq, if_neg (ne_of_gt hq), Nat.min_eq_right (Nat.le_of_lt hfin)]
  have hlt : (place q + 1074).toNat * 2 ^ 52 + nearest (q / 2 ^ place q) < 9223372036854775808 := by
    omega
  have hplace : -1074 ≤ place q := le_max_left _ _
  refine ⟨?_, ?_, ?_⟩
  · rw [hbits]
    unfold isFinite
    rw [exponent_bits neg hlt]
    refine decide_eq_true ?_
    omega
  · rw [hbits, negative_bits neg hlt]
  · rw [hbits]
    unfold value
    rw [scaled_bits neg hm hk hfin]
    have hpow : (2 : ℚ) ^ (place q + 1074).toNat = 2 ^ place q * unit := by
      unfold unit
      exact two_pow_toNat 1074 (by omega)
    push_cast
    rw [hpow]
    have hunit : (unit : ℚ) ≠ 0 := by exact_mod_cast ne_of_gt unit_pos
    cases neg <;> field_simp

/-- A number of at most 53 bits is a double. -/
theorem nearest_place {m : Nat} {e : Int} (hm : 0 < m) (hm' : m < 2 ^ 53) (he : -1074 ≤ e) :
    (nearest ((m * 2 ^ e : ℚ) / 2 ^ place (m * 2 ^ e)) : ℚ) * 2 ^ place (m * 2 ^ e) =
      m * 2 ^ e := by
  have hq : (0 : ℚ) < m * 2 ^ e := by positivity
  have hlog : Int.log 2 (m * 2 ^ e : ℚ) < 53 + e := by
    refine (Int.lt_zpow_iff_log_lt (by decide) hq).mp ?_
    have hm53 : (m : ℚ) < 2 ^ 53 := by exact_mod_cast hm'
    have hpow : (0 : ℚ) < 2 ^ e := by positivity
    push_cast
    rw [zpow_add₀ (by norm_num)]
    exact_mod_cast mul_lt_mul_of_pos_right hm53 hpow
  have hplace : place (m * 2 ^ e) ≤ e := by
    unfold place
    omega
  generalize place (m * 2 ^ e) = p at hplace ⊢
  obtain ⟨j, rfl⟩ := Int.le.dest hplace
  have hquot : (m * 2 ^ (p + j) : ℚ) / 2 ^ p = (m * 2 ^ j : Nat) := by
    rw [zpow_add₀ (by norm_num), zpow_natCast]
    push_cast
    field_simp
  rw [hquot, nearest_natCast, ← hquot, div_mul_cancel₀ _ (by positivity)]

/-- An integer of at most 53 bits, times a power of two. -/
theorem round_exact (neg : Bool) {m k : Nat} (hm : 0 < m) (hm' : m < 2 ^ 53)
    (hk : k < 900) : (round neg (m * 2 ^ k)).isFinite = true ∧
      (round neg (m * 2 ^ k)).negative = neg ∧
      (round neg (m * 2 ^ k)).value = (if neg then -1 else 1) * (m * 2 ^ k) := by
  have hq : (0 : ℚ) < m * 2 ^ k := by positivity
  have hbound : (m * 2 ^ k : ℚ) < 2 ^ 1000 := by
    have hm53 : (m : ℚ) < 2 ^ 53 := by exact_mod_cast hm'
    have hpow : (2 : ℚ) ^ k ≤ 2 ^ 900 := pow_le_pow_right₀ (by norm_num) (by omega)
    calc (m * 2 ^ k : ℚ) < 2 ^ 53 * 2 ^ k := by gcongr
      _ ≤ 2 ^ 53 * 2 ^ 900 := by gcongr
      _ ≤ 2 ^ 1000 := by
        rw [← pow_add]
        exact pow_le_pow_right₀ (by norm_num) (by norm_num)
  obtain ⟨hfin, hneg, hvalue⟩ := round_pos neg hq hbound
  have hexact := nearest_place (e := k) hm hm' (by omega)
  rw [zpow_natCast] at hexact
  refine ⟨hfin, hneg, ?_⟩
  rw [hvalue, hexact]

/-- `Number.isSafeInteger`. -/
def Safe (n : Int) : Prop := -9007199254740991 ≤ n ∧ n ≤ 9007199254740991

instance (n : Int) : Decidable (Safe n) := inferInstanceAs (Decidable (_ ∧ _))

theorem round_abs (neg : Bool) (q : ℚ) : round neg |q| = round neg q := by
  unfold round
  rw [abs_abs]

theorem ofInt_zero : ofInt 0 = 0 := by
  have hzero : ((0 : Int) : ℚ) = 0 := Int.cast_zero
  unfold ofInt ofRat round magnitude
  rw [hzero, abs_zero, if_pos rfl]
  rfl

theorem ofInt_natAbs (n : Int) : ofInt n = round (decide (n < 0)) (n.natAbs * 2 ^ 0) := by
  have hneg : decide ((n : ℚ) < 0) = decide (n < 0) := by simp
  have habs : (n.natAbs : ℚ) = |(n : ℚ)| := by
    rw [Nat.cast_natAbs, Int.cast_abs]
  unfold ofInt ofRat
  rw [hneg, pow_zero, mul_one, habs, round_abs]

theorem ofInt_spec {n : Int} (h : Safe n) :
    (ofInt n).isFinite = true ∧ (ofInt n).negative = decide (n < 0) ∧ (ofInt n).value = n := by
  unfold Safe at h
  by_cases h0 : n = 0
  · rw [h0, ofInt_zero]
    refine ⟨rfl, rfl, ?_⟩
    have hscaled : scaled 0 = 0 := by decide
    unfold value
    rw [hscaled]
    simp
  · rw [ofInt_natAbs]
    obtain ⟨hfin, hneg, hvalue⟩ := round_exact (decide (n < 0)) (m := n.natAbs) (k := 0) (by omega)
      (by omega) (by omega)
    refine ⟨hfin, hneg, ?_⟩
    rw [hvalue]
    by_cases hn : n < 0
    · have habs : (n.natAbs : ℚ) = -n := by
        rw [Nat.cast_natAbs, abs_of_neg hn, Int.cast_neg]
      simp [hn, habs]
    · have habs : (n.natAbs : ℚ) = n := by
        rw [Nat.cast_natAbs, abs_of_nonneg (not_lt.mp hn)]
      simp [hn, habs]

theorem magnitude_lt (q : ℚ) : magnitude q < 9223372036854775808 := by
  unfold magnitude
  split <;> omega

theorem neg_round (s : Bool) (q : ℚ) : neg (round s q) = round (!s) q := by
  have hlt := magnitude_lt |q|
  have hsign := signBit_cases s
  have hsign' := signBit_cases (!s)
  refine BitVec.eq_of_toNat_eq ?_
  unfold neg round
  rw [BitVec.toNat_add, BitVec.toNat_ofNat, BitVec.toNat_ofNat, BitVec.toNat_ofNat]
  cases s with
  | false =>
    simp [signBit]
    omega
  | true =>
    simp [signBit]
    omega

section Safe

variable {a b : Int} (ha : Safe a) (hb : Safe b)

theorem isNaN_of_finite {x : Double} (h : x.isFinite = true) :
    x.isNaN = false ∧ x.isInfinite = false := by
  have hexp : x.exponent ≠ 2047 := of_decide_eq_true h
  exact ⟨decide_eq_false fun hx => hexp hx.1, decide_eq_false fun hx => hexp hx.1⟩

theorem neg_ofInt (h0 : a ≠ 0) : neg (ofInt a) = ofInt (-a) := by
  have hneg : (!decide (a < 0)) = decide (-a < 0) := by
    rw [← decide_not, decide_eq_decide]
    omega
  rw [ofInt_natAbs, neg_round, hneg, ofInt_natAbs, Int.natAbs_neg]

include ha

@[simp] theorem isFinite_ofInt : (ofInt a).isFinite = true := (ofInt_spec ha).1
@[simp] theorem isNaN_ofInt : (ofInt a).isNaN = false := (isNaN_of_finite (ofInt_spec ha).1).1
@[simp] theorem isInfinite_ofInt : (ofInt a).isInfinite = false :=
  (isNaN_of_finite (ofInt_spec ha).1).2
@[simp] theorem negative_ofInt : (ofInt a).negative = decide (a < 0) := (ofInt_spec ha).2.1
@[simp] theorem value_ofInt : (ofInt a).value = a := (ofInt_spec ha).2.2

theorem integer?_ofInt : (ofInt a).integer? = some a := by
  obtain ⟨hfin, -, hvalue⟩ := ofInt_spec ha
  refine integer?_eq_some.mpr ⟨of_decide_eq_true hfin, ?_⟩
  have hunit : (unit : ℚ) ≠ 0 := by exact_mod_cast ne_of_gt unit_pos
  unfold value at hvalue
  rw [div_eq_iff hunit] at hvalue
  exact_mod_cast hvalue

@[simp] theorem trunc_ofInt : (ofInt a).trunc = a := trunc_of_integer (integer?_ofInt ha)

include hb

theorem add_ofInt : add (ofInt a) (ofInt b) = ofInt (a + b) := by
  unfold add
  simp only [isNaN_ofInt ha, isNaN_ofInt hb, isInfinite_ofInt ha, isInfinite_ofInt hb,
    value_ofInt ha, value_ofInt hb, negative_ofInt ha, negative_ofInt hb]
  by_cases h : a + b = 0
  · have hsum : (a : ℚ) + b = 0 := by exact_mod_cast h
    have hneg : (decide (a < 0) && decide (b < 0)) = false := by
      rw [← Bool.not_eq_true, Bool.and_eq_true]
      rintro ⟨h1, h2⟩
      have h1 := of_decide_eq_true h1
      have h2 := of_decide_eq_true h2
      omega
    rw [h, ofInt_zero, hneg]
    simp [hsum]
    rfl
  · have hsum : (a : ℚ) + b ≠ 0 := by exact_mod_cast h
    simp [hsum, ofInt]

theorem mul_ofInt (h : a * b ≠ 0 ∨ 0 ≤ a ∧ 0 ≤ b) : mul (ofInt a) (ofInt b) = ofInt (a * b) := by
  unfold mul
  simp only [isNaN_ofInt ha, isNaN_ofInt hb, isInfinite_ofInt ha, isInfinite_ofInt hb,
    value_ofInt ha, value_ofInt hb, negative_ofInt ha, negative_ofInt hb]
  have hsign : (decide (a < 0) != decide (b < 0)) = decide (a * b < 0) := by
    have hzero : a * b = 0 → 0 ≤ a ∧ 0 ≤ b := fun h0 => h.resolve_left fun hne => hne h0
    have hsigns : a * b < 0 ↔ 0 < a ∧ b < 0 ∨ a < 0 ∧ 0 < b := mul_neg_iff
    have hpos : a = 0 ∨ b = 0 → a * b = 0 := mul_eq_zero.mpr
    by_cases h1 : a < 0
    · by_cases h2 : b < 0
      · have hnot : ¬a * b < 0 := by omega
        simp [h1, h2, hnot]
      · have hlt : a * b < 0 := by omega
        simp [h1, h2, hlt]
    · by_cases h2 : b < 0
      · have hlt : a * b < 0 := by omega
        simp [h1, h2, hlt]
      · have hnot : ¬a * b < 0 := by omega
        simp [h1, h2, hnot]
  have hneg : decide (((a * b : Int) : ℚ) < 0) = decide (a * b < 0) := by
    rw [decide_eq_decide]
    exact Int.cast_lt_zero
  unfold ofInt ofRat
  rw [hneg, Int.cast_mul, hsign]
  rfl

theorem lt_ofInt : lt (ofInt a) (ofInt b) = decide (a < b) := by
  unfold lt
  simp [isNaN_ofInt ha, isNaN_ofInt hb, isInfinite_ofInt ha, isInfinite_ofInt hb,
    value_ofInt ha, value_ofInt hb]

theorem le_ofInt : le (ofInt a) (ofInt b) = decide (a ≤ b) := by
  unfold le
  rw [lt_ofInt hb ha]
  simp [isNaN_ofInt ha, isNaN_ofInt hb, ← decide_not]

theorem sub_ofInt : sub (ofInt a) (ofInt b) = ofInt (a - b) := by
  unfold sub
  by_cases h0 : b = 0
  · have hzero : (neg 0).isNaN = false ∧ (neg 0).isInfinite = false ∧ (neg 0).scaled = 0 := by
      decide
    have hvalue : (neg 0).value = 0 := by
      unfold value
      rw [hzero.2.2]
      simp
    rw [h0, Int.sub_zero, ofInt_zero]
    unfold add
    simp only [isNaN_ofInt ha, isInfinite_ofInt ha, value_ofInt ha, negative_ofInt ha, hzero.1,
      hzero.2.1, hvalue, add_zero]
    by_cases h : a = 0
    · rw [h, ofInt_zero]
      rfl
    · have hne : (a : ℚ) ≠ 0 := by exact_mod_cast h
      simp [hne, ofInt]
  · have hneg : Safe (-b) := by
      unfold Safe at hb ⊢
      omega
    rw [neg_ofInt h0, add_ofInt ha hneg, Int.sub_eq_add_neg]

end Safe

/-! ### Flooring -/

/-- How far a rounded number is from the number. -/
theorem abs_round_sub_le {q : ℚ} (hq : 0 < q) :
    |(nearest (q / 2 ^ place q) : ℚ) * 2 ^ place q - q| ≤ 2 ^ place q / 2 := by
  have hpow : (0 : ℚ) < 2 ^ place q := by positivity
  have hnear := abs_nearest_sub_le (q := q / 2 ^ place q) (by positivity)
  have hfactor : (nearest (q / 2 ^ place q) : ℚ) * 2 ^ place q - q =
      (nearest (q / 2 ^ place q) - q / 2 ^ place q) * 2 ^ place q := by
    rw [sub_mul, div_mul_cancel₀ _ (ne_of_gt hpow)]
  rw [hfactor, abs_mul, abs_of_pos hpow]
  have hmul := mul_le_mul_of_nonneg_right hnear (le_of_lt hpow)
  linarith

/-- A quotient of integers, when it is rounded: it stays what it is if it is an integer. -/
theorem round_quotient {m d : Nat} (hm : 0 < m) (hm' : m < 2 ^ 53) (hd : 0 < d)
    (hd' : d < 2 ^ 53) :
    let q : ℚ := m / d
    (nearest (q / 2 ^ place q) * 2 ^ place q : ℚ) = q ∧ d ∣ m ∨
      |(nearest (q / 2 ^ place q) : ℚ) * 2 ^ place q - q| < 1 / d ∧ ¬d ∣ m := by
  intro q
  have hq : 0 < q := by positivity
  have hdpos : (0 : ℚ) < d := by exact_mod_cast hd
  by_cases hdvd : d ∣ m
  · left
    obtain ⟨k, rfl⟩ := hdvd
    have hint : q = k * 2 ^ (0 : Int) := by
      show ((d * k : Nat) : ℚ) / d = _
      push_cast
      rw [mul_div_cancel_left₀ _ (ne_of_gt hdpos), mul_one]
    have hk : k ≤ d * k := Nat.le_mul_of_pos_left k hd
    refine ⟨?_, Nat.dvd_mul_right d k⟩
    rw [hint]
    exact nearest_place (Nat.pos_of_mul_pos_left hm) (by omega) (by omega)
  · right
    refine ⟨lt_of_le_of_lt (abs_round_sub_le hq) ?_, hdvd⟩
    have hm53 : (m : ℚ) < 2 ^ 53 := by exact_mod_cast hm'
    have hd53 : (d : ℚ) < 2 ^ 53 := by exact_mod_cast hd'
    rcases le_total (-1074) (Int.log 2 q - 52) with hplace | hplace
    · -- half a unit in the last place is at most a fraction `2⁻⁵³` of the quotient
      have hlog : (2 : ℚ) ^ Int.log 2 q ≤ q := by
        have hle := Int.zpow_log_le_self (b := 2) (by decide) hq
        exact_mod_cast hle
      have hhalf : (2 : ℚ) ^ place q / 2 = 2 ^ Int.log 2 q / 2 ^ 53 := by
        unfold place
        rw [max_eq_right hplace, zpow_sub₀ (by norm_num)]
        norm_num
        ring
      rw [hhalf, div_lt_div_iff₀ (by norm_num) hdpos]
      calc (2 : ℚ) ^ Int.log 2 q * d ≤ q * d := by gcongr
        _ = m := div_mul_cancel₀ _ (ne_of_gt hdpos)
        _ < 1 * 2 ^ 53 := by rwa [one_mul]
    · have hpow : (2 : ℚ) ^ place q ≤ 2 ^ (-53 : Int) := by
        unfold place
        rw [max_eq_left hplace]
        exact zpow_le_zpow_right₀ (by norm_num) (by norm_num)
      have hsmall : (2 : ℚ) ^ place q / 2 < 2 ^ (-53 : Int) := by
        have hpos : (0 : ℚ) < 2 ^ (-53 : Int) := by positivity
        exact lt_of_le_of_lt (div_le_div_of_nonneg_right hpow (by norm_num)) (half_lt_self hpos)
      refine lt_trans hsmall ?_
      rw [zpow_neg, ← one_div]
      exact one_div_lt_one_div_of_lt hdpos (by exact_mod_cast hd53)

theorem natAbs_lt_of_safe {a : Int} (h : Safe a) : a.natAbs < 2 ^ 53 := by
  unfold Safe at h
  omega

theorem quotient_value {a d : Int} (h0 : a ≠ 0) (ha : Safe a) (hd : 0 < d) (hd' : Safe d) :
    let x := round (decide (a < 0)) (a / d)
    x.isFinite = true ∧ (x.value = a / d ∧ d ∣ a ∨ |x.value - a / d| < 1 / d ∧ ¬d ∣ a) := by
  intro x
  have hm : 0 < a.natAbs := by omega
  have hdm : 0 < d.natAbs := by omega
  have hdpos : (0 : ℚ) < d := by exact_mod_cast hd
  have hcast : (a.natAbs : ℚ) = |(a : ℚ)| := by
    rw [Nat.cast_natAbs, Int.cast_abs]
  have hdcast : (d.natAbs : ℚ) = d := by
    rw [Nat.cast_natAbs, abs_of_pos hd]
  have hquot : (a / d : ℚ) = (if decide (a < 0) then -1 else 1) * (a.natAbs / d.natAbs) := by
    rw [hcast, hdcast]
    by_cases hneg : a < 0
    · have hlt : (a : ℚ) < 0 := by exact_mod_cast hneg
      simp only [hneg, decide_true, if_true, abs_of_neg hlt]
      ring
    · have hle : (0 : ℚ) ≤ a := by exact_mod_cast not_lt.mp hneg
      simp only [hneg, decide_false, abs_of_nonneg hle]
      simp
  have hx : x = round (decide (a < 0)) (a.natAbs / d.natAbs) := by
    show round (decide (a < 0)) (a / d) = _
    rw [← round_abs, hcast, hdcast, abs_div, abs_of_pos hdpos]
  have hq : (0 : ℚ) < a.natAbs / d.natAbs := by positivity
  have hbound : (a.natAbs / d.natAbs : ℚ) < 2 ^ 1000 := by
    have hlt : (a.natAbs : ℚ) < 2 ^ 53 := by exact_mod_cast natAbs_lt_of_safe ha
    have hpow : (2 : ℚ) ^ 53 ≤ 2 ^ 1000 := pow_le_pow_right₀ (by norm_num) (by norm_num)
    have hone : (1 : ℚ) ≤ d.natAbs := by exact_mod_cast hdm
    rw [div_lt_iff₀ (by positivity)]
    refine lt_of_lt_of_le hlt (le_trans hpow ?_)
    exact le_mul_of_one_le_right (by positivity) hone
  obtain ⟨hfin, -, hvalue⟩ := round_pos (decide (a < 0)) hq hbound
  rw [hx, hvalue, hquot, ← Int.natAbs_dvd_natAbs]
  refine ⟨hfin, ?_⟩
  rcases round_quotient hm (natAbs_lt_of_safe ha) hdm (natAbs_lt_of_safe hd') with
    ⟨hexact, hdvd⟩ | ⟨hclose, hdvd⟩
  · left
    refine ⟨?_, hdvd⟩
    rw [hexact]
  · right
    refine ⟨?_, hdvd⟩
    rw [hdcast] at hclose ⊢
    rw [← mul_sub, abs_mul]
    cases decide (a < 0) <;> simpa using hclose

/-- `a / d` is the quotient, rounded. -/
theorem div_ofInt {a d : Int} (ha : Safe a) (hd : 0 < d) (hd' : Safe d) :
    div (ofInt a) (ofInt d) = round (decide (a < 0)) (a / d) := by
  have hdq : (d : ℚ) ≠ 0 := by exact_mod_cast ne_of_gt hd
  have hneg : decide (d < 0) = false := decide_eq_false (by omega)
  unfold div
  simp [isNaN_ofInt ha, isNaN_ofInt hd', isInfinite_ofInt ha, isInfinite_ofInt hd',
    value_ofInt ha, value_ofInt hd', negative_ofInt ha, negative_ofInt hd', hdq, hneg]

/-- `Math.floor(a / d)`. -/
theorem floor_div {a d : Int} (ha : Safe a) (hd : 0 < d) (hd' : Safe d) :
    floor (div (ofInt a) (ofInt d)) = ofInt (a / d) := by
  have hdpos : (0 : ℚ) < d := by exact_mod_cast hd
  rw [div_ofInt ha hd hd']
  by_cases h0 : a = 0
  · have hzero : round (decide (a < 0)) (a / d) = ofInt 0 := by
      rw [h0, ofInt_natAbs]
      simp
    unfold floor
    rw [hzero, h0, value_ofInt (by decide), isFinite_ofInt (by decide)]
    simp
  · obtain ⟨hfin, hvalue⟩ := quotient_value h0 ha hd hd'
    generalize round (decide (a < 0)) (a / d) = x at hfin hvalue
    have hquot : (a / d : ℚ) = (a / d : Int) + (a % d : Int) / d := by
      have hcast : (a : ℚ) = d * (a / d : Int) + (a % d : Int) := by
        exact_mod_cast (Int.mul_ediv_add_emod a d).symm
      rw [hcast]
      field_simp
    have hone : (1 : ℚ) / d * d = 1 := div_mul_cancel₀ _ (ne_of_gt hdpos)
    have hbounds : ((a / d : Int) : ℚ) ≤ x.value ∧ x.value < (a / d : Int) + 1 := by
      rcases hvalue with ⟨heq, hdvd⟩ | ⟨hclose, hdvd⟩
      · rw [heq, hquot, Int.emod_eq_zero_of_dvd hdvd]
        refine ⟨?_, ?_⟩ <;> norm_num
      · have hlow : (1 : ℚ) / d ≤ (a % d : Int) / d := by
          have hne : a % d ≠ 0 := fun h => hdvd (Int.dvd_of_emod_eq_zero h)
          have hnonneg := Int.emod_nonneg a (ne_of_gt hd)
          have hle : 1 ≤ a % d := by omega
          gcongr
          exact_mod_cast hle
        have hhigh : ((a % d : Int) : ℚ) / d + 1 / d ≤ 1 := by
          have hlt := Int.emod_lt_of_pos a hd
          have hle : ((a % d : Int) : ℚ) + 1 ≤ d := by exact_mod_cast hlt
          rw [← add_div, div_le_one hdpos]
          exact hle
        obtain ⟨h1, h2⟩ := abs_lt.mp hclose
        refine ⟨?_, ?_⟩ <;> linarith
    have hne : x.value ≠ 0 := by
      intro hx
      have habs : (1 : ℚ) / d ≤ |(a / d : ℚ)| := by
        have hle : (1 : ℚ) ≤ |(a : ℚ)| := by
          have hint : 1 ≤ |a| := Int.one_le_abs h0
          exact_mod_cast hint
        rw [abs_div, abs_of_pos hdpos]
        gcongr
      have hpos : (0 : ℚ) < 1 / d := by positivity
      rcases hvalue with ⟨heq, -⟩ | ⟨hclose, -⟩
      · rw [← heq, hx, abs_zero] at habs
        linarith
      · rw [hx, zero_sub, abs_neg] at hclose
        linarith
    unfold floor
    rw [hfin, if_pos rfl, if_neg hne, Int.floor_eq_iff.mpr hbounds]

/-! ### Bits -/

theorem significand_lt (x : Double) : x.significand < 2 ^ 53 := by
  unfold significand fraction
  split
  all_goals omega

theorem toNat_eq (x : Double) :
    x.toNat = (if x.negative then 2 ^ 63 else 0) + x.exponent * 2 ^ 52 + x.fraction := by
  have hlt := x.isLt
  unfold negative exponent fraction
  split
  · rename_i hneg
    have hneg := of_decide_eq_true hneg
    omega
  · rename_i hneg
    have hneg := of_decide_eq_false (Bool.not_eq_true _ ▸ hneg)
    omega

/-- Of two normal significands the larger exponent is the larger number. -/
theorem scale_le {x y : Double} (h : x.significand * 2 ^ x.scale = y.significand * 2 ^ y.scale) :
    y.scale ≤ x.scale := by
  rcases Nat.lt_or_ge x.scale y.scale with hlt | hge
  · exfalso
    obtain ⟨d, hd⟩ := Nat.exists_eq_add_of_lt hlt
    have hexp : y.exponent ≠ 0 := by
      intro h0
      unfold scale at hlt
      omega
    have hy : 2 ^ 52 ≤ y.significand := by
      unfold significand
      rw [if_neg hexp]
      omega
    have hx := significand_lt x
    rw [hd, show x.scale + d + 1 = d + 1 + x.scale by omega, Nat.pow_add, ← Nat.mul_assoc] at h
    have heq := Nat.eq_of_mul_eq_mul_right (Nat.two_pow_pos x.scale) h
    have hpow : 2 ≤ 2 ^ (d + 1) := by
      have hp := Nat.two_pow_pos d
      rw [Nat.pow_succ]
      omega
    have hmul := Nat.mul_le_mul hy hpow
    omega
  · exact hge

/-- A finite double but zero is determined by its value. -/
theorem eq_of_scaled {x y : Double} (h : x.scaled = y.scaled) (h0 : x.scaled ≠ 0) : x = y := by
  have hmag : x.significand * 2 ^ x.scale = y.significand * 2 ^ y.scale ∧
      x.negative = y.negative := by
    unfold scaled at h h0
    dsimp only at h h0
    generalize x.significand * 2 ^ x.scale = a at h h0 ⊢
    generalize y.significand * 2 ^ y.scale = b at h ⊢
    generalize x.negative = r at h h0 ⊢
    generalize y.negative = s at h ⊢
    have hab : a = b ∧ (r = s ∨ a = 0) := by
      cases r
      all_goals cases s
      all_goals simp only [if_true, Bool.false_eq_true, if_false] at h
      all_goals refine ⟨by omega, ?_⟩
      all_goals first | exact .inl rfl | exact .inr (by omega)
    refine ⟨hab.1, hab.2.resolve_right ?_⟩
    intro ha
    rw [ha] at h0
    apply h0
    split
    all_goals rfl
  obtain ⟨hmag, hneg⟩ := hmag
  have hscale : x.scale = y.scale := Nat.le_antisymm (scale_le hmag.symm) (scale_le hmag)
  have hsig : x.significand = y.significand := by
    rw [hscale] at hmag
    exact Nat.eq_of_mul_eq_mul_right (Nat.two_pow_pos _) hmag
  have hbits : x.exponent = y.exponent ∧ x.fraction = y.fraction := by
    unfold scale at hscale
    have hfx : x.fraction < 2 ^ 52 := Nat.mod_lt _ (Nat.two_pow_pos 52)
    have hfy : y.fraction < 2 ^ 52 := Nat.mod_lt _ (Nat.two_pow_pos 52)
    unfold significand at hsig
    split at hsig
    all_goals split at hsig
    all_goals omega
  apply BitVec.eq_of_toNat_eq
  rw [toNat_eq x, toNat_eq y, hneg, hbits.1, hbits.2]

/-- A number that is an integer of at most 53 bits. -/
theorem eq_ofInt {x : Double} {n : Int} (hx : x.integer? = some n) (hn : Safe n) (h0 : n ≠ 0) :
    x = ofInt n := by
  obtain ⟨-, hscaled⟩ := integer?_eq_some.mp hx
  obtain ⟨-, hscaled'⟩ := integer?_eq_some.mp (integer?_ofInt hn)
  apply eq_of_scaled (hscaled.trans hscaled'.symm)
  rw [hscaled]
  exact Int.mul_ne_zero h0 (Int.ne_of_gt unit_pos)

end Minipg.Js.Double
