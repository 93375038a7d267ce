import Mathlib.Algebra.Field.Rat
import Mathlib.Tactic.FieldSimp
import Mathlib.Tactic.NormNum
import Minipg.Decode.BigEndian
import Minipg.Js.Decimal
import Minipg.Lib.Positional

/-!
# Binary numerics

A `numeric` in the binary format is a list of digits in base 10000 with the place of the first one,
a sign and a number of fraction digits.  `binNumericStr` of `src/decode.ts` renders it in decimal
digits, as the server does in its text format (`binNumericStr_text`).
-/

namespace Minipg.Cells

open Js Encode Positional

/-- The group at index `i` of the digits. -/
def readGroup (b : Bytes) (o nd : Nat) (i : Int) : Except JsError Nat :=
  if 0 ≤ i ∧ i < nd then readBE 2 b (o + 8 + i.toNat * 2) else .ok 0

/-- `String(d).padStart(4, '0')`. -/
def group (d : Nat) : JsString := padStart (decimal d) 4 48

/-- The loop from `i` on, with `k` turns left. -/
def wholeLoop (b : Bytes) (o nd : Nat) : Nat → Nat → JsString → Except JsError JsString
  | 0, _, s => .ok s
  | k + 1, i, s => do
    let d ← readGroup b o nd i
    wholeLoop b o nd k (i + 1) (s ++ if i = 0 then decimal d else group d)

/-- The loop over `g`; each turn adds four digits at least, so `dscale` turns are enough. -/
def fracLoop (b : Bytes) (o nd : Nat) (weight : Int) (dscale : Nat) :
    Nat → Nat → JsString → Except JsError JsString
  | 0, _, frac => .ok frac
  | k + 1, g, frac =>
    if frac.length < dscale then do
      let d ← readGroup b o nd (weight + 1 + g)
      fracLoop b o nd weight dscale k (g + 1) (frac ++ group d)
    else .ok frac

/-- The digits before the point, behind the sign. -/
def wholePart (b : Bytes) (o nd : Nat) (weight : Int) (s : JsString) : Except JsError JsString :=
  if weight < 0 ∨ nd = 0 then .ok (s ++ ascii "0")
  else wholeLoop b o nd (weight + 1).toNat 0 s

def numericString (b : Bytes) (o : Nat) : Except JsError JsString := do
  let nd ← readBE 2 b o
  let weight := signed 16 (← readBE 2 b (o + 2))
  let sign ← readBE 2 b (o + 4)
  let dscale ← readBE 2 b (o + 6)
  if sign = 0xc000 then return ascii "NaN"
  if sign = 0xd000 then return ascii "Infinity"
  if sign = 0xf000 then return ascii "-Infinity"
  let s := if sign = 0x4000 then ascii "-" else []
  let s ← wholePart b o nd weight s
  if 0 < dscale then
    let frac ← fracLoop b o nd weight dscale dscale 0 []
    return s ++ ascii "." ++ frac.take dscale
  return s

def binNumericStr : Cell := fun b o _ => (numericString b o).map .string

/-- The part of `replShapedLeaf` for numerics. -/
def replNumericLeaf (rt : Runtime) (js : Option String) : Cell :=
  if js = some "bigint" then fun b o _ => (numericString b o).bind rt.bigint
  else if js = some "number" then fun b o _ =>
    (numericString b o).map fun s => .number (rt.number s)
  else binNumericStr

/-! ### What is sent -/

/-- The number that groups denote, the first of which counts `10000 ^ weight`. -/
def magnitude (digits : List Nat) (weight : Int) : ℚ :=
  leading 10000 digits digits.length * 10000 ^ (weight + 1 - digits.length)

/-- A finite number: no group is out of range, a number of several groups before the point does not
begin with zeros, and the fraction digits hide nothing: there are `units` of the last one. -/
structure FiniteNumeric where
  negative : Bool
  digits : List Nat
  weight : Int
  dscale : Nat
  units : Nat
  digit_lt : ∀ d ∈ digits, d < 10000
  length_lt : digits.length < 65536
  weight_bounds : -32768 ≤ weight ∧ weight < 32768
  dscale_lt : dscale < 65536
  normal : 0 < weight → digits.head? ≠ some 0
  exact : magnitude digits weight * 10 ^ dscale = units

inductive Special
  | nan
  | infinity
  | negInfinity
  deriving DecidableEq, Repr

def Special.code : Special → Int
  | .nan => 0xc000
  | .infinity => 0xd000
  | .negInfinity => 0xf000

def Special.name : Special → String
  | .nan => "NaN"
  | .infinity => "Infinity"
  | .negInfinity => "-Infinity"

inductive Numeric
  | finite (n : FiniteNumeric)
  /-- The other fields of a special value mean nothing. -/
  | special (s : Special) (weight dscale : Int)

def numericHeader (nd weight sign dscale : Int) : Bytes :=
  bigEndian 2 nd ++ bigEndian 2 weight ++ bigEndian 2 sign ++ bigEndian 2 dscale

def groupBytes (digits : List Nat) : Bytes := digits.flatMap fun (d : Nat) => bigEndian 2 d

def Numeric.payload : Numeric → Bytes
  | .finite n =>
    numericHeader n.digits.length n.weight (if n.negative then 0x4000 else 0) n.dscale ++
      groupBytes n.digits
  | .special s weight dscale => numericHeader 0 weight s.code dscale

/-- `units` of the last of `scale` fraction digits, in decimal digits. -/
def fixedPoint (units scale : Nat) : JsString :=
  decimal (units / 10 ^ scale) ++
    if scale = 0 then [] else ascii "." ++ padded scale (units % 10 ^ scale : Nat)

/-- What the server prints in its text format. -/
def Numeric.text : Numeric → JsString
  | .finite n => (if n.negative then ascii "-" else []) ++ fixedPoint n.units n.dscale
  | .special s _ _ => ascii s.name

/-! ### Reading the header and the groups -/

section Reading

variable {ds : List Nat}

theorem groupBytes_length (ds : List Nat) : (groupBytes ds).length = ds.length * 2 := by
  induction ds with
  | nil => rfl
  | cons d ds ih =>
    rw [groupBytes, List.flatMap_cons, List.length_append, bigEndian_length, List.length_cons]
    rw [groupBytes] at ih
    omega

theorem groupBytes_split {j : Nat} (hj : j < ds.length) : groupBytes ds =
    groupBytes (ds.take j) ++ bigEndian 2 ds[j] ++ groupBytes (ds.drop (j + 1)) := by
  have hsplit : ds = ds.take j ++ ds[j] :: ds.drop (j + 1) := by
    rw [← List.drop_eq_getElem_cons hj, List.take_append_drop]
  conv_lhs => rw [hsplit]
  unfold groupBytes
  rw [List.flatMap_append, List.flatMap_cons, List.append_assoc]

theorem readGroup_payload (hd : ∀ d ∈ ds, d < 10000) {header : Bytes}
    (hheader : header.length = 8) (pre post : Bytes) (i : Int) :
    readGroup (pre ++ (header ++ groupBytes ds) ++ post) pre.length ds.length i =
      .ok (digitAt ds i) := by
  unfold readGroup
  by_cases hi : 0 ≤ i ∧ i < ds.length
  · obtain ⟨j, rfl⟩ := Int.eq_ofNat_of_zero_le hi.1
    have hj : j < ds.length := by omega
    have hread := readBE_bigEndian 2 ds[j] (pre ++ header ++ groupBytes (ds.take j))
      (groupBytes (ds.drop (j + 1)) ++ post)
    have hbytes : pre ++ header ++ groupBytes (ds.take j) ++ bigEndian 2 ds[j] ++
        (groupBytes (ds.drop (j + 1)) ++ post) = pre ++ (header ++ groupBytes ds) ++ post := by
      rw [groupBytes_split hj]
      simp only [List.append_assoc]
    have hlen : (pre ++ header ++ groupBytes (ds.take j)).length = pre.length + 8 + j * 2 := by
      rw [List.length_append, List.length_append, groupBytes_length, List.length_take, hheader]
      omega
    have hlt := hd ds[j] (List.getElem_mem hj)
    have hmod : ((ds[j] : Int) % 256 ^ 2).toNat = ds[j] := by omega
    rw [hbytes, hlen, hmod] at hread
    rw [if_pos hi, Int.toNat_natCast, hread, digitAt_natCast, List.getD_eq_getElem?_getD,
      List.getElem?_eq_getElem hj, Option.getD_some]
  · rw [if_neg hi]
    unfold digitAt
    split
    · rw [List.getD_eq_getElem?_getD, List.getElem?_eq_none (by omega), Option.getD_none]
    · rfl

theorem readHeader (nd weight sign dscale : Int) (pre post : Bytes) :
    readBE 2 (pre ++ numericHeader nd weight sign dscale ++ post) pre.length =
      .ok (nd % 65536).toNat ∧
    readBE 2 (pre ++ numericHeader nd weight sign dscale ++ post) (pre.length + 2) =
      .ok (weight % 65536).toNat ∧
    readBE 2 (pre ++ numericHeader nd weight sign dscale ++ post) (pre.length + 4) =
      .ok (sign % 65536).toNat ∧
    readBE 2 (pre ++ numericHeader nd weight sign dscale ++ post) (pre.length + 6) =
      .ok (dscale % 65536).toNat := by
  have h1 := readBE_bigEndian 2 nd pre
    (bigEndian 2 weight ++ bigEndian 2 sign ++ bigEndian 2 dscale ++ post)
  have h2 := readBE_bigEndian 2 weight (pre ++ bigEndian 2 nd)
    (bigEndian 2 sign ++ bigEndian 2 dscale ++ post)
  have h3 := readBE_bigEndian 2 sign (pre ++ bigEndian 2 nd ++ bigEndian 2 weight)
    (bigEndian 2 dscale ++ post)
  have h4 := readBE_bigEndian 2 dscale
    (pre ++ bigEndian 2 nd ++ bigEndian 2 weight ++ bigEndian 2 sign) post
  simp only [List.length_append, bigEndian_length, List.append_assoc] at h1 h2 h3 h4
  simp only [numericHeader, List.append_assoc]
  exact ⟨h1, h2, h3, h4⟩

end Reading

/-! ### Groups of four digits -/

/-- The digits of `m` groups from place `z` on. -/
def groupsFrom (ds : List Nat) : Nat → Int → JsString
  | 0, _ => []
  | m + 1, z => group (digitAt ds z) ++ groupsFrom ds m (z + 1)

section Groups

variable {ds : List Nat} (hd : ∀ d ∈ ds, d < 10000)

include hd

theorem group_eq (z : Int) : group (digitAt ds z) = padded 4 (digitAt ds z) :=
  padStart_decimal 3 _ (digitAt_lt (by decide) hd z)

theorem groupsFrom_length : ∀ (m : Nat) (z : Int), (groupsFrom ds m z).length = 4 * m
  | 0, _ => rfl
  | m + 1, z => by
    rw [groupsFrom, group_eq hd, List.length_append, padded_length, groupsFrom_length m]
    omega

/-- They are the decimal digits of what the groups add to the number before them. -/
theorem groupsFrom_padded : ∀ (m : Nat) (z : Int), ∃ r < 10 ^ (4 * m),
    leading 10000 ds (z + m).toNat = leading 10000 ds z.toNat * 10 ^ (4 * m) + r ∧
    groupsFrom ds m z = padded (4 * m) r
  | 0, z => ⟨0, by simp, by simp, rfl⟩
  | m + 1, z => by
    obtain ⟨r, hr, hleading, hgroups⟩ := groupsFrom_padded m (z + 1)
    have hdigit := digitAt_lt (by decide) hd z
    have hwidth : 4 * (m + 1) = 4 + 4 * m := by omega
    have hplace : z + ((m + 1 : Nat) : Int) = z + 1 + m := by omega
    have hpow : (10 : Nat) ^ (4 + 4 * m) = 10000 * 10 ^ (4 * m) := by rw [Nat.pow_add]
    refine ⟨digitAt ds z * 10 ^ (4 * m) + r, ?_, ?_, ?_⟩
    · rw [hwidth, hpow]
      calc digitAt ds z * 10 ^ (4 * m) + r < digitAt ds z * 10 ^ (4 * m) + 10 ^ (4 * m) := by omega
        _ = (digitAt ds z + 1) * 10 ^ (4 * m) := by ring
        _ ≤ 10000 * 10 ^ (4 * m) := Nat.mul_le_mul_right _ hdigit
    · rw [hplace, hleading, leading_succ, hwidth, hpow]
      ring
    · rw [groupsFrom, hgroups, group_eq hd, hwidth, padded_append 4 _ _ _ hr]

/-! ### The loops -/

variable {b : Bytes} {o nd : Nat} (hread : ∀ i, readGroup b o nd i = .ok (digitAt ds i))

include hread

omit hd in
theorem wholeLoop_groups : ∀ (k i : Nat) (s : JsString), 0 < i →
    wholeLoop b o nd k i s = .ok (s ++ groupsFrom ds k i)
  | 0, _, s, _ => by rw [wholeLoop, groupsFrom, List.append_nil]
  | k + 1, i, s, hi => by
    rw [wholeLoop, hread, groupsFrom, ← List.append_assoc]
    show wholeLoop b o nd k (i + 1) (s ++ if i = 0 then _ else _) = _
    rw [if_neg (by omega)]
    exact wholeLoop_groups k (i + 1) _ (Nat.succ_pos i)

/-- The part before the point. -/
theorem wholeLoop_decimal {k : Nat} (hnormal : 1 < k → 0 < ds.getD 0 0) (s : JsString) :
    wholeLoop b o nd k 0 s = .ok (if k = 0 then s else s ++ decimal (leading 10000 ds k)) := by
  cases k with
  | zero => rfl
  | succ k =>
    rw [wholeLoop, hread, if_neg (Nat.succ_ne_zero k)]
    show wholeLoop b o nd k 1 (s ++ if (0 : Nat) = 0 then _ else _) = _
    rw [if_pos rfl, wholeLoop_groups hread k 1 _ (by decide), List.append_assoc]
    obtain ⟨r, hr, hleading, hgroups⟩ := groupsFrom_padded hd k 1
    have hfirst : leading 10000 ds (Int.toNat 1) = ds.getD 0 0 := by
      show leading 10000 ds 0 * 10000 + _ = _
      rw [leading, Nat.zero_mul, Nat.zero_add]
    have hplace : ((1 : Int) + k).toNat = k + 1 := by omega
    have hzero : digitAt ds (0 : Nat) = ds.getD 0 0 := digitAt_natCast 0
    rw [hfirst, hplace] at hleading
    rw [hzero, hleading]
    show Except.ok (s ++ (_ ++ groupsFrom ds k 1)) = _
    rw [hgroups]
    cases k with
    | zero =>
      have h0 : r = 0 := by omega
      rw [h0, Nat.mul_zero, Nat.pow_zero, Nat.mul_one]
      exact congrArg Except.ok (congrArg (s ++ ·) (List.append_nil _))
    | succ k => rw [decimal_append (hnormal (by omega)) _ r hr]

theorem fracLoop_groups (weight : Int) (dscale : Nat) : ∀ (k g : Nat) (frac : JsString),
    frac.length = 4 * g → (dscale + 3) / 4 ≤ g + k →
      fracLoop b o nd weight dscale k g frac =
        .ok (frac ++ groupsFrom ds ((dscale + 3) / 4 - g) (weight + 1 + g))
  | 0, g, frac, _, hk => by
    have hdone : (dscale + 3) / 4 - g = 0 := by omega
    rw [fracLoop, hdone, groupsFrom, List.append_nil]
  | k + 1, g, frac, hlen, hk => by
    rw [fracLoop, hlen]
    by_cases hmore : 4 * g < dscale
    · have hturn : (dscale + 3) / 4 - g = (dscale + 3) / 4 - (g + 1) + 1 := by omega
      have hnext : (frac ++ group (digitAt ds (weight + 1 + g))).length = 4 * (g + 1) := by
        rw [List.length_append, hlen, group_eq hd, padded_length]
        omega
      have hplace : weight + 1 + (g : Int) + 1 = weight + 1 + ((g + 1 : Nat) : Int) := by omega
      rw [if_pos hmore, hread, hturn, groupsFrom, hplace, ← List.append_assoc]
      exact fracLoop_groups weight dscale k (g + 1) _ hnext (by omega)
    · have hdone : (dscale + 3) / 4 - g = 0 := by omega
      rw [if_neg hmore, hdone, groupsFrom, List.append_nil]

end Groups

/-! ### The digits are those of the number -/

/-- All the groups that are read make the number in units of its last fraction digit, up to the
zeros that fill the last group. -/
theorem FiniteNumeric.leading_units (n : FiniteNumeric) {k q : Nat} (hk : 4 * k = n.dscale + q) :
    leading 10000 n.digits (n.weight + 1 + k).toNat = n.units * 10 ^ q := by
  have hexact := n.exact
  unfold magnitude at hexact
  have hpow : (10000 : Nat) ^ k = 10 ^ n.dscale * 10 ^ q := by
    rw [← Nat.pow_add, ← hk, Nat.pow_mul]
  have hpowQ : (10000 : ℚ) ^ k = 10 ^ n.dscale * 10 ^ q := by exact_mod_cast hpow
  by_cases hlong : (n.digits.length : Int) ≤ n.weight + 1 + k
  · obtain ⟨m, hm⟩ := Int.eq_ofNat_of_zero_le (Int.sub_nonneg.mpr hlong)
    have hplace : (n.weight + 1 + k).toNat = n.digits.length + m := by omega
    have hexp : n.weight + 1 - (n.digits.length : Int) = (m : Int) - k := by omega
    rw [hexp, zpow_sub₀ (by norm_num), zpow_natCast, zpow_natCast] at hexact
    rw [hplace, leading_beyond _ _ (Nat.le_refl _)]
    have hq : (leading 10000 n.digits n.digits.length : ℚ) * 10000 ^ m = n.units * 10 ^ q := by
      have hne : (10 : ℚ) ^ n.dscale ≠ 0 := by positivity
      have hne' : (10 : ℚ) ^ q ≠ 0 := by positivity
      rw [hpowQ] at hexact
      field_simp at hexact
      rw [hexact, mul_comm]
    exact_mod_cast hq
  · obtain ⟨m, hm⟩ := Int.eq_ofNat_of_zero_le (Int.sub_nonneg.mpr (Int.le_of_not_le hlong))
    obtain ⟨r, hr, hleading⟩ := leading_add (by decide) n.digit_lt (n.weight + 1 + k) m
    have hplace : (n.weight + 1 + k + m).toNat = n.digits.length := by omega
    have hexp : n.weight + 1 - (n.digits.length : Int) = -((k + m : Nat) : Int) := by omega
    rw [hplace] at hleading
    rw [hexp, zpow_neg, zpow_natCast, pow_add, hpowQ] at hexact
    have hq : (leading 10000 n.digits n.digits.length : ℚ) = n.units * 10 ^ q * 10000 ^ m := by
      have hne : (10 : ℚ) ^ n.dscale ≠ 0 := by positivity
      field_simp at hexact
      rw [hexact]
      ring
    have hnat : leading 10000 n.digits n.digits.length = n.units * 10 ^ q * 10000 ^ m := by
      exact_mod_cast hq
    rw [hleading] at hnat
    have hpos : 0 < 10000 ^ m := Nat.pow_pos (by decide)
    have hdiv := congrArg (· / 10000 ^ m) hnat
    simp only [Nat.mul_comm _ (10000 ^ m), Nat.mul_div_cancel_left _ hpos,
      Nat.mul_add_div hpos, Nat.div_eq_of_lt hr, Nat.add_zero] at hdiv
    exact hdiv

/-- The digits before the point, and those behind it. -/
theorem FiniteNumeric.split (n : FiniteNumeric) :
    decimal (leading 10000 n.digits (n.weight + 1).toNat) = decimal (n.units / 10 ^ n.dscale) ∧
    (groupsFrom n.digits ((n.dscale + 3) / 4) (n.weight + 1)).take n.dscale =
      padded n.dscale (n.units % 10 ^ n.dscale : Nat) := by
  obtain ⟨q, hq⟩ : ∃ q, 4 * ((n.dscale + 3) / 4) = n.dscale + q :=
    ⟨4 * ((n.dscale + 3) / 4) - n.dscale, by omega⟩
  obtain ⟨r, hr, hleading, hgroups⟩ :=
    groupsFrom_padded n.digit_lt ((n.dscale + 3) / 4) (n.weight + 1)
  rw [n.leading_units hq, hq, Nat.pow_add] at hleading
  have hpos : 0 < 10 ^ q := Nat.pow_pos (by decide)
  have hfraction : r / 10 ^ q < 10 ^ n.dscale := by
    rw [hq, Nat.pow_add] at hr
    exact Nat.div_lt_of_lt_mul (by rwa [Nat.mul_comm] at hr)
  have hunits : n.units = leading 10000 n.digits (n.weight + 1).toNat * 10 ^ n.dscale +
      r / 10 ^ q := by
    have hdiv := congrArg (· / 10 ^ q) hleading
    have hcomm : leading 10000 n.digits (n.weight + 1).toNat * (10 ^ n.dscale * 10 ^ q) + r =
        10 ^ q * (leading 10000 n.digits (n.weight + 1).toNat * 10 ^ n.dscale) + r := by ring
    simp only [Nat.mul_div_cancel _ hpos] at hdiv
    rw [hdiv, hcomm, Nat.mul_add_div hpos]
  have hscale : 0 < 10 ^ n.dscale := Nat.pow_pos (by decide)
  constructor
  · rw [hunits, Nat.mul_comm, Nat.mul_add_div hscale, Nat.div_eq_of_lt hfraction, Nat.add_zero]
  · rw [hgroups, hq, padded_take, hunits, Nat.mul_comm, Nat.mul_add_mod,
      Nat.mod_eq_of_lt hfraction]

/-! ### The text -/

theorem numericString_special (s : Special) (weight dscale : Int) (pre post : Bytes) :
    numericString (pre ++ (Numeric.special s weight dscale).payload ++ post) pre.length =
      .ok (Numeric.special s weight dscale).text := by
  obtain ⟨h1, h2, h3, h4⟩ := readHeader 0 weight s.code dscale pre post
  unfold numericString Numeric.payload
  rw [h1, h2, h3, h4]
  cases s <;> rfl

/-- The part before the point, in each of its branches. -/
theorem wholePart_decimal (n : FiniteNumeric) {b : Bytes} {o : Nat}
    (hread : ∀ i, readGroup b o n.digits.length i = .ok (digitAt n.digits i)) (s : JsString) :
    wholePart b o n.digits.length n.weight s = .ok (s ++ decimal (n.units / 10 ^ n.dscale)) := by
  have hwhole := n.split.1
  unfold wholePart
  by_cases hneg : n.weight < 0
  · have hplace : (n.weight + 1).toNat = 0 := by omega
    rw [hplace, leading] at hwhole
    rw [if_pos (.inl hneg), ← hwhole]
    rfl
  by_cases hempty : n.digits.length = 0
  · have hzero := @leading_beyond 10000 n.digits 0 (n.weight + 1).toNat (Nat.le_of_eq hempty)
    rw [Nat.zero_add, leading, Nat.zero_mul] at hzero
    rw [hzero] at hwhole
    rw [if_pos (.inr hempty), ← hwhole]
    rfl
  · have hnormal : 1 < (n.weight + 1).toNat → 0 < n.digits.getD 0 0 := by
      intro hseveral
      have hhead := n.normal (by omega)
      cases hdigits : n.digits with
      | nil => exact absurd (congrArg List.length hdigits) hempty
      | cons d ds =>
        rw [hdigits] at hhead
        exact Nat.pos_of_ne_zero fun h0 => hhead (congrArg some h0)
    rw [if_neg (not_or.mpr ⟨hneg, hempty⟩), wholeLoop_decimal n.digit_lt hread hnormal,
      if_neg (by omega), hwhole]

theorem numericString_finite (n : FiniteNumeric) (pre post : Bytes) :
    numericString (pre ++ (Numeric.finite n).payload ++ post) pre.length =
      .ok (Numeric.finite n).text := by
  have hcount := n.length_lt
  have hdigits := n.dscale_lt
  obtain ⟨hlo, hhi⟩ := n.weight_bounds
  have hread : ∀ i, readGroup (pre ++ (Numeric.finite n).payload ++ post) pre.length
      n.digits.length i = .ok (digitAt n.digits i) :=
    readGroup_payload n.digit_lt rfl pre post
  obtain ⟨h1, h2, h3, h4⟩ := readHeader n.digits.length n.weight
    (if n.negative then 0x4000 else 0) n.dscale pre (groupBytes n.digits ++ post)
  have hbytes : pre ++ (Numeric.finite n).payload ++ post = pre ++ numericHeader n.digits.length
      n.weight (if n.negative then 0x4000 else 0) n.dscale ++ (groupBytes n.digits ++ post) := by
    simp only [Numeric.payload, List.append_assoc]
  have hnd : ((n.digits.length : Int) % 65536).toNat = n.digits.length := by omega
  have hweight : signed 16 (n.weight % 65536).toNat = n.weight :=
    @signed_emod 16 (by decide) n.weight hlo hhi
  have hdscale : ((n.dscale : Int) % 65536).toNat = n.dscale := by omega
  have hsign : ∀ c : Nat, 0x8000 ≤ c →
      ¬((if n.negative then (0x4000 : Int) else 0) % 65536).toNat = c := by
    intro c hc
    cases n.negative <;> simp <;> omega
  have hminus : (if ((if n.negative then (0x4000 : Int) else 0) % 65536).toNat = 0x4000 then
      ascii "-" else []) = if n.negative then ascii "-" else [] := by
    cases n.negative <;> rfl
  have hfrac := fracLoop_groups n.digit_lt hread n.weight n.dscale n.dscale 0 [] rfl (by omega)
  unfold numericString
  rw [hbytes, h1, h2, h3, h4, ← hbytes]
  dsimp only [Bind.bind, Except.bind]
  rw [if_neg (hsign _ (by decide)), if_neg (hsign _ (by decide)), if_neg (hsign _ (by decide)),
    hnd, hweight, hdscale, hminus]
  rw [wholePart_decimal n hread, hfrac]
  have htext : (Numeric.finite n).text = (if n.negative then ascii "-" else []) ++
      (decimal (n.units / 10 ^ n.dscale) ++ if n.dscale = 0 then []
        else ascii "." ++ padded n.dscale (n.units % 10 ^ n.dscale : Nat)) := rfl
  have hzero : n.weight + 1 + ((0 : Nat) : Int) = n.weight + 1 := Int.add_zero _
  rw [List.nil_append, Nat.sub_zero, hzero, htext]
  by_cases hd : 0 < n.dscale
  · show (if 0 < n.dscale then _ else _) = _
    rw [if_pos hd, if_neg (Nat.ne_of_gt hd)]
    show Except.ok (_ ++ List.take n.dscale (groupsFrom _ _ _)) = _
    rw [n.split.2, List.append_assoc, List.append_assoc]
  · show (if 0 < n.dscale then _ else _) = _
    rw [if_neg hd, if_pos (show n.dscale = 0 by omega), List.append_nil]
    rfl

theorem numericString_text (n : Numeric) (pre post : Bytes) :
    numericString (pre ++ n.payload ++ post) pre.length = .ok n.text := by
  cases n with
  | finite n => exact numericString_finite n pre post
  | special s weight dscale => exact numericString_special s weight dscale pre post

/-- What a numeric column of this target makes of a text. -/
def numericOf (rt : Runtime) (js : Option String) (text : JsString) : Except JsError Value :=
  if js = some "bigint" then rt.bigint text
  else if js = some "number" then .ok (.number (rt.number text))
  else .ok (.string text)

theorem replNumericLeaf_eq (rt : Runtime) (js : Option String) (b : Bytes) (o l : Nat) :
    replNumericLeaf rt js b o l = (numericString b o).bind (numericOf rt js) := by
  unfold replNumericLeaf numericOf binNumericStr
  by_cases hbigint : js = some "bigint"
  · simp only [if_pos hbigint]
  by_cases hnumber : js = some "number"
  · simp only [if_neg hbigint, if_pos hnumber]
    cases numericString b o <;> rfl
  · simp only [if_neg hbigint, if_neg hnumber]
    cases numericString b o <;> rfl

/-- **A binary numeric decodes to the text that the server prints**: wherever the payload lies, the
number in decimal digits with exactly `dscale` of them behind the point, or the name of a special
value; a target is made of that text. -/
theorem binNumericStr_text (n : Numeric) (pre post : Bytes) (l : Nat) :
    binNumericStr (pre ++ n.payload ++ post) pre.length l = .ok (.string n.text) ∧
    ∀ rt js, replNumericLeaf rt js (pre ++ n.payload ++ post) pre.length l =
      numericOf rt js n.text := by
  have hstring := numericString_text n pre post
  refine ⟨?_, fun rt js => ?_⟩
  · unfold binNumericStr
    rw [hstring]
    rfl
  · rw [replNumericLeaf_eq, hstring]
    rfl

example : numericString (numericHeader 3 1 0x4000 3 ++ groupBytes [1, 2345, 6780]) 0 =
    .ok (ascii "-12345.678") := by
  decide +kernel

end Minipg.Cells
