import Mathlib.Algebra.Group.Int.Defs
import Mathlib.Algebra.Group.Nat.Defs
import Mathlib.Data.Int.Basic
import Mathlib.Data.List.Basic

/-!
# Values of JavaScript

The values that a caller can bind, with what the encoders ask of the language: strings are UTF-16
code units, numbers are IEEE doubles, a `Date` is its time value.  An `Engine` says how numbers are
printed and what `JSON.stringify` does; nothing is assumed of it.
-/

namespace Minipg.Js

abbrev JsString := List UInt16

instance : LawfulBEq JsString := inferInstance

/-- Characters below U+0080. -/
def ascii (s : String) : JsString := s.toList.map fun c => UInt16.ofNat c.toNat

/-- The low byte. -/
def byteOf (n : Nat) : UInt8 := UInt8.ofNat n

/-- `latin1`, the low byte of each code unit. -/
def latin1 (s : JsString) : List UInt8 := s.map fun u => byteOf u.toNat

def isHigh (u : UInt16) : Bool := 0xd800 ≤ u.toNat ∧ u.toNat ≤ 0xdbff

def isLow (u : UInt16) : Bool := 0xdc00 ≤ u.toNat ∧ u.toNat ≤ 0xdfff

/-- A code point of the basic plane. -/
def utf8Unit (c : Nat) : List UInt8 :=
  if c < 0x80 then [byteOf c]
  else if c < 0x800 then [byteOf (0xc0 + c / 64), byteOf (0x80 + c % 64)]
  else [byteOf (0xe0 + c / 4096), byteOf (0x80 + c / 64 % 64), byteOf (0x80 + c % 64)]

def utf8Pair (u v : UInt16) : List UInt8 :=
  let c := 0x10000 + (u.toNat - 0xd800) * 1024 + (v.toNat - 0xdc00)
  [byteOf (0xf0 + c / 262144), byteOf (0x80 + c / 4096 % 64), byteOf (0x80 + c / 64 % 64),
    byteOf (0x80 + c % 64)]

/-- `utf8`, with U+FFFD for a surrogate that stands alone. -/
def utf8 : JsString → List UInt8
  | [] => []
  | [u] => if isHigh u || isLow u then utf8Unit 0xfffd else utf8Unit u.toNat
  | u :: v :: rest =>
    if isHigh u && isLow v then utf8Pair u v ++ utf8 rest
    else (if isHigh u || isLow u then utf8Unit 0xfffd else utf8Unit u.toNat) ++ utf8 (v :: rest)

/-! ### Numbers -/

/-- The bits of an IEEE double. -/
abbrev Double := BitVec 64

namespace Double

def negative (x : Double) : Bool := x.toNat / 2 ^ 63 = 1

def exponent (x : Double) : Nat := x.toNat / 2 ^ 52 % 2 ^ 11

def fraction (x : Double) : Nat := x.toNat % 2 ^ 52

/-- The value is `significand * 2 ^ (scale - 1074)`. -/
def significand (x : Double) : Nat := if x.exponent = 0 then x.fraction else 2 ^ 52 + x.fraction

def scale (x : Double) : Nat := x.exponent - 1

/-- The value, when it is an integer. -/
def integer? (x : Double) : Option Int :=
  if x.exponent = 2047 then none
  else if 1074 ≤ x.scale then
    let n : Int := x.significand * 2 ^ (x.scale - 1074)
    some (if x.negative then -n else n)
  else if x.significand % 2 ^ (1074 - x.scale) = 0 then
    let n : Int := x.significand / 2 ^ (1074 - x.scale)
    some (if x.negative then -n else n)
  else none

/-- `Number.isSafeInteger`, with the value. -/
def safeInteger? (x : Double) : Option Int :=
  x.integer?.filter fun n => -9007199254740991 ≤ n ∧ n ≤ 9007199254740991

/-- Every finite number is a multiple of `1 / unit`. -/
@[irreducible] def unit : Nat := 2 ^ 1074

def scaled (x : Double) : Int :=
  let n : Int := (x.significand * 2 ^ x.scale : Nat)
  if x.negative then -n else n

/-- `x < lo || x > hi`, which does not hold of NaN. -/
def outside (lo hi : Int) (x : Double) : Bool :=
  if x.exponent = 2047 then x.fraction = 0
  else x.scaled < lo * unit ∨ hi * unit < x.scaled

/-- The integer that is stored into an element of a buffer, before the modulo. -/
def trunc (x : Double) : Int := if x.exponent = 2047 then 0 else x.scaled.tdiv unit

theorem unit_pos : (0 : Int) < unit := by
  unfold unit
  exact Int.natCast_pos.mpr (Nat.two_pow_pos 1074)

theorem scaled_eq {x : Double} {m k : Nat} (h : x.significand * 2 ^ x.scale = m * k) :
    x.scaled = (if x.negative then -(m : Int) else m) * k := by
  unfold scaled
  rw [h]
  push_cast
  split
  · rw [Int.neg_mul]
  · rfl

theorem mul_unit_inj {a b : Int} : a * unit = b * unit ↔ a = b :=
  Int.mul_eq_mul_right_iff (Int.ne_of_gt unit_pos)

theorem integer?_eq_some {x : Double} {n : Int} :
    x.integer? = some n ↔ x.exponent ≠ 2047 ∧ x.scaled = n * unit := by
  unfold integer?
  by_cases hx : x.exponent = 2047
  · rw [if_pos hx]
    exact ⟨fun h => (nomatch h), fun h => absurd hx h.1⟩
  rw [if_neg hx]
  by_cases hs : 1074 ≤ x.scale
  · rw [if_pos hs]
    have hpow : x.significand * 2 ^ x.scale = x.significand * 2 ^ (x.scale - 1074) * unit := by
      have hle : 2 ^ (x.scale - 1074) * unit = 2 ^ x.scale := by
        have hle := Nat.pow_sub_mul_pow 2 hs
        unfold unit
        exact hle
      rw [Nat.mul_assoc, hle]
    rw [scaled_eq hpow, mul_unit_inj, Option.some.injEq]
    push_cast
    exact ⟨fun h => ⟨hx, h⟩, fun h => h.2⟩
  · rw [if_neg hs]
    have hunit : unit = 2 ^ x.scale * 2 ^ (1074 - x.scale) := by
      have hle : x.scale ≤ 1074 := Nat.le_of_lt (Nat.not_le.mp hs)
      unfold unit
      rw [← Nat.pow_add, Nat.add_sub_cancel' hle]
    have hdvd : unit ∣ x.significand * 2 ^ x.scale ↔
        x.significand % 2 ^ (1074 - x.scale) = 0 := by
      rw [hunit, Nat.mul_comm x.significand, Nat.mul_dvd_mul_iff_left (Nat.two_pow_pos _)]
      exact ⟨Nat.mod_eq_zero_of_dvd, Nat.dvd_of_mod_eq_zero⟩
    by_cases hm : x.significand % 2 ^ (1074 - x.scale) = 0
    · rw [if_pos hm]
      have hpow : x.significand * 2 ^ x.scale =
          x.significand / 2 ^ (1074 - x.scale) * unit := by
        rw [hunit, Nat.mul_comm (2 ^ x.scale), ← Nat.mul_assoc,
          Nat.div_mul_cancel (Nat.dvd_of_mod_eq_zero hm)]
      rw [scaled_eq hpow, mul_unit_inj, Option.some.injEq]
      push_cast
      exact ⟨fun h => ⟨hx, h⟩, fun h => h.2⟩
    · rw [if_neg hm]
      refine ⟨fun h => (nomatch h), fun h => absurd ?_ hm⟩
      have habs : ((x.significand * 2 ^ x.scale : Nat) : Int).natAbs = x.scaled.natAbs := by
        unfold scaled
        split
        · exact (Int.natAbs_neg _).symm
        · rfl
      rw [← hdvd]
      rw [Int.natAbs_natCast, h.2, Int.natAbs_mul, Int.natAbs_natCast] at habs
      exact ⟨n.natAbs, by rw [habs, Nat.mul_comm]⟩

theorem trunc_of_integer {x : Double} {n : Int} (h : x.integer? = some n) : x.trunc = n := by
  obtain ⟨hx, hn⟩ := integer?_eq_some.mp h
  unfold trunc
  rw [if_neg hx, hn]
  exact Int.mul_tdiv_cancel n (Int.ne_of_gt unit_pos)

/-- An integer that is not outside a range is in it. -/
theorem between_of_integer {x : Double} {lo hi n : Int} (h : x.integer? = some n)
    (ho : x.outside lo hi = false) : lo ≤ n ∧ n ≤ hi := by
  obtain ⟨hx, hn⟩ := integer?_eq_some.mp h
  unfold outside at ho
  rw [if_neg hx, hn] at ho
  simp only [decide_eq_false_iff_not, not_or, Int.not_lt] at ho
  exact ⟨Int.le_of_mul_le_mul_right ho.1 unit_pos, Int.le_of_mul_le_mul_right ho.2 unit_pos⟩

end Double

/-! ### Dates -/

/-- The fields of a time value, in UTC. -/
structure Utc where
  year : Int
  month : Int
  date : Int
  hours : Int
  minutes : Int
  seconds : Int
  ms : Int
  deriving DecidableEq, Repr

/-- The proleptic Gregorian date of a day since 1970-01-01. -/
def civil (day : Int) : Int × Int × Int :=
  let z := day + 719468
  let era := z / 146097
  let doe := z % 146097
  let yoe := (doe - doe / 1460 + doe / 36524 - doe / 146096) / 365
  let doy := doe - (365 * yoe + yoe / 4 - yoe / 100)
  let mp := (5 * doy + 2) / 153
  let month := if mp < 10 then mp + 3 else mp - 9
  (yoe + era * 400 + (if month ≤ 2 then 1 else 0), month, doy - (153 * mp + 2) / 5 + 1)

def utcOf (t : Int) : Utc :=
  let (year, month, date) := civil (t / 86400000)
  let ms := t % 86400000
  ⟨year, month, date, ms / 3600000, ms / 60000 % 60, ms / 1000 % 60, ms % 1000⟩

/-- `width` decimal digits. -/
def padded : Nat → Int → JsString
  | 0, _ => []
  | width + 1, n => padded width (n / 10) ++ [UInt16.ofNat (48 + (n % 10).toNat)]

/-- `Date.prototype.toISOString` of a valid time value. -/
def isoString (t : Int) : JsString :=
  let f := utcOf t
  let year :=
    if 0 ≤ f.year ∧ f.year ≤ 9999 then padded 4 f.year
    else ascii (if f.year < 0 then "-" else "+") ++ padded 6 f.year.natAbs
  year ++ ascii "-" ++ padded 2 f.month ++ ascii "-" ++ padded 2 f.date ++ ascii "T" ++
    padded 2 f.hours ++ ascii ":" ++ padded 2 f.minutes ++ ascii ":" ++ padded 2 f.seconds ++
    ascii "." ++ padded 3 f.ms ++ ascii "Z"

/-! ### Values -/

/-- What is thrown. -/
inductive JsError
  | error (message : String)
  | rangeError
  | typeError
  | other (n : Nat)
  deriving DecidableEq, Repr

/-- A time value; a `Date` cannot hold one that lies further away. -/
structure Time where
  ms : Int
  clipped : -8640000000000000 ≤ ms ∧ ms ≤ 8640000000000000
  deriving DecidableEq, Repr

/-- `other` are symbols and functions, `object` those that are no `Date`, `Buffer` or array. -/
inductive Value
  | undefined
  | null
  | boolean (b : Bool)
  | number (x : Double)
  | bigint (n : Int)
  | string (s : JsString)
  | date (time : Option Time)
  | buffer (bytes : List UInt8)
  | array (elements : List Value)
  | object (id : Nat)
  | other (id : Nat)

structure Engine where
  numberString : Double → JsString
  /-- `JSON.stringify`; `none` is `undefined`. -/
  stringify : Value → Except JsError (Option JsString)
  otherString : Nat → JsString
  /-- The bytes of an object that is a `Uint8Array`. -/
  uint8Array : Nat → Option (List UInt8)

/-- `x == null`. -/
def Value.isNullish : Value → Bool
  | .undefined | .null => true
  | _ => false

def bigintString (n : Int) : JsString := ascii (toString n)

/-- `String(x)` of a value that is no object. -/
def Engine.string (js : Engine) : Value → JsString
  | .undefined => ascii "undefined"
  | .null => ascii "null"
  | .boolean b => ascii (if b then "true" else "false")
  | .number x => js.numberString x
  | .bigint n => bigintString n
  | .string s => s
  | .other id => js.otherString id
  | .date _ | .buffer _ | .array _ | .object _ => []

def hasNul (s : JsString) : Bool := s.contains 0

/-- The blanks that `trim` and `parseInt` skip. -/
def isBlankUnit (u : UInt16) : Bool :=
  [0x09, 0x0a, 0x0b, 0x0c, 0x0d, 0x20, 0xa0, 0x1680, 0x2028, 0x2029, 0x202f, 0x205f, 0x3000,
    0xfeff].contains u || (0x2000 ≤ u.toNat && u.toNat ≤ 0x200a)

def trim (s : JsString) : JsString :=
  ((s.dropWhile isBlankUnit).reverse.dropWhile isBlankUnit).reverse

def hexDigit (n : Nat) : UInt16 := UInt16.ofNat (if n < 10 then 48 + n else 87 + n)

def hex (bytes : List UInt8) : JsString :=
  bytes.flatMap fun b => [hexDigit (b.toNat / 16), hexDigit (b.toNat % 16)]

end Minipg.Js
