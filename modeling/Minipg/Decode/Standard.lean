import Minipg.Decode.Cells
import Minipg.Js.Calendar
import Minipg.Js.Utf8
import Mathlib.Data.Nat.Digits.Lemmas

/-!
# The arithmetic of the language

`Runtime.standard` takes the arithmetic of doubles, `Number`, `BigInt`, `Date` and the hexadecimal
bytes from their definitions; of `Number` and `BigInt` only what is written in decimal digits is
defined, of `utf8` the bytes of well-formed strings, and the rest is left to the runtime.
-/

namespace Minipg.Cells

open Js

def isDigit (u : UInt16) : Bool := 48 ≤ u.toNat ∧ u.toNat ≤ 57

/-- The number that digits continue. -/
def readDecimal (n : Nat) (ds : List Nat) : Nat := ds.foldl (fun n d => n * 10 + d) n

def digitValues (s : JsString) : List Nat := s.map fun u => u.toNat - 48

/-- A decimal literal: its sign, its digits and their exponent. -/
structure Decimal where
  neg : Bool
  digits : Nat
  exp : Int

/-- The double that is nearest to the literal. -/
def Decimal.toDouble (d : Decimal) : Double := .round d.neg (d.digits * 10 ^ d.exp)

/-- `-`, `+` or nothing. -/
def takeSign : JsString → Bool × JsString
  | 45 :: s => (true, s)
  | 43 :: s => (false, s)
  | s => (false, s)

def exponentPart : JsString → Option Int
  | [] => some 0
  | u :: s =>
    let (neg, ds) := takeSign s
    if (u = 101 ∨ u = 69) ∧ ds ≠ [] ∧ ds.all isDigit then
      let n : Int := readDecimal 0 (digitValues ds)
      some (if neg then -n else n)
    else none

/-- The digits behind a point. -/
def fractionPart : JsString → JsString × JsString
  | 46 :: s => s.span isDigit
  | s => ([], s)

/-- `StrDecimalLiteral` without `Infinity`. -/
def decimal? (s : JsString) : Option Decimal :=
  let (neg, s) := takeSign s
  let (whole, s) := s.span isDigit
  let (fraction, s) := fractionPart s
  if whole = [] ∧ fraction = [] then none
  else (exponentPart s).map fun e =>
    ⟨neg, readDecimal 0 (digitValues (whole ++ fraction)), e - fraction.length⟩

/-- An integer in decimal digits. -/
def decimalInt? (s : JsString) : Option Int :=
  let (neg, ds) := match s with
    | 45 :: s => (true, s)
    | s => (false, s)
  if ds ≠ [] ∧ ds.all isDigit then
    let n : Int := readDecimal 0 (digitValues ds)
    some (if neg then -n else n)
  else none

def hexValue (u : UInt16) : Option Nat :=
  if 48 ≤ u.toNat ∧ u.toNat ≤ 57 then some (u.toNat - 48)
  else if 97 ≤ u.toNat ∧ u.toNat ≤ 102 then some (u.toNat - 87)
  else if 65 ≤ u.toNat ∧ u.toNat ≤ 70 then some (u.toNat - 55)
  else none

/-- `Buffer.from(s, 'hex')`, which ends where a pair of digits does. -/
def hexBytes : JsString → Bytes
  | u :: v :: s =>
    match hexValue u, hexValue v with
    | some h, some l => UInt8.ofNat (h * 16 + l) :: hexBytes s
    | _, _ => []
  | _ => []

/-- `POW10[x]`. -/
def pow10 (x : Double) : Double :=
  match x.integer? with
  | some n => if 0 ≤ n ∧ n ≤ 22 then .ofInt (10 ^ n.toNat) else .nan
  | none => .nan

def Runtime.standard (rt : Runtime) : Runtime :=
  { rt with
    int := Double.ofInt
    nan := Double.nan
    infinity := Double.infinity false
    neg := Double.neg
    add := Double.add
    sub := Double.sub
    mul := Double.mul
    div := Double.div
    floor := Double.floor
    isZero := Double.isZero
    lt := Double.lt
    le := Double.le
    pow10 := Cells.pow10
    number := fun s => ((decimal? s).map Decimal.toDouble).getD (rt.number s)
    bigint := fun s => match decimalInt? s with
      | some n => .ok (.bigint n)
      | none => rt.bigint s
    newDate := Js.newDate
    utc := dateUtc
    utf8 := fun b => (utf8Decode b).getD (rt.utf8 b)
    hexBytes := Cells.hexBytes }

/-! ### Microseconds -/

/-- What `binTimestampMs` computes of the two halves of a timestamp, in this order. -/
structure MicrosSteps where
  hi : Double
  lo : Double
  /-- `hi * 4294967` -/
  high : Double
  /-- `hi * 296` -/
  small : Double
  /-- `hi * 296 + lo` -/
  sum : Double
  /-- `(hi * 296 + lo) / 1000` -/
  quotient : Double
  floored : Double
  /-- `hi * 4294967 + Math.floor((hi * 296 + lo) / 1000)` -/
  joined : Double
  result : Double
  deriving DecidableEq

def microsSteps (hi lo : Double) : MicrosSteps :=
  let high := hi.mul (.ofInt 4294967)
  let small := hi.mul (.ofInt 296)
  let sum := small.add lo
  let quotient := sum.div (.ofInt 1000)
  let floored := quotient.floor
  let joined := high.add floored
  { hi := hi
    lo := lo
    high := high
    small := small
    sum := sum
    quotient := quotient
    floored := floored
    joined := joined
    result := joined.add (.ofInt pgEpochMs) }

theorem binTimestampMs_steps (rt : Runtime) (b : Bytes) (o : Nat) :
    binTimestampMs rt.standard b o =
      (microsSteps (hi rt.standard b o) (lo rt.standard b o)).result := rfl

/-- The steps of the halves `h` and `l` as they are without any rounding, but for the quotient. -/
def exactSteps (h l : Int) : MicrosSteps where
  hi := .ofInt h
  lo := .ofInt l
  high := .ofInt (h * 4294967)
  small := .ofInt (h * 296)
  sum := .ofInt (h * 296 + l)
  quotient := .round (h * 296 + l < 0) ((h * 296 + l : Int) / 1000)
  floored := .ofInt ((h * 296 + l) / 1000)
  joined := .ofInt (h * 4294967 + (h * 296 + l) / 1000)
  result := .ofInt (h * 4294967 + (h * 296 + l) / 1000 + pgEpochMs)

/-- **Nothing is rounded on the way**, as long as the instant is near to those that a `Date` can
hold. -/
theorem microsSteps_eq {h l : Int} (hh : -2095476000 ≤ h ∧ h ≤ 2095476000)
    (hl : 0 ≤ l ∧ l < 4294967296) : microsSteps (.ofInt h) (.ofInt l) = exactSteps h l := by
  have hproducts : ∀ k : Int, 0 < k → h * k ≠ 0 ∨ 0 ≤ h ∧ 0 ≤ k := by
    intro k hk
    by_cases h0 : h = 0
    · right
      omega
    · exact .inl (Int.mul_ne_zero h0 (by omega))
  have hhigh := Double.mul_ofInt (a := h) (b := 4294967) ⟨by omega, by omega⟩ (by decide)
    (hproducts 4294967 (by decide))
  have hsmall := Double.mul_ofInt (a := h) (b := 296) ⟨by omega, by omega⟩ (by decide)
    (hproducts 296 (by decide))
  have hadd := Double.add_ofInt (a := h * 296) (b := l) ⟨by omega, by omega⟩ ⟨by omega, by omega⟩
  have hsum : Double.Safe (h * 296 + l) := ⟨by omega, by omega⟩
  have hquot := Double.div_ofInt hsum (d := 1000) (by decide) (by decide)
  rw [Int.cast_ofNat] at hquot
  have hfloor := Double.floor_div hsum (d := 1000) (by decide) (by decide)
  have hjoined := Double.add_ofInt (a := h * 4294967) (b := (h * 296 + l) / 1000)
    ⟨by omega, by omega⟩ ⟨by omega, by omega⟩
  have hresult := Double.add_ofInt (a := h * 4294967 + (h * 296 + l) / 1000) (b := pgEpochMs)
    ⟨by omega, by omega⟩ (by decide)
  unfold microsSteps exactSteps
  dsimp only
  rw [hhigh, hsmall, hadd, hfloor, hquot, hjoined, hresult]

/-- The two halves of a timestamp add up to its milliseconds, rounded down. -/
theorem binTimestampMs_eq (rt : Runtime) {b : Bytes} {o : Nat} {v : Int}
    (hhi : signed 32 (word b o) = v / 4294967296) (hlo : (word b (o + 4) : Int) = v % 4294967296)
    (hv : -9000000000000000000 ≤ v ∧ v ≤ 9000000000000000000) :
    binTimestampMs rt.standard b o = .ofInt (v / 1000 + pgEpochMs) := by
  have hquot : v / 1000 =
      v / 4294967296 * 4294967 + (v / 4294967296 * 296 + v % 4294967296) / 1000 := by
    omega
  have hsteps := microsSteps_eq (h := v / 4294967296) (l := v % 4294967296) (by omega) (by omega)
  rw [binTimestampMs_steps]
  show (microsSteps (.ofInt (signed 32 (word b o))) (.ofInt (word b (o + 4)))).result = _
  rw [hhi, hlo, hsteps, hquot]
  rfl

end Minipg.Cells
