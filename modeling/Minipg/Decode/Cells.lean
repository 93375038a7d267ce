import Minipg.Js

/-!
# Decoding a cell

A cell is `l` bytes of a row from the offset `o` on.  The decoders of `src/decode.ts` and
`src/temporal.ts` exist twice, as code that the compiled mapper inlines (`…FromBytes`,
`instantSnippet`) and as functions (`txt…`, `instantFromBytes`); where both are the same text, one
definition stands for it.  A `Runtime` is what they ask of the language: the arithmetic of doubles,
`Number`, `BigInt`, `JSON.parse`, `Date`.
-/

namespace Minipg.Cells

open Js

abbrev Bytes := List UInt8

abbrev Cell := Bytes → Nat → Nat → Except JsError Value

/-- A decoder of the whole of a buffer. -/
abbrev Decoder := Bytes → Except JsError Value

structure Runtime where
  int : Int → Double
  nan : Double
  infinity : Double
  neg : Double → Double
  add : Double → Double → Double
  sub : Double → Double → Double
  mul : Double → Double → Double
  div : Double → Double → Double
  floor : Double → Double
  fround : Double → Double
  isZero : Double → Bool
  /-- `x < y` -/
  lt : Double → Double → Bool
  /-- `x <= y` -/
  le : Double → Double → Bool
  /-- `POW10[x]` -/
  pow10 : Double → Double
  float32 : BitVec 32 → Double
  /-- `String(x)` -/
  text : Double → JsString
  /-- `Number(s)` -/
  number : JsString → Double
  /-- `BigInt(s)` -/
  bigint : JsString → Except JsError Value
  parseJson : JsString → Except JsError Value
  newDate : Double → Value
  /-- `Date.UTC(year, month, date, hours, minutes, seconds, ms)` -/
  utc : Double → Double → Double → Double → Double → Double → Double → Double
  utf8 : Bytes → JsString
  hexBytes : JsString → Bytes

def slice (b : Bytes) (o l : Nat) : Bytes := (b.drop o).take l

def latin1Slice (b : Bytes) (o l : Nat) : JsString :=
  (slice b o l).map fun c => UInt16.ofNat c.toNat

def Runtime.utf8Slice (rt : Runtime) (b : Bytes) (o l : Nat) : JsString := rt.utf8 (slice b o l)

/-! ### Numbers -/

section Numbers

variable (rt : Runtime)

/-- What `b[p]` is as a number; it is `NaN` past the end. -/
def byteAt (c : Option Nat) : Double :=
  match c with
  | some c => rt.int c
  | none => rt.nan

/-- `b[p] - 48`. -/
def digit (c : Option Nat) : Double := rt.sub (byteAt rt c) (rt.int 48)

/-- `c < 48 || c > 57`, which does not hold past the end. -/
def noDigit (c : Option Nat) : Bool :=
  match c with
  | some c => c < 48 || c > 57
  | none => false

/-- `x * 10 + (c - 48)`. -/
def shift (x : Double) (c : Option Nat) : Double := rt.add (rt.mul x (rt.int 10)) (digit rt c)

abbrev Chars := Nat → Option Nat

def chars (b : Bytes) : Chars := fun i => b[i]?.map UInt8.toNat

/-- The digits of an integer, `k` of them from `p` on. -/
def digitsLoop (c : Chars) : Nat → Nat → Double → Double
  | 0, _, x => x
  | k + 1, p, x => digitsLoop c k (p + 1) (shift rt x (c p))

/-- `intFromBytes`, the inlined code. -/
def intFromBytes (b : Bytes) (o l : Nat) : Double :=
  if l > 16 then rt.number (latin1Slice b o l)
  else
    let e := o + l
    let s := chars b o = some 45
    let p := if s then o + 1 else o
    let x := digitsLoop rt (chars b) (e - p) p (rt.int 0)
    if s then rt.neg x else x

structure Significand where
  p : Nat
  sig : Double
  nd : Nat := 0
  fd : Nat := 0
  dot : Bool := false
  hard : Bool := false

/-- The digits of a significand. -/
def sigLoop (c : Chars) : Nat → Significand → Significand
  | 0, s => s
  | k + 1, s =>
    if c s.p = some 46 then sigLoop c k { s with p := s.p + 1, dot := true }
    else if noDigit (c s.p) then s
    else if rt.isZero s.sig ∧ c s.p = some 48 then
      sigLoop c k { s with p := s.p + 1, fd := if s.dot then s.fd + 1 else s.fd }
    else if s.nd < 15 then
      sigLoop c k { s with
        p := s.p + 1
        sig := shift rt s.sig (c s.p)
        nd := s.nd + 1
        fd := if s.dot then s.fd + 1 else s.fd }
    else sigLoop c k { s with p := s.p + 1, hard := true }

def expLoop (c : Chars) : Nat → Nat → Double → Double
  | 0, _, x => x
  | k + 1, p, x => if noDigit (c p) then x else expLoop c k (p + 1) (shift rt x (c p))

/-- The exponent from `p` on, signed. -/
def exponent (c : Chars) (p e : Nat) : Double :=
  if c p = some 101 ∨ c p = some 69 then
    if c (p + 1) = some 45 then rt.neg (expLoop rt c (e - (p + 2)) (p + 2) (rt.int 0))
    else if c (p + 1) = some 43 then expLoop rt c (e - (p + 2)) (p + 2) (rt.int 0)
    else expLoop rt c (e - (p + 1)) (p + 1) (rt.int 0)
  else rt.int 0

/-- `f64FromBytes` and `txtF64`. -/
def f64FromBytes (b : Bytes) (o l : Nat) : Double :=
  let c := chars b
  let e := o + l
  let neg := c o = some 45
  let p := if c o = some 45 ∨ c o = some 43 then o + 1 else o
  if c p = some 78 ∨ c p = some 110 then rt.nan
  else if c p = some 73 ∨ c p = some 105 then if neg then rt.neg rt.infinity else rt.infinity
  else
    let s := sigLoop rt c (e - p) ⟨p, rt.int 0, 0, 0, false, false⟩
    let eff := rt.sub (exponent rt c s.p e) (rt.int s.fd)
    if s.hard ∨ rt.lt (rt.int 22) eff ∨ rt.lt eff (rt.int (-22)) then
      rt.number (latin1Slice b o l)
    else
      let r := if rt.le (rt.int 0) eff then rt.mul s.sig (rt.pow10 eff)
        else rt.div s.sig (rt.pow10 (rt.neg eff))
      if neg then rt.neg r else r

/-- `txtInt`. -/
def txtInt (b : Bytes) (o l : Nat) : Double :=
  if l > 16 then rt.number (latin1Slice b o l)
  else
    let e := o + l
    if chars b o = some 45 then rt.neg (digitsLoop rt (chars b) (e - (o + 1)) (o + 1) (rt.int 0))
    else digitsLoop rt (chars b) (e - o) o (rt.int 0)

/-! ### Instants -/

def pgEpochMs : Int := 946684800000
def y400Ms : Int := 12622780800000

/-- Two digits at `p`. -/
def twoDigits (c : Chars) (p : Nat) : Double :=
  rt.add (rt.mul (digit rt (c p)) (rt.int 10)) (digit rt (c (p + 1)))

/-- The year from `p` on: where it ends, its value and how many digits it has. -/
def yearLoop (c : Chars) : Nat → Nat → Double → Nat → Nat × Double × Nat
  | 0, p, y, n => (p, y, n)
  | k + 1, p, y, n =>
    if noDigit (c p) then (p, y, n) else yearLoop c k (p + 1) (shift rt y (c p)) (n + 1)

/-- Up to `k` digits of a fraction, filled up with zeros. -/
def fractionLoop (c : Chars) (e : Nat) : Nat → Nat → Double → Nat × Double
  | 0, p, f => (p, f)
  | k + 1, p, f =>
    if p < e ∧ noDigit (c p) = false then fractionLoop c e k (p + 1) (shift rt f (c p))
    else (p, (List.range (k + 1)).foldl (fun f _ => rt.mul f (rt.int 10)) f)

/-- The position after the digits from `p` on. -/
def skipDigits (c : Chars) : Nat → Nat → Nat
  | 0, p => p
  | k + 1, p => if noDigit (c p) then p else skipDigits c k (p + 1)

structure Time where
  h : Double
  mi : Double
  s : Double
  ms : Double
  off : Double

/-- `.f`, when it is there. -/
def fractionAt (c : Chars) (p e : Nat) : Nat × Double :=
  if p < e ∧ c p = some 46 then
    let (p, ms) := fractionLoop rt c e 3 (p + 1) (rt.int 0)
    (skipDigits c (e - p) p, ms)
  else (p, rt.int 0)

/-- `:MM` or `:SS` of an offset, when it is there. -/
def colonAt (c : Chars) (p e : Nat) : Option Double :=
  if p < e ∧ c p = some 58 then some (twoDigits rt c (p + 1)) else none

/-- The offset, or `Z`. -/
def offsetAt (c : Chars) (p e : Nat) : Nat × Double :=
  if p < e ∧ (c p = some 43 ∨ c p = some 45) then
    let sg := rt.int (if c p = some 45 then -1 else 1)
    let th := twoDigits rt c (p + 1)
    let (tm, tsc, q) :=
      match colonAt rt c (p + 3) e with
      | none => (rt.int 0, rt.int 0, p + 3)
      | some tm =>
        match colonAt rt c (p + 6) e with
        | none => (tm, rt.int 0, p + 6)
        | some tsc => (tm, tsc, p + 9)
    (q, rt.mul sg (rt.add (rt.mul (rt.add (rt.mul th (rt.int 60)) tm) (rt.int 60)) tsc))
  else if p < e ∧ c p = some 90 then (p + 1, rt.int 0)
  else (p, rt.int 0)

/-- `e - p < 8 || b[p + 2] !== 58 || b[p + 5] !== 58` -/
def badTime (c : Chars) (p e : Nat) : Bool :=
  e < p + 8 ∨ c (p + 2) ≠ some 58 ∨ c (p + 5) ≠ some 58

/-- The time from `p` on, and where it ends. -/
def timeAt (c : Chars) (p e : Nat) : Time × Nat :=
  let (q, ms) := fractionAt rt c (p + 8) e
  let (q, off) := offsetAt rt c q e
  (⟨twoDigits rt c p, twoDigits rt c (p + 3), twoDigits rt c (p + 6), ms, off⟩, q)

def noTime : Time := ⟨rt.int 0, rt.int 0, rt.int 0, rt.int 0, rt.int 0⟩

/-- The instant of the fields, four centuries later and back for the years of one or two digits. -/
def instantOf (y : Double) (bc : Bool) (mo d : Double) (t : Time) : Double :=
  let yy := if bc then rt.sub (rt.int 1) y else y
  let early := rt.le (rt.int 0) yy ∧ rt.le yy (rt.int 99)
  let ems := rt.utc (rt.add yy (rt.int (if early then 400 else 0))) (rt.sub mo (rt.int 1)) d t.h
    t.mi (rt.sub t.s t.off) t.ms
  if early then rt.sub ems (rt.int y400Ms) else ems

/-- `n < 4 || b[p] !== 45 || b[p + 3] !== 45 || e - p < 6` -/
def badDate (c : Chars) (p e n : Nat) : Bool :=
  n < 4 ∨ c p ≠ some 45 ∨ c (p + 3) ≠ some 45 ∨ e < p + 6

def startsTime (c : Chars) (p e : Nat) : Bool := p < e ∧ (c p = some 32 ∨ c p = some 84)

def isBc (c : Chars) (p e : Nat) : Bool :=
  p + 3 ≤ e ∧ c (e - 1) = some 67 ∧ c (e - 2) = some 66 ∧ c (e - 3) = some 32

/-- The text that starts with `i` or `-i`. -/
def startsInfinity (c : Chars) (p : Nat) : Bool :=
  c p = some 105 ∨ c p = some 45 ∧ c (p + 1) = some 105

/-- `instantSnippet`: the value, and whether the text is in the grammar.  It reads on after a failed
check. -/
def instantSnippet (c : Chars) (p e : Nat) : Double × Bool :=
  if startsInfinity c p then (rt.nan, e - p = if c p = some 45 then 9 else 8)
  else
    let bc := isBc c p e
    let e := if bc then e - 3 else e
    let (p, y, n) := yearLoop rt c (e - p) p (rt.int 0) 0
    let ok := !badDate c p e n
    let mo := twoDigits rt c (p + 1)
    let d := twoDigits rt c (p + 4)
    let p := p + 6
    let (t, p, ok) :=
      if startsTime c p e then
        let (t, q) := timeAt rt c (p + 1) e
        (t, q, ok && !badTime c (p + 1) e)
      else (noTime rt, p, ok)
    (instantOf rt y bc mo d t, ok && p = e)

/-- What `instantFromBytes` and `instantFromString` share. -/
def instantFrom (c : Chars) (p e : Nat) : Option Double :=
  let bc := isBc c p e
  let e := if bc then e - 3 else e
  let (p, y, n) := yearLoop rt c (e - p) p (rt.int 0) 0
  if badDate c p e n then none
  else
    let mo := twoDigits rt c (p + 1)
    let d := twoDigits rt c (p + 4)
    let p := p + 6
    if startsTime c p e then
      if badTime c (p + 1) e then none
      else
        let (t, p) := timeAt rt c (p + 1) e
        if p ≠ e then none else some (instantOf rt y bc mo d t)
    else if p ≠ e then none
    else some (instantOf rt y bc mo d (noTime rt))

def instantFromBytes (b : Bytes) (o l : Nat) : Option Double :=
  if startsInfinity (chars b) o then
    if l = (if chars b o = some 45 then 9 else 8) then some rt.nan else none
  else instantFrom rt (chars b) o (o + l)

def instantFromString (s : JsString) : Option Double :=
  let c : Chars := fun i => s[i]?.map UInt16.toNat
  if startsInfinity c 0 then
    if s = ascii "infinity" ∨ s = ascii "-infinity" then some rt.nan else none
  else instantFrom rt c 0 s.length

/-- `tsFromBytes`, the inlined code. -/
def tsFromBytes (b : Bytes) (o l : Nat) : Double :=
  let (ems, ok) := instantSnippet rt (chars b) o (o + l)
  if !ok then rt.nan else ems

def tsParse (b : Bytes) (o l : Nat) : Double := (instantFromBytes rt b o l).getD rt.nan

/-! ### Binary values -/

/-- A byte under `<<` and `|`, 0 past the end. -/
def bits (b : Bytes) (i : Nat) : Nat := (b[i]?.map UInt8.toNat).getD 0

def word (b : Bytes) (o : Nat) : Nat :=
  bits b o * 16777216 + bits b (o + 1) * 65536 + bits b (o + 2) * 256 + bits b (o + 3)

/-- Two's complement. -/
def signed (size : Nat) (n : Nat) : Int := if n < 2 ^ (size - 1) then n else n - 2 ^ size

def hi (b : Bytes) (o : Nat) : Double := rt.int (signed 32 (word b o))
def lo (b : Bytes) (o : Nat) : Double := rt.int (word b (o + 4))

/-- `RD64` and `rd64`. -/
def rd64 (b : Bytes) (o : Nat) : Double :=
  rt.add (rt.mul (hi rt b o) (rt.int 4294967296)) (lo rt b o)

/-- `BIN_TS_MS_EXPR` and `binTimestampMs`. -/
def binTimestampMs (b : Bytes) (o : Nat) : Double :=
  rt.add
    (rt.add (rt.mul (hi rt b o) (rt.int 4294967))
      (rt.floor (rt.div (rt.add (rt.mul (hi rt b o) (rt.int 296)) (lo rt b o)) (rt.int 1000))))
    (rt.int pgEpochMs)

/-- The bytes of a `read…BE`, or its `RangeError`. -/
def readBE (size : Nat) (b : Bytes) (o : Nat) : Except JsError Nat :=
  if o + size ≤ b.length then
    .ok ((slice b o size).foldl (fun n c => n * 256 + c.toNat) 0)
  else .error .rangeError

end Numbers

end Minipg.Cells
