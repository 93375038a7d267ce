import Minipg.Encode.Params

/-!
# The compiled Bind encoder

`compileBindEncoder` (`src/encode.ts`) generates a function that writes Bind, Execute and Sync.
`BindCode` is that function with the constants it closes over, a `Snippet` the code generated for
one column; `off` is the slot of its format code.
-/

namespace Minipg.Encode

open Js Writer

/-- `JIT_FAST`: the types whose values are written by generated code, in binary. -/
def jitFast : Oid → Bool
  | 16 | 21 | 23 | 20 | 701 | 1114 | 1184 => true
  | _ => false

/-- The format that the code of a column is compiled for. -/
def bakedFormat (oid : Oid) : Format := if jitFast oid then .binary else .text

def jitMaxPeriod : Nat := 64

/-- The code of a column; `call` runs the closure of its type. -/
inductive Snippet
  | bool
  | int2
  | int4
  | int8
  | float8
  | timestamp
  | text
  | call (enc : BinEnc)

/-- A value that the code of a binary column does not fit. -/
def fallback (js : Engine) (x : Value) (off : Nat) : Write Unit := do
  let f ← encodeValueInto js x
  if f ≠ .binary then patch16 off f.code

def Snippet.run (js : Engine) (off : Nat) : Snippet → Value → Write Unit
  | .bool, .boolean b => do
    int32 1
    byte (if b then 1 else 0)
  | .bool, x => fallback js x off
  | .int2, x =>
    match intIn (-32768) 32767 x with
    | none => fallback js x off
    | some n => do
      int32 2
      int16 (n % 65536)
  | .int4, x =>
    match intIn (-2147483648) 2147483647 x with
    | none => fallback js x off
    | some n => do
      int32 4
      int32 n
  | .int8, .number x =>
    match x.safeInteger? with
    | some n => lpI64 n
    | none => fallback js (.number x) off
  | .int8, .bigint n =>
    if n ≥ i64Min ∧ n ≤ i64Max then lpI64Big n else fallback js (.bigint n) off
  | .int8, x => fallback js x off
  | .float8, .number x => lpF8 x
  | .float8, x => fallback js x off
  | .timestamp, .date (some t) =>
    let ms := t.ms - pgEpochMs
    if ms ≥ -msSafe ∧ ms ≤ msSafe then lpI64 (ms * 1000) else lpI64Big (ms * 1000)
  | .timestamp, x => fallback js x off
  | .text, .string s => do
    guardNul s
    lpStr s
  | .text, x => do
    let f ← encodeValueInto js x
    if f ≠ .text then patch16 off f.code
  | .call enc, x => do
    let f ← enc x
    if f ≠ .text then patch16 off f.code

def snippetFor (js : Engine) : Oid → Snippet
  | 16 => .bool
  | 21 => .int2
  | 23 => .int4
  | 20 => .int8
  | 701 => .float8
  | 1114 | 1184 => .timestamp
  | 25 | 1043 => .text
  | oid => .call ((binEncoderFor js oid).getD (encodeValueInto js))

/-- The smallest divisor of the length after which the types repeat. -/
def paramPeriod (oids : List Oid) : Nat :=
  let n := oids.length
  let repeats (p : Nat) : Bool :=
    n % p = 0 ∧ ∀ i < n, p ≤ i → oids[i]? = oids[i - p]?
  (((List.range n).drop 1).find? repeats).getD n

/-- The generated function. -/
structure BindCode where
  header : List UInt8
  fmt0 : Nat
  cols : List Snippet
  rowCount : Nat
  resultFmt : List UInt8
  execSync : List UInt8

def compileResultFormat : ResultFormat → Except Thrown (List UInt8)
  | .each formats => do
    let count ← uint16BE formats.length
    let codes ← formats.mapM numberUInt16BE
    return count ++ codes.flatten
  | .all format => do
    let count ← uint16BE 1
    let code ← numberUInt16BE format
    return count ++ code

def compileBindEncoder (js : Engine) (name : JsString) (oids : List Oid)
    (resultFormat : ResultFormat) : Except Thrown (Option BindCode) := do
  let n := oids.length
  let p := if n = 0 then 0 else paramPeriod oids
  if p > jitMaxPeriod then return none
  let rowCount := if p = 0 then 0 else n / p
  let formats := (List.range n).map fun i => bakedFormat (oids.getD (i % p) 0)
  let count ← uint16BE n
  let resultFmt ← compileResultFormat resultFormat
  let execute ← messageExecute [] 0
  let sync ← messageSync
  return some
    { header := [0] ++ utf8 name ++ [0] ++ count ++ formats.flatMap (bigEndian 2 ·.code) ++ count
      fmt0 := 1 + (utf8 name).length + 1 + 2
      cols := (oids.take p).map (snippetFor js)
      rowCount
      resultFmt
      execSync := execute ++ sync }

namespace BindCode

/-- The code of the columns from `c` on, for the values from `vb` and the slots from `fb`. -/
def runCols (js : Engine) (v : List Value) (vb fb : Nat) : List Snippet → Nat → Write Unit
  | [], _ => pure ()
  | s :: rest, c => do
    s.run js (fb + c * 2) (v.getD (vb + c) .undefined)
    runCols js v vb fb rest (c + 1)

/-- The loop over the rows from `r` on. -/
def runRows (js : Engine) (code : BindCode) (v : List Value) (base : Nat) : Nat → Nat → Write Unit
  | 0, _ => pure ()
  | k + 1, r => do
    let p := code.cols.length
    runCols js v (r * p) (base + code.fmt0 + r * (p * 2)) code.cols 0
    runRows js code v base k (r + 1)

def run (js : Engine) (code : BindCode) (v : List Value) : Write Unit := do
  start 'B'
  let base ← mark
  bytes code.header
  if code.rowCount > 1 then runRows js code v base code.rowCount 0
  else runCols js v 0 (base + code.fmt0) code.cols 0
  bytes code.resultFmt
  Writer.end
  bytes code.execSync

end BindCode

/-- What `compileBindEncoder` stands for. -/
def interpreted (js : Engine) (name : JsString) (oids : List Oid) (resultFormat : ResultFormat)
    (params : List Value) : Write Unit := do
  let enc := (compileParamPlan js oids).getD fun v _ => encodeValueInto js v
  writeBindWith [] name params enc resultFormat
  writeExecute [] 0
  writeSync

end Minipg.Encode
