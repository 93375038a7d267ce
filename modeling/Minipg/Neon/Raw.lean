import Minipg.Json.Buffer
import Minipg.Encode.Writer

/-!
# Responses of the HTTP endpoint

`decodeSingleRaw` (`src/neon-http.ts`) scans the rows of a response out of its bytes,
`decodeParsed` takes them from what `JSON.parse` returns.  A `Bytes` is what is left of the buffer
from an index on.
-/

namespace Minipg.Neon

open Js
open Json (Tree isWsByte ws jsonParse)
open Cells (Bytes Runtime)
open Encode (Thrown)

/-! ### Scanning -/

/-- The loop of `scanString`; `skip` bytes are passed over first.  Whether there is a backslash, and
what is left behind the closing quote. -/
def scanLoop : Nat → Bytes → Bool × Bytes
  | _, [] => (false, [])
  | skip + 1, _ :: b => scanLoop skip b
  | 0, c :: b =>
    if c = 0x5c then (true, (scanLoop (if b.head? = some 0x75 then 5 else 1) b).2)
    else if c = 0x22 then (false, b)
    else scanLoop 0 b

def scanString (b : Bytes) : Bool × Bytes := scanLoop 0 (b.drop 1)

theorem scanLoop_length_le : ∀ (b : Bytes) (skip : Nat), (scanLoop skip b).2.length ≤ b.length
  | [], skip => by cases skip <;> exact Nat.le_refl 0
  | _ :: b, skip + 1 => Nat.le_succ_of_le (scanLoop_length_le b skip)
  | c :: b, 0 => by
    unfold scanLoop
    split
    · exact Nat.le_succ_of_le (scanLoop_length_le b _)
    split
    · exact Nat.le_succ _
    · exact Nat.le_succ_of_le (scanLoop_length_le b 0)

theorem scanString_length_le (b : Bytes) : (scanString b).2.length ≤ b.length - 1 := by
  have h := scanLoop_length_le (b.drop 1) 0
  rwa [List.length_drop] at h

/-- The loop of `endOfValue` over an object or an array. -/
def closeLoop (opening closing : UInt8) (depth : Int) : Bytes → Bytes
  | [] => []
  | d :: b =>
    if d = 0x22 then closeLoop opening closing depth (scanString (d :: b)).2
    else if d = opening then closeLoop opening closing (depth + 1) b
    else if d = closing then
      if depth - 1 = 0 then b else closeLoop opening closing (depth - 1) b
    else closeLoop opening closing depth b
termination_by b => b.length
decreasing_by
  · exact Nat.lt_succ_of_le (scanString_length_le (d :: b))
  all_goals exact Nat.lt_succ_self _

def endOfValue (b : Bytes) : Bytes :=
  if b.head? = some 0x22 then (scanString b).2
  else if b.head? = some 0x7b then closeLoop 0x7b 0x7d 0 b
  else if b.head? = some 0x5b then closeLoop 0x5b 0x5d 0 b
  else b.dropWhile fun d => ¬(d = 0x2c ∨ d = 0x7d ∨ d = 0x5d ∨ d ≤ 0x20)

/-- The bytes from an index on up to that where `rest` is left. -/
def upTo (b rest : Bytes) : Bytes := b.take (b.length - rest.length)

/-- What is behind the first `key`. -/
def after {α : Type} [DecidableEq α] (key : List α) : List α → Option (List α)
  | [] => none
  | c :: b => if key <+: c :: b then some ((c :: b).drop key.length) else after key b

def keyText (w : JsString) : JsString := 34 :: (w ++ [34, 58])

def FKEY : Bytes := latin1 (keyText (ascii "fields"))

def RKEY : Bytes := latin1 (keyText (ascii "rows"))

/-- What is left at `raw.indexOf(key, i) + key.length`; `indexOf` may be -1. -/
def behind (raw key b : Bytes) : Bytes := (after key b).getD (raw.drop (key.length - 1))

/-! ### `RowBuf` -/

/-- A negative `len` takes the last of the four bytes back. -/
def pushSlice (rb : Bytes) (len : Int) (bytes : Bytes) : Except Thrown Bytes := do
  let size ← Encode.int32BE len
  return (rb ++ size ++ bytes).take (rb.length + 4 + len).toNat

def pushNull (rb : Bytes) : Except Thrown Bytes := do
  let size ← Encode.int32BE (-1)
  return rb ++ size

def pushText (rb : Bytes) : Option JsString → Except Thrown Bytes
  | none => pushNull rb
  | some s => pushSlice rb (utf8 s).length (utf8 s)

def finish (ncols : Nat) (rb : Bytes) : Except Thrown Bytes := do
  let count ← Encode.checked (-32768) 32767 2 ncols
  return count ++ rb

/-! ### Results -/

/-- What `planCols` makes of the fields, and what `rowFrom` makes of a row. -/
structure Plan (α : Type) where
  columns : List JsString
  rowFrom : Bytes → Except Thrown α

structure QueryResult (α : Type) where
  rows : List α
  columns : List JsString
  rowCount : Option Double
  command : Option JsString

/-- The `SyntaxError` of `JSON.parse`. -/
def syntaxError : Thrown := .js (.other 0)

section Raw

variable (rt : Runtime) {α : Type}

/-- `JSON.parse` of a string that has been scanned from `b` on. -/
def scanned (b rest : Bytes) : Except Thrown JsString :=
  match jsonParse rt (rt.standard.utf8 (upTo b rest)) with
  | some (.string s) => .ok s
  | _ => .error syntaxError

def strField (key b : Bytes) : Except Thrown (Option JsString) :=
  match after key b with
  | none => .ok none
  | some b =>
    let b := ws b
    if b.head? = some 0x22 then (scanned rt b (scanString b).2).map some else .ok none

def numField (key b : Bytes) : Option Double :=
  (after key b).bind fun b =>
    let s := ((ws b).takeWhile fun c => ¬(c = 0x2c ∨ c = 0x7d ∨ c ≤ 0x20)).map
      fun c => UInt16.ofNat c.toNat
    if s = ascii "null" then none else some (rt.standard.number s)

/-- `i = skipWs(raw, i)`, and this once more behind every comma. -/
def skipCommas (b : Bytes) : Bytes := b.dropWhile fun c => isWsByte c || c = 0x2c

/-- A column.  `src.copy` throws where it starts past the end of the buffer. -/
def rawCell (rb b : Bytes) : Except Thrown (Bytes × Bytes) :=
  let b := skipCommas b
  if b.head? = some 0x6e then return (← pushNull rb, b.drop 4)
  else
    let (escaped, rest) := scanString b
    if escaped then do
      let s ← scanned rt b rest
      return (← pushText rb (some s), rest)
    else if b = [] then .error (.js .rangeError)
    else do
      let len := (b.length - rest.length : Int) - 2
      return (← pushSlice rb len ((b.drop 1).take len.toNat), rest)

def rawCells : Nat → Bytes → Bytes → Except Thrown (Bytes × Bytes)
  | 0, rb, b => .ok (rb, b)
  | n + 1, rb, b => do
    let (rb, b) ← rawCell rt rb b
    rawCells n rb b

/-- What follows a row's `[`. -/
def rawRow (ncols : Nat) (b : Bytes) : Except Thrown (Bytes × Bytes) := do
  let (rb, b) ← rawCells rt ncols [] b
  let b := ws b
  return (rb, if b.head? = some 0x5d then b.drop 1 else b)

/-- The loop over the rows, for `fuel` steps. -/
def rawRows (p : Plan α) : Nat → Bytes → Option (Except Thrown (List α × Bytes))
  | 0, _ => none
  | fuel + 1, b =>
    let b := skipCommas b
    if b.head? = some 0x5d then some (.ok ([], b.drop 1))
    else
      match rawRow rt p.columns.length (b.drop 1) with
      | .error e => some (.error e)
      | .ok (rb, b) =>
        match finish p.columns.length rb >>= p.rowFrom with
        | .error e => some (.error e)
        | .ok row => (rawRows p fuel b).map fun r => r.map fun (rows, b) => (row :: rows, b)

/-- `fvs`. -/
def fieldsAt (raw : Bytes) : Bytes := ws (behind raw FKEY raw)

/-- `fields`; `none` is a `SyntaxError`. -/
def fieldsOf (raw : Bytes) : Option Tree :=
  jsonParse rt (rt.standard.utf8 (upTo (fieldsAt raw) (endOfValue (fieldsAt raw))))

/-- Where the rows start, past the `[`. -/
def rowsAt (raw : Bytes) : Bytes := (ws (behind raw RKEY (endOfValue (fieldsAt raw)))).drop 1

/-- What is returned, with `b` left behind the rows. -/
def rawResult (columns : List JsString) (rows : List α) (b : Bytes) :
    Except Thrown (QueryResult α) := do
  let command ← strField rt (latin1 (keyText (ascii "command"))) b
  return {
    rows
    columns
    rowCount := numField rt (latin1 (keyText (ascii "rowCount"))) b
    command }

/-- `none` is a loop that has not ended in `fuel` steps. -/
def decodeSingleRaw (plan : Tree → Except Thrown (Plan α)) (fuel : Nat) (raw : Bytes) :
    Option (Except Thrown (QueryResult α)) :=
  match fieldsOf rt raw with
  | none => some (.error syntaxError)
  | some fields =>
    match plan fields with
    | .error e => some (.error e)
    | .ok p => (rawRows rt p fuel (rowsAt raw)).map fun r =>
        r.bind fun (rows, b) => rawResult rt p.columns rows b

end Raw

/-! ### What is parsed -/

structure ParsedResult where
  fields : Tree
  rows : List (List (Option JsString))
  command : Option JsString
  rowCount : Option Double

section Parsed

variable {α : Type}

/-- `rb.pushText(row[c] ?? null)` for every column. -/
def pushTexts : Nat → Bytes → List (Option JsString) → Except Thrown Bytes
  | 0, rb, _ => .ok rb
  | n + 1, rb, row => do
    let rb ← pushText rb row.head?.join
    pushTexts n rb row.tail

def parsedRow (p : Plan α) (row : List (Option JsString)) : Except Thrown α := do
  let rb ← pushTexts p.columns.length [] row
  let body ← finish p.columns.length rb
  p.rowFrom body

def parsedRows (p : Plan α) : List (List (Option JsString)) → Except Thrown (List α)
  | [] => .ok []
  | row :: rows => do
    let r ← parsedRow p row
    let rs ← parsedRows p rows
    return r :: rs

def decodeParsed (plan : Tree → Except Thrown (Plan α)) (result : ParsedResult) :
    Except Thrown (QueryResult α) := do
  let p ← plan result.fields
  let rows ← parsedRows p result.rows
  return {
    rows
    columns := p.columns
    rowCount := some (result.rowCount.getD (.ofInt rows.length))
    command := result.command }

end Parsed

def cellTree : Option JsString → Tree
  | none => .null
  | some s => .string s

def rowTree (row : List (Option JsString)) : Tree := .array (row.map cellTree)

def stringOf : Option Tree → Option JsString
  | some (.string s) => some s
  | _ => none

def numberOf : Option Tree → Option Double
  | some (.number x) => some x
  | _ => none

/-- The type that `decodeParsed` takes its argument to have. -/
structure IsResult (properties : List (JsString × Tree)) (r : ParsedResult) : Prop where
  fields : properties.lookup (ascii "fields") = some r.fields
  isArray : ∃ items, r.fields = .array items
  rows : properties.lookup (ascii "rows") = some (.array (r.rows.map rowTree))
  command : r.command = stringOf (properties.lookup (ascii "command"))
  rowCount : r.rowCount = numberOf (properties.lookup (ascii "rowCount"))

end Minipg.Neon
