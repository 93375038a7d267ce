import Minipg.Js
import Minipg.Lib.Appending

/-!
# The write buffer

`Writer` (`src/protocol.ts`): bytes are appended, and lengths and format codes that were reserved
are written over.  The growth of the buffer is left out; the four bytes that `start` reserves hold
whatever the buffer held before.
-/

namespace Minipg.Encode

open Js

structure Writer where
  buf : List UInt8 := []
  msgStart : Nat := 0
  deriving DecidableEq, Repr

/-- What the encoders throw; the `mismatch` of an array element is caught. -/
inductive Thrown
  | js (e : JsError)
  | mismatch
  deriving DecidableEq, Repr

abbrev Write := StateT Writer (Except Thrown)

def Writer.app (w : Writer) (bytes : List UInt8) : Writer := { w with buf := w.buf ++ bytes }

instance : Appendable Writer UInt8 where
  app := Writer.app
  app_nil w := congrArg (Writer.mk · w.msgStart) (List.append_nil w.buf)
  app_app w xs ys := congrArg (Writer.mk · w.msgStart) (List.append_assoc w.buf xs ys)

/-- `n` in big-endian order, modulo `256 ^ size`. -/
def bigEndian : Nat → Int → List UInt8
  | 0, _ => []
  | size + 1, n => bigEndian size (n / 256) ++ [byteOf (n % 256).toNat]

/-- `bytes` written over `buf` at `pos`. -/
def overwrite (buf : List UInt8) (pos : Nat) (bytes : List UInt8) : List UInt8 :=
  buf.take pos ++ bytes ++ buf.drop (pos + bytes.length)

/-! ### `Buffer` -/

/-- The bytes of a `writeUIntBE` or `writeIntBE`, or its `RangeError`. -/
def checked (lo hi : Int) (size : Nat) (n : Int) : Except Thrown (List UInt8) :=
  if lo ≤ n ∧ n ≤ hi then .ok (bigEndian size n) else .error (.js .rangeError)

/-- The same of a number of the caller's, which may be no integer. -/
def checkedNumber (lo hi : Int) (size : Nat) (x : Double) : Except Thrown (List UInt8) :=
  if x.outside lo hi then .error (.js .rangeError) else .ok (bigEndian size x.trunc)

def uint16BE (n : Int) : Except Thrown (List UInt8) := checked 0 65535 2 n

def uint32BE (n : Int) : Except Thrown (List UInt8) := checked 0 4294967295 4 n

def int32BE (n : Int) : Except Thrown (List UInt8) := checked (-2147483648) 2147483647 4 n

def bigInt64BE (n : Int) : Except Thrown (List UInt8) :=
  checked (-9223372036854775808) 9223372036854775807 8 n

def numberUInt16BE (x : Double) : Except Thrown (List UInt8) := checkedNumber 0 65535 2 x

def numberInt32BE (x : Double) : Except Thrown (List UInt8) :=
  checkedNumber (-2147483648) 2147483647 4 x

namespace Writer

/-! ### Appending -/

def append (bytes : List UInt8) : Write Unit := modify (·.app bytes)

/-- Bytes that may fail to be written. -/
def appendOr (bytes : Except Thrown (List UInt8)) : Write Unit :=
  match bytes with
  | .ok bytes => append bytes
  | .error e => throw e

def byte (n : Int) : Write Unit := append [byteOf (n % 256).toNat]
def int16 (n : Int) : Write Unit := appendOr (uint16BE n)
def int32 (n : Int) : Write Unit := appendOr (int32BE n)
def number16 (x : Double) : Write Unit := appendOr (numberUInt16BE x)
def number32 (x : Double) : Write Unit := appendOr (numberInt32BE x)
def cstr (s : JsString) : Write Unit := append (utf8 s ++ [0])
def bytes (b : List UInt8) : Write Unit := append b
def str (s : JsString) : Write Unit := append (utf8 s)
def asc (s : JsString) : Write Unit := append (latin1 s)

def lpBytes (b : List UInt8) : Write Unit := do
  int32 b.length
  bytes b

def lpStr (s : JsString) : Write Unit := do
  int32 (utf8 s).length
  append (utf8 s)

def lpAsc (s : JsString) : Write Unit := do
  int32 (latin1 s).length
  append (latin1 s)

/-- The number of decimal digits, by the loop over `t`. -/
def digitCount (t : Nat) : Nat := if t < 10 then 1 else digitCount (t / 10) + 1

/-- The last `d` digits. -/
def digits : Nat → Nat → List UInt8
  | 0, _ => []
  | d + 1, n => digits d (n / 10) ++ [byteOf (48 + n % 10)]

def lpAsciiInt (v : Int) : Write Unit := do
  let d := digitCount v.natAbs
  let neg := v < 0
  int32 (d + (if neg then 1 else 0) : Nat)
  append ((if neg then [byteOf 45] else []) ++ digits d v.natAbs)

def lpI64 (v : Int) : Write Unit := do
  int32 8
  appendOr (int32BE (v / 4294967296))
  appendOr (uint32BE (v % 4294967296))

def lpI64Big (v : Int) : Write Unit := do
  int32 8
  appendOr (bigInt64BE v)

def lpF8 (v : Double) : Write Unit := do
  int32 8
  append (bigEndian 8 v.toNat)

/-! ### Writing over -/

def mark : Write Nat := do return (← get).buf.length

def rewind (off : Nat) : Write Unit := modify fun w => { w with buf := w.buf.take off }

/-- Bytes at a position. -/
def patch (pos : Nat) (bytes : Except Thrown (List UInt8)) : Write Unit :=
  match bytes with
  | .ok bytes => modify fun w => { w with buf := overwrite w.buf pos bytes }
  | .error e => throw e

def patch16 (pos : Nat) (n : Int) : Write Unit := patch pos (uint16BE n)
def patch32 (pos : Nat) (n : Int) : Write Unit := patch pos (int32BE n)

def start (type : Char) : Write Unit := do
  byte type.toNat
  modify fun w => { w with msgStart := w.buf.length }
  append [0, 0, 0, 0]

def «end» : Write Unit := do
  let w ← get
  patch32 w.msgStart (w.buf.length - w.msgStart)

end Writer

/-! ### Whole messages -/

open Writer

/-- A format for all columns, or one for each. -/
inductive ResultFormat
  | all (format : Double)
  | each (formats : List Double)
  deriving DecidableEq, Repr

/-- What is described or closed. -/
inductive Kind
  | statement
  | portal
  deriving DecidableEq, Repr

def Kind.code : Kind → Char
  | .statement => 'S'
  | .portal => 'P'

/-- The format of a parameter. -/
inductive Format
  | text
  | binary
  deriving DecidableEq, Repr

def Format.code : Format → Int
  | .text => 0
  | .binary => 1

abbrev ParamsEncoder := Value → Nat → Write Format

def maxParams : Nat := 65535

def tooMany (n : Nat) : Thrown :=
  .js (.error ("too many bind parameters: " ++ toString n ++ " (max 65535)"))

/-- The values of the loop from index `i` on. -/
def writeParams (enc : ParamsEncoder) (fmtPos : Nat) : List Value → Nat → Write Unit
  | [], _ => pure ()
  | v :: rest, i => do
    let f ← enc v i
    if f ≠ .text then patch16 (fmtPos + i * 2) f.code
    writeParams enc fmtPos rest (i + 1)

def writeResultFormat : ResultFormat → Write Unit
  | .each formats => do
    int16 formats.length
    formats.forM number16
  | .all format => do
    int16 1
    number16 format

/-- The error of `guardNul(sql, 'query text')`. -/
def queryNul : Thrown := .js (.error "query text contains NUL byte (0x00)")

/-- The types of the parameters, or none for the server to infer them. -/
def writeParamOids (paramOids : List Double) : Write Unit :=
  if paramOids.length ≠ 0 then do
    int16 paramOids.length
    paramOids.forM number32
  else int16 0

def writeParse (name sql : JsString) (paramOids : Option (List Double)) : Write Unit := do
  if hasNul sql then throw queryNul
  start 'P'
  cstr name
  cstr sql
  writeParamOids (paramOids.getD [])
  Writer.end

def writeDescribe (kind : Kind) (name : JsString) : Write Unit := do
  start 'D'
  byte kind.code.toNat
  cstr name
  Writer.end

def writeBindWith (portal statement : JsString) (params : List Value) (enc : ParamsEncoder)
    (resultFormat : ResultFormat) : Write Unit := do
  if params.length > maxParams then throw (tooMany params.length)
  start 'B'
  cstr portal
  cstr statement
  int16 params.length
  let fmtPos ← mark
  params.forM fun _ => int16 0
  int16 params.length
  writeParams enc fmtPos params 0
  writeResultFormat resultFormat
  Writer.end

/-- A value that is written as it is; `none` is NULL. -/
def writeValue : Option (List UInt8) → Write Unit
  | none => int32 (-1)
  | some b => do
    int32 b.length
    bytes b

def writeBindRaw (portal statement : JsString) (formats : List Double)
    (values : List (Option (List UInt8))) (resultFormat : ResultFormat) : Write Unit := do
  if values.length > maxParams then throw (tooMany values.length)
  start 'B'
  cstr portal
  cstr statement
  int16 formats.length
  formats.forM number16
  int16 values.length
  values.forM writeValue
  writeResultFormat resultFormat
  Writer.end

def writeExecute (portal : JsString) (maxRows : Double) : Write Unit := do
  start 'E'
  cstr portal
  number32 maxRows
  Writer.end

def writeClose (kind : Kind) (name : JsString) : Write Unit := do
  start 'C'
  byte kind.code.toNat
  cstr name
  Writer.end

def writeSync : Write Unit := do
  start 'S'
  Writer.end

/-- `msg`: a whole message with its length. -/
def msg (type : Char) (payload : List UInt8) : Except Thrown (List UInt8) := do
  let length ← int32BE (payload.length + 4)
  return [byteOf type.toNat] ++ length ++ payload

/-- `W.execute` and `W.sync`. -/
def messageExecute (portal : JsString) (maxRows : Double) : Except Thrown (List UInt8) := do
  let rows ← numberInt32BE maxRows
  msg 'E' (utf8 portal ++ [0] ++ rows)

def messageSync : Except Thrown (List UInt8) := msg 'S' []

end Minipg.Encode
