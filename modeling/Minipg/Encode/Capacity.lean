import Minipg.Encode.Writer
import Minipg.Js.Remainder
import Minipg.Lib.Growing

/-!
# The write buffer and its capacity

`Writer` (`src/protocol.ts`) as it is: a buffer of a capacity that is doubled, with the bytes from
`off` on unused.  What does not fit into the buffer is dropped without an error where bytes are
copied or a string is written, and a string is not cut within a character.  A new buffer holds
whatever was in its memory before; there is always memory for one.
-/

namespace Minipg.Protocol

open Js Growing
open Encode (Thrown bigEndian int32BE uint32BE bigInt64BE numberInt32BE numberUInt16BE)

/-- `Buffer.allocUnsafe`. -/
structure Allocator where
  alloc : Nat → List UInt8
  length_alloc : ∀ n, (alloc n).length = n

@[ext]
structure Writer where
  buf : List UInt8
  off : Nat
  msgStart : Nat
  pos : 0 < buf.length

/-- `none`: it is still running. -/
abbrev Act := ExceptT Thrown (StateT Writer Option)

namespace Writer

def new (m : Allocator) (size : Nat) (h : 0 < size) : Writer :=
  ⟨m.alloc size, 0, 0, by rw [m.length_alloc]; exact h⟩

/-- Written over what is in the buffer, as far as it goes. -/
def put (c : Writer) (p : Nat) (bs : List UInt8) : Writer :=
  { c with buf := store c.buf p bs, pos := by rw [length_store]; exact c.pos }

def advance (c : Writer) (n : Nat) : Writer := { c with off := c.off + n }

/-- What `ensure` leaves. -/
def fit (m : Allocator) (n : Nat) (c : Writer) : Writer :=
  let need := c.off + n
  if need ≤ c.buf.length then c
  else
    have hpos : 0 < c.buf.length * 2 := by have h := c.pos; omega
    let cap := doubled need (c.buf.length * 2) hpos
    have hcap : 0 < (store (m.alloc cap) 0 (c.buf.take c.off)).length := by
      rw [length_store, m.length_alloc]
      exact Nat.lt_of_lt_of_le hpos (le_doubled ..).2
    { c with buf := store (m.alloc cap) 0 (c.buf.take c.off), pos := hcap }

end Writer

/-! ### `Buffer` -/

/-- The characters that fit into `room` bytes. -/
def utf8Fitting (room : Nat) : JsString → List UInt8
  | [] => []
  | [u] =>
    let bs := if isHigh u || isLow u then utf8Unit 0xfffd else utf8Unit u.toNat
    if bs.length ≤ room then bs else []
  | u :: v :: rest =>
    if isHigh u && isLow v then
      if 4 ≤ room then utf8Pair u v ++ utf8Fitting (room - 4) rest else []
    else
      let bs := if isHigh u || isLow u then utf8Unit 0xfffd else utf8Unit u.toNat
      if bs.length ≤ room then bs ++ utf8Fitting (room - bs.length) (v :: rest) else []

/-- An element, or a copy of bytes. -/
def write (p : Nat) (bs : List UInt8) : Act Unit := modify (·.put p bs)

/-- `write(s, p, 'utf8')` -/
def writeUtf8 (s : JsString) (p : Nat) : Act Nat := do
  let bs := utf8Fitting ((← get).buf.length - p) s
  write p bs
  return bs.length

/-- `write(s, p, 'latin1')` -/
def writeLatin1 (s : JsString) (p : Nat) : Act Nat := do
  let bs := (latin1 s).take ((← get).buf.length - p)
  write p bs
  return bs.length

/-- `writeInt32BE` and the like, with a `RangeError` for the number or the position. -/
def writeNumber (bytes : Except Thrown (List UInt8)) (p : Nat) : Act Unit :=
  match bytes with
  | .error e => throw e
  | .ok bs => do
    if p + bs.length ≤ (← get).buf.length then write p bs else throw (.js .rangeError)

/-- What an element is set to. -/
def element (x : Double) : List UInt8 := [byteOf (x.trunc % 256).toNat]

/-! ### `Writer` -/

section Operations

variable (m : Allocator)

def ensure (n : Nat) : Act Unit := modify (Writer.fit m n)

def advance (n : Nat) : Act Unit := modify (·.advance n)

def reset : Act Unit := modify fun c => { c with off := 0 }

def byte (n : Double) : Act Unit := do
  ensure m 1
  write (← get).off (element n)
  advance 1

/-- `int16` and `int32`. -/
def number (size : Nat) (bytes : Except Thrown (List UInt8)) : Act Unit := do
  ensure m size
  writeNumber bytes (← get).off
  advance size

def int16 (n : Double) : Act Unit := number m 2 (numberUInt16BE n)
def int32 (n : Double) : Act Unit := number m 4 (numberInt32BE n)

def cstr (s : JsString) : Act Unit := do
  let len := (utf8 s).length
  ensure m (len + 1)
  let _ ← writeUtf8 s (← get).off
  advance len
  write (← get).off [0]
  advance 1

def bytes (b : List UInt8) : Act Unit := do
  ensure m b.length
  write (← get).off b
  advance b.length

def str (s : JsString) : Act Unit := do
  ensure m (s.length * 3)
  let n ← writeUtf8 s (← get).off
  advance n

def asc (s : JsString) : Act Unit := do
  ensure m s.length
  let n ← writeLatin1 s (← get).off
  advance n

def patch16 (pos : Nat) (n : Double) : Act Unit := writeNumber (numberUInt16BE n) pos
def patch32 (pos : Nat) (n : Double) : Act Unit := writeNumber (numberInt32BE n) pos

def lpBytes (b : List UInt8) : Act Unit := do
  number m 4 (int32BE b.length)
  bytes m b

def lpStr (s : JsString) : Act Unit := do
  ensure m (4 + s.length * 3)
  let n ← writeUtf8 s ((← get).off + 4)
  writeNumber (int32BE n) (← get).off
  advance (4 + n)

def lpAsc (s : JsString) : Act Unit := do
  ensure m (4 + s.length)
  let n ← writeLatin1 s ((← get).off + 4)
  writeNumber (int32BE n) (← get).off
  advance (4 + n)

/-- `for (let t = n; t >= 10; t = Math.floor(t / 10)) d++` -/
def digitCount : Nat → Double → Nat → Option Nat
  | 0, _, _ => none
  | fuel + 1, t, d =>
    if Double.le (.ofInt 10) t then
      digitCount fuel (Double.floor (Double.div t (.ofInt 10))) (d + 1)
    else some d

/-- The digits from the last one at `p` on to the front, and the position in front of them. -/
def writeDigits : Nat → Nat → Double → Act Nat
  | 0, p, _ => return p
  | d + 1, p, n => do
    write p (element (Double.add (.ofInt 48) (Double.rem n (.ofInt 10))))
    writeDigits d (p - 1) (Double.floor (Double.div n (.ofInt 10)))

/-- The length, the digits and the sign. -/
def writeInteger (d : Nat) (neg : Bool) (n : Double) : Act Unit := do
  let len := d + (if neg then 1 else 0)
  writeNumber (int32BE len) (← get).off
  let p ← writeDigits d ((← get).off + 4 + len - 1) n
  if neg then write p [45]
  advance (4 + len)

def lpAsciiInt (fuel : Nat) (v : Double) : Act Unit := do
  ensure m 25
  let neg := Double.lt v (.ofInt 0)
  let n := if neg then Double.neg v else v
  let d ← (digitCount fuel n 1 : Option Nat)
  writeInteger d neg n

def lpI64 (v : Double) : Act Unit := do
  ensure m 12
  writeNumber (int32BE 8) (← get).off
  writeNumber (numberInt32BE (Double.floor (Double.div v (.ofInt 4294967296)))) ((← get).off + 4)
  writeNumber (uint32BE v.toUint32) ((← get).off + 8)
  advance 12

/-- `lpI64Big` and `lpF8`. -/
def lpEight (bs : Except Thrown (List UInt8)) : Act Unit := do
  ensure m 12
  writeNumber (int32BE 8) (← get).off
  writeNumber bs ((← get).off + 4)
  advance 12

def lpI64Big (v : Int) : Act Unit := lpEight m (bigInt64BE v)
def lpF8 (v : Double) : Act Unit := lpEight m (.ok (bigEndian 8 v.toNat))

def start (type : Char) : Act Unit := do
  byte m (.ofInt type.toNat)
  modify fun c => { c with msgStart := c.off }
  ensure m 4
  advance 4

def «end» : Act Unit := do
  let c ← get
  writeNumber (int32BE (c.off - c.msgStart)) c.msgStart

def slice : Act (List UInt8) := return (← get).buf.take (← get).off

def mark : Act Nat := return (← get).off

def rewind (off : Nat) : Act Unit := modify fun c => { c with off }

end Operations

/-! ### Runs -/

inductive Op
  | reset
  | byte (n : Double)
  | int16 (n : Double)
  | int32 (n : Double)
  | cstr (s : JsString)
  | bytes (b : List UInt8)
  | str (s : JsString)
  | asc (s : JsString)
  | patch16 (pos : Nat) (n : Double)
  | patch32 (pos : Nat) (n : Double)
  | lpBytes (b : List UInt8)
  | lpStr (s : JsString)
  | lpAsc (s : JsString)
  | lpAsciiInt (v : Double)
  | lpI64 (v : Double)
  | lpI64Big (v : Int)
  | lpF8 (v : Double)
  | start (type : Char)
  | «end»
  | slice
  | mark
  | rewind (off : Nat)

/-- What an operation returns. -/
inductive Reply
  | done
  | position (n : Nat)
  | bytes (bs : List UInt8)
  deriving DecidableEq, Repr

def act (m : Allocator) (fuel : Nat) : Op → Act Reply
  | .reset => do reset; return .done
  | .byte n => do byte m n; return .done
  | .int16 n => do int16 m n; return .done
  | .int32 n => do int32 m n; return .done
  | .cstr s => do cstr m s; return .done
  | .bytes b => do bytes m b; return .done
  | .str s => do str m s; return .done
  | .asc s => do asc m s; return .done
  | .patch16 pos n => do patch16 pos n; return .done
  | .patch32 pos n => do patch32 pos n; return .done
  | .lpBytes b => do lpBytes m b; return .done
  | .lpStr s => do lpStr m s; return .done
  | .lpAsc s => do lpAsc m s; return .done
  | .lpAsciiInt v => do lpAsciiInt m fuel v; return .done
  | .lpI64 v => do lpI64 m v; return .done
  | .lpI64Big v => do lpI64Big m v; return .done
  | .lpF8 v => do lpF8 m v; return .done
  | .start type => do start m type; return .done
  | .end => do «end»; return .done
  | .slice => return .bytes (← slice)
  | .mark => return .position (← mark)
  | .rewind off => do rewind off; return .done

/-- What the operations return or throw, one after the other; an error leaves the rest to the
caller. -/
def run (m : Allocator) (fuel : Nat) : List Op → Writer → Option (List (Except Thrown Reply) × Writer)
  | [], c => some ([], c)
  | op :: ops, c => do
    let (reply, c') ← act m fuel op c
    let (replies, c'') ← run m fuel ops c'
    return (reply :: replies, c'')

end Minipg.Protocol
