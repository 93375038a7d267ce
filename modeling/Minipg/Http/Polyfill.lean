import Mathlib.Algebra.GroupWithZero.Nat
import Minipg.Js.Lossy
import Minipg.Wire.Parser
import Mathlib.Data.List.Lex

/-!
# Buffers where there is no `Buffer`

`MiniBuffer` of `src/buffer-polyfill.ts` stands in for the `Buffer` of Node on runtimes that do not
have one.  `Mini` are its functions over a view of some memory, through `Uint8Array`, `DataView`,
`TextEncoder` and `TextDecoder`; `Node` is what the documentation of Node says of the same calls, in
terms of the bytes of a buffer.  Offsets are natural numbers.
-/

namespace Minipg.Polyfill

open Js

/-! ### Buffers -/

/-- A buffer is a piece of some memory. -/
structure View where
  memory : Bytes
  byteOffset : Nat
  length : Nat
  inside : byteOffset + length ≤ memory.length
  deriving DecidableEq, Repr

namespace View

def bytes (v : View) : Bytes := (v.memory.drop v.byteOffset).take v.length

@[simp] theorem length_bytes (v : View) : v.bytes.length = v.length := by
  have hinside := v.inside
  rw [bytes, List.length_take, List.length_drop]
  omega

/-- The memory from `byteOffset` on; it throws where it does not reach so far. -/
def of? (memory : Bytes) (byteOffset : Nat) (length : Option Nat) : Option View :=
  let length := length.getD (memory.length - byteOffset)
  if h : byteOffset + length ≤ memory.length then some ⟨memory, byteOffset, length, h⟩ else none

/-- `subarray`, within the buffer. -/
def part (v : View) (start stop : Nat) (h : start ≤ v.length ∧ stop ≤ v.length) : View where
  memory := v.memory
  byteOffset := v.byteOffset + start
  length := stop - start
  inside := by
    have hinside := v.inside
    omega

/-- What is read through a part is what the bytes have there. -/
theorem bytes_part (v : View) (start stop : Nat) (h : start ≤ v.length ∧ stop ≤ v.length) :
    (v.part start stop h).bytes = (v.bytes.take stop).drop start := by
  have hmin : min stop v.length = stop := Nat.min_eq_left h.2
  rw [bytes, bytes, part, List.take_take, hmin, List.drop_take, List.drop_drop]

end View

/-- A relative index of `subarray`. -/
def relative (length : Nat) (i : Int) : Nat :=
  if i < 0 then (length + i).toNat else min i.toNat length

theorem relative_le (length : Nat) (i : Int) : relative length i ≤ length := by
  rw [relative]
  split <;> omega

theorem relative_natCast {length n : Nat} (h : n ≤ length) : relative length n = n := by
  rw [relative]
  split <;> omega

/-! ### Calls and results -/

inductive Encoding
  | utf8
  | latin1
  | hex
  deriving DecidableEq, Repr

/-- What `read…BE` reads. -/
inductive Number
  | int16
  | uint16
  | int32
  | uint32
  | float
  | double
  | bigInt64
  deriving DecidableEq, Repr

def Number.size : Number → Nat
  | int16 => 2
  | uint16 => 2
  | int32 => 4
  | uint32 => 4
  | float => 4
  | double => 8
  | bigInt64 => 8

/-- The result of a call; a number of a binary format is given by its bits. -/
inductive Result
  | buffer (bytes : Bytes)
  | view (v : View)
  | text (s : JsString)
  | number (n : Int)
  | float (bits : Nat)
  | double (bits : Nat)
  /-- How many bytes were copied, and what the target holds. -/
  | copied (n : Nat) (target : Bytes)
  | thrown
  deriving DecidableEq, Repr

/-- The number that some bits are. -/
def Number.ofBits (k : Number) (n : Nat) : Result :=
  let signed := if n < 2 ^ (8 * k.size - 1) then (n : Int) else n - 2 ^ (8 * k.size)
  match k with
  | int16 => .number signed
  | uint16 => .number n
  | int32 => .number signed
  | uint32 => .number n
  | float => .float n
  | double => .double n
  | bigInt64 => .number signed

inductive Call
  | fromString (value : JsString) (encoding : Encoding)
  | fromMemory (value : Bytes) (byteOffset : Nat) (length : Option Nat)
  | fromBytes (value : View)
  | concat (list : List View) (totalLength : Option Nat)
  | compare (a b : View)
  | byteLength (str : JsString) (encoding : Encoding)
  | copy (source target : View) (targetStart sourceStart : Nat) (sourceEnd : Option Nat)
  | subarray (v : View) (start stop : Option Int)
  | read (k : Number) (v : View) (o : Nat)
  | toString (v : View) (encoding : Encoding) (start : Nat) (stop : Option Nat)
  deriving Repr

/-- The bytes of `target` with `bs` written over them from `o` on. -/
def overwrite (target bs : Bytes) (o : Nat) : Bytes :=
  target.take o ++ bs ++ target.drop (o + bs.length)

/-! ### `MiniBuffer` -/

namespace Mini

def subarray (v : View) (start stop : Option Int) : View :=
  v.part (relative v.length (start.getD 0)) (relative v.length (stop.getD v.length))
    ⟨relative_le _ _, relative_le _ _⟩

/-- A hexadecimal digit. -/
def digit (u : UInt16) : Option Nat :=
  if 48 ≤ u.toNat ∧ u.toNat ≤ 57 then some (u.toNat - 48)
  else if 97 ≤ u.toNat ∧ u.toNat ≤ 102 then some (u.toNat - 87)
  else if 65 ≤ u.toNat ∧ u.toNat ≤ 70 then some (u.toNat - 55)
  else none

def digits : JsString → Option Nat → Option Nat
  | [], acc => acc
  | u :: s, acc =>
    match digit u with
    | some d => digits s (some (acc.getD 0 * 16 + d))
    | none => acc

def skipPrefix : JsString → JsString
  | 48 :: 120 :: s => s
  | 48 :: 88 :: s => s
  | s => s

/-- `parseInt(s, 16)`; `none` is `NaN`. -/
def parseInt16 (s : JsString) : Option Int :=
  match s.dropWhile isBlankUnit with
  | 45 :: s => (digits (skipPrefix s) none).map fun n => -(n : Int)
  | 43 :: s => (digits (skipPrefix s) none).map fun n => (n : Int)
  | s => (digits (skipPrefix s) none).map fun n => (n : Int)

/-- The byte that an element of a `Uint8Array` becomes. -/
def toUint8 (n : Option Int) : UInt8 := UInt8.ofNat ((n.getD 0) % 256).toNat

/-- `from(value, 'hex')`: `value.length >> 1` bytes. -/
def fromHex : JsString → Bytes
  | u :: v :: s => toUint8 (parseInt16 [u, v]) :: fromHex s
  | _ => []

def fromString (value : JsString) : Encoding → Bytes
  | .hex => fromHex value
  | .latin1 => value.map fun u => UInt8.ofNat (u.toNat % 256)
  | .utf8 => utf8 value

/-- The loop of `concat`. -/
def concatLoop (len : Nat) : List View → Nat → Bytes → Bytes
  | [], _, out => out
  | b :: list, o, out =>
    if len < o + b.length then
      overwrite out (subarray b (some 0) (some ((len : Int) - o))).bytes o
    else concatLoop len list (o + b.length) (overwrite out b.bytes o)

def concat (list : List View) (totalLength : Option Nat) : Bytes :=
  let len := totalLength.getD (list.map View.length).sum
  concatLoop len list 0 (List.replicate len 0)

/-- The loop of `compare`, over the common length. -/
def compareLoop : Bytes → Bytes → Option Int
  | x :: a, y :: b => if x ≠ y then some (if x < y then -1 else 1) else compareLoop a b
  | _, _ => none

def compare (a b : View) : Int :=
  match compareLoop a.bytes b.bytes with
  | some n => n
  | none => if a.length = b.length then 0 else if a.length < b.length then -1 else 1

def byteLength (str : JsString) : Encoding → Nat
  | .hex => str.length / 2
  | .latin1 => str.length
  | .utf8 => (utf8 str).length

/-- A getter of the `DataView`. -/
def read (k : Number) (v : View) (o : Nat) : Result :=
  if o + k.size ≤ v.length then
    k.ofBits (readUInt ((v.memory.drop (v.byteOffset + o)).take k.size))
  else .thrown

/-- `copy`; a slice that the target has no room for makes `set` throw. -/
def copy (source target : View) (targetStart sourceStart : Nat) (sourceEnd : Option Nat) : Result :=
  let slice := subarray source (some sourceStart) (some (sourceEnd.getD source.length : Nat))
  if targetStart + slice.length ≤ target.length then
    .copied slice.length (overwrite target.bytes slice.bytes targetStart)
  else .thrown

/-- An entry of `HEX`: `i.toString(16).padStart(2, '0')`. -/
def hexEntry (i : Nat) : JsString :=
  List.leftpad 2 48 ((Nat.toDigits 16 i).map fun c => UInt16.ofNat c.toNat)

def toString (v : View) (encoding : Encoding) (start : Nat) (stop : Option Nat) : JsString :=
  let sub := subarray v (some start) (some (stop.getD v.length : Nat))
  match encoding with
  | .hex => sub.bytes.flatMap fun b => hexEntry b.toNat
  | .latin1 => sub.bytes.map fun b => UInt16.ofNat b.toNat
  | .utf8 => textDecode sub.bytes

def call : Call → Result
  | .fromString value encoding => .buffer (fromString value encoding)
  | .fromMemory value byteOffset length =>
    match View.of? value byteOffset length with
    | some v => .view v
    | none => .thrown
  | .fromBytes value => .buffer value.bytes
  | .concat list totalLength => .buffer (concat list totalLength)
  | .compare a b => .number (compare a b)
  | .byteLength str encoding => .number (byteLength str encoding)
  | .copy source target targetStart sourceStart sourceEnd =>
    copy source target targetStart sourceStart sourceEnd
  | .subarray v start stop => .view (subarray v start stop)
  | .read k v o => read k v o
  | .toString v encoding start stop => .text (toString v encoding start stop)

end Mini

/-! ### `Buffer` -/

namespace Node

/-- A pair of hexadecimal digits for each byte; what follows the last pair is left out. -/
def fromHex : JsString → Bytes
  | u :: v :: s =>
    match Mini.digit u, Mini.digit v with
    | some h, some l => UInt8.ofNat (h * 16 + l) :: fromHex s
    | _, _ => []
  | _ => []

def fromString (value : JsString) : Encoding → Bytes
  | .hex => fromHex value
  | .latin1 => latin1 value
  | .utf8 => utf8 value

/-- The bytes of the buffers, cut or filled with zeros to the length.  An empty list gives an empty
buffer, whatever the length. -/
def concat (list : List View) (totalLength : Option Nat) : Bytes :=
  let all := list.flatMap View.bytes
  let len := if list = [] then 0 else totalLength.getD all.length
  all.take len ++ List.replicate (len - all.length) 0

/-- The order in which the two are sorted. -/
def compare (a b : View) : Int :=
  if a.bytes = b.bytes then 0 else if a.bytes < b.bytes then -1 else 1

def byteLength (str : JsString) : Encoding → Nat
  | .hex => str.length / 2
  | encoding => (fromString str encoding).length

/-- The bytes from `start` on, up to `stop`. -/
def slice (v : View) (start : Nat) (stop : Option Nat) : Bytes :=
  (v.bytes.take (stop.getD v.length)).drop start

def read (k : Number) (v : View) (o : Nat) : Result :=
  if o + k.size ≤ v.length then k.ofBits (readUInt ((v.bytes.drop o).take k.size)) else .thrown

/-- As many bytes as the target has room for. -/
def copy (source target : View) (targetStart sourceStart : Nat) (sourceEnd : Option Nat) : Result :=
  let copied := (slice source sourceStart sourceEnd).take (target.length - targetStart)
  .copied copied.length (overwrite target.bytes copied targetStart)

def toString (v : View) (encoding : Encoding) (start : Nat) (stop : Option Nat) : JsString :=
  match encoding with
  | .hex => hex (slice v start stop)
  | .latin1 => (slice v start stop).map fun b => UInt16.ofNat b.toNat
  | .utf8 => utf8Lossy (slice v start stop)

def call : Call → Result
  | .fromString value encoding => .buffer (fromString value encoding)
  | .fromMemory value byteOffset length =>
    match View.of? value byteOffset length with
    | some v => .view v
    | none => .thrown
  | .fromBytes value => .buffer value.bytes
  | .concat list totalLength => .buffer (concat list totalLength)
  | .compare a b => .number (compare a b)
  | .byteLength str encoding => .number (byteLength str encoding)
  | .copy source target targetStart sourceStart sourceEnd =>
    copy source target targetStart sourceStart sourceEnd
  | .subarray v start stop =>
    .view (v.part (relative v.length (start.getD 0)) (relative v.length (stop.getD v.length))
      ⟨relative_le _ _, relative_le _ _⟩)
  | .read k v o => read k v o
  | .toString v encoding start stop => .text (toString v encoding start stop)

end Node

/-! ### When the two agree -/

/-- The offsets lie in the buffers. -/
def Call.InRange : Call → Prop
  | .fromMemory value byteOffset length =>
    byteOffset ≤ value.length ∧ byteOffset + length.getD 0 ≤ value.length
  | .copy source target targetStart sourceStart sourceEnd =>
    targetStart ≤ target.length ∧ sourceStart ≤ sourceEnd.getD source.length ∧
      sourceEnd.getD source.length ≤ source.length
  | .read k v o => o + k.size ≤ v.length
  | .toString v _ start stop => start ≤ stop.getD v.length ∧ stop.getD v.length ≤ v.length
  | _ => True

/-- Pairs of hexadecimal digits, and perhaps one character more. -/
def IsHex : JsString → Prop
  | u :: v :: s => ((Mini.digit u).isSome = true ∧ (Mini.digit v).isSome = true) ∧ IsHex s
  | _ => True

/-- No byte order mark is decoded, no hexadecimal text is broken, no total length is asked of no
buffers, and what is copied has room. -/
def Call.Agrees : Call → Prop
  | .fromString value .hex => IsHex value
  | .concat list totalLength => list ≠ [] ∨ totalLength.getD 0 = 0
  | .copy source target targetStart sourceStart sourceEnd =>
    targetStart + (sourceEnd.getD source.length - sourceStart) ≤ target.length
  | .toString v .utf8 start stop => ¬HasMark ((v.bytes.take (stop.getD v.length)).drop start)
  | _ => True

/-- A decoder: the calls that it makes, each of which may depend on the results so far. -/
inductive Decoding (α : Type)
  | done (a : α)
  | call (c : Call) (next : Result → Decoding α)

namespace Decoding

variable {α : Type}

def run (f : Call → Result) : Decoding α → α
  | done a => a
  | call c next => run f (next (f c))

/-- With the `Buffer` of Node, every call is one on which `MiniBuffer` agrees. -/
def Agrees : Decoding α → Prop
  | done _ => True
  | call c next => c.InRange ∧ c.Agrees ∧ (next (Node.call c)).Agrees

end Decoding

/-! ### Hexadecimal text -/

namespace Mini

theorem digit_bounds {u : UInt16} {n : Nat} (h : digit u = some n) :
    n < 16 ∧ (48 ≤ u.toNat ∧ u.toNat ≤ 57 ∨ 97 ≤ u.toNat ∧ u.toNat ≤ 102 ∨
      65 ≤ u.toNat ∧ u.toNat ≤ 70) := by
  rw [digit] at h
  split at h
  · cases h
    omega
  · split at h
    · cases h
      omega
    · split at h
      · cases h
        omega
      · cases h

/-- A digit is no blank and no sign, and no `x`. -/
theorem digit_plain {u : UInt16} {n : Nat} (h : digit u = some n) :
    isBlankUnit u = false ∧ u ≠ 45 ∧ u ≠ 43 ∧ u ≠ 120 ∧ u ≠ 88 := by
  obtain ⟨-, hu⟩ := digit_bounds h
  have hne : ∀ v : UInt16, v.toNat ∉ List.range' 48 10 ++ List.range' 97 6 ++ List.range' 65 6 →
      u ≠ v := by
    rintro v hv rfl
    apply hv
    simp only [List.mem_append, List.mem_range'_1]
    omega
  refine ⟨?_, hne 45 (by decide), hne 43 (by decide), hne 120 (by decide), hne 88 (by decide)⟩
  have hspace : 0x2000 ≤ u.toNat → 0x200a < u.toNat := by omega
  simp only [isBlankUnit, List.contains_eq_mem, List.mem_cons, List.not_mem_nil, or_false]
  simpa [hne] using hspace

/-- Two digits are a byte. -/
theorem parseInt16_digits {u v : UInt16} {h l : Nat} (hu : digit u = some h)
    (hv : digit v = some l) : parseInt16 [u, v] = some ((h * 16 + l : Nat) : Int) := by
  obtain ⟨hblank, hminus, hplus, -, -⟩ := digit_plain hu
  obtain ⟨-, -, -, hx, hX⟩ := digit_plain hv
  have hskip : skipPrefix [u, v] = [u, v] := by
    rw [skipPrefix.eq_def]
    split
    next heq => exact absurd (List.cons.inj (List.cons.inj heq).2).1 hx
    next heq => exact absurd (List.cons.inj (List.cons.inj heq).2).1 hX
    next => rfl
  have hdigits : digits [u, v] none = some (h * 16 + l) := by simp [digits, hu, hv]
  have hdrop : [u, v].dropWhile isBlankUnit = [u, v] := by simp [List.dropWhile, hblank]
  rw [parseInt16, hdrop]
  split
  next heq => exact absurd (List.cons.inj heq).1 hminus
  next heq => exact absurd (List.cons.inj heq).1 hplus
  next => rw [hskip, hdigits]; rfl

theorem length_fromHex : ∀ s : JsString, (fromHex s).length = s.length / 2
  | [] => rfl
  | [_] => by simp [fromHex]
  | u :: v :: s => by
    have ih := length_fromHex s
    simp only [fromHex, List.length_cons]
    omega

end Mini

theorem Node.length_fromHex_le : ∀ s : JsString, (Node.fromHex s).length ≤ s.length / 2
  | [] => Nat.le_refl _
  | [_] => by simp [Node.fromHex]
  | u :: v :: s => by
    have ih := Node.length_fromHex_le s
    rw [Node.fromHex]
    split
    · simp only [List.length_cons]
      omega
    · exact Nat.zero_le _

/-- `MiniBuffer` goes on where Node stops. -/
theorem fromHex_iff : ∀ s : JsString, Mini.fromHex s = Node.fromHex s ↔ IsHex s
  | [] => iff_of_true rfl trivial
  | [_] => iff_of_true rfl trivial
  | u :: v :: s => by
    have ih := fromHex_iff s
    rw [Mini.fromHex, Node.fromHex, IsHex]
    cases hu : Mini.digit u with
    | none => simp
    | some h =>
      cases hv : Mini.digit v with
      | none => simp
      | some l =>
        have hh := (Mini.digit_bounds hu).1
        have hl := (Mini.digit_bounds hv).1
        have hbyte : Mini.toUint8 (Mini.parseInt16 [u, v]) = UInt8.ofNat (h * 16 + l) := by
          have hmod : (((h * 16 + l : Nat) : Int) % 256).toNat = h * 16 + l := by omega
          rw [Mini.parseInt16_digits hu hv, Mini.toUint8, Option.getD_some, hmod]
        simp [hbyte, ih]

/-- Of the bytes of a buffer, an entry of `HEX` for each. -/
theorem hexEntry_eq (b : UInt8) :
    Mini.hexEntry b.toNat = [hexDigit (b.toNat / 16), hexDigit (b.toNat % 16)] := by
  have hall : ∀ i < 256, Mini.hexEntry i = [hexDigit (i / 16), hexDigit (i % 16)] := by
    decide +kernel
  exact hall _ b.toNat_lt

/-! ### Pieces of buffers -/

/-- Within the buffer, a part has the bytes of a slice. -/
theorem bytes_subarray (v : View) {start stop : Nat} (hstart : start ≤ v.length)
    (hstop : stop ≤ v.length) :
    (Mini.subarray v (some start) (some stop)).bytes = (v.bytes.take stop).drop start := by
  rw [Mini.subarray, View.bytes_part, Option.getD_some, Option.getD_some,
    relative_natCast hstart, relative_natCast hstop]

theorem length_subarray (v : View) {start stop : Nat} (hstart : start ≤ v.length)
    (hstop : stop ≤ v.length) :
    (Mini.subarray v (some start) (some stop)).length = stop - start := by
  have hbytes := congrArg List.length (bytes_subarray v hstart hstop)
  rwa [View.length_bytes, List.length_drop, List.length_take, View.length_bytes,
    Nat.min_eq_left hstop] at hbytes

/-- A getter reads the bytes of the buffer, wherever in the memory they are. -/
theorem read_eq (k : Number) (v : View) (o : Nat) : Mini.read k v o = Node.read k v o := by
  rw [Mini.read, Node.read]
  split
  next h =>
    have hbytes : (v.memory.drop (v.byteOffset + o)).take k.size =
        (v.bytes.drop o).take k.size := by
      have hmin : min k.size (v.length - o) = k.size := by omega
      rw [View.bytes, List.drop_take, List.drop_drop, List.take_take, hmin]
    rw [hbytes]
  next => rfl

theorem toString_eq_iff (v : View) (encoding : Encoding) {start : Nat} {stop : Option Nat}
    (h : start ≤ stop.getD v.length ∧ stop.getD v.length ≤ v.length) :
    Mini.toString v encoding start stop = Node.toString v encoding start stop ↔
      (Call.toString v encoding start stop).Agrees := by
  have hbytes := bytes_subarray v (h.1.trans h.2) h.2
  cases encoding with
  | hex =>
    refine iff_of_true ?_ trivial
    simp only [Mini.toString, Node.toString, hbytes]
    exact List.flatMap_congr fun b _ => hexEntry_eq b
  | latin1 =>
    refine iff_of_true ?_ trivial
    simp only [Mini.toString, Node.toString, hbytes]
    rfl
  | utf8 =>
    simp only [Mini.toString, Node.toString, hbytes]
    exact textDecode_eq_iff _

theorem copy_eq_iff (source target : View) {targetStart sourceStart : Nat} {sourceEnd : Option Nat}
    (h : targetStart ≤ target.length ∧ sourceStart ≤ sourceEnd.getD source.length ∧
      sourceEnd.getD source.length ≤ source.length) :
    Mini.copy source target targetStart sourceStart sourceEnd =
        Node.copy source target targetStart sourceStart sourceEnd ↔
      (Call.copy source target targetStart sourceStart sourceEnd).Agrees := by
  obtain ⟨htarget, hstart, hstop⟩ := h
  have hbytes := bytes_subarray source (hstart.trans hstop) hstop
  have hlength := length_subarray source (hstart.trans hstop) hstop
  have hslice : (Node.slice source sourceStart sourceEnd).length =
      sourceEnd.getD source.length - sourceStart := by
    rw [Node.slice, ← hbytes, View.length_bytes, hlength]
  rw [Mini.copy, Node.copy, hlength]
  split
  next hfits =>
    refine iff_of_true ?_ hfits
    have hroom : (Node.slice source sourceStart sourceEnd).take (target.length - targetStart) =
        Node.slice source sourceStart sourceEnd := by
      apply List.take_of_length_le
      omega
    rw [hroom, hslice, hbytes, Node.slice]
  next hnot => exact iff_of_false nofun hnot

/-! ### `concat` and `compare` -/

theorem concatLoop_eq (len : Nat) : ∀ (list : List View) (done : Bytes), done.length ≤ len →
    Mini.concatLoop len list done.length (done ++ List.replicate (len - done.length) 0) =
      done ++ (list.flatMap View.bytes).take (len - done.length) ++
        List.replicate (len - done.length - (list.flatMap View.bytes).length) 0 := by
  intro list
  induction list with
  | nil => simp [Mini.concatLoop]
  | cons b list ih =>
    intro done hdone
    rw [Mini.concatLoop, List.flatMap_cons, List.length_append, View.length_bytes]
    split
    next hover =>
      have hroom : len - done.length ≤ b.length := by omega
      have hcut : ((len : Int) - done.length) = ((len - done.length : Nat) : Int) := by omega
      have hpart : (Mini.subarray b (some 0) (some ((len : Int) - done.length))).bytes =
          b.bytes.take (len - done.length) := by
        have hzero := bytes_subarray b (Nat.zero_le b.length) hroom
        rw [hcut]
        exact hzero
      have hpartLength : (b.bytes.take (len - done.length)).length = len - done.length := by
        rw [List.length_take, View.length_bytes, Nat.min_eq_left hroom]
      have hzeros : len - done.length - (b.length + (list.flatMap View.bytes).length) = 0 := by
        omega
      rw [hpart, overwrite, hpartLength, hzeros, List.replicate_zero, List.append_nil,
        List.take_left, List.take_append_of_le_length (by rwa [View.length_bytes])]
      have hnone : (done ++ List.replicate (len - done.length) 0).drop
          (done.length + (len - done.length)) = [] := by
        apply List.drop_of_length_le
        simp
      rw [hnone, List.append_nil]
    next hfits =>
      have hfits : done.length + b.length ≤ len := Nat.le_of_not_lt hfits
      have hout : overwrite (done ++ List.replicate (len - done.length) 0) b.bytes done.length =
          (done ++ b.bytes) ++ List.replicate (len - (done ++ b.bytes).length) 0 := by
        rw [overwrite, List.take_left, List.drop_append, View.length_bytes, List.length_append,
          View.length_bytes, List.drop_replicate]
        have hdrop : done.drop (done.length + b.length) = [] := by
          apply List.drop_of_length_le
          omega
        have hcount : len - done.length - (done.length + b.length - done.length) =
            len - (done.length + b.length) := by omega
        rw [hdrop, List.nil_append, hcount]
      have hnext := ih (done ++ b.bytes) (by simpa using hfits)
      rw [List.length_append, View.length_bytes] at hnext hout
      rw [hout, hnext, List.take_append, View.length_bytes]
      have htake : b.bytes.take (len - done.length) = b.bytes := by
        apply List.take_of_length_le
        rw [View.length_bytes]
        omega
      have hcount : len - done.length - b.length = len - (done.length + b.length) := by omega
      have hrest : len - done.length - (b.length + (list.flatMap View.bytes).length) =
          len - (done.length + b.length) - (list.flatMap View.bytes).length := by omega
      rw [htake, hcount, hrest]
      simp only [List.append_assoc]

theorem concat_eq_iff (list : List View) (totalLength : Option Nat) :
    Mini.concat list totalLength = Node.concat list totalLength ↔
      (Call.concat list totalLength).Agrees := by
  have hsum : (list.map View.length).sum = (list.flatMap View.bytes).length := by
    simp [List.length_flatMap]
  have hmini : ∀ len, Mini.concatLoop len list 0 (List.replicate len 0) =
      (list.flatMap View.bytes).take len ++
        List.replicate (len - (list.flatMap View.bytes).length) 0 :=
    fun len => concatLoop_eq len list [] (Nat.zero_le _)
  rw [Mini.concat, hmini, hsum, Node.concat, Call.Agrees]
  by_cases hlist : list = []
  · subst hlist
    cases totalLength with
    | none => simp
    | some len => simp
  · rw [if_neg hlist]
    exact iff_of_true rfl (.inl hlist)

theorem compareLoop_eq : ∀ a b : Bytes,
    (match Mini.compareLoop a b with
      | some n => n
      | none => if a.length = b.length then 0 else if a.length < b.length then -1 else 1) =
      if a = b then (0 : Int) else if a < b then -1 else 1
  | [], [] => rfl
  | [], _ :: _ => by simp [Mini.compareLoop]
  | _ :: _, [] => by simp [Mini.compareLoop]
  | x :: a, y :: b => by
    have ih := compareLoop_eq a b
    rw [Mini.compareLoop]
    by_cases hxy : x = y
    · subst hxy
      simpa [List.cons_lt_cons_iff] using ih
    · simp [hxy, List.cons_lt_cons_iff]

theorem compare_eq (a b : View) : Mini.compare a b = Node.compare a b := by
  have hloop := compareLoop_eq a.bytes b.bytes
  rwa [View.length_bytes, View.length_bytes] at hloop

/-! ### Calls and decoders -/

/-- **Call by call**: in range, `MiniBuffer` returns what the `Buffer` of Node returns exactly where
the two agree. -/
theorem call_eq_iff (c : Call) (h : c.InRange) : Mini.call c = Node.call c ↔ c.Agrees := by
  cases c with
  | fromString value encoding =>
    simp only [Mini.call, Node.call, Result.buffer.injEq]
    cases encoding with
    | hex => exact fromHex_iff value
    | latin1 =>
      refine iff_of_true ?_ trivial
      refine List.map_congr_left fun u _ => UInt8.toNat_inj.mp ?_
      simp [byteOf]
    | utf8 => exact iff_of_true rfl trivial
  | fromMemory value byteOffset length => exact iff_of_true rfl trivial
  | fromBytes value => exact iff_of_true rfl trivial
  | concat list totalLength =>
    simp only [Mini.call, Node.call, Result.buffer.injEq]
    exact concat_eq_iff list totalLength
  | compare a b =>
    refine iff_of_true ?_ trivial
    rw [Mini.call, Node.call, compare_eq]
  | byteLength str encoding =>
    refine iff_of_true ?_ trivial
    cases encoding with
    | hex => rfl
    | latin1 =>
      simp [Mini.call, Node.call, Mini.byteLength, Node.byteLength, Node.fromString, latin1]
    | utf8 => rfl
  | copy source target targetStart sourceStart sourceEnd => exact copy_eq_iff source target h
  | subarray v start stop => exact iff_of_true rfl trivial
  | read k v o =>
    refine iff_of_true ?_ trivial
    rw [Mini.call, Node.call, read_eq]
  | toString v encoding start stop =>
    simp only [Mini.call, Node.call, Result.text.injEq]
    exact toString_eq_iff v encoding h

theorem Decoding.run_eq {α : Type} : ∀ p : Decoding α, p.Agrees → p.run Mini.call = p.run Node.call
  | .done _, _ => rfl
  | .call c next, h => by
    rw [Decoding.run, Decoding.run, (call_eq_iff c h.1).mpr h.2.1]
    exact run_eq (next (Node.call c)) h.2.2

/-- **The polyfill is the `Buffer` of Node but for four kinds of calls**, and a result whose
decoding makes none of them is the same on both. -/
theorem polyfill_iff {α : Type} (c : Call) (hc : c.InRange) (p : Decoding α) :
    (Mini.call c = Node.call c ↔ c.Agrees) ∧ (p.Agrees → p.run Mini.call = p.run Node.call) :=
  ⟨call_eq_iff c hc, p.run_eq⟩

/-! ### Two cells -/

/-- Some bytes in the middle of a memory. -/
def viewOf (bytes : Bytes) : View where
  memory := 0 :: 1 :: 2 :: bytes
  byteOffset := 3
  length := bytes.length
  inside := by simp; omega

/-- The text of a cell, after its length. -/
def cellText (v : View) : Decoding Result :=
  .call (.read .int32 v 0) fun
    | .number n => .call (.toString v .utf8 4 (some (4 + n.toNat))) .done
    | r => .done r

/-- `aé`, and a byte that is no text. -/
def accented : View := viewOf [0, 0, 0, 4, 0x61, 0xc3, 0xa9, 0xff]

theorem polyfill_iff_accented :
    Mini.call (.toString accented .utf8 4 (some 8)) =
        Node.call (.toString accented .utf8 4 (some 8)) ∧
      (cellText accented).run Mini.call = (cellText accented).run Node.call := by
  have hrange : Call.InRange (.toString accented .utf8 4 (some 8)) := show _ ∧ _ by decide
  have hagrees : Call.Agrees (.toString accented .utf8 4 (some 8)) := show ¬HasMark _ by decide
  obtain ⟨hcall, hrun⟩ := polyfill_iff (.toString accented .utf8 4 (some 8)) hrange
    (cellText accented)
  exact ⟨hcall.mpr hagrees, hrun ⟨show _ ≤ _ by decide, trivial, hrange, hagrees, trivial⟩⟩

/-- A cell that begins with a byte order mark. -/
theorem mark_lost : ¬ ∀ c : Call, c.InRange → Mini.call c = Node.call c := by
  intro h
  have heq := h (.toString (viewOf [0xef, 0xbb, 0xbf, 0x61]) .utf8 0 none) (show _ ∧ _ by decide)
  exact absurd heq (by decide)

end Minipg.Polyfill
