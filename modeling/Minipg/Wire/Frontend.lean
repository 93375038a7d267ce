import Minipg.Encode.Writer
import Minipg.Wire.Parser
import Minipg.Js.Utf8

/-!
# The messages of the extended query protocol

The reader of the message format: a type, a length that covers itself, and fields that fill the
message.  A string ends with the first byte 0, a count has 16 bits without a sign.
-/

namespace Minipg.Frontend

open Js Taking

inductive Message
  | parse (name sql : JsString) (paramOids : List Int)
  | bind (portal statement : JsString) (formats : List Int)
      (values : List (Option (List UInt8))) (resultFormats : List Int)
  | describe (kind : Encode.Kind) (name : JsString)
  | execute (portal : JsString) (maxRows : Int)
  | close (kind : Encode.Kind) (name : JsString)
  deriving DecidableEq, Repr

/-! ### Fields -/

def uint16 : Take UInt8 Int := do
  let bs ← exactly 2
  return readUInt bs

def int32 : Take UInt8 Int := do
  let bs ← exactly 4
  let n := readUInt bs
  return if n < 2 ^ 31 then n else n - 2 ^ 32

def cstring : Take UInt8 JsString := do
  let bs ← before 0
  known (utf8Decode bs)

def counted {α : Type} (p : Take UInt8 α) : Take UInt8 (List α) := do
  let n ← uint16
  times p n.toNat

/-- A value, or NULL for the length -1. -/
def value : Take UInt8 (Option (List UInt8)) := do
  let n ← int32
  if n = -1 then return none
  else if n < 0 then failure
  else
    let bs ← exactly n.toNat
    return some bs

def kind : Take UInt8 Encode.Kind := do
  let b ← item
  if b = 83 then return .statement
  else if b = 80 then return .portal
  else failure

/-! ### Messages -/

/-- The fields of a message of this type. -/
def fields (type : UInt8) : Take UInt8 Message :=
  if type = 80 then do
    let name ← cstring
    let sql ← cstring
    let oids ← counted int32
    return .parse name sql oids
  else if type = 66 then do
    let portal ← cstring
    let statement ← cstring
    let formats ← counted uint16
    let values ← counted value
    let resultFormats ← counted uint16
    return .bind portal statement formats values resultFormats
  else if type = 68 then do
    let k ← kind
    let name ← cstring
    return .describe k name
  else if type = 69 then do
    let portal ← cstring
    let maxRows ← int32
    return .execute portal maxRows
  else if type = 67 then do
    let k ← kind
    let name ← cstring
    return .close k name
  else failure

def message : Take UInt8 Message := do
  let type ← item
  let length ← int32
  if length < 4 then failure
  else
    let body ← exactly (length - 4).toNat
    known (whole (fields type) body)

/-! ### What is read -/

open Encode (bigEndian)

theorem uint16_takes {n : Int} (h : 0 ≤ n) (hn : n ≤ 65535) : Takes uint16 (bigEndian 2 n) n := by
  refine (Takes.exactly (bigEndian 2 n)).last ?_
  have hread : (readUInt (bigEndian 2 n) : Int) = n := by
    simp only [bigEndian, readUInt, List.nil_append, List.cons_append, List.foldl_cons,
      List.foldl_nil]
    rw [toNat_byteOf (by omega), toNat_byteOf (by omega)]
    omega
  rw [hread]
  exact .pure n

theorem int32_takes {n : Int} (h : -2147483648 ≤ n) (hn : n ≤ 2147483647) :
    Takes int32 (bigEndian 4 n) n := by
  refine (Takes.exactly (bigEndian 4 n)).last ?_
  have hread : (readUInt (bigEndian 4 n) : Int) = n % 2 ^ 32 := by
    simp only [bigEndian, readUInt, List.nil_append, List.cons_append, List.foldl_cons,
      List.foldl_nil]
    rw [toNat_byteOf (by omega), toNat_byteOf (by omega), toNat_byteOf (by omega),
      toNat_byteOf (by omega)]
    omega
  have hsign : (if readUInt (bigEndian 4 n) < 2 ^ 31 then (readUInt (bigEndian 4 n) : Int)
      else readUInt (bigEndian 4 n) - 2 ^ 32) = n := by
    split
    · omega
    · omega
  dsimp only
  rw [hsign]
  exact .pure n

/-- What a string field can hold. -/
def Text (s : JsString) : Prop := 0 ∉ s ∧ isWellFormed s

theorem cstring_takes {s : JsString} (h : Text s) : Takes cstring (utf8 s ++ [0]) s :=
  (Takes.before (utf8_noNul h.1)).last (.known (utf8Decode_utf8 h.2))

theorem cstring_gives {S : UInt8 → Prop} : Gives S cstring Text :=
  (Gives.before 0).bind fun _ h => .known fun _ hs => ⟨(utf8Decode_gives hs).2 h,
    (utf8Decode_gives hs).1⟩

theorem counted_takes {α γ : Type} {p : Take UInt8 α} {enc : γ → List UInt8} {val : γ → α}
    {l : List γ} (hl : l.length ≤ 65535) (h : ∀ c ∈ l, Takes p (enc c) (val c)) :
    Takes (counted p) (bigEndian 2 l.length ++ l.flatMap enc) (l.map val) :=
  (uint16_takes (by omega) (by omega)).bind (Takes.times h)

theorem kind_takes (k : Encode.Kind) : Takes kind [byteOf k.code.toNat] k := by
  cases k <;> exact fun _ => rfl

/-- A whole message. -/
theorem message_takes {type : UInt8} {body : List UInt8} {m : Message}
    (hlen : (body.length : Int) + 4 ≤ 2147483647) (h : Takes (fields type) body m) :
    Takes message (type :: bigEndian 4 (body.length + 4) ++ body) m := by
  have hfour : ¬((body.length : Int) + 4 < 4) := by omega
  refine (Takes.item type).bind ((int32_takes (by omega) hlen).bind ?_)
  rw [if_neg hfour, Int.add_sub_cancel]
  exact (Takes.exactly body).last (.known h.whole)

end Minipg.Frontend
