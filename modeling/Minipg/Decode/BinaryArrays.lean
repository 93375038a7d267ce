import Minipg.Decode.BigEndian
import Minipg.Encode.Frames

/-!
# Binary arrays

`binArrayWith` (`src/decode.ts`) reads an array of any number of dimensions: their lengths, and then
the elements row by row, each as a value with its length.
-/

namespace Minipg.Cells

open Js

section Reading

variable (b : Bytes)

/-- The length of each dimension; its lower bound is skipped. -/
def readDims : Nat → Nat → Except JsError (List Int × Nat)
  | 0, p => .ok ([], p)
  | k + 1, p => do
    let n := signed 32 (← readBE 4 b p)
    let (dims, q) ← readDims k (p + 8)
    return (n :: dims, q)

/-- An element with its length. -/
def readElement (elem : Cell) (p : Nat) : Except JsError (Value × Nat) := do
  let len := signed 32 (← readBE 4 b p)
  if len = -1 then return (.null, p + 4)
  else return (← elem b (p + 4) len.toNat, p + 4 + len.toNat)

/-- `out[i]` for each `i`, one after the other. -/
def readMany (read : Nat → Except JsError (Value × Nat)) :
    Nat → Nat → Except JsError (List Value × Nat)
  | 0, p => .ok ([], p)
  | k + 1, p => do
    let (v, p) ← read p
    let (vs, p) ← readMany read k p
    return (v :: vs, p)

/-- `read` from the first of these dimensions on; `new Array(n)` throws where `n` is negative. -/
def readRows (elem : Cell) : List Int → Nat → Except JsError (List Value × Nat)
  | [], p => .ok ([], p)
  | n :: dims, p =>
    if n < 0 then .error .rangeError
    else if dims = [] then readMany (readElement b elem) n.toNat p
    else readMany (fun p => (readRows elem dims p).map fun r => (.array r.1, r.2)) n.toNat p

end Reading

def binArrayWith (elem : Cell) : Cell := fun b o _ => do
  let ndim := signed 32 (← readBE 4 b o)
  if ndim = 0 then return .array []
  else if ndim < 0 then throw .rangeError
  else
    let (dims, p) ← readDims b ndim.toNat (o + 12)
    let (vs, _) ← readRows b elem dims p
    return .array vs

/-! ### One dimension -/

open Encode (bigEndian framed Fits)

/-- The decoder reads this value from the bytes, wherever they are. -/
def ReadsAs (d : Cell) (body : Bytes) (v : Value) : Prop :=
  ∀ pre post : Bytes, d (pre ++ body ++ post) pre.length body.length = .ok v

/-- What stands for an element, and what is read. -/
inductive Element (d : Cell) : Option Bytes → Value → Prop
  | null : Element d none .null
  | value {body : Bytes} {v : Value} (fits : Fits (some body)) (reads : ReadsAs d body v) :
    Element d (some body) v

theorem readElement_framed {d : Cell} {body : Option Bytes} {v : Value} (h : Element d body v)
    (pre post : Bytes) : readElement (pre ++ framed body ++ post) d pre.length =
      .ok (v, (pre ++ framed body).length) := by
  cases h with
  | null =>
    have hread : readBE 4 (pre ++ framed none ++ post) pre.length = .ok 4294967295 :=
      readBE_bigEndian 4 (-1) pre post
    unfold readElement
    rw [hread, List.length_append]
    rfl
  | value fits reads =>
    rename_i body
    have hlen : body.length ≤ 2147483647 := fits body rfl
    have hread : readBE 4 (pre ++ framed (some body) ++ post) pre.length =
        .ok ((body.length : Int) % 256 ^ 4).toNat := by
      have hr := readBE_bigEndian 4 body.length pre (body ++ post)
      rw [← hr]
      simp only [framed, List.append_assoc]
    have hsigned : signed 32 ((body.length : Int) % 256 ^ 4).toNat = body.length :=
      @signed_emod 32 (by decide) _ (by omega) (by omega)
    have hvalue : d (pre ++ framed (some body) ++ post) (pre.length + 4) body.length = .ok v := by
      have hv := reads (pre ++ bigEndian 4 body.length) post
      rw [List.length_append, Encode.bigEndian_length] at hv
      rw [← hv]
      simp only [framed, List.append_assoc]
    have hend : (pre ++ framed (some body)).length = pre.length + 4 + body.length := by
      simp only [framed, List.length_append, Encode.bigEndian_length]
      omega
    unfold readElement
    rw [hread]
    show (if signed 32 _ = -1 then _ else _) = _
    rw [hsigned, if_neg (by omega), Int.toNat_natCast, hvalue, hend]
    rfl

/-- The elements are read one by one. -/
theorem readMany_framed {d : Cell} {bodies : List (Option Bytes)} {vs : List Value}
    (h : List.Forall₂ (Element d) bodies vs) : ∀ pre post : Bytes,
    readMany (readElement (pre ++ bodies.flatMap framed ++ post) d) bodies.length pre.length =
      .ok (vs, (pre ++ bodies.flatMap framed).length) := by
  induction h with
  | nil =>
    intro pre post
    simp [readMany]
  | cons hv _ ih =>
    rename_i body v bodies vs _
    intro pre post
    have hfirst := readElement_framed hv pre (bodies.flatMap framed ++ post)
    have hrest := ih (pre ++ framed body) post
    have hsplit : pre ++ (body :: bodies).flatMap framed ++ post =
        pre ++ framed body ++ (bodies.flatMap framed ++ post) := by
      simp only [List.flatMap_cons, List.append_assoc]
    rw [List.append_assoc (pre ++ framed body)] at hrest
    rw [hsplit, List.length_cons, readMany, hfirst]
    show (readMany (readElement _ d) bodies.length (pre ++ framed body).length >>= _) = _
    rw [hrest]
    simp only [List.flatMap_cons, List.append_assoc]
    rfl

/-- What stands before the elements of an array of one dimension. -/
def arrayHead (hasNull : Bool) (elem count : Nat) : Bytes :=
  bigEndian 4 1 ++ bigEndian 4 (if hasNull then 1 else 0) ++ bigEndian 4 elem ++
    bigEndian 4 count ++ bigEndian 4 1

theorem arrayHead_length (hasNull : Bool) (elem count : Nat) :
    (arrayHead hasNull elem count).length = 20 := by
  simp only [arrayHead, List.length_append, Encode.bigEndian_length]

/-- An array of one dimension, as it is sent. -/
def arrayBytes (hasNull : Bool) (elem : Nat) (bodies : List (Option Bytes)) : Bytes :=
  arrayHead hasNull elem bodies.length ++ bodies.flatMap framed

def emptyArrayBytes (elem : Nat) : Bytes := bigEndian 4 0 ++ bigEndian 4 0 ++ bigEndian 4 elem

theorem binArrayWith_empty (d : Cell) (elem : Nat) :
    ReadsAs (binArrayWith d) (emptyArrayBytes elem) (.array []) := by
  intro pre post
  have hread : readBE 4 (pre ++ emptyArrayBytes elem ++ post) pre.length = .ok 0 := by
    have hr := readBE_bigEndian 4 0 pre (bigEndian 4 0 ++ bigEndian 4 elem ++ post)
    rw [show (0 : Nat) = ((0 : Int) % 256 ^ 4).toNat from rfl, ← hr]
    simp only [emptyArrayBytes, List.append_assoc]
  unfold binArrayWith
  rw [hread]
  rfl

/-- **An array is read back**, of as many elements as an `Int32` counts. -/
theorem binArrayWith_array {d : Cell} {bodies : List (Option Bytes)} {vs : List Value}
    (h : List.Forall₂ (Element d) bodies vs) (hlen : bodies.length ≤ 2147483647) (hasNull : Bool)
    (elem : Nat) : ReadsAs (binArrayWith d) (arrayBytes hasNull elem bodies) (.array vs) := by
  intro pre post
  have hdim : readBE 4 (pre ++ arrayBytes hasNull elem bodies ++ post) pre.length = .ok 1 := by
    have hr := readBE_bigEndian 4 1 pre (bigEndian 4 (if hasNull then 1 else 0) ++
      bigEndian 4 elem ++ bigEndian 4 bodies.length ++ bigEndian 4 1 ++ bodies.flatMap framed ++
      post)
    rw [show (1 : Nat) = ((1 : Int) % 256 ^ 4).toNat from rfl, ← hr]
    simp only [arrayBytes, arrayHead, List.append_assoc]
  have hcount : readBE 4 (pre ++ arrayBytes hasNull elem bodies ++ post) (pre.length + 12) =
      .ok ((bodies.length : Int) % 256 ^ 4).toNat := by
    have hr := readBE_bigEndian 4 bodies.length
      (pre ++ bigEndian 4 1 ++ bigEndian 4 (if hasNull then 1 else 0) ++ bigEndian 4 elem)
      (bigEndian 4 1 ++ bodies.flatMap framed ++ post)
    simp only [List.length_append, Encode.bigEndian_length] at hr
    rw [← hr]
    simp only [arrayBytes, arrayHead, List.append_assoc]
  have hsigned : signed 32 ((bodies.length : Int) % 256 ^ 4).toNat = bodies.length :=
    @signed_emod 32 (by decide) _ (by omega) (by omega)
  have hmany : readMany (readElement (pre ++ arrayBytes hasNull elem bodies ++ post) d)
      bodies.length (pre.length + 20) =
        .ok (vs, (pre ++ arrayBytes hasNull elem bodies).length) := by
    have hm := readMany_framed h (pre ++ arrayHead hasNull elem bodies.length) post
    rw [List.append_assoc pre] at hm
    rwa [List.length_append, arrayHead_length] at hm
  unfold binArrayWith
  rw [hdim]
  show (readDims _ 1 (pre.length + 12) >>= _) = _
  rw [readDims, hcount]
  show (readRows _ d [signed 32 _] (pre.length + 20) >>= _) = _
  rw [hsigned, readRows, if_neg (by omega), if_pos rfl, Int.toNat_natCast, hmany]
  rfl

end Minipg.Cells
