import Minipg.Protocol
import Minipg.Decode.Cells
import Minipg.Lib.Offsets

/-!
# Geometries of PostGIS

`parseWkb` (`src/geometry.ts`) reads (E)WKB bytes into an object of the shape of GeoJSON.  A part of
a geometry is a geometry of its own, with its own byte order, dimensions and SRID.  `parse` is the
function with a bound on how deep parts are nested; no buffer nests them deeper than its length
(`parse_eq`).
-/

namespace Minipg.Wkb

open Js Offsets
open Cells (Bytes slice)

/-- `GEO_TYPES`, without the first one. -/
inductive GeoType
  | point
  | lineString
  | polygon
  | multiPoint
  | multiLineString
  | multiPolygon
  | geometryCollection
  deriving DecidableEq, Repr

/-- `GEO_TYPES[typeId]`. -/
def GeoType.ofId : Nat → Option GeoType
  | 1 => some point
  | 2 => some lineString
  | 3 => some polygon
  | 4 => some multiPoint
  | 5 => some multiLineString
  | 6 => some multiPolygon
  | 7 => some geometryCollection
  | _ => none

/-- Numbers in nested arrays. -/
inductive Coordinates
  | undefined
  | number (x : Double)
  | array (items : List Coordinates)

structure GeoJson where
  type : GeoType
  coordinates : Coordinates := .undefined
  geometries : Option (List GeoJson) := none
  srid : Option Nat := none

abbrev Parser := Read UInt8 Js.JsError

/-! ### Numbers -/

/-- `readUInt…LE` and `readUInt…BE`, which throw past the end. -/
def unsigned (le : Bool) (size : Nat) : Parser Nat := fun b o =>
  if o + size ≤ b.length then
    let bytes := if le then (slice b o size).reverse else slice b o size
    .ok (bytes.foldl (fun n c => n * 256 + c.toNat) 0, o + size)
  else .error .rangeError

def u32 (le : Bool) : Parser Nat := unsigned le 4

def f64 (le : Bool) : Parser Double := do return BitVec.ofNat 64 (← unsigned le 8)

/-- `b[pos] === 1` -/
def isLittle : Parser Bool := fun b pos => .ok (b[pos]? = some 1, pos + 1)

/-! ### The type code -/

/-- `raw & 0x80000000` -/
def hasZflag (raw : Nat) : Bool := raw.testBit 31

/-- `raw & 0x40000000` -/
def hasMflag (raw : Nat) : Bool := raw.testBit 30

/-- `raw & 0x20000000` -/
def hasSrid (raw : Nat) : Bool := raw.testBit 29

def isoBase (raw : Nat) : Nat := raw % 2 ^ 28 % 1000

def isoDims (raw : Nat) : Nat := raw % 2 ^ 28 / 1000

def dims (raw : Nat) : Nat :=
  2 + (if hasZflag raw ∨ isoDims raw = 1 ∨ isoDims raw = 3 then 1 else 0) +
    (if hasMflag raw ∨ isoDims raw = 2 ∨ isoDims raw = 3 then 1 else 0)

/-! ### Geometries -/

def point (le : Bool) (dims : Nat) : Parser Coordinates := do
  return .array ((← times (f64 le) dims).map .number)

def ring (le : Bool) (dims : Nat) : Parser Coordinates := do
  let n ← u32 le
  return .array (← times (point le dims) n)

def unsupported (typeId : Nat) : Js.JsError :=
  .error ("minipg: unsupported WKB geometry type " ++ toString typeId)

/-- What follows the header; `part` reads a nested geometry. -/
def body (part : Parser GeoJson) (le : Bool) (dims : Nat) : GeoType → Parser GeoJson
  | .point => do return { type := .point, coordinates := ← point le dims }
  | .lineString => do return { type := .lineString, coordinates := ← ring le dims }
  | .polygon => do
    let n ← u32 le
    return { type := .polygon, coordinates := .array (← times (ring le dims) n) }
  | type => do
    let n ← u32 le
    let parts ← times part n
    return if type = .geometryCollection then { type := type, geometries := some parts }
      else { type := type, coordinates := .array (parts.map GeoJson.coordinates) }

/-- The SRID, when there is one. -/
def sridOf (le : Bool) (raw : Nat) : Parser (Option Nat) :=
  if hasSrid raw then do return some (← u32 le) else pure none

def node (part : Parser GeoJson) : Parser GeoJson := do
  let le ← isLittle
  let raw ← u32 le
  let srid ← sridOf le raw
  match GeoType.ofId (isoBase raw) with
  | none => throw (unsupported (isoBase raw))
  | some type => do
    let geo ← body part le (dims raw) type
    return { geo with srid := srid }

def parse : Nat → Parser GeoJson
  | 0 => throw .rangeError
  | depth + 1 => node (parse depth)

def parseWkb : Parser GeoJson := fun b pos => parse (b.length + 1 - pos) b pos

/-! ### The depth -/

theorem unsigned_ok {le : Bool} {size : Nat} {b : Bytes} {o n e : Nat}
    (h : unsigned le size b o = .ok (n, e)) : e = o + size := by
  unfold unsigned at h
  split at h
  · cases h
    rfl
  · cases h

theorem unsigned_forward (le : Bool) (size : Nat) : Forward (unsigned le size) := by
  intro b o n e h
  rw [unsigned_ok h]
  exact Nat.le_add_right o size

theorem f64_forward (le : Bool) : Forward (f64 le) :=
  (unsigned_forward le 8).bind fun _ => .pure _

theorem point_forward (le : Bool) (dims : Nat) : Forward (point le dims) :=
  (Forward.times (f64_forward le) dims).bind fun _ => .pure _

theorem ring_forward (le : Bool) (dims : Nat) : Forward (ring le dims) :=
  (unsigned_forward le 4).bind fun n =>
    (Forward.times (point_forward le dims) n).bind fun _ => .pure _

theorem sridOf_forward (le : Bool) (raw : Nat) : Forward (sridOf le raw) := by
  unfold sridOf
  split
  · exact (unsigned_forward le 4).bind fun _ => .pure _
  · exact .pure none

theorem body_forward {part : Parser GeoJson} (h : Forward part) (le : Bool) (dims : Nat)
    (type : GeoType) : Forward (body part le dims type) := by
  have hmany : Forward (do
      let n ← u32 le
      let parts ← times part n
      return if type = .geometryCollection then ({ type := type, geometries := some parts } : GeoJson)
        else { type := type, coordinates := .array (parts.map GeoJson.coordinates) }) :=
    (unsigned_forward le 4).bind fun n => (Forward.times h n).bind fun _ => .pure _
  cases type with
  | point => exact (point_forward le dims).bind fun _ => .pure _
  | lineString => exact (ring_forward le dims).bind fun _ => .pure _
  | polygon =>
    exact (unsigned_forward le 4).bind fun n =>
      (Forward.times (ring_forward le dims) n).bind fun _ => .pure _
  | multiPoint => exact hmany
  | multiLineString => exact hmany
  | multiPolygon => exact hmany
  | geometryCollection => exact hmany

theorem node_forward {part : Parser GeoJson} (h : Forward part) : Forward (node part) := by
  refine Forward.bind ?_ fun le => (unsigned_forward le 4).bind fun raw =>
    (sridOf_forward le raw).bind fun srid => ?_
  · intro b o le e hle
    cases hle
    exact Nat.le_succ o
  · cases GeoType.ofId (isoBase raw) with
    | none => exact fun _ _ _ _ he => nomatch he
    | some type => exact (body_forward h le _ type).bind fun _ => .pure _

theorem parse_forward : ∀ depth, Forward (parse depth)
  | 0 => fun _ _ _ _ h => nomatch h
  | depth + 1 => node_forward (parse_forward depth)

theorem body_congr {p q : Parser GeoJson} {b : Bytes} {o : Nat} (hq : Forward q)
    (h : ∀ o', o ≤ o' → p b o' = q b o') (le : Bool) (dims : Nat) (type : GeoType) :
    body p le dims type b o = body q le dims type b o := by
  have hmany : ∀ f : List GeoJson → Parser GeoJson,
      (u32 le >>= fun n => times p n >>= f) b o = (u32 le >>= fun n => times q n >>= f) b o := by
    intro f
    refine bind_congr fun n e he => ?_
    have hto := unsigned_ok he
    show (times p n b e >>= _) = (times q n b e >>= _)
    rw [times_congr hq h n e (by omega)]
  cases type with
  | point => rfl
  | lineString => rfl
  | polygon => rfl
  | multiPoint => exact hmany _
  | multiLineString => exact hmany _
  | multiPolygon => exact hmany _
  | geometryCollection => exact hmany _

/-- A geometry has a header in front of its parts. -/
theorem node_congr {p q : Parser GeoJson} {b : Bytes} {o : Nat} (hq : Forward q)
    (h : ∀ o', o < o' → p b o' = q b o') : node p b o = node q b o := by
  refine bind_congr fun le o₁ h₁ => bind_congr fun raw o₂ h₂ => bind_congr fun srid o₃ h₃ => ?_
  cases h₁
  have hto := unsigned_ok h₂
  have hback := sridOf_forward _ raw b o₂ srid o₃ h₃
  cases GeoType.ofId (isoBase raw) with
  | none => rfl
  | some type =>
    show (body p _ (dims raw) type b o₃ >>= _) = (body q _ (dims raw) type b o₃ >>= _)
    rw [body_congr hq fun o' ho => h o' (by omega)]

theorem node_short {p : Parser GeoJson} {b : Bytes} {o : Nat} (h : b.length < o + 5) :
    node p b o = .error .rangeError := by
  show (unsigned _ 4 b (o + 1) >>= _) = _
  unfold unsigned
  rw [if_neg (by omega)]
  rfl

/-- **A bound on the depth does not matter** where the buffer ends before it. -/
theorem parse_eq {b : Bytes} : ∀ (depth depth' o : Nat), b.length < o + depth →
    b.length < o + depth' → parse depth b o = parse depth' b o
  | 0, 0, _, _, _ => rfl
  | 0, _ + 1, _, h, _ => (node_short (by omega)).symm
  | _ + 1, 0, _, _, h => node_short (by omega)
  | depth + 1, depth' + 1, o, h, h' =>
    node_congr (parse_forward depth') fun o' ho =>
      parse_eq depth depth' o' (by omega) (by omega)

theorem parseWkb_eq {b : Bytes} {depth o : Nat} (h : b.length < o + depth) :
    parseWkb b o = parse depth b o :=
  parse_eq _ _ o (by omega) h

end Minipg.Wkb
