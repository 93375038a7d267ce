import Minipg.Decode.BigEndian
import Minipg.Wkb.Parse

/-!
# The encoding of a geometry

A `Geometry` is what EWKB and ISO WKB can say: every node has its own byte order, and its
dimensions and its SRID are in its type code.  Counts have 32 bits, coordinates are any 8 bytes.
`encode` is the encoding of the two formats, and `parseWkb` reads it back (`parseWkb_encode`).
-/

namespace Minipg.Wkb

open Js Offsets Encode
open Cells (Bytes)

/-- The dimensions that ISO WKB adds to the type. -/
inductive Iso
  | xy
  | z
  | m
  | zm
  deriving DecidableEq, Repr

def Iso.offset : Iso → Nat
  | xy => 0
  | z => 1000
  | m => 2000
  | zm => 3000

/-- The type code: the flags of EWKB, and the offset and the type of ISO WKB. -/
def typeCode (z m srid : Bool) (iso : Iso) (typeId : Nat) : Nat :=
  z.toNat * 2 ^ 31 + m.toNat * 2 ^ 30 + srid.toNat * 2 ^ 29 + iso.offset + typeId

/-- The count of the items of a node. -/
abbrev Count := Fin (2 ^ 32)

structure Header where
  isLittle : Bool
  /-- The flags of EWKB. -/
  zFlag : Bool
  mFlag : Bool
  iso : Iso
  srid : Option (Fin (2 ^ 32))
  deriving DecidableEq

namespace Header

def hasZ (h : Header) : Bool := h.zFlag || h.iso = .z || h.iso = .zm

def hasM (h : Header) : Bool := h.mFlag || h.iso = .m || h.iso = .zm

/-- The coordinates of a point. -/
def dims (h : Header) : Nat := 2 + h.hasZ.toNat + h.hasM.toNat

def code (h : Header) (typeId : Nat) : Nat :=
  typeCode h.zFlag h.mFlag h.srid.isSome h.iso typeId

end Header

abbrev Position (h : Header) := Fin h.dims → Double

/-- What the parts of a multi-geometry are. -/
inductive Multi
  | points
  | lineStrings
  | polygons
  deriving DecidableEq

def Multi.type : Multi → GeoType
  | points => .multiPoint
  | lineStrings => .multiLineString
  | polygons => .multiPolygon

def Multi.id : Multi → Nat
  | points => 4
  | lineStrings => 5
  | polygons => 6

inductive Geometry
  | point (h : Header) (c : Position h)
  | lineString (h : Header) (n : Count) (points : Fin n → Position h)
  | polygon (h : Header) (n : Count) (size : Fin n → Count)
      (rings : (i : Fin n) → Fin (size i) → Position h)
  | multi (kind : Multi) (h : Header) (n : Count) (parts : Fin n → Geometry)
  | collection (h : Header) (n : Count) (parts : Fin n → Geometry)

/-! ### The encoding -/

/-- A number of `size` bytes. -/
def encodeUnsigned (isLittle : Bool) (size n : Nat) : Bytes :=
  if isLittle then (bigEndian size n).reverse else bigEndian size n

def encodeCount (h : Header) (n : Count) : Bytes := encodeUnsigned h.isLittle 4 n

def encodePoint (h : Header) (c : Position h) : Bytes :=
  (List.ofFn fun i => encodeUnsigned h.isLittle 8 (c i).toNat).flatten

def encodeRing (h : Header) (n : Count) (points : Fin n → Position h) : Bytes :=
  encodeCount h n ++ (List.ofFn fun i => encodePoint h (points i)).flatten

/-- The byte order, the type code and the SRID. -/
def Header.encode (h : Header) (typeId : Nat) : Bytes :=
  [if h.isLittle then 1 else 0] ++ encodeUnsigned h.isLittle 4 (h.code typeId) ++
    match h.srid with
    | some srid => encodeUnsigned h.isLittle 4 srid
    | none => []

def Geometry.encode : Geometry → Bytes
  | point h c => h.encode 1 ++ encodePoint h c
  | lineString h n points => h.encode 2 ++ encodeRing h n points
  | polygon h n size rings =>
    h.encode 3 ++ (encodeCount h n ++ (List.ofFn fun i => encodeRing h (size i) (rings i)).flatten)
  | multi kind h n parts =>
    h.encode kind.id ++ (encodeCount h n ++ (List.ofFn fun i => (parts i).encode).flatten)
  | collection h n parts =>
    h.encode 7 ++ (encodeCount h n ++ (List.ofFn fun i => (parts i).encode).flatten)

/-! ### The geometry -/

def position {h : Header} (c : Position h) : Coordinates :=
  .array (List.ofFn fun i => .number (c i))

def positions {h : Header} {n : Nat} (points : Fin n → Position h) : Coordinates :=
  .array (List.ofFn fun i => position (points i))

def Header.sridNumber (h : Header) : Option Nat := h.srid.map Fin.val

def Geometry.geoJson : Geometry → GeoJson
  | point h c => { type := .point, coordinates := position c, srid := h.sridNumber }
  | lineString h _ points =>
    { type := .lineString, coordinates := positions points, srid := h.sridNumber }
  | polygon h _ _ rings =>
    { type := .polygon
      coordinates := .array (List.ofFn fun i => positions (rings i))
      srid := h.sridNumber }
  | multi kind h _ parts =>
    { type := kind.type
      coordinates := .array (List.ofFn fun i => (parts i).geoJson.coordinates)
      srid := h.sridNumber }
  | collection h _ parts =>
    { type := .geometryCollection
      geometries := some (List.ofFn fun i => (parts i).geoJson)
      srid := h.sridNumber }

/-! ### The header -/

theorem typeCode_read (iso : Iso) : ∀ (z m srid : Bool) (id : Fin 8),
    typeCode z m srid iso id < 256 ^ 4 ∧ hasSrid (typeCode z m srid iso id) = srid ∧
      isoBase (typeCode z m srid iso id) = id ∧ dims (typeCode z m srid iso id) =
        2 + (z || iso = .z || iso = .zm).toNat + (m || iso = .m || iso = .zm).toNat := by
  cases iso with
  | xy => decide +kernel
  | z => decide +kernel
  | m => decide +kernel
  | zm => decide +kernel

theorem code_read (h : Header) {id : Nat} (hid : id < 8) :
    h.code id < 256 ^ 4 ∧ hasSrid (h.code id) = h.srid.isSome ∧ isoBase (h.code id) = id ∧
      dims (h.code id) = h.dims :=
  typeCode_read h.iso h.zFlag h.mFlag h.srid.isSome ⟨id, hid⟩

theorem unsigned_reads (isLittle : Bool) (size : Nat) {n : Nat} (h : n < 256 ^ size) :
    ReadsAt (unsigned isLittle size) (encodeUnsigned isLittle size n) n := by
  intro pre post
  have hlen : (encodeUnsigned isLittle size n).length = size := by
    unfold encodeUnsigned
    split
    · rw [List.length_reverse, bigEndian_length]
    · exact bigEndian_length size n
  have hslice := Cells.slice_middle pre (encodeUnsigned isLittle size n) post
  rw [hlen] at hslice
  have hfold := Cells.foldl_bigEndian size n 0
  have hval : ((n : Int) % 256 ^ size).toNat = n := by
    have hlt : (n : Int) < (256 ^ size : Nat) := Int.ofNat_lt.mpr h
    rw [Int.natCast_pow] at hlt
    exact (congrArg Int.toNat (Int.emod_eq_of_lt (Int.natCast_nonneg n) hlt)).trans
      (Int.toNat_natCast n)
  rw [hval, Nat.zero_mul, Nat.zero_add] at hfold
  unfold unsigned
  have hle : pre.length + size ≤ (pre ++ encodeUnsigned isLittle size n ++ post).length := by
    rw [List.length_append, List.length_append, hlen]
    omega
  rw [if_pos hle, hslice, hlen]
  cases isLittle with
  | true =>
    show Except.ok (List.foldl _ _ (List.reverse (List.reverse _)), _) = _
    rw [List.reverse_reverse, hfold]
  | false =>
    show Except.ok (List.foldl _ _ (bigEndian size n), _) = _
    rw [hfold]

theorem order_reads (le : Bool) : ReadsAt isLittle [if le then 1 else 0] le := by
  intro pre post
  have hget : (pre ++ [if le then 1 else 0] ++ post)[pre.length]? = some (if le then 1 else 0) := by
    rw [List.append_assoc, List.getElem?_append_right (Nat.le_refl _), Nat.sub_self]
    rfl
  show Except.ok (decide ((pre ++ _ ++ post)[pre.length]? = some 1), _) = _
  rw [hget]
  cases le <;> rfl

theorem srid_reads (h : Header) {id : Nat} (hid : id < 8) :
    ReadsAt (sridOf h.isLittle (h.code id))
      (match h.srid with
        | some srid => encodeUnsigned h.isLittle 4 srid
        | none => []) h.sridNumber := by
  have hhas := (code_read h hid).2.1
  unfold sridOf Header.sridNumber
  cases hs : h.srid with
  | none =>
    rw [hhas, hs]
    exact .pure none
  | some srid =>
    rw [hhas, hs]
    exact (unsigned_reads h.isLittle 4 srid.isLt).last (.pure _)

/-- **A node** is read header first, by what its type code says. -/
theorem node_reads {part : Parser GeoJson} (h : Header) {id : Nat} {type : GeoType} {bs : Bytes}
    {geo : GeoJson} (hid : id < 8) (htype : GeoType.ofId id = some type)
    (hbody : ReadsAt (body part h.isLittle h.dims type) bs geo) :
    ReadsAt (node part) (h.encode id ++ bs) { geo with srid := h.sridNumber } := by
  obtain ⟨hlt, -, hbase, hdims⟩ := code_read h hid
  unfold Header.encode
  rw [List.append_assoc, List.append_assoc]
  refine (order_reads h.isLittle).bind ((unsigned_reads h.isLittle 4 hlt).bind
    ((srid_reads h hid).bind ?_))
  rw [hbase, htype, hdims]
  exact hbody.last (.pure _)

/-! ### The bodies -/

theorem count_reads (h : Header) (n : Count) : ReadsAt (u32 h.isLittle) (encodeCount h n) n :=
  unsigned_reads h.isLittle 4 n.isLt

theorem f64_reads (le : Bool) (x : Double) :
    ReadsAt (f64 le) (encodeUnsigned le 8 x.toNat) x := by
  refine (unsigned_reads le 8 x.isLt).last ?_
  rw [BitVec.ofNat_toNat, BitVec.setWidth_eq]
  exact .pure x

theorem point_reads (h : Header) (c : Position h) :
    ReadsAt (point h.isLittle h.dims) (encodePoint h c) (position c) := by
  have hnumbers : position c = .array ((List.ofFn c).map .number) := by
    rw [List.map_ofFn]
    rfl
  rw [hnumbers]
  exact (ReadsAt.times fun i => f64_reads h.isLittle (c i)).last (.pure _)

theorem ring_reads (h : Header) (n : Count) (points : Fin n → Position h) :
    ReadsAt (ring h.isLittle h.dims) (encodeRing h n points) (positions points) :=
  (count_reads h n).bind ((ReadsAt.times fun i => point_reads h (points i)).last (.pure _))

/-- The parts of a node. -/
theorem parts_read {part : Parser GeoJson} (h : Header) (n : Count) {parts : Fin n → Geometry}
    (hpart : ∀ i, ReadsAt part (parts i).encode (parts i).geoJson) (f : List GeoJson → GeoJson) :
    ReadsAt (do let n ← u32 h.isLittle; let parts ← times part n; return f parts)
      (encodeCount h n ++ (List.ofFn fun i => (parts i).encode).flatten)
      (f (List.ofFn fun i => (parts i).geoJson)) :=
  (count_reads h n).bind ((ReadsAt.times hpart).last (.pure _))

/-! ### The round trip -/

theorem length_part_le {n : Nat} (parts : Fin n → Geometry) (i : Fin n) :
    (parts i).encode.length ≤ (List.ofFn fun i => (parts i).encode).flatten.length :=
  (List.sublist_flatten_of_mem
    ((List.mem_ofFn' (fun i => (parts i).encode) _).mpr ⟨i, rfl⟩)).length_le

theorem length_header_pos (h : Header) (id : Nat) : 0 < (h.encode id).length := by
  unfold Header.encode
  simp

/-- **A geometry is read back** wherever its encoding lies, whatever its parts are. -/
theorem parse_reads (g : Geometry) : ∀ depth, g.encode.length ≤ depth →
    ReadsAt (parse depth) g.encode g.geoJson := by
  have hsucc : ∀ {h : Header} {id : Nat} {bs : Bytes} {depth : Nat},
      (h.encode id ++ bs).length ≤ depth → ∃ d, depth = d + 1 ∧ bs.length ≤ d := by
    intro h id bs depth hle
    have hpos := length_header_pos h id
    rw [List.length_append] at hle
    exact ⟨depth - 1, by omega, by omega⟩
  induction g with
  | point h c =>
    intro depth hdepth
    obtain ⟨d, rfl, -⟩ := hsucc hdepth
    have hbody : ReadsAt (body (parse d) h.isLittle h.dims .point) (encodePoint h c)
        { type := .point, coordinates := position c } := (point_reads h c).last (.pure _)
    exact node_reads h (show 1 < 8 by decide) rfl hbody
  | lineString h n points =>
    intro depth hdepth
    obtain ⟨d, rfl, -⟩ := hsucc hdepth
    have hbody : ReadsAt (body (parse d) h.isLittle h.dims .lineString) (encodeRing h n points)
        { type := .lineString, coordinates := positions points } :=
      (ring_reads h n points).last (.pure _)
    exact node_reads h (show 2 < 8 by decide) rfl hbody
  | polygon h n size rings =>
    intro depth hdepth
    obtain ⟨d, rfl, -⟩ := hsucc hdepth
    have hrings := ReadsAt.times fun i => ring_reads h (size i) (rings i)
    have hbody : ReadsAt (body (parse d) h.isLittle h.dims .polygon) _
        { type := .polygon, coordinates := .array (List.ofFn fun i => positions (rings i)) } :=
      (count_reads h n).bind (hrings.last (.pure _))
    exact node_reads h (show 3 < 8 by decide) rfl hbody
  | multi kind h n parts ih =>
    intro depth hdepth
    obtain ⟨d, rfl, hle⟩ := hsucc hdepth
    rw [List.length_append] at hle
    have hparts := parts_read h n
      (fun i => ih i d (Nat.le_trans (length_part_le parts i) (by omega)))
      fun parts => { type := kind.type, coordinates := .array (parts.map GeoJson.coordinates) }
    have hcoordinates : (List.ofFn fun i => (parts i).geoJson).map GeoJson.coordinates =
        List.ofFn fun i => (parts i).geoJson.coordinates :=
      List.map_ofFn
    rw [hcoordinates] at hparts
    cases kind with
    | points => exact node_reads h (show 4 < 8 by decide) rfl hparts
    | lineStrings => exact node_reads h (show 5 < 8 by decide) rfl hparts
    | polygons => exact node_reads h (show 6 < 8 by decide) rfl hparts
  | collection h n parts ih =>
    intro depth hdepth
    obtain ⟨d, rfl, hle⟩ := hsucc hdepth
    rw [List.length_append] at hle
    have hparts := parts_read h n
      (fun i => ih i d (Nat.le_trans (length_part_le parts i) (by omega)))
      fun parts => { type := .geometryCollection, geometries := some parts }
    exact node_reads h (show 7 < 8 by decide) rfl hparts

/-- **`parseWkb` inverts the encoding** of every geometry, and stops at its end. -/
theorem parseWkb_encode (g : Geometry) : parseWkb g.encode 0 = .ok (g.geoJson, g.encode.length) := by
  rw [parseWkb_eq (show g.encode.length < 0 + (g.encode.length + 1) by omega)]
  exact (parse_reads g _ (Nat.le_succ _)).whole

end Minipg.Wkb
