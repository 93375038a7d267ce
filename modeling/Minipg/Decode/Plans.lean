import Minipg.Bulk.Statement
import Minipg.Decode.Columns
import Minipg.Decode.Rows

/-!
# Column plans

How a result is decoded is planned three times: by `Connection` (`src/connection.ts`), which may ask
for the binary format, by `HttpClient` (`src/http.ts`) and by `NeonHttpClient` (`src/neon-http.ts`),
which get text.  The names and the nesting of the columns are those of `Rows`; a shaped JSON column
has a decoder of its own, whatever it is.
-/

namespace Minipg.Plans

open Js Cells

/-- A column of a plan; `json` is its marker.  An array column has no type of its own. -/
structure Column (J : Type) extends CodegenCol where
  json : Option J := none
  array_instant : array.isSome → oid ∉ instantOids

/-- A column of a shape; the type of an `'unknown'` one, `oid: 0`, is that of the result. -/
inductive ShapeCol (J : Type)
  | unknown
  | known (c : Column J)

variable {J : Type}

/-- A column that is only known by its type. -/
def Column.plain (oid : Int) (format : WireFormat) : Column J where
  oid
  format
  array_oid h := by cases h
  array_instant h := by cases h

/-- `{ ...c, format: 'text' }`. -/
def Column.asText (c : Column J) : Column J := { c with format := .text }

def ShapeCol.asText : ShapeCol J → ShapeCol J
  | .unknown => .unknown
  | .known c => .known c.asText

/-! ### Shapes -/

def jsTargets : List String :=
  ["number", "string", "latin1", "date", "ms", "bigint", "precise", "pretty", "tuple", "xy", "abc",
    "array", "f32", "sparse", "hex", "wkb", "geojson"]

/-- The name of the type, and its target. -/
def splitType (s : JsString) : Except JsError (JsString × Target) :=
  match s.findIdx? (· = 0x3a) with
  | none => .ok (trim s, none)
  | some i =>
    match jsTargets.find? fun t => ascii t = Bulk.lower (trim (s.drop (i + 1))) with
    | some js => .ok (trim (s.take i), some js)
    | none => .error (.error "unknown JS target")

/-- The types whose columns are requested as binary. -/
def binaryFast : List Int := [21, 23, 26, 20, 701, 1082, 1114, 1184, 17]

def extOid (name : JsString) : Option Int :=
  if name = ascii "vector" then some (-1000)
  else if name = ascii "halfvec" then some (-1002)
  else if name = ascii "sparsevec" then some (-1003)
  else none

def typeOid (name : JsString) : Option Nat :=
  (Bulk.typeOids.find? fun e => ascii e.1 = name).map (·.2)

theorem arrayOid_plain {elem a : Nat} (h : Bulk.arrayOid elem = some a) :
    hasDefault a = false ∧ (a : Int) ∉ instantOids := by
  unfold Bulk.arrayOid at h
  split at h
  all_goals cases h
  all_goals exact ⟨rfl, by decide⟩

theorem extOid_plain {name : JsString} {o : Int} (h : extOid name = some o) :
    hasDefault o = false ∧ o ∉ instantOids := by
  unfold extOid at h
  split at h
  · cases h
    exact ⟨rfl, by decide⟩
  split at h
  · cases h
    exact ⟨rfl, by decide⟩
  split at h
  · cases h
    exact ⟨rfl, by decide⟩
  · cases h

/-- An array column. -/
def Column.arrayOf (oid : Int) (h : hasDefault oid = false ∧ oid ∉ instantOids) (elem : Int)
    (js : Target) : Column J where
  oid
  array := some (elem, js)
  array_oid _ := h.1
  array_instant _ := h.2

def Column.scalar (oid : Int) (js : Target) (format : WireFormat) : Column J where
  oid
  js
  format
  array_oid h := by cases h
  array_instant h := by cases h

/-- What a leaf of a shape declares; `custom` is a defined type by its sentinel. -/
inductive Declared (J : Type)
  | custom (oid : Int) (sentinel : oid ≤ -2000) (target : Target) (isArray : Bool)
  | json (jsonb : Bool) (marker : J)
  | type (t : JsString)

theorem sentinel_plain {oid : Int} (h : oid ≤ -2000) :
    hasDefault oid = false ∧ oid ∉ instantOids := by
  refine ⟨?_, ?_⟩
  · simp [hasDefault]
    omega
  · simp [instantOids]
    omega

/-- `resolveLeaf`. -/
def resolveLeaf : Declared J → Except JsError (ShapeCol J)
  | .custom oid h target isArray =>
    .ok (.known (if isArray then .arrayOf oid (sentinel_plain h) oid target
      else .scalar oid target .text))
  | .json jsonb marker =>
    let c : Column J := .scalar (if jsonb then 3802 else 114) none .text
    .ok (.known { c with json := some marker })
  | .type t =>
    if t = ascii "unknown" then .ok .unknown
    else do
      let (pg, js) ← splitType t
      match extOid (Bulk.lower pg) with
      | some o => .ok (.known (.scalar o js .text))
      | none =>
        if pg.drop (pg.length - 2) = Bulk.brackets then
          let elemName := Bulk.lower (pg.take (pg.length - 2))
          match h : extOid elemName with
          | some o => .ok (.known (.arrayOf o (extOid_plain h) o js))
          | none =>
            match typeOid elemName with
            | none => .error (.error "minipg: unknown array element type")
            | some elem =>
              match h : Bulk.arrayOid elem with
              | none => .error (.error "minipg: no array type known")
              | some a => .ok (.known (.arrayOf a (arrayOid_plain h) elem js))
        else
          match typeOid (Bulk.lower pg) with
          | none => .error (.error "minipg: unknown type")
          | some oid =>
            let binaryUnsafe := js = some "string" ∧ oid ≠ 20
            let binary := if oid = 700 then js = some "precise"
              else (oid : Int) ∈ binaryFast ∧ ¬binaryUnsafe
            .ok (.known (.scalar oid js (if binary then .binary else .text)))

/-- The types of the columns that a result reports, positionally. -/
def mergeUnknownCols (cols : List (ShapeCol J)) (oids : List Int) : List (Column J) :=
  cols.zipIdx.map fun p => match p.1 with
    | .known c => c
    | .unknown => .plain (oids[p.2]?.getD 0) .text

/-! ### Plans -/

/-- `ELEM_OID`. -/
def elemOid : Int → Option Int
  | 1000 => some 16 | 1005 => some 21 | 1007 => some 23 | 1028 => some 26 | 1016 => some 20
  | 1021 => some 700 | 1022 => some 701 | 1231 => some 1700 | 791 => some 790 | 1009 => some 25
  | 1015 => some 1043 | 1014 => some 1042 | 1002 => some 18 | 1003 => some 19 | 199 => some 114
  | 3807 => some 3802 | 1001 => some 17 | 2951 => some 2950 | 1182 => some 1082
  | 1183 => some 1083 | 1115 => some 1114 | 1185 => some 1184 | 1187 => some 1186
  | 629 => some 628 | 1017 => some 600
  | _ => none

theorem elemOid_plain {oid elem : Int} (h : elemOid oid = some elem) :
    hasDefault oid = false ∧ oid ∉ instantOids := by
  unfold elemOid at h
  split at h
  all_goals cases h
  all_goals exact ⟨rfl, by decide⟩

def tagArrayCol (col : Column J) : Column J :=
  if col.array.isSome ∨ col.json.isSome then col
  else match h : elemOid col.oid with
    | none => col
    | some elem =>
      { col with
        array := some (elem, none)
        array_oid := fun _ => (elemOid_plain h).1
        array_instant := fun _ => (elemOid_plain h).2 }

/-- `{ ...c, array: { ...c.array, js } }`. -/
def Column.retarget (c : Column J) {elem : Int} {js : Target} (h : c.array = some (elem, js))
    (target : String) : Column J :=
  { c with
    array := some (elem, some target)
    array_oid := fun _ => c.array_oid (h ▸ rfl)
    array_instant := fun _ => c.array_instant (h ▸ rfl) }

def Column.elementsAsText (c : Column J) : Option (Column J) :=
  match h : c.array with
  | some (elem, js) =>
    if absent js ∧ elem ∈ instantOids then some (c.retarget h "string") else none
  | none => none

/-- What `temporal: 'string'` makes of a column, if it is one of instants. -/
def textInstant (c : Column J) : Option (Column J) :=
  if absent c.js ∧ c.json.isNone ∧ c.oid ∈ instantOids then
    some { c with js := some "string", format := .text }
  else c.elementsAsText

inductive Temporal
  | date
  | string
  deriving DecidableEq, Repr

inductive RowEngine
  | jit
  | interpreted
  deriving DecidableEq, Repr

/-- The configuration that all entries share.  `exactJson` is there when `jsonBigints` is not
'number', for the json types and their arrays. -/
structure PlanConfig where
  types : Int → Option Decoder
  exactJson : Option (Int → Decoder)
  temporal : Temporal
  engine : RowEngine

/-- `buildDecoders`. -/
def PlanConfig.decoders (cfg : PlanConfig) : DecoderMap where
  custom oid :=
    match cfg.types oid with
    | some fn => some fn
    | none => if oid ∈ [114, 3802, 199, 3807] then cfg.exactJson.map (· oid) else none

def PlanConfig.reuseBinaryOids (cfg : PlanConfig) (oid : Int) : Bool :=
  oid ∈ binaryFast ∧ cfg.types oid = none

namespace Connection

variable (cfg : PlanConfig)

def resolveCol (c0 : Column J) : Column J :=
  let c := tagArrayCol c0
  if cfg.temporal = .string then (textInstant c).getD c else c

/-- `resolveCols` leaves an `'unknown'` column as it is. -/
def resolveCols (cols : List (ShapeCol J)) : List (ShapeCol J) :=
  cols.map fun c => match c with
    | .unknown => .unknown
    | .known c => .known (resolveCol cfg c)

def resultFormat (cols : List (ShapeCol J)) : List WireFormat :=
  cols.map fun c => match c with
    | .unknown => .text
    | .known c => c.format

/-- The columns of `getMapper`, once the types of the result are known. -/
def planCols (cols : List (ShapeCol J)) (oids : List Int) : List (Column J) :=
  (mergeUnknownCols (resolveCols cfg cols) oids).map (resolveCol cfg)

/-- The columns of a query without a shape; `reuse` is its second and every later execution. -/
def plainCols (reuse : Bool) (oids : List Int) : List (ShapeCol J) :=
  oids.map fun oid =>
    .known (.plain oid (if reuse ∧ cfg.reuseBinaryOids oid then .binary else .text))

end Connection

namespace HttpClient

/-- `int8` of the configuration, whose default is 'bigint'. -/
def int8Col (int8 : String) (c : Column J) : Column J :=
  if int8 ≠ "bigint" ∧ absent c.js ∧ c.json.isNone then
    if c.oid = 20 then { c with js := some int8 }
    else match h : c.array with
      | some (elem, js) => if elem = 20 ∧ absent js then c.retarget h int8 else c
      | none => c
  else c

def planCol (cfg : PlanConfig) (int8 : String) (c0 : Column J) : Column J :=
  let c := tagArrayCol c0
  match if cfg.temporal = .string then textInstant c else none with
  | some c => c
  | none => int8Col int8 c

/-- The columns of a shape are stripped of their format, those of a plain query have none. -/
def planCols (cfg : PlanConfig) (int8 : String) (shape : Option (List (ShapeCol J)))
    (oids : List Int) : List (Column J) :=
  let cols := match shape with
    | some cols => mergeUnknownCols (cols.map ShapeCol.asText) oids
    | none => oids.map fun oid => .plain oid .text
  cols.map (planCol cfg int8)

end HttpClient

namespace NeonHttpClient

def planCols (cfg : PlanConfig) (shape : Option (List (ShapeCol J))) (oids : List Int) :
    List (Column J) :=
  let cols := match shape with
    | some cols => mergeUnknownCols (cols.map ShapeCol.asText) oids
    | none => oids.map fun oid => .plain oid .text
  let cols := cols.map tagArrayCol
  if cfg.temporal ≠ .string then cols else cols.map fun c => (textInstant c).getD c

end NeonHttpClient

/-! ### Rows -/

/-- What is around the mappers, and how they decode a shaped JSON column. -/
structure Decoding (J : Type) where
  env : Env
  json : RowEngine → DecoderMap → J → Int → Decoder

inductive Failure
  | decoding (e : JsError)
  | assembling (t : Rows.Thrown JsError)

/-- A value in the two formats of the server. -/
structure Datum where
  text : Bytes
  binary : Bytes

def Datum.form (d : Datum) : WireFormat → Bytes
  | .text => d.text
  | .binary => d.binary

abbrev Place := Rows.CodegenCol Value JsError

abbrev Row := Rows.RowValue Value

variable {α β ε : Type}

/-- `l.map(f)` where `f` can throw. -/
def collect (f : α → Except ε β) : List α → Except ε (List β)
  | [] => .ok []
  | a :: l => do
    let b ← f a
    let bs ← collect f l
    return b :: bs

section Rows

variable (cfg : PlanConfig) (dec : Decoding J)

/-- The decoder of a column, on the bytes of a cell. -/
def decoder (col : Column J) : Except JsError Decoder :=
  match col.format, col.json with
  | .text, some marker => .ok (dec.json cfg.engine cfg.decoders marker col.oid)
  | _, _ =>
    let cell := match cfg.engine with
      | .jit => compiled dec.env col.toCodegenCol cfg.decoders
      | .interpreted => pickDecoder dec.env col.toCodegenCol cfg.decoders
    cell.map fun c b => c b 0 b.length

/-- A decoder may return null. -/
def cellOf : Value → Rows.Cell Value
  | .null => none
  | v => some v

def decodeCell (col : Column J) (cell : Option Bytes) : Except JsError (Rows.Cell Value) := do
  let d ← decoder cfg dec col
  match cell with
  | none => return none
  | some b => return cellOf (← d b)

def assemble (places : List Place) (mode : Rows.RowMode) (vals : List (Rows.Cell Value)) :
    Except Failure Row :=
  (match cfg.engine with
    | .jit => Rows.compiledMapper [] places vals mode
    | .interpreted => Rows.interpretedMapper places vals mode).mapError .assembling

/-- A row of cells, each with its column. -/
def decodeRow (places : List Place) (mode : Rows.RowMode)
    (cells : List (Column J × Option Bytes)) : Except Failure Row := do
  let vals ← (collect (fun p => decodeCell cfg dec p.1 p.2) cells).mapError .decoding
  assemble cfg places mode vals

end Rows

/-- A result: the types of its columns, and its rows. -/
structure Result where
  oids : List Int
  rows : List (List (Option Datum))

/-- The cells of a row in the formats that were requested. -/
def served (formats : List WireFormat) (row : List (Option Datum)) : List (Option Bytes) :=
  (formats.zip row).map fun p => p.2.map (·.form p.1)

section Entries

variable (cfg : PlanConfig) (dec : Decoding J) (places : List Place) (mode : Rows.RowMode)
  (r : Result)

def Connection.decodeRows (formats : List WireFormat) (cols : List (ShapeCol J)) :
    Except Failure (List Row) :=
  collect (fun row => decodeRow cfg dec places mode
    ((Connection.planCols cfg cols r.oids).zip (served formats row))) r.rows

/-- `query` with a shape. -/
def Connection.shaped (cols : List (ShapeCol J)) : Except Failure (List Row) :=
  Connection.decodeRows cfg dec places mode r
    (Connection.resultFormat (Connection.resolveCols cfg cols)) cols

/-- `query` without a shape: text at first, and then what `reuseBinaryOids` allows. -/
def Connection.unshaped (reuse : Bool) : Except Failure (List Row) :=
  let cols := Connection.plainCols cfg reuse r.oids
  Connection.decodeRows cfg dec places mode r
    (if reuse then Connection.resultFormat (Connection.resolveCols cfg cols)
      else r.oids.map fun _ => .text) cols

/-- `decode`, of the text of the cells. -/
def HttpClient.decode (int8 : String) (shape : Option (List (ShapeCol J))) :
    Except Failure (List Row) :=
  collect (fun row => decodeRow cfg dec places mode
    ((HttpClient.planCols cfg int8 shape r.oids).zip (row.map (·.map Datum.text)))) r.rows

/-- `decodeParsed`. -/
def NeonHttpClient.decodeParsed (shape : Option (List (ShapeCol J))) : Except Failure (List Row) :=
  collect (fun row => decodeRow cfg dec places mode
    ((NeonHttpClient.planCols cfg shape r.oids).zip (row.map (·.map Datum.text)))) r.rows

end Entries

end Minipg.Plans
