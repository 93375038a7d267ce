import Minipg.Decode.Cells

/-!
# The decoder of a column

Which decoder a column gets is decided twice in `src/decode.ts`: by `columnLines` with
`inlineSnippet` and `helperForCol` for the compiled mapper (`compiled`), and by `pickDecoder` for
the interpreted one.  A target is a string, for a type that the user defines has targets of its own
(`src/registry.ts`).  Shaped JSON columns, which have a scanner of their own, are left out.
-/

namespace Minipg.Cells

open Js

/-- The parsers of `src/geo.ts`, which both mappers call. -/
inductive GeoParser
  | point
  | pointTuple
  | lineAbc
  | lineTuple
  | vector
  | float32
  | sparsevec
  | sparseDense
  deriving DecidableEq, Repr

abbrev Leaf := JsString → Except JsError Value

abbrev Target := Option String

/-- `!js`. -/
def absent (js : Target) : Prop := js = none ∨ js = some ""

instance (js : Target) : Decidable (absent js) := inferInstanceAs (Decidable (_ ∨ _))

/-- A `defineType()` type; `targets` get text, `rawTargets` the cell. -/
structure CustomTypeDef where
  ascii : Bool
  delim : UInt16
  targets : String → Option Leaf
  rawTargets : String → Option Cell

/-- The types that the user has defined, by their sentinels. -/
structure Registry where
  defs : Int → Option CustomTypeDef
  sentinel : ∀ oid defn, defs oid = some defn → oid ≤ -2000

/-- What is around the mappers. -/
structure Env where
  rt : Runtime
  registry : Registry
  geo : GeoParser → Leaf

inductive WireFormat
  | text
  | binary
  deriving DecidableEq, Repr

def asString (env : Env) : Decoder := fun b => .ok (.string (env.rt.utf8 b))

/-- `s.startsWith('\\x')` and so on. -/
def bytesOfText (rt : Runtime) (s : JsString) : Value :=
  if s.take 2 = ascii "\\x" then .buffer (rt.hexBytes (s.drop 2)) else .buffer (utf8 s)

def asNumber (env : Env) : Decoder := fun b => .ok (.number (env.rt.number (env.rt.utf8 b)))
def asBool : Decoder := fun b => .ok (.boolean (b[0]? = some 0x74))
def asJson (env : Env) : Decoder := fun b => env.rt.parseJson (env.rt.utf8 b)
def asBytea (env : Env) : Decoder := fun b => .ok (bytesOfText env.rt (env.rt.utf8 b))

def defaultDecoder (env : Env) : Int → Option Decoder
  | 16 => some asBool
  | 17 => some (asBytea env)
  | 21 | 23 | 26 | 700 | 701 => some (asNumber env)
  | 114 | 3802 => some (asJson env)
  | _ => none

/-- The types that `defaultDecoders` knows. -/
def hasDefault (oid : Int) : Bool :=
  oid ∈ ([16, 17, 21, 23, 26, 700, 701, 114, 3802] : List Int)

/-- A map of decoders, by the entries that are not those of `defaultDecoders`. -/
structure DecoderMap where
  custom : Int → Option Decoder

def DecoderMap.has (map : DecoderMap) (oid : Int) : Bool :=
  (map.custom oid).isSome || hasDefault oid

def decoderFor (env : Env) (oid : Int) (map : DecoderMap) : Decoder :=
  match map.custom oid with
  | some fn => fn
  | none => (defaultDecoder env oid).getD (asString env)

/-- A column of a mapper.  The OID of an array column is an array type or a sentinel. -/
structure CodegenCol where
  oid : Int
  js : Target := none
  format : WireFormat := .text
  array : Option (Int × Target) := none
  array_oid : array.isSome → hasDefault oid = false

/-! ### Arrays -/

/-- A quoted element from `i` on: its text and where it ends. -/
def quotedAt (text : JsString) : Nat → Nat → JsString → JsString × Nat
  | 0, i, s => (s, i)
  | fuel + 1, i, s =>
    match text[i]? with
    | none => (s, i)
    | some ch =>
      if ch = 92 then
        quotedAt text fuel (i + 2) (s ++ (text[i + 1]?.map ([·])).getD (ascii "undefined"))
      else if ch = 34 then (s, i + 1)
      else quotedAt text fuel (i + 1) (s ++ [ch])

/-- Where an element without quotes ends. -/
def bareEnd (text : JsString) (delim : UInt16) : Nat → Nat → Nat
  | 0, j => j
  | fuel + 1, j =>
    match text[j]? with
    | none => j
    | some c => if c = delim ∨ c = 125 then j else bareEnd text delim fuel (j + 1)

/-- `arr()` behind its brace. -/
def elements (text : JsString) (leaf : Leaf) (delim : UInt16) :
    Nat → Nat → List Value → Except JsError (List Value × Nat)
  | 0, i, out => .ok (out, i)
  | fuel + 1, i, out =>
    match text[i]? with
    | none => .ok (out, i)
    | some c =>
      if c = 125 then .ok (out, i + 1)
      else if c = delim then elements text leaf delim fuel (i + 1) out
      else if c = 123 then do
        let (inner, i) ← elements text leaf delim fuel (i + 1) []
        elements text leaf delim fuel i (out ++ [.array inner])
      else if c = 34 then do
        let (s, i) := quotedAt text (text.length + 1) (i + 1) []
        let v ← leaf s
        elements text leaf delim fuel i (out ++ [v])
      else do
        let j := bareEnd text delim (text.length + 1) i
        let raw := (text.drop i).take (j - i)
        let v ← if raw = ascii "NULL" then pure .null else leaf raw
        elements text leaf delim fuel j (out ++ [v])

def parseArrayLiteral (leaf : Leaf) (delim : UInt16) (text : JsString) : Except JsError Value := do
  let i :=
    if text[0]? = some 91 then
      match text.findIdx? (· = 61) with
      | some eq => eq + 1
      | none => 0
    else 0
  let (out, _) ← elements text leaf delim (text.length + 1) (i + 1) []
  return .array out

def customLeafFor (env : Env) (elem : Int) (target : Target) : Option Leaf :=
  match env.registry.defs elem with
  | none => none
  | some defn =>
    match target.bind defn.targets with
    | some fn => some fn
    | none =>
      match target.bind defn.rawTargets with
      | some raw => some fun s =>
        let b := if defn.ascii then latin1 s else utf8 s
        raw b 0 b.length
      | none => some fun s => .ok (.string s)

def extLeafFor (env : Env) (elem : Int) (js : Target) : Option Leaf :=
  match elem, js with
  | 600, some "xy" => some (env.geo .point)
  | 600, some "tuple" => some (env.geo .pointTuple)
  | 628, some "abc" => some (env.geo .lineAbc)
  | 628, some "tuple" => some (env.geo .lineTuple)
  | -1000, some "array" | -1002, some "array" => some (env.geo .vector)
  | -1000, some "f32" | -1002, some "f32" => some (env.geo .float32)
  | -1003, some "sparse" => some (env.geo .sparsevec)
  | -1003, some "array" => some (env.geo .sparseDense)
  | _, _ => none

/-- An instant as `:ms`, `:string` or, by default, a `Date`. -/
def instantLeaf (rt : Runtime) (js : Target) : Leaf := fun s =>
  let ms := (instantFromString rt s).getD rt.nan
  if js = some "ms" then .ok (.number ms)
  else if js = some "string" then .ok (.string s)
  else .ok (rt.newDate ms)

def elemLeafFor (env : Env) (elem : Int) (js : Target) : Leaf :=
  let strLeaf : Leaf := fun s => .ok (.string s)
  let numLeaf : Leaf := fun s => .ok (.number (env.rt.number s))
  match customLeafFor env elem js with
  | some cus => cus
  | none =>
    match extLeafFor env elem js with
    | some ext => ext
    | none =>
      match elem with
      | 16 => fun s => .ok (.boolean (s = ascii "t"))
      | 17 => fun s => .ok (bytesOfText env.rt s)
      | 20 =>
        if js = some "number" then numLeaf
        else if js = some "string" then strLeaf
        else env.rt.bigint
      | 21 | 23 | 26 | 700 | 701 => numLeaf
      | 1700 =>
        if js = some "number" then numLeaf
        else if js = some "bigint" then env.rt.bigint
        else strLeaf
      | 790 => if js = some "number" then numLeaf else strLeaf
      | 114 | 3802 => env.rt.parseJson
      | 1082 | 1114 | 1184 => instantLeaf env.rt js
      | _ => strLeaf

def arrayDecoderForElem (env : Env) (elem : Int) (js : Target) : Decoder := fun b =>
  let delim := if elem = 603 then 59 else ((env.registry.defs elem).map (·.delim)).getD 44
  parseArrayLiteral (elemLeafFor env elem js) delim (env.rt.utf8 b)

/-! ### What both mappers consult -/

/-- A decoder of a buffer as one of a cell. -/
def wrap (d : Decoder) : Cell := fun b o l => d (slice b o l)

def instantOids : List Int := [1082, 1114, 1184]
def intOids : List Int := [20, 21, 23, 26]

def asciiSafe : List Int :=
  [20, 1700, 1082, 1083, 1114, 1184, 1186, 2950,
    774, 829, 650, 869, 1266, 1560, 1562, 3220, 600, 601, 602, 603, 604, 628, 718,
    3904, 3906, 3908, 3910, 3912, 3926, 4451, 4532, 4533, 4534, 4535, 4536]

def defaultJs : Int → String
  | 16 => "bool"
  | 17 => "bytea"
  | 114 | 3802 => "json"
  | 21 | 23 | 26 | 700 | 701 => "number"
  | 20 | 1700 | 790 => "string"
  | 18 | 19 | 25 | 1042 | 1043 | 1082 | 1083 | 1114 | 1184 | 1186 | 2950 => "string"
  | oid => if oid ∈ asciiSafe then "string" else "helper"

/-- `customAt`: the target of a defined type, or its raw text. -/
def customAt (env : Env) (col : CodegenCol) : Option Cell :=
  if col.array.isSome then none
  else
    match env.registry.defs col.oid with
    | none => none
    | some defn =>
      let text (b : Bytes) (o l : Nat) : JsString :=
        if defn.ascii then latin1Slice b o l else env.rt.utf8Slice b o l
      match col.js.bind defn.rawTargets with
      | some raw => some raw
      | none =>
        match col.js.bind defn.targets with
        | some fn => some fun b o l => fn (text b o l)
        | none => some fun b o l => .ok (.string (text b o l))

def extAt (env : Env) (col : CodegenCol) : Option Cell :=
  (extLeafFor env col.oid col.js).map fun parse b o l => parse (env.rt.utf8Slice b o l)

/-! ### The compiled mapper -/

section Compiled

variable (rt : Runtime)

/-- The code that is inlined for a text column. -/
def inlineSnippet (oid : Int) (js : Target) : Option Cell :=
  let js := if absent js ∧ oid ∈ instantOids then some "date" else js
  if (js = some "date" ∨ js = some "ms") ∧ oid ∈ instantOids then
    if js = some "date" then some fun b o l => .ok (rt.newDate (tsFromBytes rt b o l))
    else some fun b o l => .ok (.number (tsFromBytes rt b o l))
  else
    let js := if js = some "date" ∨ js = some "ms" then some "string" else js
    if js = some "bigint" ∨ absent js ∧ oid = 20 then
      some fun b o l => rt.bigint (latin1Slice b o l)
    else if oid = 700 ∧ js ≠ some "string" then
      if js = some "precise" then
        some fun b o l => .ok (.number (rt.fround (f64FromBytes rt b o l)))
      else some fun b o l => .ok (.number (f64FromBytes rt b o l))
    else
      match js.getD (defaultJs oid) with
      | "number" =>
        if oid ∈ intOids then some fun b o l => .ok (.number (intFromBytes rt b o l))
        else some fun b o l => .ok (.number (f64FromBytes rt b o l))
      | "string" =>
        if oid ∈ asciiSafe then some fun b o l => .ok (.string (latin1Slice b o l))
        else some fun b o l => .ok (.string (rt.utf8Slice b o l))
      | "latin1" => some fun b o l => .ok (.string (latin1Slice b o l))
      | "bool" => some fun b o _ => .ok (.boolean (b[o]? = some 116))
      | "json" => some fun b o l => rt.parseJson (rt.utf8Slice b o l)
      | "bytea" => some fun b o l => .ok (bytesOfText rt (latin1Slice b o l))
      | _ => none

/-- The text of an `int8` from its two words. -/
def int8Text (b : Bytes) (o : Nat) : Except JsError Value :=
  let n := rd64 rt b o
  if rt.le (rt.int (-9007199254740991)) n ∧ rt.le n (rt.int 9007199254740991) then
    .ok (.string (rt.text n))
  else do return .string (bigintString (signed 64 (← readBE 8 b o)))

/-- A date as milliseconds. -/
def dateMs (b : Bytes) (o : Nat) : Except JsError Double := do
  return rt.add (rt.mul (rt.int (signed 32 (← readBE 4 b o))) (rt.int 86400000)) (rt.int pgEpochMs)

/-- The dashes of a UUID. -/
def dashed (h : JsString) : JsString :=
  h.take 8 ++ ascii "-" ++ (h.drop 8).take 4 ++ ascii "-" ++ (h.drop 12).take 4 ++ ascii "-" ++
    (h.drop 16).take 4 ++ ascii "-" ++ (h.drop 20).take 12

/-- The code that is inlined for a binary column. -/
def binarySnippet (oid : Int) (js : Target) : Option Cell :=
  match oid with
  | 16 => some fun b o _ => .ok (.boolean (b[o]? = some 1))
  | 21 => some fun b o _ => do return .number (rt.int (signed 16 (← readBE 2 b o)))
  | 23 => some fun b o _ => do return .number (rt.int (signed 32 (← readBE 4 b o)))
  | 26 => some fun b o _ => do return .number (rt.int (← readBE 4 b o))
  | 20 =>
    if js = some "number" then some fun b o _ => .ok (.number (rd64 rt b o))
    else if js = some "string" then some fun b o _ => int8Text rt b o
    else some fun b o _ => do return .bigint (signed 64 (← readBE 8 b o))
  | 700 => some fun b o _ => do return .number (rt.float32 (BitVec.ofNat 32 (← readBE 4 b o)))
  | 701 => some fun b o _ => do return .number (BitVec.ofNat 64 (← readBE 8 b o))
  | 1114 | 1184 =>
    if js = some "ms" then some fun b o _ => .ok (.number (binTimestampMs rt b o))
    else some fun b o _ => .ok (rt.newDate (binTimestampMs rt b o))
  | 1082 =>
    if js = some "ms" then some fun b o _ => do return .number (← dateMs rt b o)
    else some fun b o _ => do return rt.newDate (← dateMs rt b o)
  | 2950 => some fun b o _ => .ok (.string (dashed (hex (slice b o 16))))
  | 17 => some fun b o l => .ok (.buffer (slice b o l))
  | 18 | 19 | 25 | 1042 | 1043 => some fun b o l => .ok (.string (rt.utf8Slice b o l))
  | _ => none

end Compiled

def helperFor (env : Env) (oid : Int) (map : DecoderMap) : Cell :=
  if oid = 17 ∧ map.custom 17 = none then
    fun b o l => .ok (bytesOfText env.rt (env.rt.utf8Slice b o l))
  else wrap (decoderFor env oid map)

def helperForCol (env : Env) (col : CodegenCol) (map : DecoderMap) : Cell :=
  match col.array with
  | some (elem, js) =>
    if map.has col.oid then helperFor env col.oid map
    else wrap (arrayDecoderForElem env elem js)
  | none =>
    if map.has col.oid then helperFor env col.oid map
    else
      match customAt env col with
      | some cus => cus
      | none => (extAt env col).getD (helperFor env col.oid map)

/-- `columnLines`: the code of a column, or no code at all. -/
def compiled (env : Env) (col : CodegenCol) (map : DecoderMap) : Except JsError Cell :=
  if col.format = .binary then
    match binarySnippet env.rt col.oid col.js with
    | some code => .ok code
    | none => .error (.error ("decode2: no binary decoder for oid " ++ toString col.oid ++
        " (request text format for this column)"))
  else
    let inl :=
      if col.array.isSome ∨ (map.custom col.oid).isSome then none
      else inlineSnippet env.rt col.oid col.js
    .ok (inl.getD (helperForCol env col map))

/-! ### The interpreted mapper -/

section Interpreted

variable (rt : Runtime)

def txtUtf8 : Cell := fun b o l => .ok (.string (rt.utf8Slice b o l))
def txtLatin1 : Cell := fun b o l => .ok (.string (latin1Slice b o l))
def txtBool : Cell := fun b o _ => .ok (.boolean (b[o]? = some 116))
def txtJson : Cell := fun b o l => rt.parseJson (rt.utf8Slice b o l)
def txtBytea : Cell := fun b o l => .ok (bytesOfText rt (latin1Slice b o l))
def txtIntCell : Cell := fun b o l => .ok (.number (txtInt rt b o l))
def txtBigInt : Cell := fun b o l => rt.bigint (latin1Slice b o l)
def txtF64 : Cell := fun b o l => .ok (.number (f64FromBytes rt b o l))
def txtF4Precise : Cell := fun b o l => .ok (.number (rt.fround (f64FromBytes rt b o l)))
def tsDate : Cell := fun b o l => .ok (rt.newDate (tsParse rt b o l))
def tsEpoch : Cell := fun b o l => .ok (.number (tsParse rt b o l))

def binBool : Cell := fun b o _ => .ok (.boolean (b[o]? = some 1))
def binInt2 : Cell := fun b o _ => do return .number (rt.int (signed 16 (← readBE 2 b o)))
def binInt4 : Cell := fun b o _ => do return .number (rt.int (signed 32 (← readBE 4 b o)))
def binOid : Cell := fun b o _ => do return .number (rt.int (← readBE 4 b o))
def binFloat4 : Cell := fun b o _ => do
  return .number (rt.float32 (BitVec.ofNat 32 (← readBE 4 b o)))
def binFloat8 : Cell := fun b o _ => do return .number (BitVec.ofNat 64 (← readBE 8 b o))
def binInt8Num : Cell := fun b o _ => .ok (.number (rd64 rt b o))
def binInt8Str : Cell := fun b o _ => int8Text rt b o
def binInt8BigInt : Cell := fun b o _ => do return .bigint (signed 64 (← readBE 8 b o))
def binTsEpoch : Cell := fun b o _ => .ok (.number (binTimestampMs rt b o))
def binTsDate : Cell := fun b o _ => .ok (rt.newDate (binTimestampMs rt b o))
def binDateEpoch : Cell := fun b o _ => do return .number (← dateMs rt b o)
def binDateDate : Cell := fun b o _ => do return rt.newDate (← dateMs rt b o)
def binBytea : Cell := fun b o l => .ok (.buffer (slice b o l))
def binUuid : Cell := fun b o _ => .ok (.string (dashed (hex (slice b o 16))))
def binText : Cell := fun b o l => .ok (.string (rt.utf8Slice b o l))

def pickBinary (oid : Int) (js : Target) : Except JsError Cell :=
  match oid with
  | 16 => .ok binBool
  | 21 => .ok (binInt2 rt)
  | 23 => .ok (binInt4 rt)
  | 26 => .ok (binOid rt)
  | 20 => .ok (if js = some "number" then binInt8Num rt
      else if js = some "string" then binInt8Str rt else binInt8BigInt)
  | 700 => .ok (binFloat4 rt)
  | 701 => .ok binFloat8
  | 1114 | 1184 => .ok (if js = some "ms" then binTsEpoch rt else binTsDate rt)
  | 1082 => .ok (if js = some "ms" then binDateEpoch rt else binDateDate rt)
  | 2950 => .ok binUuid
  | 17 => .ok binBytea
  | 18 | 19 | 25 | 1042 | 1043 => .ok (binText rt)
  | _ => .error (.error ("minipg: no binary decoder for oid " ++ toString oid ++
      " (request text format for this column)"))

def pickText (oid : Int) (js : Target) : Option Cell :=
  let js := if absent js ∧ oid ∈ instantOids then some "date" else js
  if (js = some "date" ∨ js = some "ms") ∧ oid ∈ instantOids then
    some (if js = some "date" then tsDate rt else tsEpoch rt)
  else
    let js := if js = some "date" ∨ js = some "ms" then some "string" else js
    if js = some "bigint" ∨ absent js ∧ oid = 20 then some (txtBigInt rt)
    else if oid = 700 ∧ js ≠ some "string" ∧ js = some "precise" then some (txtF4Precise rt)
    else
      let js := if oid = 700 ∧ js ≠ some "string" then none else js
      match js.getD (defaultJs oid) with
      | "number" => some (if oid ∈ intOids then txtIntCell rt else txtF64 rt)
      | "string" => some (if oid ∈ asciiSafe then txtLatin1 else txtUtf8 rt)
      | "latin1" => some txtLatin1
      | "bool" => some txtBool
      | "json" => some (txtJson rt)
      | "bytea" => some (txtBytea rt)
      | _ => none

end Interpreted

def pickDecoder (env : Env) (col : CodegenCol) (map : DecoderMap) : Except JsError Cell :=
  if col.format = .binary then pickBinary env.rt col.oid col.js
  else
    match map.custom col.oid with
    | some d => .ok (wrap d)
    | none =>
      match col.array with
      | some (elem, js) => .ok (wrap (arrayDecoderForElem env elem js))
      | none =>
        match customAt env col with
        | some cus => .ok cus
        | none =>
          match extAt env col with
          | some ext => .ok ext
          | none => .ok ((pickText env.rt col.oid col.js).getD (wrap (decoderFor env col.oid map)))

/-! ### A value -/

/-- What a cell decodes to, or what is thrown for it or for its column. -/
def decode (d : Except JsError Cell) (b : Bytes) (o l : Nat) : Except JsError Value := do
  (← d) b o l

end Minipg.Cells
