import Minipg.Json.Buffer
import Minipg.Shaped.Spec

/-!
# The positional scanner

`inlineMarker` (`src/json.ts`) generates the code that reads a shaped column from its bytes, without
looking at the keys.  Here the code of a field is a function on the cursor `jb`, `jp`, `je`.
-/

namespace Minipg.Shaped

open Js
open Cells (Runtime chars instantSnippet latin1Slice)
open Json (Tree isDigitByte isNumericByte jsonParse)
open Mappers (Call JsonKind JsonMarker JsonSpec JsonType)
open Plans (splitType)

/-- What a shaped column holds; `parsed` is what `JSON.parse` returns. -/
inductive Decoded
  | value (v : Value)
  | parsed (t : Tree)
  | array (items : List Decoded)
  | object (properties : List (JsString × Decoded))

abbrev Decoded.null : Decoded := .value .null

/-! ### The cursor -/

/-- The bytes from `jp` on: those before `je`, and those behind. -/
structure Cursor where
  cell : List UInt8
  post : List UInt8

namespace Cursor

variable (c : Cursor)

def bytes : List UInt8 := c.cell ++ c.post

/-- `jb[jp]`. -/
def peek : Option UInt8 := c.bytes.head?

/-- `jp += n`. -/
def advance (n : Nat) : Cursor := ⟨c.cell.drop n, c.post.drop (n - c.cell.length)⟩

/-- The bytes up to another place. -/
def upTo (e : Cursor) : List UInt8 := c.bytes.take (c.bytes.length - e.bytes.length)

/-- `while (jp < je && p(jb[jp])) jp++`. -/
def pass (p : UInt8 → Bool) : Cursor := { c with cell := c.cell.dropWhile p }

/-- `SKIPWS`. -/
def skipWs : Cursor := c.pass Json.isWsByte

/-- The loop over the characters of a string: whether there is a backslash, and where the loop
ends. -/
def charsLoop : List UInt8 → List UInt8 → Bool × Cursor
  | [], post => (false, ⟨[], post⟩)
  | c :: b, post =>
    if c = 92 then
      match b with
      | [] => (true, ⟨[], post.drop 1⟩)
      | _ :: b => (true, (charsLoop b post).2)
    else if c = 34 then (false, ⟨c :: b, post⟩)
    else charsLoop b post

def chars : Bool × Cursor := charsLoop (c.advance 1).cell (c.advance 1).post

/-- `SKIPSTR`. -/
def skipString : Cursor := if c.chars.2.cell = [] then c.chars.2 else c.chars.2.advance 1

theorem charsLoop_length_le : ∀ b post, (charsLoop b post).2.cell.length ≤ b.length
  | [], _ => Nat.le_refl 0
  | c :: b, post => by
    rw [charsLoop.eq_def]
    dsimp only
    split
    · cases b with
      | nil => exact Nat.zero_le _
      | cons e b => exact Nat.le_succ_of_le (Nat.le_succ_of_le (charsLoop_length_le b post))
    split
    · exact Nat.le_refl _
    · exact Nat.le_succ_of_le (charsLoop_length_le b post)

theorem skipString_length_lt (h : c.cell ≠ []) : c.skipString.cell.length < c.cell.length := by
  have hpos := List.length_pos_iff.mpr h
  have hchars : c.chars.2.cell.length ≤ c.cell.length - 1 := by
    have hle := charsLoop_length_le (c.advance 1).cell (c.advance 1).post
    rwa [advance, List.length_drop] at hle
  unfold skipString
  split
  · omega
  · rw [advance, List.length_drop]
    omega

theorem advance_length_lt (h : c.cell ≠ []) : (c.advance 1).cell.length < c.cell.length := by
  have hpos := List.length_pos_iff.mpr h
  rw [advance, List.length_drop]
  omega

/-- The loop up to the `closing` that leaves no `opening` open. -/
def closeLoop (opening closing : UInt8) (depth : Int) (c : Cursor) : Cursor :=
  if c.cell = [] then c
  else if c.peek = some 34 then closeLoop opening closing depth c.skipString
  else if c.peek = some opening then closeLoop opening closing (depth + 1) (c.advance 1)
  else if c.peek = some closing then
    if depth - 1 = 0 then c.advance 1 else closeLoop opening closing (depth - 1) (c.advance 1)
  else closeLoop opening closing depth (c.advance 1)
termination_by c.cell.length
decreasing_by
  · exact skipString_length_lt c ‹_›
  all_goals exact advance_length_lt c ‹_›

/-- `SKIPVALUE`. -/
def skipValue : Cursor :=
  let c := c.skipWs
  if c.peek = some 34 then c.skipString
  else if c.peek = some 123 then closeLoop 123 125 0 c
  else if c.peek = some 91 then closeLoop 91 93 0 c
  else c.pass fun d => ¬(d = 44 ∨ d = 125 ∨ d = 93)

/-- `SKIPOBJEND`. -/
def skipObjEnd : Cursor := closeLoop 123 125 1 c

/-- The bytes between quotes, without escapes. -/
def quoted : List UInt8 × Cursor :=
  let s := c.advance 1
  let e := s.pass fun d => ¬d = 34
  (s.upTo e, e.advance 1)

/-- The bytes of a number, all of which are `p`. -/
def bare (p : UInt8 → Bool) : List UInt8 × Cursor :=
  let e := (if c.peek = some 45 then c.advance 1 else c).pass p
  (c.upTo e, e)

end Cursor

/-- The code of a field: the value and where the cursor is then; `none` when it throws. -/
abbrev Code := Cursor → Option (Decoded × Cursor)

/-! ### Values -/

section Values

variable (rt : Runtime) (dateParse : JsString → Double)

def latin1Text (b : List UInt8) : JsString := latin1Slice b 0 b.length

/-- A `null` is passed over. -/
def orNull (read : Code) : Code := fun c =>
  if c.peek = some 110 then some (.null, c.advance 4) else read c

/-- `rdStr`. -/
def rdStr : Code := fun c =>
  let s := c.advance 1
  let (esc, e) := c.chars
  if esc then
    match jsonParse rt (rt.standard.utf8 (c.upTo (e.advance 1))) with
    | some (.string v) => some (.value (.string v), e.advance 1)
    | _ => none
  else some (.value (.string (rt.standard.utf8 (s.upTo e))), e.advance 1)

/-- `rdRaw`. -/
def rdRaw : Code := fun c =>
  let (token, c) := c.bare isNumericByte
  some (.value (.string (latin1Text token)), c)

/-- `rdStrNum` of a string, `rdNum` of a number, and what becomes of it. -/
def rdNumber (f : Double → Double) : Code := fun c =>
  let (token, c) := if c.peek = some 34 then c.quoted else c.bare isNumericByte
  some (.value (.number (f (rt.standard.number (latin1Text token)))), c)

/-- `rdBigInt`. -/
def rdBigInt : Code := fun c =>
  if c.peek = some 34 then
    let (token, c) := c.quoted
    (rt.standard.bigint (rt.standard.utf8 token)).toOption.map fun v => (.value v, c)
  else
    let (token, c) := c.bare isDigitByte
    (rt.standard.bigint (latin1Text token)).toOption.map fun v => (.value v, c)

def rdBool : Code := fun c =>
  let target := c.peek = some 116
  some (.value (.boolean target), c.advance (if target then 4 else 5))

/-- The slice that `SKIPVALUE` passes over, parsed. -/
def rdParsed : Code := fun c =>
  let e := c.skipValue
  (jsonParse rt (rt.standard.utf8 (c.upTo e))).map fun t => (.parsed t, e)

/-- `new Date(ms)` or `ms` itself. -/
def instantValue (target : Temporal) (ms : Double) : Value :=
  match target with
  | .date => rt.standard.newDate ms
  | .ms => .number ms

/-- `inlineEpoch`, behind its `null`; `Date.parse` is `dateParse`. -/
def rdEpoch (target : Temporal) : Code := fun c =>
  let s := c.advance 1
  let (token, c) := c.quoted
  let (ems, ok) := instantSnippet rt.standard (chars s.bytes) 0 token.length
  let ms := if ok then ems else dateParse (rt.standard.utf8 token)
  some (.value (instantValue rt target ms), c)

/-! ### Lists -/

/-- The loop over the items of an array; `fuel` only has to be more than the number of bytes. -/
def items (item : Code) (comma : Cursor → Cursor) : Nat → Cursor → Option (List Decoded × Cursor)
  | 0, _ => none
  | fuel + 1, c =>
    if c.cell = [] then some ([], c)
    else do
      let (v, c) ← item c
      let c := c.skipWs
      if c.peek = some 44 then
        (items item comma fuel (comma (c.advance 1))).map fun r => (v :: r.1, r.2)
      else if c.peek = some 93 then return ([v], c.advance 1)
      else return ([v], c)

/-- What stands behind the first bracket of an array. -/
def arrayCode (item : Code) (comma : Cursor → Cursor) : Code := fun c =>
  let c := (c.advance 1).skipWs
  if c.peek = some 93 then some (.array [], c.advance 1)
  else (items item comma (c.cell.length + 1) c).map fun r => (.array r.1, r.2)

/-- An element of a list: one that is an array is read by the function of the list itself. -/
def listItem (elem list : Code) : Code := fun c =>
  let c := c.skipWs
  if c.peek = some 91 then list c else elem c

/-- The local function of a list; `fuel` only has to be more than the number of bytes. -/
def listCode (elem : Code) : Nat → Code
  | 0 => fun _ => none
  | fuel + 1 => arrayCode (listItem elem (listCode elem fuel)) id

/-- `inlineValue` of a type. -/
def Leaf.code : Leaf → Code
  | .list elem => fun c =>
    let c := c.skipWs
    orNull (listCode elem.code (c.cell.length + 1)) c
  | .epoch target => orNull (rdEpoch rt dateParse target)
  | .bigint => orNull (rdBigInt rt)
  | .float4 precise => orNull (rdNumber rt (if precise then rt.standard.fround else id))
  | .number => orNull (rdNumber rt id)
  | .bool => orNull rdBool
  | .json => orNull (rdParsed rt)
  | .string => orNull fun c => if c.peek = some 34 then rdStr rt c else rdRaw c

/-! ### Objects -/

/-- The fields of an object, in the order of the wire: the comma before, the key, the colon and the
value. -/
def fieldsCode : Bool → List Code → Cursor → Option (List Decoded × Cursor)
  | _, [], c => some ([], c)
  | first, read :: reads, c => do
    let c := if first then c else (c.skipWs.advance 1).skipWs
    let (v, c) ← read (c.skipString.skipWs.advance 1).skipWs
    let (vs, c) ← fieldsCode false reads c
    return (v :: vs, c)

/-- `ret`: the object, its keys in the order of the shape. -/
def literal {α : Type} (entries : List (JsString × α)) (vs : List (Nat × Decoded)) : Decoded :=
  .object (entries.zipIdx.map fun e => (e.1.1, (vs.lookup e.2).getD .null))

/-- What `inlineObject` reads from the brace on. -/
def objectCode (entries : List (JsString × Code)) (type : JsonType) : Code := fun c =>
  let c := (c.advance 1).skipWs
  if c.peek = some 125 then some (literal entries [], c.advance 1)
  else do
    let order := wireOrder entries type
    let (vs, c) ← fieldsCode true (order.map fun e => e.1.2) c
    return (literal entries ((order.map Prod.snd).zip vs), c.skipObjEnd)

/-- `inlineObject`. -/
def inlineObject (entries : List (JsString × Code)) (type : JsonType) : Code := fun c =>
  orNull (objectCode entries type) c.skipWs

/-- `inlineArray`. -/
def inlineArray (entries : List (JsString × Code)) (type : JsonType) : Code := fun c =>
  orNull (arrayCode (inlineObject entries type) Cursor.skipWs) c.skipWs

def inlineMarker (kind : JsonKind) (entries : List (JsString × Code)) (type : JsonType) : Code :=
  match kind with
  | .array => inlineArray entries type
  | .object => inlineObject entries type

variable {calls : List Call}

/-- The code of a field that is a type. -/
def inlineType (t : String) : Except Js.JsError Code := do
  let (pg, js) ← splitType (utf16 t)
  return (leaf pg js).code rt dateParse

/-- `inlineValue` of a nested marker: without an exact value in it, it is parsed. -/
def nestedCode (precise : Bool) (marker : Except Js.JsError Code) : Except Js.JsError Code :=
  if precise then marker else .ok (orNull (rdParsed rt))

/-- `inlineValue` of the fields of a shape, each with its key; a function of a `Transform()` is
applied later. -/
def inlineFields : JsonSpec calls → Except Js.JsError (List (JsString × Code))
  | .nil => .ok []
  | .type key t rest => do
    return (utf16 key, ← inlineType rt dateParse t) :: (← inlineFields rest)
  | .transform key m rest => do
    return (utf16 key, ← inlineType rt dateParse m.call.type) :: (← inlineFields rest)
  | .json key kind type _ spec rest => do
    let precise ← specHasPrecision spec
    let marker := (inlineFields spec).map fun entries => inlineMarker kind entries type
    let code ← nestedCode rt precise marker
    return (utf16 key, code) :: (← inlineFields rest)

/-- The code that `genJsonParsers` plans for a marker; `none` is `JSON.parse`. -/
def genJsonParser (m : JsonMarker calls) : Except Js.JsError (Option Code) := do
  if ← specHasPrecision m.spec then
    return some (inlineMarker m.kind (← inlineFields rt dateParse m.spec) m.type)
  else return none

end Values

end Minipg.Shaped
