import Minipg.Decode.Instants
import Minipg.Shaped.Skipping

/-!
# Documents of a shape

A document conforms to a shape when its declared keys come first and in the order of the wire; what
the shape makes of it is looked up by name.  The code of a field implements the field when it
returns the value of every conforming text.
-/

namespace Minipg.Shaped

open Js
open Cells (FakeInfinity Runtime decimalInt? instantFromString)
open Json (Ast Chars Reads ReadsMembers number skipWs)
open Mappers (Call JsonKind JsonMarker JsonSpec JsonType)
open Plans (splitType)
open Cursor (Delimited before)

/-- Which texts a field has: a text, its value, and what is left behind it. -/
abbrev Form := JsString → Ast → JsString → Prop

/-! ### Conforming texts -/

/-- A string of ASCII without escapes. -/
def Bare (s v rest : JsString) : Prop :=
  skipWs s = 34 :: (v ++ 34 :: rest) ∧ ∀ u ∈ v, IsAscii u ∧ u ≠ 34 ∧ u ≠ 92 ∧ ¬u < 32

/-- A `null`, a number or a number between quotes. -/
def Numeral (P : JsString → Prop) : Form := fun s a rest =>
  Reads s a rest ∧ (a = .null ∨ (∃ token, a = .number token ∧ P token) ∨
    ∃ v, a = .string v ∧ Bare s v rest ∧ P v)

/-- The items of an array. -/
inductive ItemsOf (item : Form) : JsString → List Ast → JsString → Prop
  | last {s r rest v} : item s v r → skipWs r = 93 :: rest → ItemsOf item s [v] rest
  | cons {s r t rest v vs} : item s v r → skipWs r = 44 :: t → ItemsOf item t vs rest →
      ItemsOf item s (v :: vs) rest

inductive ArrayOf (item : Form) : Form
  | empty {s t rest} : skipWs s = 91 :: t → skipWs t = 93 :: rest → ArrayOf item s (.array []) rest
  | items {s t rest vs} : skipWs s = 91 :: t → ItemsOf item (skipWs t) vs rest →
      ArrayOf item s (.array vs) rest

/-- An element of a list: a list, or what has the type of the elements. -/
def ItemOf (elem list : Form) : Form := fun s a rest =>
  if (skipWs s).head? = some 91 then list s a rest else elem s a rest

/-- Lists in lists, up to a depth. -/
def ListOf (elem : Form) : Nat → Form
  | 0 => fun _ _ _ => False
  | depth + 1 => ArrayOf (ItemOf elem (ListOf elem depth))

/-- The texts of a type. -/
def Leaf.Conforms : Leaf → Form
  | .list elem => fun s a rest =>
    a = .null ∧ Reads s a rest ∨ ∃ depth, ListOf elem.Conforms depth s a rest
  | .epoch _ => fun s a rest =>
    Reads s a rest ∧ (a = .null ∨ ∃ v, a = .string v ∧ Bare s v rest ∧ ¬FakeInfinity v)
  | .bigint => Numeral fun token => (decimalInt? token).isSome
  | .float4 _ | .number => Numeral fun _ => True
  | .bool => fun s a rest => Reads s a rest ∧ (a = .null ∨ ∃ b, a = .boolean b)
  | .json => Reads
  | .string => fun s a rest =>
    Reads s a rest ∧ (a = .null ∨ (∃ token, a = .number token) ∨ ∃ v, a = .string v)

/-- The declared keys, in the order of the wire, and any others behind them. -/
inductive MembersOf : List (JsString × Form) → JsString → List (JsString × Ast) → JsString → Prop
  | last {k form s t t' t'' r rest v} : skipWs s = 34 :: t → Chars t k t' → skipWs t' = 58 :: t'' →
      form t'' v r → skipWs r = 125 :: rest → MembersOf [(k, form)] s [(k, v)] rest
  | member {k form entries s t t' t'' r r' rest v ms} : skipWs s = 34 :: t → Chars t k t' →
      skipWs t' = 58 :: t'' → form t'' v r → skipWs r = 44 :: r' → MembersOf entries r' ms rest →
      MembersOf ((k, form) :: entries) s ((k, v) :: ms) rest
  | others {s ms rest} : ReadsMembers s ms rest → MembersOf [] s ms rest

/-- `null`, an object without members, or one where each declared key is there once. -/
inductive ObjectOf (entries : List (JsString × Form)) (type : JsonType) : Form
  | null {s rest} : Reads s .null rest → ObjectOf entries type s .null rest
  | empty {s t rest} : skipWs s = 123 :: t → skipWs t = 125 :: rest →
      ObjectOf entries type s (.object []) rest
  | members {s t ms rest} : skipWs s = 123 :: t →
      MembersOf ((wireOrder entries type).map Prod.fst) (skipWs t) ms rest →
      (∀ e ∈ entries, (ms.map Prod.fst).count e.1 = 1) →
      ObjectOf entries type s (.object ms) rest

def markerForm (kind : JsonKind) (entries : List (JsString × Form)) (type : JsonType) : Form :=
  match kind with
  | .object => ObjectOf entries type
  | .array => fun s a rest => a = .null ∧ Reads s a rest ∨ ArrayOf (ObjectOf entries type) s a rest

def typeForm (t : String) : Form :=
  match splitType (utf16 t) with
  | .ok (pg, js) => (leaf pg js).Conforms
  | .error _ => fun _ _ _ => False

variable {calls : List Call}

/-- The texts of the fields of a shape; of a marker that needs no exact value they are any. -/
def specForms : JsonSpec calls → List (JsString × Form)
  | .nil => []
  | .type key t rest => (utf16 key, typeForm t) :: specForms rest
  | .transform key m rest => (utf16 key, typeForm m.call.type) :: specForms rest
  | .json key kind type _ spec rest =>
    (utf16 key, match specHasPrecision spec with
      | .ok true => markerForm kind (specForms spec) type
      | _ => Reads) :: specForms rest

/-- A text is a document of the shape. -/
def Conforms (m : JsonMarker calls) : Form := markerForm m.kind (specForms m.spec) m.type

/-! ### The value of a document -/

mutual

/-- A list, with the lists in it. -/
def listDecode (elem : Ast → Decoded) : Ast → Decoded
  | .array vs => .array (itemsDecode elem vs)
  | a => elem a

def itemsDecode (elem : Ast → Decoded) : List Ast → List Decoded
  | [] => []
  | v :: vs => listDecode elem v :: itemsDecode elem vs

end

/-- The value of a number's or a string's characters. -/
def tokenDecode (f : JsString → Value) : Ast → Decoded
  | .number token => .value (f token)
  | .string v => .value (f v)
  | _ => .null

section Decode

variable (rt : Runtime) (dateParse : JsString → Double)

/-- What `JSON.parse` returns. -/
def parsedDecode : Ast → Decoded
  | .null => .null
  | a => .parsed (a.record.value (number rt))

/-- The milliseconds of a text: those of the grammar of the server, else `Date.parse`. -/
def instant (v : JsString) : Double := (instantFromString rt.standard v).getD (dateParse v)

/-- The value of a type. -/
def Leaf.decode : Leaf → Ast → Decoded
  | .list elem => listDecode elem.decode
  | .epoch target => tokenDecode fun v => instantValue rt target (instant rt dateParse v)
  | .bigint => tokenDecode fun token => .bigint ((decimalInt? token).getD 0)
  | .float4 precise => tokenDecode fun token =>
    .number ((if precise then rt.standard.fround else id) (rt.standard.number token))
  | .number => tokenDecode fun token => .number (rt.standard.number token)
  | .bool => fun a =>
    match a with
    | .boolean b => .value (.boolean b)
    | _ => .null
  | .json => parsedDecode rt
  | .string => tokenDecode .string

/-- The last member with this key. -/
def member (k : JsString) (ms : List (JsString × Ast)) : Option Ast :=
  (ms.reverse.find? fun m => m.1 = k).map Prod.snd

/-- The declared keys, each with the value of its member. -/
def objectDecode (entries : List (JsString × (Ast → Decoded))) : Ast → Decoded
  | .object ms => .object (entries.map fun e => (e.1, ((member e.1 ms).map e.2).getD .null))
  | _ => .null

def markerDecode (kind : JsonKind) (entries : List (JsString × (Ast → Decoded))) : Ast → Decoded :=
  match kind with
  | .object => objectDecode entries
  | .array => fun a =>
    match a with
    | .array vs => .array (vs.map (objectDecode entries))
    | _ => .null

def typeDecode (t : String) : Ast → Decoded :=
  match splitType (utf16 t) with
  | .ok (pg, js) => (leaf pg js).decode rt dateParse
  | .error _ => fun _ => .null

def specDecoders : JsonSpec calls → List (JsString × (Ast → Decoded))
  | .nil => []
  | .type key t rest => (utf16 key, typeDecode rt dateParse t) :: specDecoders rest
  | .transform key m rest => (utf16 key, typeDecode rt dateParse m.call.type) :: specDecoders rest
  | .json key kind _ _ spec rest =>
    (utf16 key, match specHasPrecision spec with
      | .ok true => markerDecode kind (specDecoders spec)
      | _ => parsedDecode rt) :: specDecoders rest

/-- What a shape makes of a document. -/
def decode (m : JsonMarker calls) : Ast → Decoded :=
  markerDecode m.kind (specDecoders rt dateParse m.spec)

end Decode

/-! ### Implementations -/

/-- The code returns the value of every text of the form, whatever is behind the cell; where the
text has no end of its own, the white space behind it may be gone too. -/
structure Implements (code : Code) (form : Form) (decode : Ast → Decoded) : Prop where
  reads {s a rest} : form s a rest → Reads s a rest
  runs {s a rest} : form s a rest → isWellFormed s → Delimited rest → ∀ post,
    ∃ r, (r = rest ∨ r = skipWs rest) ∧
      code (before post (skipWs s)) = some (decode a, before post r)

end Minipg.Shaped
