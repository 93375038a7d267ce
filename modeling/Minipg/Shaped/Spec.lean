import Minipg.Decode.Markers
import Minipg.Js.Utf8
import Mathlib.Data.List.Perm.Basic

/-!
# The shape of a JSON column

What a field of a `Json()` is read as follows from the text of its type (`src/json.ts`): `leaf` is
the choice that `inlineValue` makes, `specHasPrecision` whether a column needs the scanner at all.
-/

namespace Minipg.Shaped

open Js
open Mappers (Call JsonSpec JsonType)
open Plans (splitType)

/-- The characters of a string of the shape. -/
def utf16 (s : String) : JsString :=
  s.toList.flatMap fun c =>
    if c.toNat < 0x10000 then [UInt16.ofNat c.toNat]
    else [UInt16.ofNat (0xd800 + (c.toNat - 0x10000) / 1024),
      UInt16.ofNat (0xdc00 + (c.toNat - 0x10000) % 1024)]

/-! ### Types -/

def NUMBER : List String :=
  ["int2", "smallint", "int4", "int", "integer", "serial", "oid", "float4", "real", "float8",
    "double precision"]

def PRECISION : List String := ["int8", "bigint", "numeric", "decimal", "money"]

def BOOL : List String := ["bool", "boolean"]

def RAWJSON : List String := ["json", "jsonb", "unknown"]

def TEMPORAL : List String := ["date", "timestamp", "timestamptz"]

def BIGINT_PG : List String := ["int8", "bigint"]

def FLOAT4_PG : List String := ["float4", "real"]

/-- `names.has(pg.toLowerCase().trim())`. -/
def has (names : List String) (pg : JsString) : Bool :=
  names.any fun t => ascii t = trim (Bulk.lower pg)

inductive Category
  | number
  | precision
  | bool
  | json
  | string
  deriving DecidableEq

def category (pg : JsString) : Category :=
  if has NUMBER pg then .number
  else if has PRECISION pg then .precision
  else if has BOOL pg then .bool
  else if has RAWJSON pg then .json
  else .string

/-- What a field that is no special case is read as. -/
inductive EffJs
  | number
  | string
  | bool
  | json
  deriving DecidableEq

def effJs (cat : Category) : Option String → EffJs
  | some js => if js = "number" then .number else .string
  | none =>
    match cat with
    | .number => .number
    | .bool => .bool
    | .json => .json
    | .precision | .string => .string

inductive Temporal
  | date
  | ms
  deriving DecidableEq

def temporalTarget (pg : JsString) (js : Option String) : Option Temporal :=
  if js = some "date" then some .date
  else if js = some "ms" then some .ms
  else if js = none ∧ has TEMPORAL pg then some .date
  else none

def bigintField (pg : JsString) (js : Option String) : Bool :=
  if js = some "bigint" then true else js = none ∧ has BIGINT_PG pg

/-- Whether the number is that of a float4, and whether it is a `'precise'` one. -/
def float4Target (pg : JsString) (js : Option String) : Option Bool :=
  if js = some "string" then none
  else if !has FLOAT4_PG pg then none
  else some (js = some "precise")

/-- `pg.endsWith('[]')`. -/
def isList (pg : JsString) : Bool := pg.drop (pg.length - 2) = Bulk.brackets

/-- `pg.slice(0, -2)`. -/
def elemType (pg : JsString) : JsString := pg.take (pg.length - 2)

/-- `arrayCore`; there are less brackets than characters. -/
def arrayCoreFrom : Nat → JsString → JsString
  | 0, pg => pg
  | n + 1, pg => if isList pg then arrayCoreFrom n (elemType pg) else pg

def arrayCore (pg : JsString) : JsString := arrayCoreFrom pg.length pg

/-! ### Fields -/

/-- How the scanner reads a field that is no marker. -/
inductive Leaf
  | list (elem : Leaf)
  | epoch (target : Temporal)
  | bigint
  | float4 (precise : Bool)
  | number
  | bool
  | json
  | string
  deriving DecidableEq

def scalar (pg : JsString) (js : Option String) : Leaf :=
  match temporalTarget pg js with
  | some tt => .epoch tt
  | none =>
    if bigintField pg js then .bigint
    else
      match float4Target pg js with
      | some precise => .float4 precise
      | none =>
        match effJs (category pg) js with
        | .number => .number
        | .bool => .bool
        | .json => .json
        | .string => .string

/-- The cases of `inlineValue` for a type; that of an element is split again. -/
def leafFrom : Nat → JsString → Option String → Leaf
  | 0, pg, js => scalar pg js
  | n + 1, pg, js => if isList pg then .list (leafFrom n (trim (elemType pg)) js) else scalar pg js

def leaf (pg : JsString) (js : Option String) : Leaf := leafFrom pg.length pg js

variable {calls : List Call}

/-- Whether `JSON.parse` cannot give the value of a type. -/
def typeHasPrecision (t : String) : Except Js.JsError Bool := do
  let (pg, js) ← splitType (utf16 t)
  let core := arrayCore pg
  return (temporalTarget core js).isSome || (has PRECISION core && js ≠ some "number")

/-- `specHasPrecision`. -/
def specHasPrecision : JsonSpec calls → Except Js.JsError Bool
  | .nil => .ok false
  | .type _ t rest => do if ← typeHasPrecision t then return true else specHasPrecision rest
  | .transform _ m rest => do
    if ← typeHasPrecision m.call.type then return true else specHasPrecision rest
  | .json _ _ _ _ spec rest => do
    if ← specHasPrecision spec then return true else specHasPrecision rest

/-! ### The order on the wire -/

/-- `Buffer.compare(a, b) <= 0`. -/
def bytesLe : List UInt8 → List UInt8 → Bool
  | [], _ => true
  | _ :: _, [] => false
  | a :: as, b :: bs => a.toNat < b.toNat || (a = b && bytesLe as bs)

/-- Shorter keys first, and those of a length by their bytes. -/
def keyLe (a b : JsString) : Bool :=
  (utf8 a).length < (utf8 b).length ||
    ((utf8 a).length = (utf8 b).length && bytesLe (utf8 a) (utf8 b))

/-- The entries as they come, each with its index in the shape. -/
def wireOrder {α : Type} (entries : List (JsString × α)) : JsonType → List ((JsString × α) × Nat)
  | .json => entries.zipIdx
  | .jsonb => entries.zipIdx.mergeSort fun a b => keyLe a.1.1 b.1.1

theorem bytesLe_total (as bs : List UInt8) : bytesLe as bs || bytesLe bs as := by
  induction as generalizing bs with
  | nil => rfl
  | cons a as ih =>
    cases bs with
    | nil => rfl
    | cons b bs =>
      have h := ih bs
      simp only [bytesLe, Bool.or_eq_true, Bool.and_eq_true, decide_eq_true_eq] at h ⊢
      rcases Nat.lt_trichotomy a.toNat b.toNat with hlt | heq | hgt
      · exact .inl (.inl hlt)
      · have hab : a = b := UInt8.toNat_inj.mp heq
        exact h.imp (fun h => .inr ⟨hab, h⟩) fun h => .inr ⟨hab.symm, h⟩
      · exact .inr (.inl hgt)

theorem bytesLe_trans {as bs cs : List UInt8} (h : bytesLe as bs) (h' : bytesLe bs cs) :
    bytesLe as cs := by
  induction as generalizing bs cs with
  | nil => rfl
  | cons a as ih =>
    cases bs with
    | nil => cases h
    | cons b bs =>
      cases cs with
      | nil => cases h'
      | cons c cs =>
        simp only [bytesLe, Bool.or_eq_true, Bool.and_eq_true, decide_eq_true_eq] at h h' ⊢
        rcases h with hlt | ⟨rfl, h⟩
        · rcases h' with hlt' | ⟨rfl, -⟩
          · exact .inl (Nat.lt_trans hlt hlt')
          · exact .inl hlt
        · exact h'.imp id fun h' => ⟨h'.1, ih h h'.2⟩

theorem bytesLe_antisymm {as bs : List UInt8} (h : bytesLe as bs) (h' : bytesLe bs as) :
    as = bs := by
  induction as generalizing bs with
  | nil =>
    cases bs with
    | nil => rfl
    | cons b bs => cases h'
  | cons a as ih =>
    cases bs with
    | nil => cases h
    | cons b bs =>
      simp only [bytesLe, Bool.or_eq_true, Bool.and_eq_true, decide_eq_true_eq] at h h'
      rcases h with hlt | ⟨rfl, h⟩
      · rcases h' with hlt' | ⟨rfl, -⟩
        · omega
        · omega
      · rcases h' with hlt' | ⟨-, h'⟩
        · omega
        · rw [ih h h']

theorem keyLe_iff {a b : JsString} : keyLe a b ↔ (utf8 a).length < (utf8 b).length ∨
    (utf8 a).length = (utf8 b).length ∧ bytesLe (utf8 a) (utf8 b) := by
  simp only [keyLe, Bool.or_eq_true, Bool.and_eq_true, decide_eq_true_eq]

theorem keyLe_total (a b : JsString) : keyLe a b || keyLe b a := by
  rw [Bool.or_eq_true, keyLe_iff, keyLe_iff]
  rcases Nat.lt_trichotomy (utf8 a).length (utf8 b).length with hlt | heq | hgt
  · exact .inl (.inl hlt)
  · have h := bytesLe_total (utf8 a) (utf8 b)
    rw [Bool.or_eq_true] at h
    exact h.imp (fun h => .inr ⟨heq, h⟩) fun h => .inr ⟨heq.symm, h⟩
  · exact .inr (.inl hgt)

theorem keyLe_trans (a b c : JsString) (h : keyLe a b) (h' : keyLe b c) : keyLe a c := by
  rw [keyLe_iff] at h h' ⊢
  rcases h with hlt | ⟨heq, h⟩
  · rcases h' with hlt' | ⟨heq', -⟩
    · exact .inl (Nat.lt_trans hlt hlt')
    · exact .inl (heq' ▸ hlt)
  · rcases h' with hlt' | ⟨heq', h'⟩
    · exact .inl (heq ▸ hlt')
    · exact .inr ⟨heq.trans heq', bytesLe_trans h h'⟩

theorem keyLe_antisymm {a b : JsString} (ha : isWellFormed a) (hb : isWellFormed b)
    (h : keyLe a b) (h' : keyLe b a) : a = b := by
  rw [keyLe_iff] at h h'
  have hbytes : utf8 a = utf8 b := by
    rcases h with hlt | ⟨heq, h⟩
    · rcases h' with hlt' | ⟨heq', -⟩
      · omega
      · omega
    · rcases h' with hlt' | ⟨-, h'⟩
      · omega
      · exact bytesLe_antisymm h h'
  have hdecode := congrArg utf8Decode hbytes
  rw [utf8Decode_utf8 ha, utf8Decode_utf8 hb] at hdecode
  exact Option.some.inj hdecode

/-- **The keys of a jsonb object are those of the shape in the order of the wire**, when the server
has sorted them. -/
theorem wireOrder_sorted {α : Type} {entries : List (JsString × α)} {keys : List JsString}
    (hperm : keys.Perm (entries.map Prod.fst)) (hwf : ∀ k ∈ keys, isWellFormed k)
    (hsorted : keys.Pairwise fun a b => keyLe a b) :
    (wireOrder entries .jsonb).map (fun e => e.1.1) = keys := by
  have hkeys : entries.zipIdx.map (fun e => e.1.1) = entries.map Prod.fst := by
    conv_rhs => rw [← List.zipIdx_map_fst 0 entries]
    rw [List.map_map]
    rfl
  have hwire : ((wireOrder entries .jsonb).map fun e => e.1.1).Perm keys :=
    ((List.mergeSort_perm _ _).map _).trans (hkeys ▸ hperm.symm)
  have hpair : ((wireOrder entries .jsonb).map fun e => e.1.1).Pairwise fun a b => keyLe a b := by
    rw [List.pairwise_map]
    exact List.pairwise_mergeSort (fun a b c => keyLe_trans a.1.1 b.1.1 c.1.1)
      (fun a b => keyLe_total a.1.1 b.1.1) entries.zipIdx
  refine hwire.eq_of_pairwise (fun a b ha hb h h' => ?_) hpair hsorted
  exact keyLe_antisymm (hwf a (hwire.mem_iff.mp ha)) (hwf b hb) h h'

end Minipg.Shaped
