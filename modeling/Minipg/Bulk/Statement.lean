import Minipg.Js
import Minipg.Lib.Reading

/-!
# Bulk statements and their cache

`bulkInsert` and `bulkUpdate` (`src/connection.ts`) write one statement over `unnest` and keep it
under a key that is put together from their arguments.  The VALUES form of `bulkInsert` has a cache
of its own, with the text of the statement as the key, and is left out.
-/

namespace Minipg.Bulk

open Js Reading

abbrev Oid := Nat

/-- `TYPE_OID` (`src/spec.ts`). -/
def typeOids : List (String × Oid) :=
  [("int2", 21), ("smallint", 21), ("int4", 23), ("int", 23), ("integer", 23), ("serial", 23),
    ("oid", 26), ("int8", 20), ("bigint", 20), ("float4", 700), ("real", 700), ("float8", 701),
    ("double precision", 701), ("numeric", 1700), ("decimal", 1700), ("money", 790), ("bool", 16),
    ("boolean", 16), ("text", 25), ("varchar", 1043), ("bpchar", 1042), ("char", 18), ("name", 19),
    ("json", 114), ("jsonb", 3802), ("bytea", 17), ("uuid", 2950), ("date", 1082), ("time", 1083),
    ("timestamp", 1114), ("timestamptz", 1184), ("interval", 1186), ("point", 600), ("line", 628),
    ("box", 603)]

/-- `ARRAY_OID`. -/
def arrayOid : Oid → Option Oid
  | 16 => some 1000 | 21 => some 1005 | 23 => some 1007 | 26 => some 1028 | 20 => some 1016
  | 700 => some 1021 | 701 => some 1022 | 1700 => some 1231 | 790 => some 791 | 25 => some 1009
  | 1043 => some 1015 | 1042 => some 1014 | 18 => some 1002 | 19 => some 1003 | 114 => some 199
  | 3802 => some 3807 | 17 => some 1001 | 2950 => some 2951 | 1082 => some 1182
  | 1083 => some 1183 | 1114 => some 1115 | 1184 => some 1185 | 1186 => some 1187
  | 628 => some 629 | 600 => some 1017 | 603 => some 1020
  | _ => none

/-- `toLowerCase`, as far as the names of the types go. -/
def lower (s : JsString) : JsString :=
  s.map fun c => if 65 ≤ c.toNat ∧ c.toNat ≤ 90 then c + 32 else c

def brackets : JsString := ascii "[]"

/-- `paramTypeOid` of a name. -/
def paramTypeOid (t : JsString) : Option Oid :=
  let arr := t.drop (t.length - 2) = brackets
  let base := lower (if arr then t.take (t.length - 2) else t)
  match typeOids.find? fun e => ascii e.1 = base with
  | none => none
  | some e => if arr then arrayOid e.2 else some e.2

/-- Decimal digits. -/
def decimal (n : Nat) : JsString := ascii (toString n)

def qIdent (s : JsString) : JsString :=
  ascii "\"" ++ s.flatMap (fun c => if c = 0x22 then [0x22, 0x22] else [c]) ++ ascii "\""

/-- The arguments that a call has to pass with: a bulk insert has no keys. -/
structure Call where
  table : JsString
  columns : List (JsString × JsString)
  keys : Option (List JsString)
  returning : JsString := []
  nodup : (columns.map Prod.fst).Nodup
  ne : columns ≠ []
  known : ∀ c ∈ columns, (paramTypeOid (c.2 ++ brackets)).isSome
  keys_ne : ∀ ks, keys = some ks → ks ≠ []
  keys_sub : ∀ ks, keys = some ks → ∀ k ∈ ks, k ∈ columns.map Prod.fst
  set_ne : ∀ ks, keys = some ks → (columns.map Prod.fst).filter (· ∉ ks) ≠ []

structure Statement where
  sql : JsString
  oids : List Oid
  deriving DecidableEq, Repr

namespace Call

variable (c : Call)

def names : List JsString := c.columns.map Prod.fst
def types : List JsString := c.columns.map Prod.snd

def nul : JsString := [0]

/-- `insertMeta` keeps the statement under this key. -/
def key : JsString :=
  let joined (l : List JsString) := nul ++ join nul id l
  let call := nul ++ c.table ++ joined c.names ++ joined c.types
  let returning := if c.returning = [] then [] else nul ++ c.returning
  match c.keys with
  | none => ascii "I" ++ call ++ returning
  | some ks => ascii "U" ++ call ++ joined ks ++ returning

/-- `$n::type[]`. -/
def cast (column : Nat × JsString) : JsString :=
  ascii "$" ++ decimal column.1 ++ ascii "::" ++ lower column.2 ++ brackets

/-- The types with their numbers, from 1 on. -/
def numbered (types : List JsString) : List (Nat × JsString) :=
  types.zipIdx.map fun t => (t.2 + 1, t.1)

/-- `bulkCasts`. -/
def casts : JsString := join (ascii ",") cast (numbered c.types)

def oids : List Oid := c.types.map fun t => (paramTypeOid (t ++ brackets)).getD 0

def qualified (table : JsString) : JsString :=
  join (ascii ".") qIdent (table.splitOn 0x2e)

def returningClause (returning : JsString) : JsString :=
  if returning = [] then [] else ascii " returning " ++ returning

/-- The alias of a column of `unnest`. -/
def pos (i : Nat) : JsString := ascii "_c" ++ decimal i

def setItem (item : JsString × Nat) : JsString := qIdent item.1 ++ ascii " = _u." ++ pos item.2

def keyItem (item : JsString × Nat) : JsString :=
  ascii "_t." ++ qIdent item.1 ++ ascii " = _u." ++ pos item.2

/-- Columns with their positions. -/
def located (l : List JsString) : List (JsString × Nat) := l.map fun n => (n, c.names.idxOf n)

def sql : JsString :=
  match c.keys with
  | none =>
    ascii "insert into " ++ qualified c.table ++ ascii " (" ++ join (ascii ",") qIdent c.names ++
      ascii ") select * from unnest(" ++ c.casts ++ ascii ")" ++ returningClause c.returning
  | some ks =>
    ascii "update " ++ qualified c.table ++ ascii " _t set " ++
      join (ascii ", ") setItem (c.located (c.names.filter (· ∉ ks))) ++
      ascii " from unnest(" ++ c.casts ++ ascii ") as _u(" ++
      join (ascii ",") pos (List.range c.names.length) ++ ascii ") where " ++
      join (ascii " and ") keyItem (c.located ks) ++ returningClause c.returning

/-- The statement of a call, from scratch. -/
def statement : Statement := ⟨c.sql, c.oids⟩

end Call

/-! ### The cache -/

structure Meta where
  statement : Statement
  name : JsString
  deriving DecidableEq, Repr

/-- `insertMeta`. -/
abbrev Cache := List (JsString × Meta)

def Cache.get (cache : Cache) (key : JsString) : Option Meta :=
  (cache.find? fun e => e.1 = key).map (·.2)

/-- The statement that a call runs, and the cache after it. -/
def serve (cache : Cache) (c : Call) : Meta × Cache :=
  match cache.get c.key with
  | some m => (m, cache)
  | none =>
    let name := ascii (if c.keys.isSome then "_um" else "_im") ++ decimal cache.length
    (⟨c.statement, name⟩, cache ++ [(c.key, ⟨c.statement, name⟩)])

/-- The cache after the calls of a connection. -/
def serveAll (calls : List Call) : Cache := calls.foldl (fun cache c => (serve cache c).2) []

end Minipg.Bulk
