import Minipg.Bulk.Text

/-!
# What a bulk statement does with rows

`pivotRows` and the VALUES form of `bulkInsert` (`src/connection.ts`), and what the server makes of
a statement with its parameters: one change for each row, that says which column gets what.  The
parameters are values here, as `query` is given them.
-/

namespace Minipg.Bulk

open Js Reading

/-! ### Rows -/

/-- `fields` are the properties of the record and of its class.  Behind them there is
`Object.prototype`, or nothing when it is `bare`. -/
inductive Row
  | array (cells : List Value)
  | record (fields : List (JsString × Value)) (bare : Bool)

/-- The properties of `Object.prototype`: methods, and the prototype itself. -/
def objectPrototype : List (JsString × Value) :=
  ["constructor", "hasOwnProperty", "isPrototypeOf", "propertyIsEnumerable", "toLocaleString",
    "toString", "valueOf", "__defineGetter__", "__defineSetter__", "__lookupGetter__",
    "__lookupSetter__"].zipIdx.map (fun p => (ascii p.1, .other p.2)) ++
    [(ascii "__proto__", .object 0)]

namespace Row

/-- `Array.isArray(row) ? row[c] : row[name]`. -/
def get (row : Row) (c : Nat) (name : JsString) : Value :=
  match row with
  | .array cells => cells.getD c .undefined
  | .record fields bare =>
    match fields.lookup name with
    | some v => v
    | none => if bare then .undefined else (objectPrototype.lookup name).getD .undefined

/-- The cells of a row, column by column. -/
def cells (names : List JsString) (row : Row) : List Value :=
  names.zipIdx.map fun p => row.get p.2 p.1

/-- What a row itself has for a column. -/
def own (row : Row) (c : Nat) (name : JsString) : Value :=
  match row with
  | .array cells => cells.getD c .undefined
  | .record fields _ => (fields.lookup name).getD .undefined

/-- The row has no such key, and yet it can be read. -/
def Inherits : Row → JsString → Prop
  | .array _, _ => False
  | .record fields bare, name =>
    bare = false ∧ fields.lookup name = none ∧ (objectPrototype.lookup name).isSome

variable {row : Row} {c : Nat} {name : JsString}

theorem get_eq_own (h : ¬row.Inherits name) : row.get c name = row.own c name := by
  cases row with
  | array cells => rfl
  | record fields bare =>
    cases hf : fields.lookup name with
    | some v => simp [get, own, hf]
    | none =>
      cases bare with
      | true => simp [get, own, hf]
      | false =>
        have hnone : objectPrototype.lookup name = none :=
          Option.not_isSome_iff_eq_none.mp fun hsome => h ⟨rfl, hf, hsome⟩
        simp [get, own, hf, hnone]

end Row

/-- What is not a cell: a method, or an object. -/
def IsBuiltin (v : Value) : Prop := ∃ k, v = .other k ∨ v = .object k

theorem builtin_of_lookup {name : JsString} {v : Value}
    (h : objectPrototype.lookup name = some v) : IsBuiltin v := by
  have hall : ∀ p ∈ objectPrototype, IsBuiltin p.2 := by
    intro p hp
    rcases List.mem_append.mp hp with hp | hp
    · obtain ⟨q, -, rfl⟩ := List.mem_map.mp hp
      exact ⟨q.2, .inl rfl⟩
    · cases List.mem_singleton.mp hp
      exact ⟨0, .inr rfl⟩
  obtain ⟨p, hp, -, rfl⟩ : ∃ p ∈ objectPrototype, p.1 = name ∧ p.2 = v := by
    obtain ⟨l, k, hl, -⟩ := List.lookup_eq_some_iff.mp h
    exact ⟨(name, v), by simp [hl], rfl, rfl⟩
  exact hall p hp

namespace Row

variable {row : Row} {c : Nat} {name : JsString}

theorem own_inherited (h : row.Inherits name) : row.own c name = .undefined := by
  cases row with
  | array cells => exact h.elim
  | record fields bare =>
    obtain ⟨-, hf, -⟩ := h
    simp [own, hf]

theorem get_inherited (h : row.Inherits name) : IsBuiltin (row.get c name) := by
  cases row with
  | array cells => exact h.elim
  | record fields bare =>
    obtain ⟨rfl, hf, hsome⟩ := h
    obtain ⟨v, hv⟩ := Option.isSome_iff_exists.mp hsome
    have hget : (Row.record fields false).get c name = v := by
      simp [get, hf, hv]
    rw [hget]
    exact builtin_of_lookup hv

end Row

/-! ### Changes -/

inductive Sent
  | default
  | null
  | value (v : Value)

/-- A parameter, or an element of one. -/
def Sent.param (v : Value) : Sent := if v.isNullish then .null else .value v

/-- What the options promise for a cell with `defaults`. -/
def Sent.orDefault : Value → Sent
  | .undefined => .default
  | v => .param v

/-- What one row of a statement does: columns that get something, and what the keys have to be. -/
structure Change where
  set : List (JsString × Sent)
  keys : List (JsString × Sent)

/-- The change with `f n` for column `n`; without keys it is an insert. -/
def Change.of (names : List JsString) (keys : Option (List JsString)) (f : JsString → Sent) :
    Change :=
  match keys with
  | none => ⟨names.map fun n => (n, f n), []⟩
  | some ks => ⟨(names.filter (· ∉ ks)).map fun n => (n, f n), ks.map fun n => (n, f n)⟩

namespace Change

variable {names : List JsString} {keys : Option (List JsString)} {f g : JsString → Sent}

theorem of_congr (hkeys : ∀ ks, keys = some ks → ∀ k ∈ ks, k ∈ names)
    (h : ∀ n ∈ names, f n = g n) : of names keys f = of names keys g := by
  have hmap : ∀ l : List JsString, (∀ n ∈ l, n ∈ names) →
      l.map (fun n => (n, f n)) = l.map fun n => (n, g n) := by
    intro l hl
    apply List.map_congr_left
    intro n hn
    rw [h n (hl n hn)]
  cases keys with
  | none =>
    simp only [of]
    rw [hmap names fun n hn => hn]
  | some ks =>
    simp only [of]
    rw [hmap ks (hkeys ks rfl), hmap _ fun n hn => (List.mem_filter.mp hn).1]

/-- Each column is in the change. -/
theorem mem_of {n : JsString} (hn : n ∈ names) :
    (n, f n) ∈ (of names keys f).set ++ (of names keys f).keys := by
  cases keys with
  | none =>
    apply List.mem_append_left
    exact List.mem_map.mpr ⟨n, hn, rfl⟩
  | some ks =>
    by_cases hk : n ∈ ks
    · apply List.mem_append_right
      exact List.mem_map.mpr ⟨n, hk, rfl⟩
    · apply List.mem_append_left
      exact List.mem_map.mpr ⟨n, List.mem_filter.mpr ⟨hn, by simpa using hk⟩, rfl⟩

theorem eq_of_mem {n : JsString} {s : Sent}
    (h : (n, s) ∈ (of names keys f).set ++ (of names keys f).keys) : s = f n := by
  have hmap : ∀ l : List JsString, (n, s) ∈ l.map (fun n => (n, f n)) → s = f n := by
    intro l hl
    obtain ⟨m, -, he⟩ := List.mem_map.mp hl
    cases he
    rfl
  cases keys with
  | none =>
    simp only [of, List.append_nil] at h
    exact hmap _ h
  | some ks =>
    rcases List.mem_append.mp h with h | h
    · exact hmap _ h
    · exact hmap _ h

theorem of_inj (h : of names keys f = of names keys g) : ∀ n ∈ names, f n = g n := by
  intro n hn
  have hmem : (n, f n) ∈ (of names keys f).set ++ (of names keys f).keys := mem_of hn
  rw [h] at hmem
  exact eq_of_mem hmem

end Change

/-! ### Statements over `unnest` -/

/-- What `makeChunk` hands over to `query`. -/
structure Chunk where
  sql : JsString
  params : List Value
  name : JsString
  oids : Option (List Oid)

/-- `pivotRows` of the rows from `start` to `end`. -/
def pivotRows (names : List JsString) (rows : List Row) : List Value :=
  names.zipIdx.map fun p => .array (rows.map fun row => row.get p.2 p.1)

mutual

/-- The lengths of an array parameter in each of its dimensions. -/
def dims : Value → Option (List Nat)
  | .array es => (dimsOf es).map (es.length :: ·)
  | _ => some []

/-- The lengths that all elements have. -/
def dimsOf : List Value → Option (List Nat)
  | [] => some []
  | [v] => dims v
  | v :: w :: rest => if dims v = dimsOf (w :: rest) then dims v else none

end

mutual

/-- `unnest` goes through all dimensions. -/
def leaves : Value → List Value
  | .array es => leavesOf es
  | v => [v]

def leavesOf : List Value → List Value
  | [] => []
  | v :: rest => leaves v ++ leavesOf rest

end

/-- A column of `unnest`; a jagged array is an error. -/
def column : Option Value → Option (List Sent)
  | some (.array es) =>
    if (dims (.array es)).isSome then some ((leavesOf es).map Sent.param) else none
  | _ => none

/-- The rows of `unnest`, as many as the longest column has. -/
def unnest (columns : List (List Sent)) : List (List Sent) :=
  (List.range ((columns.map List.length).foldr max 0)).map fun r =>
    columns.map fun column => column.getD r .null

namespace Call

variable (c : Call)

/-- The rows that come out of the `unnest` of a call. -/
def unnested (params : List Value) : Option (List (List Sent)) :=
  ((numbered c.types).mapM fun t => column params[t.1 - 1]?).map unnest

/-- What a row of `unnest` does: an insert goes by position, an update by the aliases. -/
def change (cells : List Sent) : Change :=
  let item (p : JsString × Nat) := (p.1, cells.getD p.2 .null)
  match c.keys with
  | none => ⟨c.names.zip cells, []⟩
  | some ks => ⟨(c.located (c.names.filter (· ∉ ks))).map item, (c.located ks).map item⟩

/-- The statement of the call with these parameters makes these changes. -/
def Denotes (chunk : Chunk) (changes : List Change) : Prop :=
  chunk.sql = c.sql ∧ chunk.oids = some c.oids ∧
    ∃ rows, c.unnested chunk.params = some rows ∧ changes = rows.map c.change

end Call

/-! ### Statements over VALUES -/

/-- The arguments of a `bulkInsert` with `defaults`; the types are not looked at. -/
structure Values where
  table : JsString
  names : List JsString
  returning : JsString := []
  nodup : names.Nodup
  ne : names ≠ []

inductive Place
  | default
  | param (n : Nat)
  deriving DecidableEq, Repr

def Place.text : Place → JsString
  | .default => ascii "DEFAULT"
  | .param n => ascii "$" ++ decimal n

/-- The cells of one row; `params` has the parameters so far. -/
def places (params : List Value) : List Value → List Place × List Value
  | [] => ([], params)
  | .undefined :: vs =>
    let r := places params vs
    (.default :: r.1, r.2)
  | v :: vs =>
    let r := places (params ++ [v]) vs
    (.param (params.length + 1) :: r.1, r.2)

def tuples (names : List JsString) (params : List Value) : List Row → List (List Place) × List Value
  | [] => ([], params)
  | row :: rows =>
    let t := places params (row.cells names)
    let r := tuples names t.2 rows
    (t.1 :: r.1, r.2)

def tupleText (tuple : List Place) : JsString :=
  ascii "(" ++ (join (ascii ",") Place.text tuple ++ ascii ")")

/-- What the server takes a place for. -/
def entry (params : List Value) : Place → Option Sent
  | .default => some .default
  | .param 0 => none
  | .param (n + 1) => params[n]?.map Sent.param

namespace Values

variable (v : Values)

/-- `prefix`. -/
def head : JsString :=
  ascii "insert into " ++ Call.qualified v.table ++ ascii " (" ++
    join (ascii ",") qIdent v.names ++ ascii ") values "

/-- `suffix`. -/
def tail : JsString := Call.returningClause v.returning

def text (tuples : List (List Place)) : JsString :=
  v.head ++ (join (ascii ",") tupleText tuples ++ v.tail)

/-- `valuesMeta`: the name of a statement by its text. -/
def named (valuesMeta : List (JsString × JsString)) (sql : JsString) :
    JsString × List (JsString × JsString) :=
  match valuesMeta.lookup sql with
  | some name => (name, valuesMeta)
  | none =>
    let name := ascii "_iv" ++ decimal valuesMeta.length
    (name, valuesMeta ++ [(sql, name)])

/-- `makeChunk`. -/
def chunk (valuesMeta : List (JsString × JsString)) (rows : List Row) :
    Chunk × List (JsString × JsString) :=
  let t := tuples v.names [] rows
  let sql := v.text t.1
  let n := named valuesMeta sql
  (⟨sql, t.2, n.1, none⟩, n.2)

def IsTuples (tuples : List (List Place)) : Prop := tuples ≠ [] ∧ ∀ t ∈ tuples, t ≠ []

/-- The text reads as tuples, and they make these changes. -/
def Denotes (chunk : Chunk) (changes : List Change) : Prop :=
  chunk.oids = none ∧ ∃ tuples, IsTuples tuples ∧ chunk.sql = v.text tuples ∧
    ∃ rows, tuples.mapM (fun t => t.mapM (entry chunk.params)) = some rows ∧
      changes = rows.map fun cells => ⟨v.names.zip cells, []⟩

end Values

end Minipg.Bulk
