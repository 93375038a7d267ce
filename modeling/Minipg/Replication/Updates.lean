import Mathlib.Data.List.Nodup
import Minipg.Js.Objects
import Minipg.Replication.Tuples

/-!
# Updates

An Update message of `pgoutput` (`decode` of `src/replication.ts`) has the new row and, by the
replica identity, the old row or its key.  A TOASTed value that the update leaves alone is not sent;
`hydrateToast` takes it from a full old row.  `keyChanged` is computed from the columns that were
sent (`keyChanged_exact`).

Columns are read first and assigned to their rows then, which `tupleLoop_columns` shows to be what
`tuple` does.
-/

namespace Minipg.Updates

open Js Cells Tuples

/-! ### Values -/

/-- A value that a decoder has returned.  Two objects are one object if their ids agree. -/
structure Decoded where
  value : Value
  id : Nat

structure World where
  env : Env
  prototypes : Prototypes Decoded
  /-- The id of what the decoder of a column at an offset returns. -/
  identity : Nat → Value → Nat
  /-- The bytes of an object that is a typed array or a `DataView`. -/
  view : Nat → Option Bytes

/-- A date, a buffer, an array or another object. -/
def isObject : Value → Bool
  | .date _ | .buffer _ | .array _ | .object _ => true
  | _ => false

def isNaN (x : Double) : Bool := x.exponent = 2047 && x.fraction ≠ 0

/-- `Object.is` -/
def objectIs (a b : Decoded) : Bool :=
  match a.value, b.value with
  | .undefined, .undefined => true
  | .null, .null => true
  | .boolean x, .boolean y => x = y
  | .number x, .number y => x = y || (isNaN x && isNaN y)
  | .bigint x, .bigint y => x = y
  | .string x, .string y => x = y
  | .other x, .other y => x = y
  | x, y => isObject x && isObject y && a.id = b.id

/-- What `ArrayBuffer.isView` holds of. -/
def World.bytes (w : World) : Value → Option Bytes
  | .buffer bs => some bs
  | .object id => w.view id
  | _ => none

def sameValue (w : World) (a b : Decoded) : Bool :=
  objectIs a b ||
  match a.value, b.value with
  | .date s, .date t => s = t
  | x, y =>
    match w.bytes x, w.bytes y with
    | some bs, some bs' => bs = bs'
    | _, _ => false

/-- What it is for two values to be the same: they are equal and no objects, both are NaN, they are
dates of one time, views of the same bytes, or one object. -/
inductive IsSame (w : World) : Decoded → Decoded → Prop
  | equal {a b : Decoded} : isObject a.value = false → a.value = b.value → IsSame w a b
  | nan {x y : Double} {i j : Nat} : isNaN x → isNaN y → IsSame w ⟨.number x, i⟩ ⟨.number y, j⟩
  | date {t : Option Js.Time} {i j : Nat} : IsSame w ⟨.date t, i⟩ ⟨.date t, j⟩
  | bytes {a b : Decoded} {bs : Bytes} : w.bytes a.value = some bs → w.bytes b.value = some bs →
      IsSame w a b
  | object {a b : Decoded} : isObject a.value → isObject b.value → a.id = b.id → IsSame w a b

theorem objectIs_iff {a b : Decoded} : objectIs a b = true ↔
    (isObject a.value = false ∧ a.value = b.value) ∨
    (∃ x y, a.value = .number x ∧ b.value = .number y ∧ isNaN x ∧ isNaN y) ∨
    (isObject a.value ∧ isObject b.value ∧ a.id = b.id) := by
  obtain ⟨x, i⟩ := a
  obtain ⟨y, j⟩ := b
  cases x <;> cases y <;> simp [objectIs, isObject]

theorem sameValue_iff {w : World} {a b : Decoded} : sameValue w a b = true ↔ IsSame w a b := by
  have hviews : (match w.bytes a.value, w.bytes b.value with
      | some bs, some bs' => decide (bs = bs')
      | _, _ => false) = true ↔
      ∃ bs, w.bytes a.value = some bs ∧ w.bytes b.value = some bs := by
    cases w.bytes a.value <;> cases w.bytes b.value <;> simp [eq_comm]
  constructor
  · intro h
    rw [sameValue, Bool.or_eq_true, objectIs_iff] at h
    rcases h with (⟨hx, heq⟩ | ⟨x, y, hx, hy, hnan, hnan'⟩ | ⟨hx, hy, hid⟩) | h
    · exact .equal hx heq
    · obtain ⟨v, i⟩ := a
      obtain ⟨v', j⟩ := b
      obtain rfl : v = .number x := hx
      obtain rfl : v' = .number y := hy
      exact .nan hnan hnan'
    · exact .object hx hy hid
    · split at h
      next s t hs ht =>
        obtain ⟨v, i⟩ := a
        obtain ⟨v', j⟩ := b
        obtain rfl : v = .date s := hs
        obtain rfl : v' = .date t := ht
        obtain rfl : s = t := of_decide_eq_true h
        exact .date
      next =>
        obtain ⟨bs, hbs, hbs'⟩ := hviews.mp h
        exact .bytes hbs hbs'
  · intro h
    rw [sameValue, Bool.or_eq_true, objectIs_iff]
    cases h with
    | equal hx heq => exact .inl (.inl ⟨hx, heq⟩)
    | nan hx hy => exact .inl (.inr (.inl ⟨_, _, rfl, rfl, hx, hy⟩))
    | date => exact .inr (decide_eq_true rfl)
    | object hx hy hid => exact .inl (.inr (.inr ⟨hx, hy, hid⟩))
    | bytes hbs hbs' =>
      right
      split
      next s t hs ht =>
        rw [hs] at hbs
        cases hbs
      next => exact hviews.mpr ⟨_, hbs, hbs'⟩

/-! ### Reading -/

/-- A column of a tuple; null is a value. -/
inductive ColumnData
  | unchanged
  | value (d : Decoded)

def nullData : ColumnData := .value ⟨.null, 0⟩

/-- The name of the `i`-th column of a tuple. -/
def nameAt (rel : RelEntry) (i : Nat) : String := rel.names[i]?.getD (toString i)

/-- The columns of a tuple from the `i`-th on, which starts at `off`, and where they end. -/
def columnsLoop (w : World) (rel : RelEntry) (b : Bytes) :
    Nat → Nat → Nat → Except Js.JsError (List ColumnData × Nat)
  | 0, _, off => .ok ([], off)
  | k + 1, i, off =>
    let kind := b[off]?
    if kind = some 0x6e then
      (columnsLoop w rel b k (i + 1) (off + 1)).map fun p => (nullData :: p.1, p.2)
    else if kind = some 0x75 then
      (columnsLoop w rel b k (i + 1) (off + 1)).map fun p => (.unchanged :: p.1, p.2)
    else do
      let len := (signed 32 (← readBE 4 b (off + 1))).toNat
      let v ← rel.value w.env b kind i (off + 5) len
      (columnsLoop w rel b k (i + 1) (off + 5 + len)).map fun p =>
        (.value ⟨v, w.identity (off + 5) v⟩ :: p.1, p.2)

def columns (w : World) (rel : RelEntry) (b : Bytes) (off : Nat) :
    Except Js.JsError (List ColumnData × Nat) := do
  let n := signed 16 (← readBE 2 b off)
  columnsLoop w rel b n.toNat 0 (off + 2)

/-- The columns from the `i`-th on, with their names. -/
def named (rel : RelEntry) (i : Nat) (cs : List ColumnData) : List (String × ColumnData) :=
  (cs.zipIdx i).map fun p => (nameAt rel p.2, p.1)

/-- What `tuple` does with a column. -/
def addColumn (t : Tuple) (p : String × ColumnData) : Tuple :=
  match p.2 with
  | .unchanged => { t with unchanged := t.unchanged ++ [p.1] }
  | .value d => { t with row := Rows.assign t.row p.1 (.cell (Plans.cellOf d.value)) }

/-- The tuple is read column by column, and its columns are added one after the other. -/
theorem tupleLoop_columns (w : World) (rel : RelEntry) (b : Bytes) (k : Nat) :
    ∀ (i off : Nat) (t : Tuple), tupleLoop w.env rel b k i off t =
      (columnsLoop w rel b k i off).map fun p => ((named rel i p.1).foldl addColumn t, p.2) := by
  induction k with
  | zero => exact fun _ _ _ => rfl
  | succ k ih =>
    intro i off t
    rw [tupleLoop, columnsLoop]
    split_ifs
    · rw [ih]
      cases columnsLoop w rel b k (i + 1) (off + 1) <;> rfl
    · rw [ih]
      cases columnsLoop w rel b k (i + 1) (off + 1) <;> rfl
    · cases readBE 4 b (off + 1) with
      | error e => rfl
      | ok n =>
        cases hv : rel.value w.env b b[off]? i (off + 5) (signed 32 n).toNat with
        | error e =>
          simp only [bind, Except.bind, hv]
          rfl
        | ok v =>
          simp only [bind, Except.bind, hv, ih]
          cases columnsLoop w rel b k (i + 1) (off + 5 + (signed 32 n).toNat) <;> rfl

/-! ### Entries with a key -/

/-- The entry of a relation.  One with a key has a declared shape: its names are distinct, and the
key names some of them. -/
structure Entry extends RelEntry where
  key : Option (List String) := none
  nodup : ∀ k ∈ key, names.Nodup := by simp
  key_mem : ∀ k ∈ key, ∀ name ∈ k, name ∈ names := by simp

/-- A declared shape: its names, the SQL columns that some of them map to, and its key. -/
structure TableShape where
  cols : List String
  columns : String → Option String := fun _ => none
  key : Option (List String) := none

namespace TableShape

variable (quote : String → String) (info : ReplicationRelation) (s : TableShape)

def sqlName (name : String) : String := (s.columns name).getD name

/-- "minipg: replication shape for" the table -/
def about : String := "minipg: replication shape for " ++ info.schema ++ "." ++ info.table

def noColumn (name sql : String) : Js.JsError :=
  .error (about info ++ " declares column " ++ quote name ++
    (if sql ≠ name then " (-> " ++ quote sql ++ ")" else "") ++ " but the relation has: " ++
    String.intercalate ", " info.names)

def mappedTwice (prev name sql : String) : Js.JsError :=
  .error (about info ++ ": " ++ quote prev ++ " and " ++ quote name ++ " both map to column " ++
    quote sql)

def collides (name : String) : Js.JsError :=
  .error (about info ++ ": output key " ++ quote name ++
    " collides with another column — map one of them via columns")

def emptyKey : Js.JsError :=
  .error (about info ++
    ": key is an empty array — declare at least one shape key or omit key")

def noKey (name : String) : Js.JsError :=
  .error (about info ++ ": key lists " ++ quote name ++ " but the shape has no such key")

/-- The checks of `start()` on a key. -/
def checkKey : Except Js.JsError Unit :=
  match s.key with
  | none => .ok ()
  | some [] => .error (emptyKey info)
  | some key =>
    match key.find? fun name => !s.cols.contains name with
    | some name => .error (noKey quote info name)
    | none => .ok ()

/-- The names of the columns of the shape take the places of their SQL names. -/
def place : List String → List (String × String) → List String → Except Js.JsError (List String)
  | [], _, names => .ok names
  | name :: cols, bySql, names =>
    let sql := s.sqlName name
    match info.names.findIdx? (· = sql) with
    | none => .error (noColumn quote info name sql)
    | some i =>
      match bySql.lookup sql with
      | some prev => .error (mappedTwice quote info prev name sql)
      | none => place cols ((sql, name) :: bySql) (names.set i name)

/-- The first name that has occurred before. -/
def repeated (seen : List String) : List String → Option String
  | [] => none
  | name :: names => if name ∈ seen then some name else repeated (name :: seen) names

/-- The names in the entry of the relation. -/
def outputNames : Except Js.JsError (List String) := do
  let names ← s.place quote info s.cols [] info.names
  match repeated [] names with
  | some name => .error (collides quote info name)
  | none => return names

variable {quote info s}

theorem nodup_of_repeated {names : List String} : ∀ {seen : List String},
    repeated seen names = none → names.Nodup ∧ ∀ name ∈ names, name ∉ seen := by
  induction names with
  | nil => exact fun _ => ⟨List.nodup_nil, fun _ h => absurd h List.not_mem_nil⟩
  | cons name names ih =>
    intro seen h
    rw [repeated] at h
    split at h
    · cases h
    next hseen =>
      obtain ⟨hnodup, hnot⟩ := ih h
      refine ⟨List.nodup_cons.mpr ⟨fun hmem => hnot name hmem List.mem_cons_self, hnodup⟩, ?_⟩
      intro name' hmem
      rcases List.mem_cons.mp hmem with rfl | hmem
      · exact hseen
      · exact fun h => hnot name' hmem (List.mem_cons_of_mem _ h)

/-- The columns so far are in the places of their SQL names. -/
def Placed (info : ReplicationRelation) (bySql : List (String × String)) (names : List String) :
    Prop :=
  names.length = info.names.length ∧ ∀ p ∈ bySql, ∃ i : Nat, info.names[i]? = some p.1 ∧
    names[i]? = some p.2

theorem Placed.cons {bySql : List (String × String)} {names : List String} {sql name : String}
    {i : Nat} (h : Placed info bySql names) (hi : info.names.findIdx? (· = sql) = some i)
    (hnew : bySql.lookup sql = none) :
    Placed info ((sql, name) :: bySql) (names.set i name) := by
  obtain ⟨hlt, hsql, -⟩ := List.findIdx?_eq_some_iff_getElem.mp hi
  rw [decide_eq_true_eq] at hsql
  refine ⟨by rw [List.length_set, h.1], fun p hp => ?_⟩
  rcases List.mem_cons.mp hp with rfl | hp
  · exact ⟨i, by rw [List.getElem?_eq_getElem hlt, hsql],
      by rw [List.getElem?_set_self (by rw [h.1]; exact hlt)]⟩
  · obtain ⟨j, hj, hname⟩ := h.2 p hp
    have hne : i ≠ j := by
      rintro rfl
      rw [List.getElem?_eq_getElem hlt, hsql, Option.some.injEq] at hj
      have hnone := List.lookup_eq_none_iff.mp hnew p hp
      simp [hj] at hnone
    exact ⟨j, hj, by rw [List.getElem?_set_ne hne, hname]⟩

theorem place_placed {cols : List String} : ∀ {bySql : List (String × String)}
    {names names' : List String}, Placed info bySql names →
    s.place quote info cols bySql names = .ok names' →
    names'.length = info.names.length ∧ (∀ p ∈ bySql, p.2 ∈ names') ∧
      ∀ name ∈ cols, name ∈ names' := by
  induction cols with
  | nil =>
    intro bySql names names' h hplace
    cases hplace
    refine ⟨h.1, fun p hp => ?_, fun _ hmem => absurd hmem List.not_mem_nil⟩
    obtain ⟨i, -, hi⟩ := h.2 p hp
    exact List.mem_of_getElem? hi
  | cons name cols ih =>
    intro bySql names names' h hplace
    rw [place] at hplace
    split at hplace
    · cases hplace
    next i hi =>
      split at hplace
      · cases hplace
      next hnew =>
        obtain ⟨hlen, hby, hcols⟩ := ih (h.cons hi hnew) hplace
        refine ⟨hlen, fun p hp => hby p (List.mem_cons_of_mem _ hp), fun name' hmem => ?_⟩
        rcases List.mem_cons.mp hmem with rfl | hmem
        · exact hby _ List.mem_cons_self
        · exact hcols name' hmem

/-- The names of an entry are distinct, and the names of the shape are among them. -/
theorem outputNames_ok {names : List String} (h : s.outputNames quote info = .ok names) :
    names.length = info.names.length ∧ names.Nodup ∧ ∀ name ∈ s.cols, name ∈ names := by
  rw [outputNames] at h
  cases hplace : s.place quote info s.cols [] info.names with
  | error e =>
    rw [hplace] at h
    cases h
  | ok placed =>
    rw [hplace] at h
    cases hrep : repeated [] placed with
    | some name =>
      simp only [bind, Except.bind, hrep] at h
      cases h
    | none =>
      simp only [bind, Except.bind, hrep] at h
      cases h
      have hstart : Placed info [] info.names := ⟨rfl, fun _ hp => absurd hp List.not_mem_nil⟩
      obtain ⟨hlen, -, hcols⟩ := place_placed hstart hplace
      exact ⟨hlen, (nodup_of_repeated hrep).1, hcols⟩

theorem mem_of_checkKey (h : s.checkKey quote info = .ok ()) :
    ∀ key ∈ s.key, ∀ name ∈ key, name ∈ s.cols := by
  intro key hkey name hname
  rw [checkKey, show s.key = some key from hkey] at h
  split at h
  next heq => cases heq
  next heq => cases h
  next heq =>
    cases heq
    split at h
    · cases h
    next hnone =>
      have hall := List.find?_eq_none.mp hnone name hname
      simpa using hall

end TableShape

/-- `relEntry`, with the decoders that the shape chooses for the columns. -/
def shapedEntry (quote : String → String) (info : ReplicationRelation) (s : TableShape)
    (decoders : List Cell) (bin : Option (List (Option Cell)))
    (hkey : s.checkKey quote info = .ok ()) : Except Js.JsError Entry :=
  match h : s.outputNames quote info with
  | .error e => .error e
  | .ok names => .ok
    { info := info
      names := names
      decoders := decoders
      bin := bin
      key := s.key
      nodup := fun _ _ => (TableShape.outputNames_ok h).2.1
      key_mem := fun key hmem name hname => (TableShape.outputNames_ok h).2.2 name
        (TableShape.mem_of_checkKey hkey key hmem name hname) }

/-- A row, and the columns that it lacks. -/
structure Assembled where
  row : Obj Decoded
  unchanged : List String

def sent (p : String × ColumnData) : Option (String × Decoded) :=
  match p.2 with
  | .unchanged => none
  | .value d => some (p.1, d)

def kept (p : String × ColumnData) : Option String :=
  match p.2 with
  | .unchanged => some p.1
  | .value _ => none

def assemble (w : World) (rel : RelEntry) (cs : List ColumnData) : Assembled where
  row := (Obj.new w.prototypes).setAll w.prototypes ((named rel 0 cs).filterMap sent)
  unchanged := (named rel 0 cs).filterMap kept

inductive OldKind
  | key
  | full
  deriving DecidableEq, Repr

/-- The tuples of an Update. -/
structure Parts where
  old : Option (OldKind × List ColumnData)
  new : List ColumnData

/-- What is read of an Update, whose relation has been found. -/
def readUpdate (w : World) (rel : RelEntry) (b : Bytes) : Except Js.JsError Parts :=
  let k := b[5]?
  if k = some 0x4b ∨ k = some 0x4f then do
    let (old, off) ← columns w rel b 6
    let (new, _) ← columns w rel b (off + 1)
    return ⟨some (if k = some 0x4b then .key else .full, old), new⟩
  else do
    let (new, _) ← columns w rel b 6
    return ⟨none, new⟩

structure UpdateEvent where
  schema : String
  table : String
  new : Obj Decoded
  unchanged : List String
  keyChanged : Option Bool
  old : Option (OldKind × Obj Decoded)

/-- The values of the old row for the names that the new row lacks, if it has them. -/
def fills (w : World) (old : Obj Decoded) (unchanged : List String) : List (String × Decoded) :=
  unchanged.filterMap fun name => (old.get w.prototypes name).map fun v => (name, v)

/-- `t.row`, with the TOAST fill. -/
def newRow (w : World) (hydrateToast : Bool) (old : Option (OldKind × Obj Decoded))
    (t : Assembled) : Obj Decoded :=
  match old with
  | some (.full, old) =>
    if hydrateToast then t.row.setAll w.prototypes (fills w old t.unchanged) else t.row
  | _ => t.row

/-- `row[name]` -/
def read (w : World) (row : Obj Decoded) (name : String) : Decoded :=
  (row.get w.prototypes name).getD ⟨.undefined, 0⟩

/-- `keyChanged`, of an entry with the key. -/
def isKeyChanged (w : World) (key : List String) (old : Option (OldKind × Obj Decoded))
    (unchanged : List String) (new : Obj Decoded) : Bool :=
  match old with
  | some (.key, _) => true
  | none => false
  | some (.full, old) => key.any fun name =>
    !unchanged.contains name && !sameValue w (read w old name) (read w new name)

def Entry.event (w : World) (rel : Entry) (hydrateToast : Bool) (parts : Parts) : UpdateEvent :=
  let old := parts.old.map fun p => (p.1, (assemble w rel.toRelEntry p.2).row)
  let t := assemble w rel.toRelEntry parts.new
  let new := newRow w hydrateToast old t
  { schema := rel.info.schema
    table := rel.info.table
    new := new
    unchanged := t.unchanged
    keyChanged := rel.key.map fun key => isKeyChanged w key old t.unchanged new
    old := old }

/-- `decode` of an Update. -/
def decodeUpdate (w : World) (rel : Entry) (hydrateToast : Bool) (b : Bytes) :
    Except Js.JsError UpdateEvent :=
  (readUpdate w rel.toRelEntry b).map (rel.event w hydrateToast)

/-! ### The rows -/

/-- A tuple with a column for each of the relation. -/
def Complete (rel : RelEntry) (cs : List ColumnData) : Prop := cs.length = rel.names.length

theorem named_complete {rel : RelEntry} {cs : List ColumnData} (h : Complete rel cs) :
    named rel 0 cs = rel.names.zip cs := by
  apply List.ext_getElem
  · simp [named, show cs.length = rel.names.length from h]
  · intro i hi hi'
    rw [List.length_zip] at hi'
    have hname : i < rel.names.length := by omega
    simp [named, nameAt, hname]

theorem mem_kept {name : String} {ps : List (String × ColumnData)} :
    name ∈ ps.filterMap kept ↔ (name, .unchanged) ∈ ps := by
  rw [List.mem_filterMap]
  constructor
  · rintro ⟨⟨name', c⟩, hmem, hkept⟩
    cases c with
    | unchanged =>
      cases hkept
      exact hmem
    | value d => cases hkept
  · exact fun h => ⟨_, h, rfl⟩

theorem mem_sent {name : String} {d : Decoded} {ps : List (String × ColumnData)} :
    (name, d) ∈ ps.filterMap sent ↔ (name, .value d) ∈ ps := by
  rw [List.mem_filterMap]
  constructor
  · rintro ⟨⟨name', c⟩, hmem, hsent⟩
    cases c with
    | unchanged => cases hsent
    | value d => cases hsent; exact hmem
  · exact fun h => ⟨_, h, rfl⟩

theorem sent_sublist (ps : List (String × ColumnData)) :
    ((ps.filterMap sent).map Prod.fst).Sublist (ps.map Prod.fst) := by
  induction ps with
  | nil => exact .slnil
  | cons p ps ih =>
    obtain ⟨name, c⟩ := p
    cases c with
    | unchanged => exact ih.cons _
    | value d => exact ih.cons_cons _

variable {w : World} {rel : RelEntry} {name : String}

/-- The row has the decoded value of a column. -/
theorem assemble_find {cs : List ColumnData} {d : Decoded} (hnodup : rel.names.Nodup)
    (hcs : Complete rel cs) (hname : name ≠ "__proto__")
    (hmem : (name, .value d) ∈ rel.names.zip cs) : (assemble w rel cs).row.find name = some d := by
  apply Obj.find_setAll hname
  · apply (sent_sublist _).nodup
    rw [named_complete hcs, List.map_fst_zip (Nat.le_of_eq (show _ = _ from hcs).symm)]
    exact hnodup
  · rw [mem_sent, named_complete hcs]
    exact hmem

/-- Each column of a tuple that has them all is sent, or it is listed as unchanged. -/
theorem sent_of_notMem {cs : List ColumnData} (hcs : Complete rel cs) (hname : name ∈ rel.names)
    (hnot : name ∉ (assemble w rel cs).unchanged) :
    ∃ d, (name, .value d) ∈ rel.names.zip cs := by
  obtain ⟨i, hi, rfl⟩ := List.mem_iff_getElem.mp hname
  have hi' : i < cs.length := by
    rw [show cs.length = rel.names.length from hcs]
    exact hi
  have hmem : (rel.names[i], cs[i]) ∈ rel.names.zip cs :=
    List.mem_iff_getElem.mpr ⟨i, by rw [List.length_zip]; omega, List.getElem_zip⟩
  cases hc : cs[i] with
  | value d => exact ⟨d, hc ▸ hmem⟩
  | unchanged =>
    refine absurd ?_ hnot
    rw [assemble, mem_kept, named_complete hcs]
    exact hc ▸ hmem

theorem fills_subset (old : Obj Decoded) (unchanged : List String) :
    ∀ name ∈ (fills w old unchanged).map Prod.fst, name ∈ unchanged := by
  intro name hname
  obtain ⟨p, hp, rfl⟩ := List.mem_map.mp hname
  obtain ⟨name, hmem, hv⟩ := List.mem_filterMap.mp hp
  obtain ⟨v, -, rfl⟩ := Option.map_eq_some_iff.mp hv
  exact hmem

section Filling

variable (hydrateToast : Bool) (old : Option (OldKind × Obj Decoded)) (t : Assembled)

/-- The TOAST fill writes to unchanged columns only. -/
theorem newRow_fills : ∃ ps : List (String × Decoded),
    newRow w hydrateToast old t = t.row.setAll w.prototypes ps ∧
      ∀ name ∈ ps.map Prod.fst, name ∈ t.unchanged := by
  have hno : ∃ ps : List (String × Decoded), t.row = t.row.setAll w.prototypes ps ∧
      ∀ name ∈ ps.map Prod.fst, name ∈ t.unchanged := ⟨[], rfl, by simp⟩
  rcases old with _ | ⟨_ | _, old⟩
  · exact hno
  · exact hno
  · cases hydrateToast with
    | false => exact hno
    | true => exact ⟨_, rfl, fills_subset old t.unchanged⟩

theorem newRow_find (hname : name ∉ t.unchanged) :
    (newRow w hydrateToast old t).find name = t.row.find name := by
  obtain ⟨ps, hps, hsubset⟩ := @newRow_fills w hydrateToast old t
  rw [hps]
  exact Obj.find_setAll_of_notMem ps _ fun h => hname (hsubset name h)

theorem newRow_proto (hname : "__proto__" ∉ t.unchanged) :
    (newRow w hydrateToast old t).proto = t.row.proto := by
  obtain ⟨ps, hps, hsubset⟩ := @newRow_fills w hydrateToast old t
  rw [hps]
  exact Obj.setAll_proto ps _ fun h => hname (hsubset _ h)

theorem newRow_read (hname : name ∉ t.unchanged)
    (h : name = "__proto__" ∨ (t.row.find name).isSome = true) :
    read w (newRow w hydrateToast old t) name = read w t.row name := by
  rw [read, read, Obj.get_congr (newRow_find hydrateToast old t hname)]
  rcases h with rfl | hsome
  · exact .inl (newRow_proto hydrateToast old t hname)
  · exact .inr hsome

end Filling

/-- A name has one column. -/
theorem column_unique {cs : List ColumnData} {c c' : ColumnData} (hnodup : rel.names.Nodup)
    (h : (name, c) ∈ rel.names.zip cs) (h' : (name, c') ∈ rel.names.zip cs) : c = c' := by
  obtain ⟨i, hi, heq⟩ := List.mem_iff_getElem.mp h
  obtain ⟨j, hj, heq'⟩ := List.mem_iff_getElem.mp h'
  rw [List.getElem_zip, Prod.mk.injEq] at heq heq'
  have hij : i = j := (List.Nodup.getElem_inj_iff hnodup).mp (heq.1.trans heq'.1.symm)
  subst hij
  exact heq.2.symm.trans heq'.2

/-! ### `keyChanged` -/

/-- A column is sent, and its value is not the old one. -/
def IsChanged (w : World) (rel : RelEntry) (old new : List ColumnData) (name : String) : Prop :=
  ∃ o n, (name, .value o) ∈ rel.names.zip old ∧ (name, .value n) ∈ rel.names.zip new ∧
    ¬ IsSame w o n

/-- The fill does not matter to the comparison of the keys. -/
theorem isKeyChanged_newRow {rel : Entry} {key : List String} {cs : List ColumnData}
    (hkey : rel.key = some key) (hcs : Complete rel.toRelEntry cs) (hydrateToast : Bool)
    (old : Option (OldKind × Obj Decoded)) :
    isKeyChanged w key old (assemble w rel.toRelEntry cs).unchanged
        (newRow w hydrateToast old (assemble w rel.toRelEntry cs)) =
      isKeyChanged w key old (assemble w rel.toRelEntry cs).unchanged
        (assemble w rel.toRelEntry cs).row := by
  rcases old with _ | ⟨_ | _, old⟩
  · rfl
  · rfl
  · show (key.any fun name => _) = key.any fun name => _
    rw [Bool.eq_iff_iff, List.any_eq_true, List.any_eq_true]
    refine exists_congr fun name => and_congr_right fun hmem => ?_
    by_cases hnot : name ∈ (assemble w rel.toRelEntry cs).unchanged
    · simp [hnot]
    · rw [newRow_read hydrateToast _ _ hnot]
      by_cases hname : name = "__proto__"
      · exact .inl hname
      · obtain ⟨d, hd⟩ := sent_of_notMem hcs (rel.key_mem key hkey name hmem) hnot
        rw [assemble_find (rel.nodup key hkey) hcs hname hd]
        exact .inr rfl

theorem isKeyChanged_iff {rel : Entry} {key : List String} {old new : List ColumnData}
    (hkey : rel.key = some key) (hproto : "__proto__" ∉ key) (hold : Complete rel.toRelEntry old)
    (hsent : .unchanged ∉ old) (hnew : Complete rel.toRelEntry new) :
    isKeyChanged w key (some (.full, (assemble w rel.toRelEntry old).row))
        (assemble w rel.toRelEntry new).unchanged (assemble w rel.toRelEntry new).row = true ↔
      ∃ name ∈ key, IsChanged w rel.toRelEntry old new name := by
  have hnodup := rel.nodup key hkey
  rw [isKeyChanged, List.any_eq_true]
  refine exists_congr fun name => and_congr_right fun hmem => ?_
  have hname : name ≠ "__proto__" := fun heq => hproto (heq ▸ hmem)
  have hrel := rel.key_mem key hkey name hmem
  have hread : ∀ {cs : List ColumnData} {d : Decoded}, Complete rel.toRelEntry cs →
      (name, .value d) ∈ rel.names.zip cs → read w (assemble w rel.toRelEntry cs).row name = d := by
    intro cs d hcs hd
    rw [read, Obj.get_of_find (assemble_find hnodup hcs hname hd)]
    rfl
  have hold' : name ∉ (assemble w rel.toRelEntry old).unchanged := by
    rw [assemble, mem_kept, named_complete hold]
    exact fun h => hsent (List.of_mem_zip h).2
  obtain ⟨o, ho⟩ := sent_of_notMem hold hrel hold'
  rw [Bool.and_eq_true, Bool.not_eq_true', Bool.not_eq_true', hread hold ho]
  constructor
  · rintro ⟨hnot, hdiff⟩
    rw [List.contains_eq_mem, decide_eq_false_iff_not] at hnot
    obtain ⟨n, hn⟩ := sent_of_notMem hnew hrel hnot
    rw [hread hnew hn] at hdiff
    refine ⟨o, n, ho, hn, fun h => ?_⟩
    rw [sameValue_iff.mpr h] at hdiff
    cases hdiff
  · rintro ⟨o', n, ho', hn, hdiff⟩
    have ho_eq : o' = o := by rw [← hread hold ho', hread hold ho]
    constructor
    · rw [List.contains_eq_mem, decide_eq_false_iff_not, assemble, mem_kept, named_complete hnew]
      intro hkept
      cases column_unique hnodup hn hkept
    · rw [hread hnew hn, Bool.eq_false_iff, ← ho_eq]
      exact fun h => hdiff (sameValue_iff.mp h)

/-- **The TOAST fill changes no `keyChanged`**: an Update is decoded with and without it to the same
`keyChanged`, and to new rows that are the same apart from the columns that are listed as unchanged.
With a full old row `keyChanged` is whether some column of the key is sent with a value that is not
the same as the old one.  An assignment to `__proto__` stores no value. -/
theorem keyChanged_exact {rel : Entry} {b : Bytes} {parts : Parts}
    (hread : readUpdate w rel.toRelEntry b = .ok parts)
    (hnew : Complete rel.toRelEntry parts.new) :
    (∃ e e', decodeUpdate w rel true b = .ok e ∧ decodeUpdate w rel false b = .ok e' ∧
      e.keyChanged = e'.keyChanged ∧ e.unchanged = e'.unchanged ∧
      (∀ name ∉ e.unchanged, e.new.find name = e'.new.find name) ∧
      ("__proto__" ∉ e.unchanged → e.new.proto = e'.new.proto)) ∧
    ∀ key old, rel.key = some key → "__proto__" ∉ key → parts.old = some (.full, old) →
      Complete rel.toRelEntry old → .unchanged ∉ old →
      ∀ hydrateToast e, decodeUpdate w rel hydrateToast b = .ok e →
        (e.keyChanged = some true ↔
          ∃ name ∈ key, IsChanged w rel.toRelEntry old parts.new name) := by
  have hdecode : ∀ hydrateToast, decodeUpdate w rel hydrateToast b =
      .ok (rel.event w hydrateToast parts) := by
    intro hydrateToast
    rw [decodeUpdate, hread]
    rfl
  constructor
  · refine ⟨_, _, hdecode true, hdecode false, ?_, rfl, ?_, ?_⟩
    · simp only [Entry.event]
      cases hkey : rel.key with
      | none => rfl
      | some key =>
        rw [Option.map_some, Option.map_some, isKeyChanged_newRow hkey hnew,
          isKeyChanged_newRow hkey hnew]
    · intro name hname
      exact (newRow_find true _ _ hname).trans (newRow_find false _ _ hname).symm
    · intro hname
      exact (newRow_proto true _ _ hname).trans (newRow_proto false _ _ hname).symm
  · intro key old hkey hproto hfull hold hsent hydrateToast e he
    rw [hdecode] at he
    cases he
    rw [← isKeyChanged_iff hkey hproto hold hsent hnew]
    simp only [Entry.event, hkey, hfull, Option.map_some, Option.some.injEq]
    rw [isKeyChanged_newRow hkey hnew]

/-! ### A flag and an array -/

open Plans (hexOnly)

/-- Decoders that return a new object for each value. -/
def fresh : World where
  env := hexOnly.env
  prototypes := {
    base := ⟨.object 0, 0⟩
    member := fun _ _ => none
    hasAccessor := fun _ => true
    isObject := fun d => isObject d.value
    isNull := fun d => match d.value with
      | .null => true
      | _ => false }
  identity := fun off _ => off
  view := fun _ => none

/-- The table with a flag and a note; the flag is its key. -/
def flagKey : Entry where
  toRelEntry := flagEntry
  key := some ["set"]
  nodup := fun _ _ => by decide
  key_mem := by
    rintro _ ⟨⟩ name hname
    rw [List.mem_singleton.mp hname]
    exact List.mem_cons_self

/-- The flag changes from true to false, and the note, which is not sent again, is `a`. -/
def cleared : Bytes :=
  [0x55, 0, 0, 0, 1, 0x4f, 0, 2, 0x74, 0, 0, 0, 1, 116, 0x74, 0, 0, 0, 1, 97,
    0x4e, 0, 2, 0x74, 0, 0, 0, 1, 102, 0x75]

def clearedParts : Parts where
  old := some (.full, [.value ⟨.boolean true, 13⟩, .value ⟨.string [97], 19⟩])
  new := [.value ⟨.boolean false, 28⟩, .unchanged]

set_option maxRecDepth 4000 in
theorem cleared_changed : ∃ e e', decodeUpdate fresh flagKey true cleared = .ok e ∧
    decodeUpdate fresh flagKey false cleared = .ok e' ∧ e.keyChanged = some true ∧
    e'.keyChanged = some true := by
  have hread : readUpdate fresh flagKey.toRelEntry cleared = .ok clearedParts := rfl
  obtain ⟨⟨e, e', he, he', hsame, -⟩, hfull⟩ := keyChanged_exact hread rfl
  have hchanged : e.keyChanged = some true := by
    refine (hfull ["set"] _ rfl (by decide) rfl rfl (by simp) true e he).mpr ?_
    refine ⟨"set", List.mem_cons_self, _, _, List.mem_cons_self, List.mem_cons_self, ?_⟩
    rw [← sameValue_iff]
    exact Bool.false_ne_true
  exact ⟨e, e', he, he', hchanged, hsame ▸ hchanged⟩

/-- A table of arrays of numbers, which are their key. -/
def arrays : ReplicationRelation where
  schema := "public"
  table := "arrays"
  replicaIdentity := 'f'
  columns := [⟨"a", 1007, true⟩]
  columns_lt := by decide

def arrayKey : Entry where
  info := arrays
  names := ["a"]
  decoders := (Plans.collect (columnDecoder hexOnly.env noOverrides) arrays.oids).toOption.getD []
  bin := none
  key := some ["a"]
  nodup := fun _ _ => by decide
  key_mem := by
    rintro _ ⟨⟩ name hname
    exact hname

/-- The array was empty, and it is. -/
def stillEmpty : Bytes :=
  [0x55, 0, 0, 0, 1, 0x4f, 0, 1, 0x74, 0, 0, 0, 2, 0x7b, 0x7d,
    0x4e, 0, 1, 0x74, 0, 0, 0, 2, 0x7b, 0x7d]

set_option maxRecDepth 4000 in
/-- Two arrays read as changed although they have the same elements. -/
theorem arrays_changed :
    readUpdate fresh arrayKey.toRelEntry stillEmpty =
      .ok ⟨some (.full, [.value ⟨.array [], 13⟩]), [.value ⟨.array [], 23⟩]⟩ ∧
    ∃ e, decodeUpdate fresh arrayKey true stillEmpty = .ok e ∧ e.keyChanged = some true :=
  ⟨rfl, _, rfl, rfl⟩

end Minipg.Updates
