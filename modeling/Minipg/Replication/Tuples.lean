import Minipg.Protocol
import Minipg.Decode.BigEndian
import Minipg.Decode.Entries
import Minipg.Encode.Frames

/-!
# Replicated rows

A tuple of `pgoutput` is decoded in the middle of a message (`src/replication.ts`), each column by
the decoder that a query has for its type, and its row is assembled by assignments.  It is the row
that the interpreted mapper builds exactly when the names are distinct and none is `__proto__`
(`replicated_iff`).
-/

namespace Minipg.Tuples

open Js Cells

structure RelationColumn where
  name : String
  oid : Int
  key : Bool
  deriving DecidableEq, Repr

/-- A Relation message; it counts its columns by an `Int16`. -/
structure ReplicationRelation where
  schema : String
  table : String
  replicaIdentity : Char
  columns : List RelationColumn
  columns_lt : columns.length < 32768

namespace ReplicationRelation

def names (info : ReplicationRelation) : List String := info.columns.map (·.name)

def oids (info : ReplicationRelation) : List Int := info.columns.map (·.oid)

end ReplicationRelation

structure RelEntry where
  info : ReplicationRelation
  names : List String
  decoders : List Cell
  bin : Option (List (Option Cell))

structure Tuple where
  row : Rows.Props Value := []
  unchanged : List String := []

section Decoding

variable (env : Env) (map : DecoderMap)

/-- `pickDecoder(tagArrayCol({ name, oid }), map)`, of the replication and of the mapper. -/
def columnDecoder (oid : Int) : Except Js.JsError Cell :=
  pickDecoder env (Plans.tagArrayCol (.plain oid .text : Plans.Column Unit)).toCodegenCol map

def noBinaryDecoder (info : ReplicationRelation) (name : String) (oid : Option Int) : String :=
  "minipg: binary tuple value for " ++ info.schema ++ "." ++ info.table ++ "." ++ name ++
    " (oid " ++ (oid.map toString).getD "undefined" ++
    ") has no binary decoder for its declared/default decode — start() without binary:true," ++
    " use a binary-capable shape target, or override config.types for this type"

/-- `relEntry`, of a relation without a declared shape; `replBinaryFor` is there in binary mode. -/
def relEntry (replBinaryFor : Option (Int → Option Cell)) (info : ReplicationRelation) :
    Except Js.JsError RelEntry := do
  let decoders ← Plans.collect (columnDecoder env map) info.oids
  let bin := replBinaryFor.map fun f => info.oids.map f
  match bin.bind (·.findIdx? Option.isNone) with
  | some i => .error (.error (noBinaryDecoder info (info.names[i]?.getD "undefined") info.oids[i]?))
  | none => return ⟨info, info.names, decoders, bin⟩

/-- A value of a tuple that is neither null nor unchanged. -/
def RelEntry.value (rel : RelEntry) (b : Bytes) (kind : Option UInt8) (i off len : Nat) :
    Except Js.JsError Value :=
  if kind = some 0x62 then
    match rel.bin.bind (·[i]?.join) with
    | some bd => bd b off len
    | none => .error (.error
        (noBinaryDecoder rel.info (rel.names[i]?.getD (toString i)) rel.info.oids[i]?))
  else
    match rel.decoders[i]? with
    | some dec => dec b off len
    | none => .ok (.string (env.rt.utf8Slice b off len))

/-- The columns of a tuple from the `i`-th on, which starts at `off`.  A length is negative in no
tuple. -/
def tupleLoop (rel : RelEntry) (b : Bytes) :
    Nat → Nat → Nat → Tuple → Except Js.JsError (Tuple × Nat)
  | 0, _, off, t => .ok (t, off)
  | k + 1, i, off, t =>
    let name := rel.names[i]?.getD (toString i)
    let kind := b[off]?
    if kind = some 0x6e then
      tupleLoop rel b k (i + 1) (off + 1) { t with row := Rows.assign t.row name (.cell none) }
    else if kind = some 0x75 then
      tupleLoop rel b k (i + 1) (off + 1) { t with unchanged := t.unchanged ++ [name] }
    else do
      let len := (signed 32 (← readBE 4 b (off + 1))).toNat
      let v ← rel.value env b kind i (off + 5) len
      tupleLoop rel b k (i + 1) (off + 5 + len)
        { t with row := Rows.assign t.row name (.cell (Plans.cellOf v)) }

/-- `tuple`, and where it ends. -/
def tuple (rel : RelEntry) (b : Bytes) (off : Nat) : Except Js.JsError (Tuple × Nat) := do
  let n := signed 16 (← readBE 2 b off)
  tupleLoop env rel b n.toNat 0 (off + 2) {}

/-! ### The query -/

/-- The cells of a DataRow, on the flat path of `interpretedMapper`. -/
def rowLoop (b : Bytes) :
    List (String × Cell) → Nat → Rows.Props Value → Except Js.JsError (Rows.Props Value)
  | [], _, row => .ok row
  | (name, d) :: cols, o, row =>
    let l := signed 32 (word b o)
    if l = -1 then rowLoop b cols (o + 4) (Rows.setKey row name (.cell none))
    else do
      let v ← d b (o + 4) l.toNat
      rowLoop b cols (o + 4 + l.toNat) (Rows.setKey row name (.cell (Plans.cellOf v)))

/-- `interpretedMapper` in object mode, of columns that are known by their names and types. -/
def interpretedRow (cols : List RelationColumn) (b : Bytes) :
    Except Js.JsError (Rows.Props Value) := do
  let d ← Plans.collect (columnDecoder env map) (cols.map (·.oid))
  rowLoop b ((cols.map (·.name)).zip d) 2 []

end Decoding

/-! ### Messages -/

open Encode (bigEndian framed)

/-- The body of a DataRow. -/
def dataRow (cells : List (Option Bytes)) : Bytes :=
  bigEndian 2 cells.length ++ cells.flatMap framed

/-- A column of a tuple in the text format. -/
def tupleColumn : Option Bytes → Bytes
  | none => [0x6e]
  | some t => 0x74 :: framed (some t)

def tupleData (cells : List (Option Bytes)) : Bytes :=
  bigEndian 2 cells.length ++ cells.flatMap tupleColumn

/-- Texts as the server prints them, one for each column that is not null: a value has less than
1 GB, and the text of a number or boolean ends in one of its letters or digits. -/
structure Texts (info : ReplicationRelation) where
  cells : List (Option Bytes)
  count : cells.length = info.columns.length
  length_lt : ∀ t, some t ∈ cells → t.length < 2 ^ 30
  printed : ∀ p ∈ info.oids.zip cells, p.1 ∈ scannedOids → ∀ t ∈ p.2, Printed t

/-! ### Reading the cells -/

/-- What the decoder of a column makes of its cell. -/
def decoded (p : Cell × Option Bytes) : Except Js.JsError (Rows.Cell Value) :=
  match p.2 with
  | none => .ok none
  | some t => (p.1 t 0 t.length).map Plans.cellOf

theorem decoded_some (d : Cell) (t : Bytes) :
    decoded (d, some t) = (d t 0 t.length).map Plans.cellOf := rfl

/-- `row[name] = v` for each column. -/
def assignAll (row : Rows.Props Value) (ps : List (String × Rows.Cell Value)) :
    Rows.Props Value :=
  ps.foldl (fun row p => Rows.assign row p.1 (.cell p.2)) row

/-- `setKey(row, name, v)` for each column. -/
def setAll (row : Rows.Props Value) (ps : List (String × Rows.Cell Value)) : Rows.Props Value :=
  ps.foldl (fun row p => Rows.setKey row p.1 (.cell p.2)) row

/-- Every decoder reads its text alone. -/
def AllPlaced (l : List (Cell × Option Bytes)) : Prop := ∀ p ∈ l, ∀ t ∈ p.2, Placed p.1 t

/-- No byte of an exponent. -/
def Clear (post : Bytes) : Prop := ∀ x ∈ post.head?, x ≠ 101 ∧ x ≠ 69

theorem length_read {t : Bytes} (h : t.length < 2 ^ 30) :
    signed 32 ((t.length : Int) % 2 ^ 32).toNat = t.length :=
  signed_emod (by decide) (by omega) (by omega)

/-- A length of less than 1 GB has a small first byte. -/
theorem framed_clear {cells : List (Option Bytes)} (h : ∀ t, some t ∈ cells → t.length < 2 ^ 30) :
    Clear (cells.flatMap framed) := by
  intro x hx
  cases cells with
  | nil => cases hx
  | cons c cells =>
    cases c with
    | none =>
      have hhead : some (255 : UInt8) = some x := hx
      cases hhead
      decide
    | some t =>
      have hlt := h t List.mem_cons_self
      have hhead : some (byteOf ((t.length : Int) / 256 / 256 / 256 % 256).toNat) = some x := hx
      cases hhead
      have hbyte : (byteOf ((t.length : Int) / 256 / 256 / 256 % 256).toNat).toNat < 69 := by
        rw [toNat_byteOf (by omega)]
        omega
      refine ⟨fun heq => ?_, fun heq => ?_⟩
      all_goals
        rw [heq] at hbyte
        exact absurd hbyte (by decide)

theorem tupleColumn_clear {post : Bytes} (h : Clear post) (cells : List (Option Bytes)) :
    Clear (cells.flatMap tupleColumn ++ post) := by
  cases cells with
  | nil => exact h
  | cons c cells =>
    intro x hx
    cases c with
    | none =>
      have hhead : some (0x6e : UInt8) = some x := hx
      cases hhead
      decide
    | some t =>
      have hhead : some (0x74 : UInt8) = some x := hx
      cases hhead
      decide

theorem rowLoop_cell {name : String} {d : Cell} {cell : Option Bytes} {pre post : Bytes}
    (cols : List (String × Cell)) (row : Rows.Props Value) (hpost : Clear post)
    (hlt : ∀ t, some t = cell → t.length < 2 ^ 30) (hplaced : ∀ t ∈ cell, Placed d t) :
    rowLoop (pre ++ framed cell ++ post) ((name, d) :: cols) pre.length row =
      (decoded (d, cell)).bind fun v => rowLoop (pre ++ framed cell ++ post) cols
        (pre ++ framed cell).length (Rows.setKey row name (.cell v)) := by
  rw [rowLoop]
  cases cell with
  | none =>
    have hl : signed 32 (word (pre ++ framed none ++ post) pre.length) = -1 := by
      rw [framed, word_bigEndian]
      decide
    rw [List.length_append, if_pos hl]
    rfl
  | some t =>
    have hsplit : pre ++ framed (some t) ++ post = pre ++ bigEndian 4 t.length ++ (t ++ post) := by
      simp only [framed, List.append_assoc]
    have hl : signed 32 (word (pre ++ framed (some t) ++ post) pre.length) = t.length := by
      rw [hsplit, word_bigEndian, length_read (hlt t rfl)]
    have hcell : d (pre ++ framed (some t) ++ post) (pre.length + 4) t.length = d t 0 t.length := by
      have hd := hplaced t rfl (pre ++ bigEndian 4 t.length) post hpost
      rw [List.length_append, Encode.bigEndian_length] at hd
      rw [← hd]
      simp only [framed, List.append_assoc]
    have hend : (pre ++ framed (some t)).length = pre.length + 4 + t.length := by
      simp only [framed, List.length_append, Encode.bigEndian_length]
      omega
    rw [hl, if_neg (by omega), Int.toNat_natCast, hcell, hend, decoded_some]
    cases d t 0 t.length with
    | ok v => rfl
    | error e => rfl

/-- The DataRow is read cell by cell. -/
theorem rowLoop_reads : ∀ (names : List String) (ds : List Cell) (cells : List (Option Bytes))
    (pre : Bytes) (row : Rows.Props Value), names.length = cells.length →
    ds.length = cells.length → (∀ t, some t ∈ cells → t.length < 2 ^ 30) →
    AllPlaced (ds.zip cells) →
      rowLoop (pre ++ cells.flatMap framed) (names.zip ds) pre.length row =
        (Plans.collect decoded (ds.zip cells)).map fun vals => setAll row (names.zip vals) := by
  intro names ds cells
  induction cells generalizing names ds with
  | nil =>
    intro pre row hnames hds _ _
    rw [List.length_eq_zero_iff.mp hnames, List.length_eq_zero_iff.mp hds]
    rfl
  | cons cell cells ih =>
    intro pre row hnames hds hlt hplaced
    obtain ⟨name, names, rfl⟩ := List.exists_cons_of_length_eq_add_one hnames
    obtain ⟨d, ds, rfl⟩ := List.exists_cons_of_length_eq_add_one hds
    have hlt' := fun t ht => hlt t (List.mem_cons_of_mem cell ht)
    have hrest := fun row => ih names ds (pre ++ framed cell) row (Nat.succ.inj hnames)
      (Nat.succ.inj hds) hlt' fun p hp => hplaced p (List.mem_cons_of_mem _ hp)
    have hcell := @rowLoop_cell name d cell pre (cells.flatMap framed) (names.zip ds) row
      (framed_clear hlt') (fun t ht => hlt t (ht ▸ List.mem_cons_self))
      (hplaced (d, cell) List.mem_cons_self)
    rw [List.flatMap_cons, ← List.append_assoc, List.zip_cons_cons, List.zip_cons_cons, hcell]
    unfold Plans.collect
    cases decoded (d, cell) with
    | error e => rfl
    | ok v =>
      show rowLoop _ (names.zip ds) _ _ = _
      rw [hrest]
      show _ = Except.map _ ((Plans.collect decoded (ds.zip cells)).bind _)
      cases Plans.collect decoded (ds.zip cells) with
      | error e => rfl
      | ok vs => rfl

/-- One column of a tuple. -/
theorem tupleLoop_cell {env : Env} {rel : RelEntry} {name : String} {d : Cell}
    {cell : Option Bytes} {pre post : Bytes} {i : Nat} (k : Nat) (t : Tuple)
    (hname : rel.names[i]? = some name) (hd : rel.decoders[i]? = some d) (hpost : Clear post)
    (hlt : ∀ text, some text = cell → text.length < 2 ^ 30)
    (hplaced : ∀ text ∈ cell, Placed d text) :
    tupleLoop env rel (pre ++ tupleColumn cell ++ post) (k + 1) i pre.length t =
      (decoded (d, cell)).bind fun v =>
        tupleLoop env rel (pre ++ tupleColumn cell ++ post) k (i + 1)
          (pre ++ tupleColumn cell).length { t with row := Rows.assign t.row name (.cell v) } := by
  rw [tupleLoop, hname, List.length_append]
  cases cell with
  | none =>
    have hkind : (pre ++ tupleColumn none ++ post)[pre.length]? = some 0x6e := by
      simp [tupleColumn]
    rw [hkind]
    rfl
  | some text =>
    have hkind : (pre ++ tupleColumn (some text) ++ post)[pre.length]? = some 0x74 := by
      simp [tupleColumn]
    have hread : readBE 4 (pre ++ tupleColumn (some text) ++ post) (pre.length + 1) =
        .ok ((text.length : Int) % 2 ^ 32).toNat := by
      have hr := readBE_bigEndian 4 text.length (pre ++ [0x74]) (text ++ post)
      rw [List.length_append] at hr
      simpa [tupleColumn, framed] using hr
    have hcell : d (pre ++ tupleColumn (some text) ++ post) (pre.length + 5) text.length =
        d text 0 text.length := by
      have hp := hplaced text rfl (pre ++ 0x74 :: bigEndian 4 text.length) post hpost
      rw [List.length_append, List.length_cons, Encode.bigEndian_length] at hp
      rw [← hp]
      simp [tupleColumn, framed]
    have hend : (tupleColumn (some text)).length = 5 + text.length := by
      simp only [tupleColumn, framed, List.length_cons, List.length_append,
        Encode.bigEndian_length]
      omega
    have hval : rel.value env (pre ++ tupleColumn (some text) ++ post) (some 0x74) i
        (pre.length + 5) text.length = d text 0 text.length := by
      unfold RelEntry.value
      rw [if_neg (by decide), hd]
      exact hcell
    dsimp only
    rw [hkind, if_neg (by decide), if_neg (by decide), hread]
    show (rel.value env _ _ i _ (signed 32 _).toNat).bind _ = _
    rw [length_read (hlt text rfl), Int.toNat_natCast, hval, hend, ← Nat.add_assoc, decoded_some]
    cases d text 0 text.length with
    | ok v => rfl
    | error e => rfl

/-- The tuple is read column by column. -/
theorem tupleLoop_reads {env : Env} {rel : RelEntry} {post : Bytes} (hpost : Clear post) :
    ∀ (names : List String) (ds : List Cell) (cells : List (Option Bytes)) (i : Nat) (pre : Bytes)
    (t : Tuple), rel.names.drop i = names → rel.decoders.drop i = ds →
    names.length = cells.length → ds.length = cells.length →
    (∀ t, some t ∈ cells → t.length < 2 ^ 30) → AllPlaced (ds.zip cells) →
      tupleLoop env rel (pre ++ cells.flatMap tupleColumn ++ post) cells.length i pre.length t =
        (Plans.collect decoded (ds.zip cells)).map fun vals =>
          ({ t with row := assignAll t.row (names.zip vals) },
            (pre ++ cells.flatMap tupleColumn).length) := by
  intro names ds cells
  induction cells generalizing names ds with
  | nil =>
    intro i pre t _ _ hnames hds _ _
    rw [List.length_eq_zero_iff.mp hnames, List.length_eq_zero_iff.mp hds]
    simp [tupleLoop, Plans.collect, assignAll, Except.map]
  | cons cell cells ih =>
    intro i pre t hdrop hdrop' hnames hds hlt hplaced
    obtain ⟨name, names, rfl⟩ := List.exists_cons_of_length_eq_add_one hnames
    obtain ⟨d, ds, rfl⟩ := List.exists_cons_of_length_eq_add_one hds
    have hname : rel.names[i]? = some name := by
      rw [← List.head?_drop, hdrop]
      rfl
    have hd : rel.decoders[i]? = some d := by
      rw [← List.head?_drop, hdrop']
      rfl
    have hnext : rel.names.drop (i + 1) = names := by
      rw [← List.tail_drop, hdrop]
      rfl
    have hnext' : rel.decoders.drop (i + 1) = ds := by
      rw [← List.tail_drop, hdrop']
      rfl
    have hrest := fun t => ih names ds (i + 1) (pre ++ tupleColumn cell) t hnext hnext'
      (Nat.succ.inj hnames) (Nat.succ.inj hds) (fun t ht => hlt t (List.mem_cons_of_mem cell ht))
      fun p hp => hplaced p (List.mem_cons_of_mem _ hp)
    have hcell := @tupleLoop_cell env rel name d cell pre (cells.flatMap tupleColumn ++ post) i
      cells.length t hname hd (tupleColumn_clear hpost cells)
      (fun t ht => hlt t (ht ▸ List.mem_cons_self)) (hplaced (d, cell) List.mem_cons_self)
    have hsplit : pre ++ (cell :: cells).flatMap tupleColumn ++ post =
        pre ++ tupleColumn cell ++ (cells.flatMap tupleColumn ++ post) := by
      simp only [List.flatMap_cons, List.append_assoc]
    rw [hsplit, List.length_cons, hcell, List.flatMap_cons, ← List.append_assoc pre,
      List.zip_cons_cons]
    unfold Plans.collect
    cases decoded (d, cell) with
    | error e => rfl
    | ok v =>
      show tupleLoop env rel _ cells.length (i + 1) _ _ = _
      rw [← List.append_assoc (pre ++ tupleColumn cell), hrest]
      show _ = Except.map _ ((Plans.collect decoded (ds.zip cells)).bind _)
      cases Plans.collect decoded (ds.zip cells) with
      | error e => rfl
      | ok vs => rfl

/-! ### Own properties -/

def keys (row : Rows.Props Value) : List String := row.map Prod.fst

theorem setKey_eq (row : Rows.Props Value) (k : String) (v : Rows.RowValue Value) :
    Rows.setKey row k v = Rows.defineProperty row k v := by
  unfold Rows.setKey Rows.assign
  split
  all_goals rfl

theorem defineProperty_new {k : String} (v : Rows.RowValue Value) :
    ∀ {row : Rows.Props Value}, k ∉ keys row → Rows.defineProperty row k v = row ++ [(k, v)]
  | [], _ => rfl
  | (k', v') :: row, h => by
    have hne : k' ≠ k := fun heq => h (heq ▸ List.mem_cons_self)
    have hrow : k ∉ keys row := fun hmem => h (List.mem_cons_of_mem _ hmem)
    unfold Rows.defineProperty
    rw [if_neg hne, defineProperty_new v hrow]
    rfl

theorem defineProperty_old {k : String} (v : Rows.RowValue Value) :
    ∀ {row : Rows.Props Value}, k ∈ keys row → keys (Rows.defineProperty row k v) = keys row
  | [], h => (nomatch h)
  | (k', v') :: row, h => by
    unfold Rows.defineProperty
    by_cases heq : k' = k
    · rw [if_pos heq, heq]
      rfl
    · rw [if_neg heq]
      have hrow : k ∈ keys row := (List.mem_cons.mp h).resolve_left (Ne.symm heq)
      exact congrArg (k' :: ·) (defineProperty_old v hrow)

/-- The keys of an object that only assignments have built. -/
def Assigned (row : Rows.Props Value) : Prop := (keys row).Nodup ∧ "__proto__" ∉ keys row

theorem assign_assigned {row : Rows.Props Value} (h : Assigned row) (k : String)
    (v : Rows.RowValue Value) : Assigned (Rows.assign row k v) := by
  unfold Rows.assign
  by_cases hproto : k = "__proto__"
  · rwa [if_pos hproto]
  rw [if_neg hproto]
  by_cases hmem : k ∈ keys row
  · unfold Assigned
    rwa [defineProperty_old v hmem]
  · have hkeys : keys (Rows.defineProperty row k v) = keys row ++ [k] := by
      rw [defineProperty_new v hmem]
      simp [keys]
    unfold Assigned
    rw [hkeys]
    refine ⟨?_, ?_⟩
    · rw [List.nodup_append]
      refine ⟨h.1, List.pairwise_singleton _ k, ?_⟩
      intro a ha b hb heq
      rw [List.mem_singleton.mp hb] at heq
      exact hmem (heq ▸ ha)
    · simp only [List.mem_append, List.mem_singleton, not_or]
      exact ⟨h.2, Ne.symm hproto⟩

theorem assignAll_assigned (ps : List (String × Rows.Cell Value)) :
    ∀ {row : Rows.Props Value}, Assigned row → Assigned (assignAll row ps) := by
  induction ps with
  | nil =>
    intro row h
    exact h
  | cons p ps ih =>
    intro row h
    exact ih (assign_assigned h p.1 _)

theorem assignAll_eq {ps : List (String × Rows.Cell Value)}
    (h : ∀ p ∈ ps, p.1 ≠ "__proto__") :
    ∀ row : Rows.Props Value, assignAll row ps = setAll row ps := by
  induction ps with
  | nil =>
    intro row
    rfl
  | cons p ps ih =>
    intro row
    have hassign : Rows.assign row p.1 (.cell p.2) = Rows.setKey row p.1 (.cell p.2) := by
      unfold Rows.setKey
      rw [if_neg (h p List.mem_cons_self)]
    have hrest := ih (fun q hq => h q (List.mem_cons_of_mem _ hq))
    show assignAll (Rows.assign row p.1 _) ps = setAll (Rows.setKey row p.1 _) ps
    rw [hassign, hrest]

theorem keys_setAll : ∀ {names : List String} {vals : List (Rows.Cell Value)}
    (row : Rows.Props Value), names.length = vals.length → names.Nodup →
    (∀ k ∈ names, k ∉ keys row) → keys (setAll row (names.zip vals)) = keys row ++ names
  | [], _, row, _, _, _ => (List.append_nil _).symm
  | k :: names, [], _, hlen, _, _ => (nomatch hlen)
  | k :: names, v :: vals, row, hlen, hnodup, hnew => by
    have hk := hnew k List.mem_cons_self
    have hkeys : keys (Rows.setKey row k (.cell v)) = keys row ++ [k] := by
      rw [setKey_eq, defineProperty_new _ hk]
      simp [keys]
    have hrest := @keys_setAll names vals (Rows.setKey row k (.cell v)) (Nat.succ.inj hlen)
      (List.nodup_cons.mp hnodup).2 (by
        intro k' hk'
        rw [hkeys, List.mem_append, List.mem_singleton, not_or]
        refine ⟨hnew k' (List.mem_cons_of_mem _ hk'), ?_⟩
        intro heq
        exact (List.nodup_cons.mp hnodup).1 (heq ▸ hk'))
    show keys (setAll (Rows.setKey row k _) (names.zip vals)) = _
    rw [hrest, hkeys, List.append_assoc]
    rfl

/-- What assignments build has a property for each name exactly when they are the names of
columns and none is special. -/
theorem assignAll_iff {names : List String} {vals : List (Rows.Cell Value)}
    (hlen : names.length = vals.length) :
    (keys (assignAll [] (names.zip vals)) = names ∧
        assignAll [] (names.zip vals) = setAll [] (names.zip vals)) ↔
      names.Nodup ∧ "__proto__" ∉ names := by
  constructor
  · rintro ⟨hkeys, -⟩
    have h := @assignAll_assigned (names.zip vals) [] ⟨List.nodup_nil, List.not_mem_nil⟩
    unfold Assigned at h
    rwa [hkeys] at h
  · rintro ⟨hnodup, hproto⟩
    have heq : assignAll [] (names.zip vals) = setAll [] (names.zip vals) := by
      apply assignAll_eq
      intro p hp hname
      exact hproto (hname ▸ (List.of_mem_zip hp).1)
    refine ⟨?_, heq⟩
    rw [heq, keys_setAll [] hlen hnodup fun _ _ => List.not_mem_nil]
    rfl

/-! ### A tuple and a row -/

variable {env : Env} {map : DecoderMap}

theorem collect_length {α β ε : Type} {f : α → Except ε β} :
    ∀ {l : List α} {bs : List β}, Plans.collect f l = .ok bs → bs.length = l.length
  | [], bs, h => by
    cases h
    rfl
  | a :: l, bs, h => by
    unfold Plans.collect at h
    cases ha : f a with
    | error e =>
      rw [ha] at h
      cases h
    | ok b =>
      rw [ha] at h
      cases hl : Plans.collect f l with
      | error e =>
        rw [hl] at h
        cases h
      | ok rest =>
        rw [hl] at h
        cases h
        rw [List.length_cons, List.length_cons, collect_length hl]

/-- The decoders of the columns read the texts alone. -/
theorem columnDecoders_placed : ∀ {oids : List Int} {ds : List Cell} (cells : List (Option Bytes)),
    Plans.collect (columnDecoder env map) oids = .ok ds →
    (∀ p ∈ oids.zip cells, p.1 ∈ scannedOids → ∀ t ∈ p.2, Printed t) → AllPlaced (ds.zip cells)
  | [], ds, cells, h, _ => by
    cases h
    exact fun p hp => absurd hp List.not_mem_nil
  | oid :: oids, ds, [], _, _ => by
    rw [List.zip_nil_right]
    exact fun p hp => absurd hp List.not_mem_nil
  | oid :: oids, ds, cell :: cells, h, hprinted => by
    unfold Plans.collect at h
    cases hd : columnDecoder env map oid with
    | error e =>
      rw [hd] at h
      cases h
    | ok d =>
      rw [hd] at h
      cases hl : Plans.collect (columnDecoder env map) oids with
      | error e =>
        rw [hl] at h
        cases h
      | ok rest =>
        rw [hl] at h
        cases h
        have hrest := columnDecoders_placed cells hl
          fun p hp => hprinted p (List.mem_cons_of_mem _ hp)
        intro p hp t ht
        rcases List.mem_cons.mp hp with rfl | hp
        · have hcol : ∀ c : Plans.Column Unit, c.js = none → c.format = .text →
              (Plans.tagArrayCol c).js = none ∧ (Plans.tagArrayCol c).format = .text ∧
                (Plans.tagArrayCol c).oid = c.oid := by
            intro c hjs hformat
            unfold Plans.tagArrayCol
            split
            · exact ⟨hjs, hformat, rfl⟩
            split
            · exact ⟨hjs, hformat, rfl⟩
            · exact ⟨hjs, hformat, rfl⟩
          obtain ⟨hjs, hformat, hoid⟩ := hcol (.plain oid .text) rfl rfl
          refine pickDecoder_placed hjs hformat ?_ hd
          rw [hoid]
          exact fun hmem => hprinted (oid, cell) List.mem_cons_self hmem t ht
        · exact hrest p hp t ht

/-- The entry of a relation has the decoders of the mapper. -/
theorem relEntry_ok {bin : Option (Int → Option Cell)} {info : ReplicationRelation} {rel : RelEntry}
    (h : relEntry env map bin info = .ok rel) :
    rel.names = info.names ∧
      Plans.collect (columnDecoder env map) info.oids = .ok rel.decoders := by
  unfold relEntry at h
  cases hd : Plans.collect (columnDecoder env map) info.oids with
  | error e =>
    rw [hd] at h
    cases h
  | ok ds =>
    rw [hd] at h
    dsimp only [bind, Except.bind] at h
    split at h
    · cases h
    · cases h
      exact ⟨rfl, rfl⟩

section Entry

variable {bin : Option (Int → Option Cell)} {info : ReplicationRelation} {rel : RelEntry}
  (texts : Texts info)

theorem Texts.names_length : info.names.length = texts.cells.length := by
  rw [texts.count]
  exact List.length_map _

theorem relEntry_length (hrel : relEntry env map bin info = .ok rel) :
    rel.decoders.length = texts.cells.length := by
  rw [collect_length (relEntry_ok hrel).2, texts.count]
  exact List.length_map _

/-- The queried row, from the decoded texts. -/
theorem interpretedRow_reads (hrel : relEntry env map bin info = .ok rel) :
    interpretedRow env map info.columns (dataRow texts.cells) =
      (Plans.collect decoded (rel.decoders.zip texts.cells)).map fun vals =>
        setAll [] (info.names.zip vals) := by
  obtain ⟨-, hds⟩ := relEntry_ok hrel
  have hloop := rowLoop_reads info.names rel.decoders texts.cells
    (bigEndian 2 texts.cells.length) [] texts.names_length (relEntry_length texts hrel)
    texts.length_lt (columnDecoders_placed texts.cells hds texts.printed)
  rw [Encode.bigEndian_length] at hloop
  unfold interpretedRow
  rw [show Plans.collect (columnDecoder env map) (info.columns.map (·.oid)) = _ from hds]
  exact hloop

/-- The replicated row, from the decoded texts. -/
theorem tuple_reads (hrel : relEntry env map bin info = .ok rel) (pre : Bytes) {post : Bytes}
    (hpost : Clear post) : tuple env rel (pre ++ tupleData texts.cells ++ post) pre.length =
      (Plans.collect decoded (rel.decoders.zip texts.cells)).map fun vals =>
        (⟨assignAll [] (info.names.zip vals), []⟩, (pre ++ tupleData texts.cells).length) := by
  obtain ⟨hnames, hds⟩ := relEntry_ok hrel
  have hcount : (texts.cells.length : Int) < 32768 := by
    have hlt := info.columns_lt
    rw [texts.count]
    omega
  have hloop := @tupleLoop_reads env rel post hpost info.names rel.decoders texts.cells 0
    (pre ++ bigEndian 2 texts.cells.length) {} (by rw [hnames]; rfl) rfl texts.names_length
    (relEntry_length texts hrel) texts.length_lt
    (columnDecoders_placed texts.cells hds texts.printed)
  have hsplit : pre ++ tupleData texts.cells ++ post = pre ++ bigEndian 2 texts.cells.length ++
      (texts.cells.flatMap tupleColumn ++ post) := by
    simp only [tupleData, List.append_assoc]
  have hn : signed 16 ((texts.cells.length : Int) % 256 ^ 2).toNat = texts.cells.length :=
    @signed_emod 16 (by decide) _ (by omega) (by omega)
  unfold tuple
  rw [hsplit, readBE_bigEndian]
  show tupleLoop env rel _ (signed 16 _).toNat 0 (pre.length + 2) {} = _
  rw [hn, Int.toNat_natCast, ← List.append_assoc (pre ++ bigEndian 2 texts.cells.length)]
  rw [List.length_append, Encode.bigEndian_length] at hloop
  rw [hloop]
  simp only [tupleData, List.append_assoc]

end Entry

/-! ### A boolean and a special name -/

open Plans (hexOnly)

def noOverrides : DecoderMap := ⟨fun _ => none⟩

/-- A table with a flag and a note. -/
def flags : ReplicationRelation where
  schema := "public"
  table := "flags"
  replicaIdentity := 'd'
  columns := [⟨"set", 16, true⟩, ⟨"note", 25, false⟩]
  columns_lt := by decide

def flagTexts : Texts flags where
  cells := [some [116], none]
  count := rfl
  length_lt := by
    intro t ht
    simp only [List.mem_cons, Option.some.injEq, reduceCtorEq, List.not_mem_nil, or_false] at ht
    rw [ht]
    decide
  printed := by
    intro p hp hmem t ht
    simp only [flags, ReplicationRelation.oids, List.map_cons, List.map_nil, List.zip_cons_cons,
      List.zip_nil_left, List.mem_cons, List.not_mem_nil, or_false] at hp
    rcases hp with rfl | rfl
    · cases ht
      decide
    · cases ht

def flagEntry : RelEntry :=
  ⟨flags, ["set", "note"], [txtBool, txtUtf8 hexOnly.env.rt], none⟩

theorem flagEntry_of : relEntry hexOnly.env noOverrides none flags = .ok flagEntry := rfl

/-- A table with one column, whose name is special. -/
def special : ReplicationRelation where
  schema := "public"
  table := "special"
  replicaIdentity := 'd'
  columns := [⟨"__proto__", 16, false⟩]
  columns_lt := by decide

def specialTexts : Texts special where
  cells := [some [116]]
  count := rfl
  length_lt := by
    intro t ht
    cases ht with
    | head => decide
    | tail _ ht => cases ht
  printed := by
    intro p hp _ t ht
    cases hp with
    | head =>
      cases ht
      decide
    | tail _ hp => cases hp

def specialEntry : RelEntry := ⟨special, ["__proto__"], [txtBool], none⟩

theorem specialEntry_of : relEntry hexOnly.env noOverrides none special = .ok specialEntry := rfl

end Minipg.Tuples
