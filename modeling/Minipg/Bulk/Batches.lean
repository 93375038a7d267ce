import Minipg.Bulk.Changes
import Minipg.Lib.Slices

/-!
# Bulk operations in chunks

`runBulk` (`src/connection.ts`) cuts the rows into chunks, runs a statement for each, one after the
other or all at once, and merges what they return.  What `query` answers is given; the time in the
progress reports is left out.
-/

namespace Minipg.Bulk

open Js Slices

variable {ρ κ : Type}

/-! ### Forms -/

/-- `insertMeta` and `valuesMeta`. -/
structure Metas where
  insertMeta : Cache := []
  valuesMeta : List (JsString × JsString) := []

/-- A bulk insert or update over `unnest` with the `name` of its options, or an insert with
`defaults`. -/
inductive Form
  | unnest (c : Call) (name : Option JsString)
  | values (v : Values)

namespace Form

def names : Form → List JsString
  | .unnest c _ => c.names
  | .values v => v.names

def keys : Form → Option (List JsString)
  | .unnest c _ => c.keys
  | .values _ => none

def label : Form → String
  | .unnest c _ => if c.keys.isSome then "bulkUpdate" else "bulkInsert"
  | .values _ => "bulkInsert"

/-- What a cell asks for. -/
def sent : Form → Value → Sent
  | .unnest _ _ => .param
  | .values _ => .orDefault

/-- `makeChunk`, with the statement of a call over `unnest` at hand. -/
def maker (form : Form) (metas : Metas) : (Metas → List Row → Chunk × Metas) × Metas :=
  match form with
  | .unnest c name =>
    let s := serve metas.insertMeta c
    (fun now rows => (⟨s.1.statement.sql, pivotRows c.names rows, name.getD s.1.name,
      some s.1.statement.oids⟩, now), { metas with insertMeta := s.2 })
  | .values v =>
    (fun now rows =>
      let n := v.chunk now.valuesMeta rows
      (n.1, { now with valuesMeta := n.2 }), metas)

def Denotes : Form → Chunk → List Change → Prop
  | .unnest c _ => c.Denotes
  | .values v => v.Denotes

/-- The change that a row asks for. -/
def wanted (form : Form) (row : Row) : Change :=
  .of form.names form.keys fun n => form.sent (row.own (form.names.idxOf n) n)

end Form

/-! ### Results -/

/-- `QueryResult`; `bytesSent` is in its `metrics`. -/
structure QueryResult (ρ κ : Type) where
  rows : List ρ
  columns : List κ
  rowCount : Option Nat
  command : Option JsString
  bytesSent : Option Nat := none

def mergeResults (rs : List (QueryResult ρ κ)) : QueryResult ρ κ where
  rows := (rs.map (·.rows)).flatten
  columns := (rs.head?.map (·.columns)).getD []
  rowCount := some (rs.map fun r => r.rowCount.getD 0).sum
  command := rs.head?.bind (·.command)

/-- `BulkProgress`. -/
structure BulkProgress where
  rows : Nat
  totalRows : Nat
  affected : Nat
  bytes : Nat
  chunk : Nat
  chunks : Nat

/-- `track`. -/
structure Track where
  rows : Nat := 0
  affected : Nat := 0
  bytes : Nat := 0
  chunk : Nat := 0

/-- An error, with `insertedRows` or `updatedRows` when chunks were committed one by one. -/
structure Failure where
  error : JsError
  done : Option Nat := none

structure Run (ρ κ : Type) where
  metas : Metas
  issued : List Chunk := []
  rs : List (QueryResult ρ κ) := []
  done : Nat := 0
  track : Track := {}
  reports : List BulkProgress := []
  settled : Option (Except Failure (QueryResult ρ κ)) := none

/-- The part of the options that `runBulk` looks at. -/
structure Options where
  chunk : Option Int := none
  atomic : Option Bool := none
  onProgress : Bool := false

/-- `report`. -/
def Run.report (run : Run ρ κ) (opts : Options) (totalRows chunkRows : Nat) (r : QueryResult ρ κ)
    (chunks : Nat) : Run ρ κ :=
  if opts.onProgress then
    let t : Track := ⟨run.track.rows + chunkRows, run.track.affected + r.rowCount.getD 0,
      run.track.bytes + r.bytesSent.getD 0, run.track.chunk + 1⟩
    { run with
      track := t
      reports := run.reports ++ [⟨t.rows, totalRows, t.affected, t.bytes, t.chunk, chunks⟩] }
  else run

/-! ### `runBulk` -/

def valueBytes (e : Engine) : Value → Nat
  | .string s => s.length + 4
  | .buffer b => b.length + 4
  | .object id => ((e.uint8Array id).map fun b => b.length + 4).getD 12
  | _ => 12

def defaultChunk (e : Engine) (names : List JsString) : List Row → Nat
  | [] => 64
  | row :: _ => max 16 (min 64 (32768 / (24 + ((row.cells names).map (valueBytes e)).sum)))

def chunkSize (e : Engine) (names : List JsString) (rows : List Row) (chunk : Option Int) : Nat :=
  (max 1 (chunk.getD (defaultChunk e names rows))).toNat

section
variable (opts : Options) (make : Metas → List Row → Chunk × Metas) (rows : List Row)
  (answer : Nat → Except JsError (QueryResult ρ κ)) (nChunks : Nat)

/-- The statement of some rows is issued. -/
def Run.issue (run : Run ρ κ) (range : Nat × Nat) : Run ρ κ :=
  let c := make run.metas (slice rows range)
  { run with metas := c.2, issued := run.issued ++ [c.1] }

/-- `rows.length <= chunk`. -/
def single (run : Run ρ κ) : Run ρ κ :=
  let run := run.issue make rows (0, rows.length)
  match answer 0 with
  | .error e => { run with settled := some (.error ⟨e, none⟩) }
  | .ok r => { run.report opts rows.length rows.length r 1 with settled := some (.ok r) }

/-- `atomic: false`: a failure stops at the boundary of a chunk. -/
def sequential : List (Nat × Nat) → Nat → Run ρ κ → Run ρ κ
  | [], _, run => { run with settled := some (.ok (mergeResults run.rs)) }
  | range :: rest, k, run =>
    let run := run.issue make rows range
    match answer k with
    | .error e => { run with settled := some (.error ⟨e, some run.done⟩) }
    | .ok r =>
      let run := { run with rs := run.rs ++ [r], done := run.done + r.rowCount.getD 0 }
      sequential rest (k + 1) (run.report opts rows.length (range.2 - range.1) r nChunks)

/-- The query of chunk `k` comes to an end. -/
def Run.settle (ranges : List (Nat × Nat)) (run : Run ρ κ) (k : Nat) : Run ρ κ :=
  match ranges[k]? with
  | none => run
  | some range =>
    match answer k with
    | .ok r => run.report opts rows.length (range.2 - range.1) r nChunks
    | .error e => { run with settled := run.settled.or (some (.error ⟨e, none⟩)) }

/-- `runAll`: all chunks are issued, their queries end in this `order`, and `Promise.all` has what
comes of them. -/
def runAll (ranges : List (Nat × Nat)) (order : List Nat) (run : Run ρ κ) : Run ρ κ :=
  let run := ranges.foldl (fun run range => run.issue make rows range) run
  let run := order.foldl (fun run k => run.settle opts rows answer nChunks ranges k) run
  match run.settled with
  | some _ => run
  | none =>
    let chunks := List.range ranges.length
    if chunks.all (· ∈ order) then
      let rs := chunks.filterMap fun k => (answer k).toOption
      { run with rs, settled := some (.ok (mergeResults rs)) }
    else run

end

def runBulk (e : Engine) (form : Form) (opts : Options) (inTransaction : Bool) (metas : Metas)
    (rows : List Row) (answer : Nat → Except JsError (QueryResult ρ κ)) (order : List Nat) :
    Run ρ κ :=
  let m := form.maker metas
  let start : Run ρ κ := { metas := m.2 }
  let chunk := chunkSize e form.names rows opts.chunk
  if rows.length ≤ chunk then single opts m.1 rows answer start
  else
    let nChunks := (rows.length + (chunk - 1)) / chunk
    let rs := ranges rows.length chunk 0
    if opts.atomic = some false then
      if inTransaction then
        { start with settled := some (.error ⟨.error (form.label ++
          ": atomic:false inside an open transaction has no effect — chunks could not commit"),
          none⟩) }
      else sequential opts m.1 rows answer nChunks rs 0 start
    else runAll opts m.1 rows answer nChunks rs order start

end Minipg.Bulk
