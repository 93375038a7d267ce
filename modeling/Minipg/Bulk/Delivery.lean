import Minipg.Bulk.Sending

/-!
# Bulk operations send each row once

Whatever the chunks, the order of the answers and the failures, a run issues statements for the
rows from the first on, and merges and reports what it should (`runBulk_issues`, `runBulk_ok`).
That the statements mean the rows fails where a record has no key for a column and inherits one,
where a cell of a column under `unnest` is an array, and where the cache has the statement of
another call (`sends_rows_iff`).
-/

namespace Minipg.Bulk

open Js Slices

variable {ρ κ : Type}

/-- What is promised of a run: its statements are the rows, up to a failure; what it returns is
put together from the answers; and the progress goes up to the number of rows. -/
structure Faithful (form : Form) (rows : List Row) (opts : Options)
    (answer : Nat → Except JsError (QueryResult ρ κ)) (run : Run ρ κ) : Prop where
  sent : ∃ part changes, part <+: rows ∧ List.Forall₂ form.Denotes run.issued changes ∧
    changes.flatten = part.map form.wanted ∧ ∀ r, run.settled = some (.ok r) → part = rows
  merged : ∀ r, run.settled = some (.ok r) → ∃ rs : List (QueryResult ρ κ),
    (List.range run.issued.length).map answer = rs.map .ok ∧
      r.rows = (rs.map (·.rows)).flatten ∧
      r.rowCount.getD 0 = (rs.map fun r => r.rowCount.getD 0).sum
  monotone : run.reports.Pairwise fun p q => p.rows ≤ q.rows
  ends : opts.onProgress → ∀ r, run.settled = some (.ok r) →
    ∃ p, run.reports.getLast? = some p ∧ p.rows = rows.length

/-- Every run of a bulk operation keeps its promise. -/
def SendsRows (ρ κ : Type) (e : Engine) (form : Form) (metas : Metas) (rows : List Row)
    (chunk : Option Int) : Prop :=
  ∀ (atomic : Option Bool) (onProgress inTransaction : Bool)
    (answer : Nat → Except JsError (QueryResult ρ κ)) (order : List Nat), order.Nodup →
      Faithful form rows ⟨chunk, atomic, onProgress⟩ answer
        (runBulk e form ⟨chunk, atomic, onProgress⟩ inTransaction metas rows answer order)

/-- No record inherits what a column asks for; under `unnest`, the cache has no statement of
another call, and no cell is an array. -/
def Form.Sound (form : Form) (metas : Metas) (rows : List Row) : Prop :=
  (∀ row ∈ rows, ∀ n ∈ form.names, ¬row.Inherits n) ∧
  match form with
  | .unnest c _ =>
    (∀ m, metas.insertMeta.get c.key = some m → m.statement = c.statement) ∧
      ∀ row ∈ rows, ∀ n ∈ c.names, ¬IsArray (row.own (c.names.idxOf n) n)
  | .values _ => True

/-! ### The pieces -/

section
variable {e : Engine} {form : Form} {opts : Options} {inTransaction : Bool} {metas : Metas}
  {rows : List Row} {answer : Nat → Except JsError (QueryResult ρ κ)} {order : List Nat}

theorem chunkSize_pos (e : Engine) (names : List JsString) (rows : List Row) (chunk : Option Int) :
    0 < chunkSize e names rows chunk := by
  unfold chunkSize
  omega

theorem length_chunksOf {make : Metas → List Row → Chunk × Metas} : ∀ (pieces : List (List Row))
    (metas : Metas), (chunksOf make metas pieces).length = pieces.length
  | [], _ => rfl
  | _ :: pieces, _ => congrArg (· + 1) (length_chunksOf pieces _)

theorem take_prefix (k : Nat) (ranges : List (Nat × Nat)) (rows : List Row) :
    ((ranges.take k).map (slice rows)).flatten <+: (ranges.map (slice rows)).flatten := by
  conv_rhs => rw [← List.take_append_drop k ranges, List.map_append, List.flatten_append]
  exact List.prefix_append _ _

variable (e form opts inTransaction metas answer order) in
/-- **What is issued are statements of consecutive pieces of the rows**, from the first row on, and
of all rows when the operation succeeds. -/
theorem runBulk_issues (hne : rows ≠ []) : ∃ pieces : List (List Row),
    (runBulk e form opts inTransaction metas rows answer order).issued =
      chunksOf (form.maker metas).1 (form.maker metas).2 pieces ∧ (∀ piece ∈ pieces, piece ≠ []) ∧
    pieces.flatten <+: rows ∧
    ∀ r, (runBulk e form opts inTransaction metas rows answer order).settled = some (.ok r) →
      pieces.flatten = rows := by
  have hpos := chunkSize_pos e form.names rows opts.chunk
  have hflat := slices_flatten rows hpos 0
  rw [List.drop_zero] at hflat
  have hslices : ∀ l ⊆ ranges rows.length (chunkSize e form.names rows opts.chunk) 0,
      ∀ piece ∈ l.map (slice rows), piece ≠ [] := by
    intro l hl piece hpiece
    obtain ⟨r, hr, rfl⟩ := List.mem_map.mp hpiece
    exact slice_ne hpos (hl hr)
  unfold runBulk
  dsimp only
  split
  · refine ⟨[rows], ?_, fun piece hp => by rw [List.mem_singleton.mp hp]; exact hne, by simp,
      fun _ _ => by simp⟩
    have hall : slice rows (0, rows.length) = rows := by
      simp [slice]
    unfold single
    dsimp only
    split
    · simp [Run.issue, chunksOf, hall]
    · dsimp only
      rw [report_issued]
      simp [Run.issue, chunksOf, hall]
  · split
    · split
      · exact ⟨[], rfl, fun _ h => (by cases h), List.nil_prefix, fun r hr => by simp at hr⟩
      · obtain ⟨j, hj, hissued, hok⟩ := sequential_issued (form.maker metas).1 rows opts answer
          ((rows.length + (chunkSize e form.names rows opts.chunk - 1)) /
            chunkSize e form.names rows opts.chunk)
          (ranges rows.length (chunkSize e form.names rows opts.chunk) 0) 0
          ({ metas := (form.maker metas).2 } : Run ρ κ)
        refine ⟨_, hissued, hslices _ (List.take_subset _ _), ?_, fun r hr => ?_⟩
        · have hpre := take_prefix j
            (ranges rows.length (chunkSize e form.names rows opts.chunk) 0) rows
          rwa [hflat] at hpre
        · rw [hok r hr, List.take_length, hflat]
    · refine ⟨_, runAll_issued _ _ _, hslices _ fun _ h => h, ?_, fun _ _ => hflat⟩
      exact ⟨[], by rw [List.append_nil, hflat]⟩

/-- **What comes of a run that succeeds** is merged from the answers to its statements. -/
theorem runBulk_ok (hnd : order.Nodup) {result : QueryResult ρ κ}
    (h : (runBulk e form opts inTransaction metas rows answer order).settled =
      some (.ok result)) :
    (∃ rs,
      (List.range (runBulk e form opts inTransaction metas rows answer order).issued.length).map
        answer = rs.map .ok ∧ (result = mergeResults rs ∨ rs = [result])) ∧
      (opts.onProgress →
        (runBulk e form opts inTransaction metas rows answer order).track.rows = rows.length) := by
  have hpos := chunkSize_pos e form.names rows opts.chunk
  have hsum := ranges_sum (n := rows.length) hpos 0
  unfold runBulk at h ⊢
  dsimp only at h ⊢
  split at h
  · next hle =>
    rw [if_pos hle]
    unfold single at h ⊢
    dsimp only at h ⊢
    cases ha : answer 0 with
    | error e => simp [ha] at h
    | ok r =>
      simp only [ha] at h ⊢
      cases Except.ok.inj (Option.some.inj h)
      refine ⟨⟨[result], ?_, .inr rfl⟩, fun hp => ?_⟩
      · rw [report_issued]
        simp [Run.issue, ha]
      · rw [report_track hp]
        exact Nat.zero_add _
  · next hle =>
    rw [if_neg hle]
    split at h
    · next hat =>
      rw [if_pos hat]
      split at h
      · simp at h
      · next htx =>
        rw [if_neg htx]
        obtain ⟨j, -, hissued, hj⟩ := sequential_issued (form.maker metas).1 rows opts answer
          ((rows.length + (chunkSize e form.names rows opts.chunk - 1)) /
            chunkSize e form.names rows opts.chunk)
          (ranges rows.length (chunkSize e form.names rows opts.chunk) 0) 0
          ({ metas := (form.maker metas).2 } : Run ρ κ)
        obtain ⟨⟨rs, hrs, hresult⟩, htrack⟩ := sequential_ok _ _ _ _ h
        refine ⟨⟨rs, ?_, .inl hresult⟩, fun hp => ?_⟩
        · rw [hissued, hj result h, List.nil_append, length_chunksOf, List.take_length,
            List.length_map, List.range_eq_range', hrs]
        · rw [htrack hp, hsum]
          exact Nat.zero_add _
    · next hat =>
      rw [if_neg hat]
      obtain ⟨⟨rs, hrs, hresult⟩, htrack⟩ := runAll_ok rfl hnd h
      refine ⟨⟨rs, ?_, .inl hresult⟩, fun hp => ?_⟩
      · rw [runAll_issued, List.nil_append, length_chunksOf, List.length_map, hrs]
      · rw [htrack hp, hsum]
        exact Nat.zero_add _

theorem runBulk_steady : Steady (runBulk e form opts inTransaction metas rows answer order) := by
  have hstart : Steady ({ metas := (form.maker metas).2 } : Run ρ κ) :=
    ⟨List.Pairwise.nil, fun _ h => (nomatch h), rfl⟩
  unfold runBulk
  dsimp only
  split
  · unfold single
    dsimp only
    split
    · exact hstart.of_eq rfl rfl
    · refine Steady.of_eq (Steady.report ?_ _ _ _ _) rfl rfl
      exact hstart.of_eq rfl rfl
  · split
    · split
      · exact hstart.of_eq rfl rfl
      · exact Steady.sequential _ _ _ hstart
    · exact Steady.runAll _ _ hstart

variable (e form opts inTransaction metas rows) in
/-- With answers for all chunks a bulk operation succeeds. -/
theorem runBulk_succeeds (r : QueryResult ρ κ) (h : opts.atomic = none) : ∃ order, order.Nodup ∧
    ∃ result, (runBulk e form opts inTransaction metas rows (fun _ => .ok r) order).settled =
      some (.ok result) := by
  let all := ranges rows.length (chunkSize e form.names rows opts.chunk) 0
  refine ⟨List.range all.length, List.nodup_range, ?_⟩
  unfold runBulk
  dsimp only
  split
  · exact ⟨r, rfl⟩
  · rw [if_neg (by simp [h])]
    have hopen : ∀ (order : List Nat) (run : Run ρ κ), run.settled = none →
        (order.foldl (fun run k => run.settle opts rows (fun _ => .ok r)
          ((rows.length + (chunkSize e form.names rows opts.chunk - 1)) /
            chunkSize e form.names rows opts.chunk) all k) run).settled = none := by
      intro order
      induction order with
      | nil => exact fun _ hrun => hrun
      | cons k order ih =>
        intro run hrun
        rw [List.foldl_cons]
        apply ih
        rcases settle_cases rows opts (fun _ => .ok r) _ all run k with
          ⟨-, he⟩ | ⟨range, r', -, -, he⟩ | ⟨e, ha, -⟩
        · rw [he, hrun]
        · rw [he, report_settled, hrun]
        · cases ha
    obtain ⟨hstart, -, -⟩ := issue_rest (form.maker metas).1 rows all
      ({ metas := (form.maker metas).2 } : Run ρ κ)
    have hnone := hopen (List.range all.length) _ hstart
    unfold runAll
    dsimp only
    rw [hnone]
    dsimp only
    rw [if_pos (by simp [all])]
    exact ⟨_, rfl⟩

end

/-! ### What the statements mean -/

section
variable {form : Form} {metas : Metas} {rows : List Row}

theorem Form.denotes_unique {chunk : Chunk} {changes changes' : List Change}
    (h : form.Denotes chunk changes) (h' : form.Denotes chunk changes') : changes = changes' := by
  cases form with
  | unnest c name => exact Call.denotes_unique h h'
  | values v => exact Values.denotes_unique h h'

theorem all_unique : ∀ {chunks : List Chunk} {changes changes' : List (List Change)},
    List.Forall₂ form.Denotes chunks changes → List.Forall₂ form.Denotes chunks changes' →
      changes = changes'
  | [], _, _, .nil, .nil => rfl
  | _ :: _, _, _, .cons h hs, .cons h' hs' => by
    rw [Form.denotes_unique h h', all_unique hs hs']

theorem all_denote {make : Metas → List Row → Chunk × Metas} {read : Row → Change} :
    ∀ {pieces : List (List Row)}, (∀ piece ∈ pieces, ∀ now,
      form.Denotes (make now piece).1 (piece.map read)) → ∀ now,
        List.Forall₂ form.Denotes (chunksOf make now pieces) (pieces.map (List.map read))
  | [], _, _ => .nil
  | piece :: _, h, now => .cons (h piece List.mem_cons_self now)
      (all_denote (fun p hp => h p (List.mem_cons_of_mem piece hp)) _)

/-- The change that the code makes of a row. -/
def Form.read (form : Form) (row : Row) : Change :=
  .of form.names form.keys fun n => form.sent (row.get (form.names.idxOf n) n)

theorem Form.keys_sub : ∀ ks, form.keys = some ks → ∀ k ∈ ks, k ∈ form.names := by
  cases form with
  | unnest c name => exact c.keys_sub
  | values v => exact fun ks h => nomatch h

theorem Form.nodup : form.names.Nodup := by
  cases form with
  | unnest c name => exact c.nodup
  | values v => exact v.nodup

theorem Form.read_eq {row : Row} (h : ∀ n ∈ form.names, ¬row.Inherits n) :
    form.read row = form.wanted row := by
  apply Change.of_congr Form.keys_sub
  intro n hn
  rw [Row.get_eq_own (h n hn)]

theorem mem_cells {names : List JsString} (hnd : names.Nodup) {row : Row} {v : Value}
    (h : v ∈ row.cells names) : ∃ n ∈ names, v = row.get (names.idxOf n) n := by
  obtain ⟨p, hp, rfl⟩ := List.mem_map.mp h
  obtain ⟨hlt, hget⟩ := List.mem_zipIdx' hp
  refine ⟨p.1, by rw [hget]; exact List.getElem_mem hlt, ?_⟩
  rw [hget, hnd.idxOf_getElem p.2 hlt]

theorem served_statement (c : Call) (cache : Cache) : (serve cache c).1.statement = c.statement ↔
    ∀ m, cache.get c.key = some m → m.statement = c.statement := by
  unfold serve
  cases hm : cache.get c.key with
  | none => simp
  | some m => simp

/-- **The statement of a piece is the rows of the piece** as the code reads them. -/
theorem Form.denotes_piece (hcache : match form with
      | .unnest c _ => ∀ m, metas.insertMeta.get c.key = some m → m.statement = c.statement
      | .values _ => True)
    {piece : List Row} (hne : piece ≠ [])
    (hflat : match form with
      | .unnest c _ => ∀ row ∈ piece, ∀ v ∈ row.cells c.names, ¬IsArray v
      | .values _ => True) (now : Metas) :
    form.Denotes ((form.maker metas).1 now piece).1 (piece.map form.read) := by
  cases form with
  | unnest c name =>
    have hserved := (served_statement c metas.insertMeta).mpr hcache
    apply c.denotes_chunk
    · exact congrArg Statement.sql hserved
    · exact congrArg (fun s => some (Statement.oids s)) hserved
    · rfl
    · exact hflat
  | values v => exact v.denotes_chunk now.valuesMeta hne

theorem builtin_not_array {v : Value} (h : IsBuiltin v) : ¬IsArray v := by
  rintro ⟨es, rfl⟩
  obtain ⟨k, h | h⟩ := h
  · cases h
  · cases h

/-- What is read is an array when the row has one. -/
theorem get_not_array {row : Row} {c : Nat} {n : JsString} (h : ¬IsArray (row.own c n)) :
    ¬IsArray (row.get c n) := by
  by_cases hi : row.Inherits n
  · exact builtin_not_array (Row.get_inherited hi)
  · rw [Row.get_eq_own hi]
    exact h

theorem sent_builtin {v : Value} (h : IsBuiltin v) : form.sent v = .value v := by
  obtain ⟨k, rfl | rfl⟩ := h
  · cases form <;> rfl
  · cases form <;> rfl

/-- A record that inherits a cell is not sent as it is. -/
theorem not_inherits {row : Row} (h : form.read row = form.wanted row) :
    ∀ n ∈ form.names, ¬row.Inherits n := by
  intro n hn hi
  have hcell := Change.of_inj h n hn
  rw [sent_builtin (Row.get_inherited hi), Row.own_inherited hi] at hcell
  cases form with
  | unnest c name => cases hcell
  | values v => cases hcell

end

/-! ### Exactly when -/

theorem faithful_of_sound {e : Engine} {form : Form} {metas : Metas} {rows : List Row}
    {chunk : Option Int} (hne : rows ≠ []) (h : form.Sound metas rows) :
    SendsRows ρ κ e form metas rows chunk := by
  intro atomic onProgress inTransaction answer order hnd
  obtain ⟨pieces, hissued, hpieces, hpre, hall⟩ := runBulk_issues e form
    ⟨chunk, atomic, onProgress⟩ inTransaction metas answer order hne
  have hmem : ∀ piece ∈ pieces, ∀ row ∈ piece, row ∈ rows := fun piece hp row hr =>
    hpre.subset (List.mem_flatten.mpr ⟨piece, hp, hr⟩)
  refine ⟨⟨pieces.flatten, pieces.map (List.map form.wanted), hpre, ?_, ?_, hall⟩, ?_, ?_, ?_⟩
  · rw [hissued]
    apply all_denote
    intro piece hp now
    have hread : piece.map form.wanted = piece.map form.read := by
      apply List.map_congr_left
      intro row hr
      exact (Form.read_eq (h.1 row (hmem piece hp row hr))).symm
    rw [hread]
    cases form with
    | unnest c name =>
      apply Form.denotes_piece h.2.1 (hpieces piece hp)
      intro row hr v hv
      obtain ⟨n, hn, rfl⟩ := mem_cells c.nodup hv
      exact get_not_array (h.2.2 row (hmem piece hp row hr) n hn)
    | values v => exact Form.denotes_piece trivial (hpieces piece hp) trivial now
  · exact List.map_flatten.symm
  · intro r hr
    obtain ⟨⟨rs, hrs, hresult⟩, -⟩ := runBulk_ok hnd hr
    refine ⟨rs, hrs, ?_⟩
    rcases hresult with rfl | rfl
    · exact ⟨rfl, rfl⟩
    · simp
  · exact runBulk_steady.pairwise
  · intro hp r hr
    obtain ⟨-, htrack⟩ := runBulk_ok hnd hr
    exact runBulk_steady.ends (htrack hp) (List.length_pos_of_ne_nil hne)

/-- A run in which all goes well. -/
theorem SendsRows.all {e : Engine} {form : Form} {metas : Metas} {rows : List Row}
    {chunk : Option Int} (hne : rows ≠ []) (h : SendsRows ρ κ e form metas rows chunk) :
    ∃ pieces : List (List Row), (∀ piece ∈ pieces, piece ≠ []) ∧ pieces.flatten = rows ∧
      ∃ changes, List.Forall₂ form.Denotes
        (chunksOf (form.maker metas).1 (form.maker metas).2 pieces) changes ∧
          changes.flatten = rows.map form.wanted := by
  obtain ⟨order, hnd, result, hok⟩ := runBulk_succeeds e form ⟨chunk, none, false⟩ false metas rows
    (⟨[], [], none, none, none⟩ : QueryResult ρ κ) rfl
  obtain ⟨pieces, hissued, hpieces, -, hall⟩ := runBulk_issues e form ⟨chunk, none, false⟩ false
    metas (fun _ => .ok (⟨[], [], none, none, none⟩ : QueryResult ρ κ)) order hne
  obtain ⟨part, changes, -, hdenote, hchanges, hpart⟩ := (h none false false _ order hnd).sent
  rw [hissued] at hdenote
  rw [hpart result hok] at hchanges
  exact ⟨pieces, hpieces, hall result hok, changes, hdenote, hchanges⟩

theorem param_array (es : List Value) : Sent.param (.array es) = .value (.array es) := rfl

section
variable {e : Engine} {metas : Metas} {rows : List Row} {chunk : Option Int}

/-- A run can only keep its promise with the statement of its own call. -/
theorem own_statement {c : Call} {name : Option JsString} (hne : rows ≠ [])
    (h : SendsRows ρ κ e (.unnest c name) metas rows chunk) :
    ∀ m, metas.insertMeta.get c.key = some m → m.statement = c.statement := by
  obtain ⟨pieces, -, hflat, changes, hdenote, -⟩ := h.all hne
  rw [← served_statement]
  cases pieces with
  | nil => exact absurd hflat.symm hne
  | cons piece pieces =>
    cases hdenote with
    | cons hfirst _ =>
      obtain ⟨hsql, hoids, -⟩ := hfirst
      have hs : (serve metas.insertMeta c).1.statement.sql = c.sql := hsql
      have ho : (serve metas.insertMeta c).1.statement.oids = c.oids := Option.some.inj hoids
      show (serve metas.insertMeta c).1.statement = ⟨c.sql, c.oids⟩
      rw [← hs, ← ho]

/-- And with no array among the cells, since none comes out of `unnest`. -/
theorem no_arrays {c : Call} {name : Option JsString} (hne : rows ≠ [])
    (h : SendsRows ρ κ e (.unnest c name) metas rows chunk) :
    ∀ row ∈ rows, ∀ n ∈ c.names, ¬IsArray (row.own (c.names.idxOf n) n) := by
  obtain ⟨pieces, -, -, changes, hdenote, hchanges⟩ := h.all hne
  have hall : ∀ {chunks : List Chunk} {changes : List (List Change)},
      List.Forall₂ c.Denotes chunks changes →
        ∀ cs ∈ changes, ∀ ch ∈ cs, ∀ p ∈ ch.set ++ ch.keys, p.2.IsFlat := by
    intro chunks changes hd
    induction hd with
    | nil => exact fun cs hcs => nomatch hcs
    | cons hhere _ ih =>
      intro cs hcs
      rcases List.mem_cons.mp hcs with rfl | hcs
      · exact Call.flat_of_denotes hhere
      · exact ih cs hcs
  rintro row hrow n hn ⟨es, hes⟩
  have hmem : (Form.unnest c name).wanted row ∈ changes.flatten := by
    rw [hchanges]
    exact List.mem_map.mpr ⟨row, hrow, rfl⟩
  obtain ⟨cs, hcs, hin⟩ := List.mem_flatten.mp hmem
  have hflat := hall hdenote cs hcs _ hin _ (Change.mem_of hn)
  rw [show (Form.unnest c name).names = c.names from rfl, hes] at hflat
  exact hflat es (param_array es)

/-- **A bulk operation sends each row once exactly when** no record inherits what it has no key for
and, under `unnest`, no cell is an array and the cache has no statement of another call. -/
theorem sends_rows_iff (e : Engine) (form : Form) (metas : Metas) (chunk : Option Int)
    (hne : rows ≠ []) : SendsRows ρ κ e form metas rows chunk ↔ form.Sound metas rows := by
  refine ⟨fun h => ?_, faithful_of_sound hne⟩
  have hread : ∀ row ∈ rows, form.read row = form.wanted row := by
    obtain ⟨pieces, hpieces, hflat, changes, hdenote, hchanges⟩ := h.all hne
    have hpiece : ∀ piece ∈ pieces, ∀ now,
        form.Denotes ((form.maker metas).1 now piece).1 (piece.map form.read) := by
      intro piece hp now
      cases form with
      | unnest c name =>
        apply Form.denotes_piece (own_statement hne h) (hpieces piece hp)
        intro row hr v hv
        obtain ⟨n, hn, rfl⟩ := mem_cells c.nodup hv
        have hrow : row ∈ rows := hflat ▸ List.mem_flatten.mpr ⟨piece, hp, hr⟩
        exact get_not_array (no_arrays hne h row hrow n hn)
      | values v => exact Form.denotes_piece trivial (hpieces piece hp) trivial now
    have hsame := all_unique hdenote (all_denote hpiece (form.maker metas).2)
    rw [hsame, ← List.map_flatten, hflat] at hchanges
    exact List.map_inj_left.mp hchanges
  refine ⟨fun row hrow => not_inherits (hread row hrow), ?_⟩
  cases form with
  | unnest c name => exact ⟨own_statement hne h, no_arrays hne h⟩
  | values v => trivial

end

/-! ### Documents -/

/-- A table with a column of documents. -/
def documents : Call where
  table := ascii "t"
  columns := [(ascii "doc", ascii "jsonb")]
  keys := none
  nodup := by decide
  ne := by decide
  known := by decide
  keys_ne := fun _ h => nomatch h
  keys_sub := fun _ h => nomatch h
  set_ne := fun _ h => nomatch h

def quiet : Engine := ⟨fun _ => [], fun _ => .ok none, fun _ => [], fun _ => none⟩

/-- Two rows, with the documents `[1, 2]` and `[3, 4]`. -/
def lists : List Row :=
  [.array [.array [.number 0x3ff0000000000000, .number 0x4000000000000000]],
    .array [.array [.number 0x4008000000000000, .number 0x4010000000000000]]]

/-- Two rows are sent as four. -/
theorem documents_flattened :
    (∃ changes, documents.Denotes (((Form.unnest documents none).maker {}).1 {} lists).1 changes ∧
      changes.length = 4) ∧
    ¬SendsRows Unit Unit quiet (.unnest documents none) {} lists (some 2) := by
  constructor
  · exact ⟨_, ⟨rfl, rfl, _, rfl, rfl⟩, rfl⟩
  · intro h
    exact no_arrays (by decide) h _ List.mem_cons_self (ascii "doc") List.mem_cons_self ⟨_, rfl⟩

def points : Values where
  table := ascii "t"
  names := [ascii "x", ascii "y"]
  nodup := by decide
  ne := by decide

/-- One record has no `y`, the other an `x` that is `undefined`. -/
def halves : List Row :=
  [.record [(ascii "x", .boolean true)] false,
    .record [(ascii "x", .undefined), (ascii "y", .null)] false]

theorem halves_sent :
    halves ≠ [] ∧ SendsRows Unit Unit quiet (.values points) {} halves (some 1) := by
  have hnames : ∀ n ∈ points.names, (objectPrototype.lookup n).isSome = false := by decide
  have hown : ∀ row ∈ halves, ∀ n ∈ points.names, ¬row.Inherits n := by
    intro row hrow n hn
    cases row with
    | array cells => exact id
    | record fields bare =>
      rintro ⟨-, -, hsome⟩
      rw [hnames n hn] at hsome
      cases hsome
  exact ⟨by decide, (sends_rows_iff quiet (.values points) {} (some 1) (by decide)).mpr
    ⟨hown, trivial⟩⟩

end Minipg.Bulk
