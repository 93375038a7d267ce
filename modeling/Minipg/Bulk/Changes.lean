import Minipg.Bulk.Rows

/-!
# A chunk changes what its rows say

The statement of a chunk over VALUES reads in one way only (`Values.text_inj`), and its tuples are
the rows (`Values.denotes_chunk`).  The columns of a chunk over `unnest` come out as the rows when
no cell is an array (`Call.denotes_chunk`); an array never comes out (`Call.flat_of_denotes`).
-/

namespace Minipg.Bulk

open Js Reading

section
variable {α β : Type} {f : α → Option β} {g : α → β}

theorem mapM_eq_map : ∀ {l : List α}, (∀ a ∈ l, f a = some (g a)) → l.mapM f = some (l.map g)
  | [], _ => rfl
  | a :: l, h => by
    have hl := mapM_eq_map (l := l) fun b hb => h b (List.mem_cons_of_mem a hb)
    rw [List.mapM_cons, h a List.mem_cons_self, hl]
    rfl

theorem mem_of_mapM : ∀ {l : List α} {r : List β}, l.mapM f = some r →
    ∀ b ∈ r, ∃ a ∈ l, f a = some b
  | [], r, h, b, hb => by
    cases h
    cases hb
  | a :: l, r, h, b, hb => by
    rw [List.mapM_cons] at h
    obtain ⟨b', hb', h⟩ := Option.bind_eq_some_iff.mp h
    obtain ⟨bs, hbs, h⟩ := Option.bind_eq_some_iff.mp h
    cases h
    rcases List.mem_cons.mp hb with rfl | hb
    · exact ⟨a, List.mem_cons_self, hb'⟩
    · obtain ⟨a', ha', he⟩ := mem_of_mapM hbs b hb
      exact ⟨a', List.mem_cons_of_mem a ha', he⟩

end

/-! ### VALUES -/

theorem places_cons {params : List Value} {v : Value} {vs : List Value} (hv : v ≠ .undefined) :
    places params (v :: vs) = (.param (params.length + 1) :: (places (params ++ [v]) vs).1,
      (places (params ++ [v]) vs).2) := by
  cases v with
  | undefined => exact absurd rfl hv
  | _ => rfl

theorem orDefault_param {v : Value} (hv : v ≠ .undefined) : Sent.orDefault v = .param v := by
  cases v with
  | undefined => exact absurd rfl hv
  | _ => rfl

/-- **Each placeholder is for its own cell**, whatever parameters come later. -/
theorem places_spec : ∀ (vs params : List Value), ∃ more, (places params vs).2 = params ++ more ∧
    ∀ later, (places params vs).1.mapM (entry (params ++ more ++ later)) =
      some (vs.map Sent.orDefault)
  | [], params => ⟨[], (List.append_nil params).symm, fun later => rfl⟩
  | v :: vs, params => by
    by_cases hv : v = .undefined
    · obtain ⟨more, hmore, hread⟩ := places_spec vs params
      refine ⟨more, by rw [hv]; exact hmore, fun later => ?_⟩
      subst hv
      simp only [places, List.mapM_cons, hread later]
      rfl
    · obtain ⟨more, hmore, hread⟩ := places_spec vs (params ++ [v])
      refine ⟨v :: more, by rw [places_cons hv]; simpa using hmore, fun later => ?_⟩
      have hall : params ++ v :: more ++ later = params ++ [v] ++ more ++ later := by
        simp
      have hentry : entry (params ++ v :: more ++ later) (.param (params.length + 1)) =
          some (Sent.param v) := by
        simp [entry]
      rw [places_cons hv, List.mapM_cons, hentry, hall, hread later, List.map_cons,
        orDefault_param hv]
      rfl

theorem tuples_spec (names : List JsString) : ∀ (rows : List Row) (params : List Value),
    ∃ more, (tuples names params rows).2 = params ++ more ∧
      ∀ later, (tuples names params rows).1.mapM
        (fun t => t.mapM (entry (params ++ more ++ later))) =
          some (rows.map fun row => (row.cells names).map Sent.orDefault)
  | [], params => ⟨[], (List.append_nil params).symm, fun later => rfl⟩
  | row :: rows, params => by
    obtain ⟨here, hhere, hread⟩ := places_spec (row.cells names) params
    obtain ⟨more, hmore, hrest⟩ := tuples_spec names rows (params ++ here)
    refine ⟨here ++ more, ?_, fun later => ?_⟩
    · simp only [tuples, hhere, hmore, List.append_assoc]
    · have hfirst := hread (more ++ later)
      have hlast := hrest later
      simp only [List.append_assoc] at hfirst hlast
      simp only [tuples, hhere, List.mapM_cons, List.append_assoc, hfirst, hlast]
      rfl

theorem length_cells (names : List JsString) (row : Row) :
    (row.cells names).length = names.length := by
  simp [Row.cells]

theorem places_length : ∀ (vs params : List Value), (places params vs).1.length = vs.length
  | [], params => rfl
  | v :: vs, params => by
    by_cases hv : v = .undefined
    · subst hv
      simp only [places, List.length_cons, places_length vs params]
    · simp only [places_cons hv, List.length_cons, places_length vs (params ++ [v])]

theorem tuples_ne {names : List JsString} (hne : names ≠ []) : ∀ (rows : List Row)
    (params : List Value), ∀ t ∈ (tuples names params rows).1, t ≠ []
  | [], params, t, ht => nomatch ht
  | row :: rows, params, t, ht => by
    rcases List.mem_cons.mp ht with rfl | ht
    · apply List.ne_nil_of_length_pos
      rw [places_length, length_cells]
      exact List.length_pos_of_ne_nil hne
    · exact tuples_ne hne rows _ t ht

theorem reads_place : Reads (fun _ => True) (Avoids isDigit) Place.text := by
  intro p q x y _ _ hx hy h
  cases p with
  | default =>
    cases q with
    | default => exact ⟨rfl, List.append_cancel_left h⟩
    | param n => exact absurd (List.cons.inj h).1 (by decide)
  | param m =>
    cases q with
    | default => exact absurd (List.cons.inj h).1 (by decide)
    | param n =>
      obtain ⟨rfl, hxy⟩ := reads_decimal.after (ascii "$") m n x y trivial trivial hx hy h
      exact ⟨rfl, hxy⟩

theorem reads_tuple : Reads (fun t : List Place => t ≠ [] ∧ ∀ p ∈ t, True) Always tupleText := by
  have hplaces : Reads (fun t : List Place => t ≠ [] ∧ ∀ p ∈ t, True) (Starts 0x29)
      (join (ascii ",") Place.text) := by
    apply reads_place.join
    · exact fun x => Starts.avoids ⟨x, rfl⟩ (by decide)
    · rintro x ⟨z, rfl⟩
      exact ⟨Starts.avoids ⟨z, rfl⟩ (by decide), fun ⟨w, hw⟩ => nomatch hw⟩
  have hclosed := hplaces.before (Q := Always) (ascii ")") fun x _ => ⟨x, rfl⟩
  exact hclosed.after (ascii "(")

theorem not_comma_returning (returning : JsString) :
    ¬ascii "," <+: Call.returningClause returning := by
  rintro ⟨w, hw⟩
  by_cases hr : returning = []
  · rw [Call.returningClause, if_pos hr] at hw
    cases hw
  · rw [Call.returningClause, if_neg hr] at hw
    exact absurd (List.cons.inj hw).1 (by decide)

theorem Values.text_inj {v : Values} {t t' : List (List Place)} (ht : IsTuples t)
    (ht' : IsTuples t') (h : v.text t = v.text t') : t = t' := by
  have hread : Reads (fun l : List (List Place) => l ≠ [] ∧ ∀ t ∈ l, t ≠ [] ∧ ∀ p ∈ t, True)
      (· = v.tail) (join (ascii ",") tupleText) := by
    apply reads_tuple.join
    · exact fun x => trivial
    · rintro x rfl
      exact ⟨trivial, not_comma_returning v.returning⟩
  have hdom : ∀ {l : List (List Place)}, IsTuples l → l ≠ [] ∧ ∀ t ∈ l, t ≠ [] ∧ ∀ p ∈ t, True :=
    fun hl => ⟨hl.1, fun t ht => ⟨hl.2 t ht, fun _ _ => trivial⟩⟩
  exact (hread t t' v.tail v.tail (hdom ht) (hdom ht') rfl rfl (List.append_cancel_left h)).1

theorem Values.denotes_unique {v : Values} {chunk : Chunk} {changes changes' : List Change}
    (h : v.Denotes chunk changes) (h' : v.Denotes chunk changes') : changes = changes' := by
  obtain ⟨-, t, ht, hsql, rows, hrows, rfl⟩ := h
  obtain ⟨-, t', ht', hsql', rows', hrows', rfl⟩ := h'
  obtain rfl := Values.text_inj ht ht' (hsql.symm.trans hsql')
  cases hrows.symm.trans hrows'
  rfl

/-! ### The names of the statements -/

/-- `valuesMeta` is numbered. -/
def Numbering (valuesMeta : List (JsString × JsString)) : Prop :=
  ∀ i (h : i < valuesMeta.length), valuesMeta[i].2 = ascii "_iv" ++ decimal i

theorem Numbering.named {valuesMeta : List (JsString × JsString)} (h : Numbering valuesMeta)
    (sql : JsString) : Numbering (Values.named valuesMeta sql).2 ∧
      (sql, (Values.named valuesMeta sql).1) ∈ (Values.named valuesMeta sql).2 := by
  unfold Values.named
  cases hl : valuesMeta.lookup sql with
  | some name =>
    obtain ⟨before, after, hmeta, -⟩ := List.lookup_eq_some_iff.mp hl
    exact ⟨h, by simp [hmeta]⟩
  | none =>
    refine ⟨fun i hi => ?_, by simp⟩
    by_cases hlt : i < valuesMeta.length
    · rw [List.getElem_append_left hlt]
      exact h i hlt
    · have hlast : i = valuesMeta.length := by
        have hlen : i < valuesMeta.length + 1 := by simpa using hi
        omega
      subst hlast
      simp

/-- **A name stands for one text.** -/
theorem Numbering.name_inj {valuesMeta : List (JsString × JsString)} (h : Numbering valuesMeta)
    {sql sql' name : JsString} (hm : (sql, name) ∈ valuesMeta) (hm' : (sql', name) ∈ valuesMeta) :
    sql = sql' := by
  obtain ⟨i, hi, he⟩ := List.mem_iff_getElem.mp hm
  obtain ⟨j, hj, he'⟩ := List.mem_iff_getElem.mp hm'
  have hname := (h i hi).symm.trans (by rw [he])
  have hname' := (h j hj).symm.trans (by rw [he'])
  obtain rfl := decimal_inj (List.append_cancel_left (hname.trans hname'.symm))
  exact congrArg Prod.fst (he.symm.trans he')

/-! ### The columns of a row -/

theorem zip_cells (names : List JsString) (hnd : names.Nodup) (g : Nat → JsString → Sent) :
    names.zip (names.zipIdx.map fun p => g p.2 p.1) =
      names.map fun n => (n, g (names.idxOf n) n) := by
  apply List.ext_getElem
  · simp
  · intro i hi hi'
    have hlt : i < names.length := by simpa using hi'
    simp [hnd.idxOf_getElem i hlt]

theorem cell_at (names : List JsString) (g : Nat → JsString → Sent) {n : JsString}
    (hn : n ∈ names) : (names.zipIdx.map fun p => g p.2 p.1).getD (names.idxOf n) .null =
      g (names.idxOf n) n := by
  have hlt := List.idxOf_lt_length_of_mem hn
  simp [List.getD, hlt]

theorem Call.change_cells (c : Call) (g : Nat → JsString → Sent) :
    c.change (c.names.zipIdx.map fun p => g p.2 p.1) =
      .of c.names c.keys fun n => g (c.names.idxOf n) n := by
  cases hk : c.keys with
  | none => simp only [change, Change.of, hk, zip_cells c.names c.nodup g]
  | some ks =>
    have hmap : ∀ l : List JsString, (∀ n ∈ l, n ∈ c.names) → (c.located l).map (fun p =>
        (p.1, (c.names.zipIdx.map fun p => g p.2 p.1).getD p.2 .null)) =
          l.map fun n => (n, g (c.names.idxOf n) n) := by
      intro l hl
      rw [located, List.map_map]
      apply List.map_congr_left
      intro n hn
      exact congrArg (Prod.mk n) (cell_at c.names g (hl n hn))
    simp only [change, Change.of, hk]
    rw [hmap _ fun n hn => (List.mem_filter.mp hn).1, hmap ks (c.keys_sub ks hk)]

theorem map_cells (names : List JsString) (row : Row) (sent : Value → Sent) :
    (row.cells names).map sent = names.zipIdx.map fun p => sent (row.get p.2 p.1) := by
  simp [Row.cells]

theorem Values.denotes_chunk (v : Values) (valuesMeta : List (JsString × JsString))
    {rows : List Row} (hne : rows ≠ []) :
    v.Denotes (v.chunk valuesMeta rows).1 (rows.map fun row =>
      .of v.names none fun n => .orDefault (row.get (v.names.idxOf n) n)) := by
  obtain ⟨params, hparams, hread⟩ := tuples_spec v.names rows []
  refine ⟨rfl, (tuples v.names [] rows).1, ⟨?_, tuples_ne v.ne rows []⟩, rfl,
    rows.map fun row => (row.cells v.names).map Sent.orDefault, ?_, ?_⟩
  · cases rows with
    | nil => exact absurd rfl hne
    | cons row rows => exact List.cons_ne_nil _ _
  · have hsent : (v.chunk valuesMeta rows).1.params = [] ++ params ++ [] := by
      rw [List.append_nil]
      exact hparams
    rw [hsent]
    exact hread []
  · rw [List.map_map]
    apply List.map_congr_left
    intro row _
    rw [Function.comp, map_cells, zip_cells v.names v.nodup fun i n => .orDefault (row.get i n)]
    rfl

/-! ### `unnest` -/

def IsArray (v : Value) : Prop := ∃ es, v = .array es

theorem dimsOf_flat : ∀ {es : List Value}, (∀ v ∈ es, ¬IsArray v) → dimsOf es = some []
  | [], _ => rfl
  | [v], h => by
    have hv := h v List.mem_cons_self
    cases v with
    | array es => exact absurd ⟨es, rfl⟩ hv
    | _ => rfl
  | v :: w :: rest, h => by
    have hv : dims v = some [] := by
      have hv := h v List.mem_cons_self
      cases v with
      | array es => exact absurd ⟨es, rfl⟩ hv
      | _ => rfl
    have hrest : dimsOf (w :: rest) = some [] :=
      dimsOf_flat fun u hu => h u (List.mem_cons_of_mem v hu)
    simp only [dimsOf, hv, hrest, if_true]

theorem leavesOf_flat : ∀ {es : List Value}, (∀ v ∈ es, ¬IsArray v) → leavesOf es = es
  | [], _ => rfl
  | v :: rest, h => by
    have hv : leaves v = [v] := by
      have hv := h v List.mem_cons_self
      cases v with
      | array es => exact absurd ⟨es, rfl⟩ hv
      | _ => rfl
    have hrest := leavesOf_flat fun u hu => h u (List.mem_cons_of_mem v hu)
    simp only [leavesOf, hv, hrest, List.singleton_append]

theorem column_flat {es : List Value} (h : ∀ v ∈ es, ¬IsArray v) :
    column (some (.array es)) = some (es.map Sent.param) := by
  simp [column, dims, dimsOf_flat h, leavesOf_flat h]

/-- The number in a cast is the one of its column. -/
theorem numbered_mapM {β : Type} (f : Option Value → Option β) : ∀ (types : List JsString)
    (before params : List Value), params.length = types.length →
      ((types.zipIdx before.length).map fun t => (t.2 + 1, t.1)).mapM
        (fun t => f (before ++ params)[t.1 - 1]?) = params.mapM fun v => f (some v)
  | [], before, [], _ => rfl
  | [], before, _ :: _, h => nomatch h
  | _ :: _, before, [], h => nomatch h
  | t :: types, before, v :: params, h => by
    have hrest := numbered_mapM f types (before ++ [v]) params (Nat.succ.inj h)
    have hall : before ++ v :: params = before ++ [v] ++ params := by
      simp
    have hhere : (before ++ v :: params)[before.length + 1 - 1]? = some v := by
      simp
    simp only [List.length_append, List.length_singleton] at hrest
    rw [List.zipIdx_cons, List.map_cons, List.mapM_cons, List.mapM_cons, hhere, hall, hrest]

theorem Call.unnested_eq (c : Call) {params : List Value} (h : params.length = c.types.length) :
    c.unnested params = (params.mapM fun v => column (some v)).map unnest :=
  congrArg (Option.map unnest) (numbered_mapM column c.types [] params h)

theorem foldr_max_replicate (n m : Nat) : (List.replicate (n + 1) m).foldr max 0 = m := by
  induction n with
  | zero => simp
  | succ n ih =>
    rw [List.replicate_succ, List.foldr_cons, ih, Nat.max_self]

/-- The columns of a table give its rows back. -/
theorem unnest_columns {γ : Type} {names : List γ} (hne : names ≠ []) (rows : List Row)
    (cell : Row → γ → Sent) :
    unnest (names.map fun n => rows.map fun row => cell row n) =
      rows.map fun row => names.map (cell row) := by
  obtain ⟨n, names, rfl⟩ := List.exists_cons_of_ne_nil hne
  have hlen : (((n :: names).map fun n => rows.map fun row => cell row n).map
      List.length).foldr max 0 = rows.length := by
    have hrep : ((n :: names).map fun n => rows.map fun row => cell row n).map List.length =
        List.replicate (names.length + 1) rows.length := by
      rw [List.eq_replicate_iff]
      simp
    rw [hrep, foldr_max_replicate]
  rw [unnest, hlen]
  apply List.ext_getElem
  · simp
  · intro r hr hr'
    have hlt : r < rows.length := by simpa using hr'
    simp [List.getD, hlt]

theorem length_pivot (names : List JsString) (rows : List Row) :
    (pivotRows names rows).length = names.length := by
  simp [pivotRows]

/-- **Without arrays among the cells the rows come out of `unnest` as they went in.** -/
theorem Call.unnested_pivot (c : Call) {rows : List Row}
    (h : ∀ row ∈ rows, ∀ v ∈ row.cells c.names, ¬IsArray v) :
    c.unnested (pivotRows c.names rows) =
      some (rows.map fun row => (row.cells c.names).map Sent.param) := by
  have hlen : (pivotRows c.names rows).length = c.types.length := by
    rw [length_pivot]
    simp [names, types]
  have hcolumns : (pivotRows c.names rows).mapM (fun v => column (some v)) =
      some (c.names.zipIdx.map fun p => rows.map fun row => Sent.param (row.get p.2 p.1)) := by
    rw [pivotRows, List.mapM_map]
    apply mapM_eq_map
    intro p hp
    have hflat : ∀ v ∈ rows.map fun row => row.get p.2 p.1, ¬IsArray v := by
      intro v hv
      obtain ⟨row, hrow, rfl⟩ := List.mem_map.mp hv
      exact h row hrow _ (List.mem_map.mpr ⟨p, hp, rfl⟩)
    rw [Function.comp, column_flat hflat, List.map_map]
    rfl
  have hne : c.names.zipIdx ≠ [] := by
    simpa [names] using c.ne
  rw [c.unnested_eq hlen, hcolumns, Option.map_some, unnest_columns hne]
  simp only [map_cells]

theorem Call.denotes_chunk (c : Call) {chunk : Chunk} {rows : List Row} (hsql : chunk.sql = c.sql)
    (hoids : chunk.oids = some c.oids) (hparams : chunk.params = pivotRows c.names rows)
    (h : ∀ row ∈ rows, ∀ v ∈ row.cells c.names, ¬IsArray v) :
    c.Denotes chunk (rows.map fun row =>
      .of c.names c.keys fun n => .param (row.get (c.names.idxOf n) n)) := by
  refine ⟨hsql, hoids, _, by rw [hparams, c.unnested_pivot h], ?_⟩
  rw [List.map_map]
  apply List.map_congr_left
  intro row _
  rw [Function.comp, map_cells, c.change_cells fun i n => .param (row.get i n)]

theorem Call.denotes_unique {c : Call} {chunk : Chunk} {changes changes' : List Change}
    (h : c.Denotes chunk changes) (h' : c.Denotes chunk changes') : changes = changes' := by
  obtain ⟨-, -, rows, hrows, rfl⟩ := h
  obtain ⟨-, -, rows', hrows', rfl⟩ := h'
  cases hrows.symm.trans hrows'
  rfl

/-! ### Arrays among the cells -/

/-- What is sent is no array. -/
def Sent.IsFlat (s : Sent) : Prop := ∀ es, s ≠ .value (.array es)

mutual

theorem leaves_isFlat : ∀ v, ∀ w ∈ leaves v, ¬IsArray w
  | .array es => leavesOf_isFlat es
  | .undefined | .null | .boolean _ | .number _ | .bigint _ | .string _ | .date _ | .buffer _
  | .object _ | .other _ => by
    intro w hw
    cases List.mem_singleton.mp hw
    rintro ⟨es, he⟩
    cases he

theorem leavesOf_isFlat : ∀ es, ∀ w ∈ leavesOf es, ¬IsArray w
  | [] => fun w hw => nomatch hw
  | v :: rest => by
    intro w hw
    rcases List.mem_append.mp hw with hw | hw
    · exact leaves_isFlat v w hw
    · exact leavesOf_isFlat rest w hw

end

theorem Sent.isFlat_param {v : Value} (h : ¬IsArray v) : (Sent.param v).IsFlat := by
  intro es he
  unfold Sent.param at he
  split at he
  · cases he
  · cases he
    exact h ⟨es, rfl⟩

theorem column_isFlat {v : Option Value} {cells : List Sent} (h : column v = some cells) :
    ∀ s ∈ cells, s.IsFlat := by
  intro s hs
  unfold column at h
  split at h
  · next es =>
    split at h
    · cases h
      obtain ⟨w, hw, rfl⟩ := List.mem_map.mp hs
      exact Sent.isFlat_param (leavesOf_isFlat es w hw)
    · cases h
  · cases h

theorem getD_isFlat {cells : List Sent} (h : ∀ s ∈ cells, s.IsFlat) (i : Nat) :
    (cells.getD i .null).IsFlat := by
  rw [List.getD_eq_getElem?_getD]
  cases hi : cells[i]? with
  | none => exact fun es he => nomatch he
  | some s => exact h s (List.mem_of_getElem? hi)

theorem unnest_isFlat {columns : List (List Sent)} (h : ∀ cells ∈ columns, ∀ s ∈ cells, s.IsFlat) :
    ∀ cells ∈ unnest columns, ∀ s ∈ cells, s.IsFlat := by
  intro cells hcells s hs
  obtain ⟨r, -, rfl⟩ := List.mem_map.mp hcells
  obtain ⟨column, hcolumn, rfl⟩ := List.mem_map.mp hs
  exact getD_isFlat (h column hcolumn) r

theorem Call.change_isFlat (c : Call) {cells : List Sent} (h : ∀ s ∈ cells, s.IsFlat) :
    ∀ p ∈ (c.change cells).set ++ (c.change cells).keys, p.2.IsFlat := by
  intro p hp
  unfold change at hp
  split at hp
  · rw [List.append_nil] at hp
    exact h p.2 (List.of_mem_zip hp).2
  · rw [← List.map_append] at hp
    obtain ⟨q, -, rfl⟩ := List.mem_map.mp hp
    exact getD_isFlat h q.2

/-- **What comes out of `unnest` is no array.** -/
theorem Call.flat_of_denotes {c : Call} {chunk : Chunk} {changes : List Change}
    (h : c.Denotes chunk changes) :
    ∀ change ∈ changes, ∀ p ∈ change.set ++ change.keys, p.2.IsFlat := by
  obtain ⟨-, -, rows, hrows, rfl⟩ := h
  obtain ⟨columns, hcolumns, rfl⟩ := Option.map_eq_some_iff.mp hrows
  have hflat : ∀ cells ∈ columns, ∀ s ∈ cells, s.IsFlat := by
    intro cells hcells
    obtain ⟨t, -, ht⟩ := mem_of_mapM hcolumns cells hcells
    exact column_isFlat ht
  intro change hchange
  obtain ⟨cells, hcells, rfl⟩ := List.mem_map.mp hchange
  exact c.change_isFlat (unnest_isFlat hflat cells hcells)

end Minipg.Bulk
