import Minipg.Decode.Entries
import Minipg.Neon.Closing
import Minipg.Neon.Scanning

/-!
# Scanned and parsed rows

Of a response whose rows have as many cells as there are columns, `decodeSingleRaw` returns the rows
that `decodeParsed` returns of what `JSON.parse` makes of it (`decodeSingleRaw_agrees`).
-/

namespace Minipg.Neon

open Js
open Json (Ast Chars EndsAs IsName ItemsForm Reads ReadsItems Tree fuel_rules isWsByte jsonParse
  number parseText parseText_of_value recordItems recordMembers skipWs valueItems valueMembers ws)
open Cells (Bytes Runtime)
open Encode (Thrown)

/-! ### What is left -/

theorem reads_wellFormed {s rest : JsString} {a : Ast} (h : Reads s a rest)
    (hwf : isWellFormed s) : isWellFormed rest :=
  ((balanced_rules.read s.length).1 (h.2 s.length (Nat.le_add_right _ _)) hwf).1

theorem wellFormed_behind {s t : JsString} {u : UInt16} (h : skipWs s = u :: t) (hu : IsAscii u)
    (hwf : isWellFormed s) : isWellFormed t := by
  have hskip := Json.wellFormed_skipWs hwf
  rwa [h, wellFormed_ascii hu] at hskip

theorem wellFormed_head : ∀ {s : JsString}, isWellFormed s → ∀ u ∈ s.head?, isLow u = false
  | [], _, u, hu => by cases hu
  | u :: s, h, _, hu => by
    cases hu
    rcases wellFormed_cons h with ⟨hu, -, -⟩ | ⟨v, t, -, hu, -, -, -⟩
    · exact (Bool.or_eq_false_iff.mp hu).2
    · have hhigh : 0xd800 ≤ u.toNat ∧ u.toNat ≤ 0xdbff := of_decide_eq_true hu
      exact decide_eq_false fun hlow => by omega

/-- A text goes up to where a well-formed one starts. -/
theorem wellFormed_before : ∀ (n : Nat) {c rest : JsString}, c.length ≤ n →
    isWellFormed (c ++ rest) → isWellFormed rest → isWellFormed c
  | _, [], _, _, _, _ => rfl
  | 0, _ :: _, _, hn, _, _ => by cases hn
  | n + 1, u :: c, rest, hn, h, hrest => by
    rw [List.length_cons] at hn
    rcases wellFormed_cons h with ⟨hu, ht, -⟩ | ⟨v, t, hc, hu, hv, ht, -⟩
    · exact isWellFormed_append (.unit hu) (wellFormed_before n (by omega) ht hrest)
    · cases c with
      | nil =>
        have hlow := wellFormed_head hrest v (by rw [show rest = v :: t from hc]; rfl)
        rw [hlow] at hv
        cases hv
      | cons _ c =>
        cases hc
        rw [List.length_cons] at hn
        exact isWellFormed_append (.pair hu hv) (wellFormed_before n (by omega) ht hrest)

/-! ### The fields -/

theorem endOfValue_array {q rest : JsString} {vs : List Ast} (hwf : isWellFormed q)
    (h : Reads q (.array vs) rest) : endOfValue (ws (utf8 q)) = utf8 rest := by
  obtain ⟨t, hs, hform⟩ := h.array
  have ht := wellFormed_behind hs (by decide) hwf
  have hclosed : Closed (skipWs t) rest := by
    rcases hform with ⟨-, ht⟩ | hitems
    · rw [ht]
      exact .bracket rest
    · exact (balanced_rules.read (skipWs t).length).2.1 (hitems.2 _ (Nat.le_add_right _ _))
  have hopen : endOfValue (utf8 (91 :: t)) = closeArray 0 (utf8 (91 :: t)) := by
    rw [utf8_cons_ascii (by decide)]
    rfl
  have hloop := ((Balanced.skip t).closed hclosed ht).2 (0 + 1) (by decide)
  rw [Json.ws_utf8, hs, hopen, closeArray_open, hloop, closeArray_close, if_pos (by decide)]

theorem fields_text (rt : Runtime) {q rest : JsString} {a : Ast} (hwf : isWellFormed q)
    (h : Reads q a rest) : jsonParse rt (rt.standard.utf8 (upTo (ws (utf8 q)) (utf8 rest))) =
      some (a.record.value (number rt)) := by
  obtain ⟨u, c, hs, hp⟩ := Json.text_of_reads h.skip
  have hrest := reads_wellFormed h hwf
  have hskip := Json.wellFormed_skipWs hwf
  rw [hs] at hskip
  have hc := wellFormed_before _ (Nat.le_refl _) hskip hrest
  rw [Json.ws_utf8, hs, utf8_append _ (wellFormed_head hrest), upTo_append,
    Json.standard_utf8 rt hc]
  unfold jsonParse
  rw [hp]
  rfl

/-! ### Cells and rows -/

def cellAst : Option JsString → Ast
  | none => .null
  | some s => .string s

def rowAst (row : List (Option JsString)) : Ast := .array (row.map cellAst)

/-- White space and commas. -/
theorem skipCommas_utf8 (s : JsString) :
    skipCommas (utf8 s) = utf8 (s.dropWhile fun u => Json.isWs u || u = 44) := by
  refine (Json.utf8_span (fun u hu => ?_) (fun c hc => ?_) ?_ s).2
  · rw [Bool.or_eq_true, decide_eq_true_eq] at hu
    rcases hu with hu | rfl
    · exact Json.isWs_ascii u hu
    · decide
  · unfold isWsByte at hc
    rw [Bool.or_eq_true, decide_eq_true_eq, decide_eq_true_eq] at hc
    rcases hc with (rfl | rfl | rfl | rfl) | rfl
    all_goals decide
  · exact Json.forall_ascii (P := fun u c => (isWsByte c || decide (c = 0x2c)) =
      (Json.isWs u || decide (u = 44))) (by decide)

theorem skipCommas_ws (b : Bytes) : skipCommas (ws b) = skipCommas b := by
  induction b with
  | nil => rfl
  | cons c b ih =>
    by_cases hc : isWsByte c = true
    · have hws : ws (c :: b) = ws b := List.dropWhile_cons_of_pos hc
      have hskip : skipCommas (c :: b) = skipCommas b :=
        List.dropWhile_cons_of_pos (by rw [hc, Bool.true_or])
      rw [hws, hskip, ih]
    · have hws : ws (c :: b) = c :: b := List.dropWhile_cons_of_neg hc
      rw [hws]

section Commas

variable {s t : JsString} {u : UInt16}

theorem skipCommas_skipWs (s : JsString) : skipCommas (utf8 (skipWs s)) = skipCommas (utf8 s) := by
  rw [← Json.ws_utf8, skipCommas_ws]

theorem skipCommas_at (h : skipWs s = u :: t) (hu : u ≠ 44) :
    skipCommas (utf8 s) = utf8 (u :: t) := by
  have hws : Json.isWs u = false := by
    have hnot := List.head?_dropWhile_not Json.isWs s
    rw [show s.dropWhile Json.isWs = u :: t from h] at hnot
    exact hnot
  rw [← skipCommas_skipWs, h, skipCommas_utf8, List.dropWhile_cons_of_neg]
  rw [hws, Bool.false_or, decide_eq_true_eq]
  exact hu

theorem skipCommas_comma (h : skipWs s = 44 :: t) : skipCommas (utf8 s) = skipCommas (utf8 t) := by
  rw [← skipCommas_skipWs, h, utf8_cons_ascii (by decide)]
  exact List.dropWhile_cons_of_pos (by decide)

end Commas

section Rows

variable {rt : Runtime} {s t rest : JsString} {rb : Bytes}

/-- **A cell is scanned** as it is read. -/
theorem rawCell_text (hwf : isWellFormed s) {c : Option JsString} (h : Reads s (cellAst c) rest) :
    rawCell rt rb (utf8 s) = (pushText rb c).map fun rb => (rb, utf8 rest) := by
  cases c with
  | none =>
    have hs := h.null
    have hskip : skipCommas (utf8 s) = 0x6e :: ([0x75, 0x6c, 0x6c] ++ utf8 rest) := by
      rw [skipCommas_at hs (by decide)]
      exact @utf8_append_ascii (ascii "null") (forall_of_all (by decide)) rest
    unfold rawCell
    rw [hskip]
    rfl
  | some v =>
    obtain ⟨t, hs, hchars⟩ := h.string
    have hscan := scanString_text (wellFormed_behind hs (by decide) hwf) hchars
    have hhead : (utf8 (34 :: t)).head? = some 34 := by
      rw [utf8_cons_ascii (by decide)]
      rfl
    unfold rawCell
    rw [skipCommas_at hs (by decide)]
    dsimp only
    rw [hhead, if_neg (by decide), hscan.left, hscan.value rt]
    cases hescaped : (scanString (utf8 (34 :: t))).1 with
    | true =>
      rw [if_pos rfl]
      show (pushText rb (some v) >>= _) = _
      cases pushText rb (some v)
      all_goals rfl
    | false =>
      have hbytes := hscan.plain hescaped
      have hne : utf8 (34 :: t) ≠ [] := by
        rw [hbytes]
        exact List.cons_ne_nil _ _
      have hlen : ((utf8 (34 :: t)).length : Int) - (utf8 rest).length - 2 = (utf8 v).length := by
        rw [hbytes]
        simp only [List.length_cons, List.length_append]
        omega
      have hslice : ((utf8 (34 :: t)).drop 1).take (utf8 v).length = utf8 v := by
        rw [hbytes]
        exact List.take_left
      rw [if_neg Bool.false_ne_true, if_neg hne, hlen, Int.toNat_natCast, hslice]
      show (pushText rb (some v) >>= _) = _
      cases pushText rb (some v)
      all_goals rfl

theorem rawCell_commas {b b' : Bytes} (h : skipCommas b = skipCommas b') :
    rawCell rt rb b = rawCell rt rb b' := by
  unfold rawCell
  rw [h]

theorem rawCells_commas {n : Nat} {b b' : Bytes} (hn : n ≠ 0) (h : skipCommas b = skipCommas b') :
    rawCells rt n rb b = rawCells rt n rb b' := by
  obtain ⟨n, rfl⟩ := Nat.exists_eq_succ_of_ne_zero hn
  show rawCell rt rb b >>= _ = rawCell rt rb b' >>= _
  rw [rawCell_commas h]

theorem ItemsForm.ne_nil {vs : List Ast} (h : ReadsItems s vs rest) : vs ≠ [] := by
  cases h.form
  all_goals exact List.cons_ne_nil _ _

/-- The cells of a row are scanned up to its bracket. -/
theorem rawCells_text (rt : Runtime) : ∀ {row : List (Option JsString)} {s rest : JsString}
    (rb : Bytes),
    ReadsItems s (row.map cellAst) rest → isWellFormed s → ∃ r, skipWs r = 93 :: rest ∧
      isWellFormed r ∧ rawCells rt row.length rb (utf8 s) =
        (pushTexts row.length rb row).map fun rb => (rb, utf8 r) := by
  intro row
  induction row with
  | nil => exact fun _ h => absurd rfl (ItemsForm.ne_nil h)
  | cons c row ih =>
    intro s rest rb h hwf
    have hstep : ∀ r, Reads s (cellAst c) r → rawCells rt (row.length + 1) rb (utf8 s) =
        pushText rb c >>= fun rb => rawCells rt row.length rb (utf8 r) := by
      intro r hcell
      show rawCell rt rb (utf8 s) >>= _ = _
      rw [rawCell_text hwf hcell]
      cases pushText rb c
      all_goals rfl
    have hpush : pushTexts (row.length + 1) rb (c :: row) =
        pushText rb c >>= fun rb => pushTexts row.length rb row := by
      cases c
      all_goals rfl
    rw [List.length_cons, hpush]
    generalize hvs : List.map cellAst (c :: row) = vs at h
    cases h.form with
    | last hcell hr =>
      obtain ⟨rfl, hrow⟩ := List.cons.inj hvs
      rw [hstep _ hcell, List.map_eq_nil_iff.mp hrow]
      refine ⟨_, hr, reads_wellFormed hcell hwf, ?_⟩
      cases pushText rb c
      all_goals rfl
    | @cons r _ _ _ _ hcell hr hrow =>
      obtain ⟨rfl, rfl⟩ := List.cons.inj hvs
      have hr' := reads_wellFormed hcell hwf
      have hlen : row.length ≠ 0 := fun h => ItemsForm.ne_nil hrow (by
        rw [List.length_eq_zero_iff.mp h]
        rfl)
      rw [hstep _ hcell]
      cases pushText rb c with
      | error e =>
        obtain ⟨r, hr, hwf, -⟩ := ih [] hrow (wellFormed_behind hr (by decide) hr')
        exact ⟨r, hr, hwf, rfl⟩
      | ok rb =>
        obtain ⟨r', hclose, hwf, h⟩ := ih rb hrow (wellFormed_behind hr (by decide) hr')
        refine ⟨r', hclose, hwf, ?_⟩
        show rawCells rt row.length rb (utf8 r) = _
        rw [rawCells_commas hlen (skipCommas_comma hr)]
        exact h

/-- **A row is scanned** as it is read. -/
theorem rawRow_text (rt : Runtime) {row : List (Option JsString)} (hwf : isWellFormed s)
    (h : Reads s (rowAst row) rest) : ∃ t, skipWs s = 91 :: t ∧
      rawRow rt row.length (utf8 t) =
        (pushTexts row.length [] row).map fun rb => (rb, utf8 rest) := by
  obtain ⟨t, hs, hform⟩ := h.array
  have ht := wellFormed_behind hs (by decide) hwf
  refine ⟨t, hs, ?_⟩
  have hend : ∀ {r}, skipWs r = 93 :: rest →
      (if (ws (utf8 r)).head? = some 0x5d then (ws (utf8 r)).drop 1 else ws (utf8 r)) =
        utf8 rest := by
    intro r hr
    rw [Json.ws_utf8, hr, utf8_cons_ascii (by decide)]
    rfl
  rcases hform with ⟨hnil, hclose⟩ | hitems
  · rw [List.map_eq_nil_iff.mp hnil]
    show Except.ok (([] : Bytes), if (ws (utf8 t)).head? = some 0x5d then _ else _) = _
    rw [hend hclose]
    rfl
  · obtain ⟨r, hr, -, hcells⟩ := rawCells_text rt [] hitems
      (Json.wellFormed_skipWs ht)
    have hlen : row.length ≠ 0 := fun h => ItemsForm.ne_nil hitems (by
      rw [List.length_eq_zero_iff.mp h]
      rfl)
    unfold rawRow
    rw [rawCells_commas hlen (skipCommas_skipWs t).symm, hcells]
    cases pushTexts row.length [] row with
    | error e => rfl
    | ok rb =>
      show Except.ok (rb, if (ws (utf8 r)).head? = some 0x5d then _ else _) = _
      rw [hend hr]
      rfl

/-! ### All rows -/

variable {α : Type} {p : Plan α}

theorem rawRows_commas {b b' : Bytes} (h : skipCommas b = skipCommas b') (fuel : Nat) :
    rawRows rt p fuel b = rawRows rt p fuel b' := by
  cases fuel with
  | zero => rfl
  | succ fuel =>
    unfold rawRows
    rw [h]

theorem rawRows_bracket (h : skipWs s = 93 :: rest) (fuel : Nat) :
    rawRows rt p (fuel + 1) (utf8 s) = some (.ok ([], utf8 rest)) := by
  have hskip : skipCommas (utf8 s) = 93 :: utf8 rest := by
    rw [skipCommas_at h (by decide), utf8_cons_ascii (by decide)]
    rfl
  unfold rawRows
  rw [hskip]
  rfl

theorem rawRows_row {row : List (Option JsString)} (hrow : row.length = p.columns.length)
    (hwf : isWellFormed s) {r : JsString} (h : Reads s (rowAst row) r) (fuel : Nat) :
    rawRows rt p (fuel + 1) (utf8 s) =
      match parsedRow p row with
      | .error e => some (.error e)
      | .ok x => (rawRows rt p fuel (utf8 r)).map fun r => r.map fun (xs, b) => (x :: xs, b) := by
  obtain ⟨t, hs, hraw⟩ := rawRow_text rt hwf h
  have hskip : skipCommas (utf8 s) = 91 :: utf8 t := by
    rw [skipCommas_at hs (by decide), utf8_cons_ascii (by decide)]
    rfl
  have hopen : ¬(skipCommas (utf8 s)).head? = some 0x5d := by
    rw [hskip]
    exact of_decide_eq_false rfl
  unfold parsedRow
  rw [rawRows_succ hopen, hskip, ← hrow, show (91 :: utf8 t).drop 1 = utf8 t from rfl, hraw]
  cases pushTexts row.length [] row with
  | error e => rfl
  | ok rb => rfl

/-- **Rows are scanned** as they are read, up to the bracket behind them. -/
theorem rawRows_text : ∀ {rows : List (List (Option JsString))} {s rest : JsString},
    (∀ row ∈ rows, row.length = p.columns.length) → isWellFormed s →
    ReadsItems s (rows.map rowAst) rest → ∃ fuel, rawRows rt p fuel (utf8 s) =
      some ((parsedRows p rows).map fun xs => (xs, utf8 rest)) := by
  intro rows
  induction rows with
  | nil => exact fun _ _ h => absurd rfl (ItemsForm.ne_nil h)
  | cons row rows ih =>
    intro s rest hlen hwf h
    have hrow := hlen row List.mem_cons_self
    have hrows : ∀ row ∈ rows, row.length = p.columns.length :=
      fun row h => hlen row (List.mem_cons_of_mem _ h)
    have hparsed : parsedRows p (row :: rows) =
        parsedRow p row >>= fun x => (parsedRows p rows).map (x :: ·) := by
      show parsedRow p row >>= _ = _
      refine congrArg _ (funext fun x => ?_)
      cases parsedRows p rows
      all_goals rfl
    rw [hparsed]
    generalize hvs : List.map rowAst (row :: rows) = vs at h
    cases h.form with
    | last hread hr =>
      obtain ⟨rfl, hnil⟩ := List.cons.inj hvs
      refine ⟨2, ?_⟩
      rw [rawRows_row hrow hwf hread, rawRows_bracket hr, List.map_eq_nil_iff.mp hnil]
      cases parsedRow p row
      all_goals rfl
    | @cons r _ _ _ _ hread hr hitems =>
      obtain ⟨rfl, rfl⟩ := List.cons.inj hvs
      have hwf' := wellFormed_behind hr (by decide) (reads_wellFormed hread hwf)
      obtain ⟨fuel, hfuel⟩ := ih hrows hwf' hitems
      refine ⟨fuel + 1, ?_⟩
      rw [rawRows_row hrow hwf hread, rawRows_commas (skipCommas_comma hr), hfuel]
      cases parsedRow p row with
      | error e => rfl
      | ok x =>
        cases parsedRows p rows
        all_goals rfl

/-- The array of the rows is scanned behind its first bracket. -/
theorem rowsArray_text {rows : List (List (Option JsString))}
    (hlen : ∀ row ∈ rows, row.length = p.columns.length) (hwf : isWellFormed s)
    (h : Reads s (.array (rows.map rowAst)) rest) : ∃ fuel,
      rawRows rt p fuel ((ws (utf8 s)).drop 1) =
        some ((parsedRows p rows).map fun xs => (xs, utf8 rest)) := by
  obtain ⟨t, hs, hform⟩ := h.array
  have hdrop : (ws (utf8 s)).drop 1 = utf8 t := by
    rw [Json.ws_utf8, hs, utf8_cons_ascii (by decide)]
    rfl
  rw [hdrop]
  rcases hform with ⟨hnil, hclose⟩ | hitems
  · refine ⟨1, ?_⟩
    rw [rawRows_bracket hclose, List.map_eq_nil_iff.mp hnil]
    rfl
  · have hwf' := Json.wellFormed_skipWs (wellFormed_behind hs (by decide) hwf)
    obtain ⟨fuel, hfuel⟩ := rawRows_text hlen hwf' hitems
    refine ⟨fuel, ?_⟩
    rw [rawRows_commas (skipCommas_skipWs t).symm, hfuel]

end Rows

/-! ### Values -/

section Values

variable {rt : Runtime}

theorem valueItems_map (vs : List Ast) : valueItems (number rt) (recordItems vs) =
    vs.map fun v => v.record.value (number rt) := by
  induction vs with
  | nil => rfl
  | cons v vs ih => exact congrArg _ ih

theorem array_of_value {a : Ast} {ts : List Tree} (h : a.record.value (number rt) = .array ts) :
    ∃ vs, a = .array vs ∧ vs.map (fun v => v.record.value (number rt)) = ts := by
  cases a with
  | array vs =>
    refine ⟨vs, rfl, ?_⟩
    rw [← valueItems_map]
    exact Tree.array.inj h
  | _ => cases h

theorem cell_of_value {a : Ast} {c : Option JsString}
    (h : a.record.value (number rt) = cellTree c) : a = cellAst c := by
  cases c with
  | none =>
    cases a with
    | null => rfl
    | _ => cases h
  | some s =>
    cases a with
    | string t =>
      cases h
      rfl
    | _ => cases h

/-- Each item is what it is the value of. -/
theorem map_of_values {β : Type} {f : β → Tree} {g : β → Ast}
    (hone : ∀ {a : Ast} {x : β}, a.record.value (number rt) = f x → a = g x) :
    ∀ {vs : List Ast} {xs : List β}, vs.map (fun v => v.record.value (number rt)) = xs.map f →
      vs = xs.map g
  | [], [], _ => rfl
  | [], _ :: _, h => by cases h
  | _ :: _, [], h => by cases h
  | _ :: vs, _ :: xs, h => by
    obtain ⟨hv, hvs⟩ := List.cons.inj h
    rw [hone hv, map_of_values hone hvs]
    rfl

theorem row_of_value {a : Ast} {row : List (Option JsString)}
    (h : a.record.value (number rt) = rowTree row) : a = rowAst row := by
  obtain ⟨vs, rfl, hvs⟩ := array_of_value h
  rw [map_of_values cell_of_value hvs]
  rfl

theorem rows_of_value {a : Ast} {rows : List (List (Option JsString))}
    (h : a.record.value (number rt) = .array (rows.map rowTree)) :
    a = .array (rows.map rowAst) := by
  obtain ⟨vs, rfl, hvs⟩ := array_of_value h
  rw [map_of_values row_of_value hvs]

end Values

/-! ### Members -/

section Members

variable {k : JsString} {v : Ast} {o ms : List (JsString × Ast)}

theorem mem_put {k' : JsString} {v' : Ast} : ∀ {o : List (JsString × Ast)},
    (k, v) ∈ Json.put k' v' o → (k, v) = (k', v') ∨ (k, v) ∈ o
  | [], h => .inl (List.mem_singleton.mp h)
  | p :: o, h => by
    unfold Json.put at h
    split at h
    · rcases List.mem_cons.mp h with h | h
      · exact .inl h
      · exact .inr (List.mem_cons_of_mem _ h)
    · rcases List.mem_cons.mp h with h | h
      · exact .inr (h ▸ List.mem_cons_self)
      · exact (mem_put h).imp_right (List.mem_cons_of_mem _)

theorem mem_recordMembers : ∀ {ms o : List (JsString × Ast)}, (k, v) ∈ recordMembers o ms →
    (k, v) ∈ o ∨ ∃ v', (k, v') ∈ ms ∧ v = v'.record
  | [], _, h => .inl h
  | (k', v') :: ms, o, h => by
    rcases @mem_recordMembers ms _ h with h | ⟨v'', hmem, hv⟩
    · rcases mem_put h with h | h
      · cases h
        exact .inr ⟨v', List.mem_cons_self, rfl⟩
      · exact .inl h
    · exact .inr ⟨v'', List.mem_cons_of_mem _ hmem, hv⟩

theorem mem_of_lookup {num : JsString → Tree} {x : Tree} : ∀ {o : List (JsString × Ast)},
    (valueMembers num o).lookup k = some x → ∃ v, (k, v) ∈ o ∧ v.value num = x
  | [], h => by cases h
  | (k', v') :: o, h => by
    have h : (if k == k' then some (v'.value num) else (valueMembers num o).lookup k) = some x := by
      rw [← h]
      show _ = ((k', v'.value num) :: valueMembers num o).lookup k
      rw [List.lookup_cons]
      cases k == k'
      all_goals rfl
    split at h
    · rename_i hk
      cases h
      exact ⟨v', eq_of_beq hk ▸ List.mem_cons_self, rfl⟩
    · obtain ⟨v, hmem, hv⟩ := mem_of_lookup h
      exact ⟨v, List.mem_cons_of_mem _ hmem, hv⟩

/-- A property is the value of a member. -/
theorem member_of_lookup {num : JsString → Tree} {x : Tree}
    (h : (valueMembers num (recordMembers [] ms)).lookup k = some x) :
    ∃ v, (k, v) ∈ ms ∧ v.record.value num = x := by
  obtain ⟨v, hmem, hv⟩ := mem_of_lookup h
  rcases mem_recordMembers hmem with h | ⟨v', hmem', rfl⟩
  · cases h
  · exact ⟨v', hmem', hv⟩

theorem pairs_cases {p : JsString × Ast} : ∀ {ms : List (JsString × Ast)},
    p ∈ Json.pairsMembers ms → p ∈ ms ∨ ∃ m ∈ ms, p ∈ m.2.pairs
  | [], h => by cases h
  | m :: ms, h => by
    rcases List.mem_cons.mp h with rfl | h
    · exact .inl List.mem_cons_self
    rcases List.mem_append.mp h with h | h
    · exact .inr ⟨m, List.mem_cons_self, h⟩
    · rcases pairs_cases h with h | ⟨m', hmem, h⟩
      · exact .inl (List.mem_cons_of_mem _ h)
      · exact .inr ⟨m', List.mem_cons_of_mem _ hmem, h⟩

end Members

/-! ### Responses -/

def fieldsName : JsString := ascii "fields"

def rowsName : JsString := ascii "rows"

/-- The response of one statement: its `fields` and `rows` are the only members, also of the objects
in it, that are called so, and the text `"rows":` is behind `"fields":`. -/
structure Response (rt : Runtime) (s : JsString) (ms : List (JsString × Ast)) (r : ParsedResult) :
    Prop where
  wellFormed : isWellFormed s
  text : parseText s = some (.object ms)
  result : IsResult (valueMembers (number rt) (recordMembers [] ms)) r
  single : ∀ w ∈ [fieldsName, rowsName], (ms.filter fun m => EndsAs w m.1).length = 1
  nested : ∀ w ∈ [fieldsName, rowsName], ∀ m ∈ ms, ∀ p ∈ m.2.pairs, ¬EndsAs w p.1
  order : ∃ behind, keyText fieldsName ++ behind <:+ s ∧ ∃ q, keyText rowsName ++ q <:+ behind

section Response

variable {rt : Runtime} {s : JsString} {ms : List (JsString × Ast)} {r : ParsedResult}

theorem keyText_append (w q : JsString) : keyText w ++ q = 34 :: (w ++ 34 :: 58 :: q) := by
  unfold keyText
  simp

/-- A key text is that of the one member of its name. -/
theorem Response.member (h : Response rt s ms r) {w q : JsString} (hw : w ∈ [fieldsName, rowsName])
    (hname : IsName w) {v : Ast} (hv : (w, v) ∈ ms) (hq : keyText w ++ q <:+ s) :
    ∃ rest, Reads q v rest := by
  rw [keyText_append] at hq
  obtain ⟨k, v', rest, hmem, hends, hreads⟩ := Json.found_of_text hname h.text hq
  have htop : (k, v') ∈ ms := by
    rcases pairs_cases hmem with hmem | ⟨m, hm, hmem⟩
    · exact hmem
    · exact absurd hends (h.nested w hw m hm _ hmem)
  obtain ⟨m, hm⟩ := List.length_eq_one_iff.mp (h.single w hw)
  have hone : ∀ p ∈ ms, EndsAs w p.1 → p = m := by
    intro p hp hends
    have hp : p ∈ ms.filter fun m => EndsAs w m.1 :=
      List.mem_filter.mpr ⟨hp, decide_eq_true hends⟩
    rw [hm] at hp
    exact List.mem_singleton.mp hp
  have heq : (k, v') = (w, v) := (hone _ htop hends).trans (hone _ hv (.inl rfl)).symm
  cases heq
  exact ⟨rest, hreads⟩

theorem isName_fields : IsName fieldsName := ⟨by decide, forall_of_all (by decide)⟩

theorem isName_command : IsName (ascii "command") := ⟨by decide, forall_of_all (by decide)⟩

theorem isName_rows : IsName rowsName := ⟨by decide, forall_of_all (by decide)⟩

theorem keyText_ascii {w : JsString} (hw : IsName w) : ∀ u ∈ keyText w, IsAscii u := by
  intro u hu
  unfold keyText at hu
  simp only [List.mem_cons, List.mem_append, List.not_mem_nil, or_false] at hu
  rcases hu with rfl | hu | rfl | rfl
  · decide
  · have hle := (hw.2 u hu).2
    unfold IsAscii
    omega
  all_goals decide

theorem wellFormed_suffix : ∀ (n : Nat) {s q : JsString} {u : UInt16}, s.length ≤ n →
    isWellFormed s → IsAscii u → u :: q <:+ s → isWellFormed q
  | _, [], _, _, _, _, _, h => by cases List.suffix_nil.mp h
  | 0, _ :: _, _, _, hn, _, _, _ => by cases hn
  | n + 1, x :: s, q, u, hn, hwf, hu, h => by
    rw [List.length_cons] at hn
    rcases List.suffix_cons_iff.mp h with heq | h
    · cases heq
      rwa [wellFormed_ascii hu] at hwf
    rcases wellFormed_cons hwf with ⟨-, ht, -⟩ | ⟨v, t, rfl, -, hv, ht, -⟩
    · exact wellFormed_suffix n (by omega) ht hu h
    · rcases List.suffix_cons_iff.mp h with heq | h
      · cases heq
        rw [hu.not_surrogate.2] at hv
        cases hv
      · rw [List.length_cons] at hn
        exact wellFormed_suffix n (by omega) ht hu h

theorem wellFormed_keyText {w q : JsString} (hwf : isWellFormed s) (hq : keyText w ++ q <:+ s) :
    isWellFormed q := by
  refine wellFormed_suffix (u := 58) _ (Nat.le_refl _) hwf (by decide) (List.IsSuffix.trans ?_ hq)
  rw [keyText_append]
  exact ⟨34 :: (w ++ [34]), by simp⟩

/-- What is behind the first key text is found, of the text and of its bytes. -/
theorem after_key {w q : JsString} (hw : IsName w) (hwf : isWellFormed s)
    (hq : keyText w ++ q <:+ s) : ∃ q', keyText w ++ q' <:+ s ∧ isWellFormed q' ∧ q <:+ q' ∧
      after (latin1 (keyText w)) (utf8 s) = some (utf8 q') := by
  have hne : keyText w ≠ [] := List.cons_ne_nil _ _
  obtain ⟨q', hafter, hsuf⟩ := after_of_suffix hne hq
  have hq' := after_suffix hafter
  refine ⟨q', hq', wellFormed_keyText hwf hq', hsuf, ?_⟩
  rw [after_utf8 (keyText_ascii hw) hne _ (Nat.le_refl _) hwf, hafter]
  rfl

theorem suffix_of_keyText {w q : JsString} : q <:+ keyText w ++ q := List.suffix_append _ _

/-- The fields, and what is left behind them. -/
theorem Response.fields (h : Response rt s ms r) : ∃ rest, isWellFormed rest ∧ rest <:+ s ∧
    fieldsOf rt (utf8 s) = some r.fields ∧ endOfValue (fieldsAt (utf8 s)) = utf8 rest ∧
      ∃ q, keyText rowsName ++ q <:+ rest := by
  obtain ⟨v, hmem, hvalue⟩ := member_of_lookup h.result.fields
  obtain ⟨items, hitems⟩ := h.result.isArray
  obtain ⟨vs, rfl, -⟩ := array_of_value (hvalue.trans hitems)
  obtain ⟨behind', hfields, q₁, hrows⟩ := h.order
  obtain ⟨q, hq, hwf, hsuf, hafter⟩ := after_key isName_fields h.wellFormed hfields
  obtain ⟨rest, hreads⟩ := h.member List.mem_cons_self isName_fields hmem hq
  have hat : fieldsAt (utf8 s) = ws (utf8 q) := by
    unfold fieldsAt behind
    rw [show after FKEY (utf8 s) = some (utf8 q) from hafter]
    rfl
  have hend := endOfValue_array hwf hreads
  refine ⟨rest, reads_wellFormed hreads hwf, hreads.1.1.trans (suffix_of_keyText.trans hq), ?_, ?_,
    ?_⟩
  · unfold fieldsOf
    rw [hat, hend, fields_text rt hwf hreads, hvalue]
  · rw [hat, hend]
  · -- the key of the rows is not in the fields
    have hkeyed := ((Json.keyed_rules isName_rows).read q.length).1
      (hreads.2 q.length (Nat.le_add_right _ _))
    rcases Json.suffix_or (hrows.trans hsuf) hreads.1.1 with hlen | hrest
    · rcases hkeyed.2 _ q₁ (hrows.trans hsuf) hlen (keyText_append _ _) with hfound | ⟨⟨_, h'⟩, -⟩
      · obtain ⟨k, v', -, hmem', hends, -⟩ := hfound
        exact absurd hends (h.nested rowsName (by simp) _ hmem _ hmem')
      · cases h'
    · exact ⟨q₁, hrest⟩

theorem strField_ok (rt : Runtime) (h : parseText s = some (.object ms)) {rest : JsString}
    (hwf : isWellFormed rest) (hrest : rest <:+ s) {w : JsString} (hw : IsName w) :
    ∃ x, strField rt (latin1 (keyText w)) (utf8 rest) = .ok x := by
  have hne : keyText w ≠ [] := List.cons_ne_nil _ _
  unfold strField
  rw [after_utf8 (keyText_ascii hw) hne _ (Nat.le_refl _) hwf]
  cases hafter : after (keyText w) rest with
  | none => exact ⟨none, rfl⟩
  | some q =>
    have hq := after_suffix hafter
    have hwf' := wellFormed_keyText hwf hq
    rw [keyText_append] at hq
    obtain ⟨k, v, r', -, -, hreads⟩ := Json.found_of_text hw h (hq.trans hrest)
    show ∃ x, (if (ws (utf8 q)).head? = some 0x22 then
      (scanned rt (ws (utf8 q)) (scanString (ws (utf8 q))).2).map some else .ok none) = .ok x
    rw [Json.ws_utf8]
    split
    · rename_i hquote
      cases hs : skipWs q with
      | nil =>
        rw [hs] at hquote
        cases hquote
      | cons u t =>
        have hu : u = 34 := by
          by_contra hne
          rw [hs] at hquote
          by_cases hascii : IsAscii u
          · have hbyte : byteOf u.toNat ≠ 0x22 :=
              Json.forall_ascii (P := fun u c => u ≠ 34 → c ≠ 0x22) (by decide) u hascii hne
            rw [utf8_cons_ascii hascii] at hquote
            exact hbyte (Option.some.inj hquote)
          · obtain ⟨c, bs, hbytes, hc⟩ := utf8_head_high hascii t
            rw [hbytes] at hquote
            rw [Option.some.inj hquote] at hc
            exact absurd hc (by decide)
        subst hu
        obtain ⟨v, -, hchars⟩ := hreads.of_quote hs
        have hscan := scanString_text (wellFormed_behind hs (by decide) hwf') hchars
        rw [hscan.left, hscan.value rt]
        exact ⟨some v, rfl⟩
    · exact ⟨none, rfl⟩

end Response

section Agreement

variable {rt : Runtime} {s : JsString} {ms : List (JsString × Ast)} {r : ParsedResult}
  {α : Type} {plan : Tree → Except Thrown (Plan α)}

/-- The rows, in as many steps as they take. -/
theorem Response.rows (h : Response rt s ms r) {p : Plan α}
    (hcols : ∀ row ∈ r.rows, row.length = p.columns.length) : ∃ fuel rest,
      isWellFormed rest ∧ rest <:+ s ∧ rawRows rt p fuel (rowsAt (utf8 s)) =
        some ((parsedRows p r.rows).map fun xs => (xs, utf8 rest)) := by
  obtain ⟨rest, hwf, hrest, -, hend, q, hq⟩ := h.fields
  obtain ⟨v, hmem, hvalue⟩ := member_of_lookup h.result.rows
  obtain rfl := rows_of_value hvalue
  obtain ⟨q', hq', hwf', -, hafter⟩ := after_key isName_rows hwf hq
  obtain ⟨rest', hreads⟩ := h.member (List.mem_cons_of_mem _ List.mem_cons_self) isName_rows hmem
    (hq'.trans hrest)
  obtain ⟨fuel, hfuel⟩ := rowsArray_text hcols hwf' hreads
  have hat : rowsAt (utf8 s) = (ws (utf8 q')).drop 1 := by
    unfold rowsAt behind
    rw [hend, show after RKEY (utf8 rest) = some (utf8 q') from hafter]
    rfl
  refine ⟨fuel, rest', reads_wellFormed hreads hwf', ?_, ?_⟩
  · exact hreads.1.1.trans ((suffix_of_keyText.trans hq').trans hrest)
  · rw [hat, hfuel]

theorem decodeSingleRaw_eq (h : fieldsOf rt (utf8 s) = some r.fields) (fuel : Nat) :
    decodeSingleRaw rt plan fuel (utf8 s) =
      match plan r.fields with
      | .error e => some (.error e)
      | .ok p => (rawRows rt p fuel (rowsAt (utf8 s))).map fun r =>
          r.bind fun (rows, b) => rawResult rt p.columns rows b := by
  unfold decodeSingleRaw
  cases hp : plan r.fields with
  | error e => simp only [h, hp]
  | ok p => simp only [h, hp]

theorem Response.agrees (h : Response rt s ms r) (hcols : ∀ p, plan r.fields = .ok p →
    ∀ row ∈ r.rows, row.length = p.columns.length) : ∃ fuel result,
      decodeSingleRaw rt plan fuel (utf8 s) = some result ∧
        result.map QueryResult.rows = (decodeParsed plan r).map QueryResult.rows := by
  obtain ⟨-, -, -, hfields, -, -⟩ := h.fields
  unfold decodeParsed
  cases hplan : plan r.fields with
  | error e =>
    refine ⟨0, .error e, ?_, rfl⟩
    rw [decodeSingleRaw_eq hfields, hplan]
  | ok p =>
    obtain ⟨fuel, rest, hwf, hrest, hrows⟩ := h.rows (hcols p hplan)
    refine ⟨fuel, (parsedRows p r.rows).bind fun xs => rawResult rt p.columns xs (utf8 rest),
      ?_, ?_⟩
    · rw [decodeSingleRaw_eq hfields, hplan]
      dsimp only
      rw [hrows]
      cases parsedRows p r.rows
      all_goals rfl
    · show _ = Except.map QueryResult.rows (parsedRows p r.rows >>= fun rows => _)
      cases parsedRows p r.rows with
      | error e => rfl
      | ok xs =>
        obtain ⟨x, hx⟩ := strField_ok rt h.text hwf hrest isName_command
        show Except.map _ (rawResult rt p.columns xs (utf8 rest)) = _
        unfold rawResult
        rw [hx]
        rfl

/-- **The scan and the parse agree** on every response whose rows have as many cells as there are
columns; and the scan ends on every buffer, except where there are no columns and the rows do not
close. -/
theorem decodeSingleRaw_agrees (h : Response rt s ms r) (hcols : ∀ p, plan r.fields = .ok p →
    ∀ row ∈ r.rows, row.length = p.columns.length) :
    (∃ fuel result, decodeSingleRaw rt plan fuel (utf8 s) = some result ∧
      result.map QueryResult.rows = (decodeParsed plan r).map QueryResult.rows) ∧
    ∀ raw, Terminates rt plan raw ↔
      ∀ fields p row, fieldsOf rt raw = some fields → plan fields = .ok p → p.columns = [] →
        p.rowFrom [0, 0] = .ok row → Closes (rowsAt raw) :=
  ⟨h.agrees hcols, fun _ => terminates_iff⟩

end Agreement

/-! ### A response of two columns -/

theorem chars_of_name {w : JsString} (hw : ∀ u ∈ w, 97 ≤ u.toNat ∧ u.toNat ≤ 122)
    (rest : JsString) : Chars (w ++ 34 :: rest) w rest := by
  induction w with
  | nil => exact .quote rest
  | cons u w ih =>
    have hu := hw u List.mem_cons_self
    refine .plain ?_ ?_ ?_ (ih fun x hx => hw x (List.mem_cons_of_mem u hx))
    · rintro rfl
      exact absurd hu (by decide)
    · rintro rfl
      exact absurd hu (by decide)
    · intro hlt
      have h32 : u.toNat < 32 := hlt
      omega

section Pair

variable {v w rest s t : JsString} {a b : Ast}

theorem reads_name (hw : IsName w) : Reads (34 :: (w ++ 34 :: rest)) (.string w) rest :=
  fuel_rules.string rfl (Json.parseChars_iff.mpr (chars_of_name hw.2 rest))

/-- Two values in brackets. -/
theorem reads_pair (hs : skipWs s = s) (hne : s.head? ≠ some 93)
    (ha : Reads s a (44 :: t)) (hb : Reads t b (93 :: rest)) :
    Reads (91 :: s) (.array [a, b]) rest := by
  refine fuel_rules.array rfl ?_ ?_
  · rwa [hs]
  · rw [hs]
    exact fuel_rules.item ha rfl (fuel_rules.lastItem hb rfl)

theorem reads_field (hw : IsName w) :
    Reads (123 :: 34 :: (ascii "name" ++ 34 :: 58 :: 34 :: (w ++ 34 :: 125 :: rest)))
      (.object [(ascii "name", .string w)]) rest := by
  have hname : IsName (ascii "name") := ⟨by decide, forall_of_all (by decide)⟩
  have hkey := Json.parseChars_iff.mpr
    (chars_of_name hname.2 (58 :: 34 :: (w ++ 34 :: 125 :: rest)))
  have hhead : (skipWs (34 :: (ascii "name" ++ 34 :: 58 :: 34 :: (w ++ 34 :: 125 :: rest)))).head? ≠
      some 125 := fun h => absurd (Option.some.inj h) (by decide)
  exact fuel_rules.object rfl hhead (fuel_rules.lastMember rfl hkey rfl (reads_name hw) rfl)

end Pair

/-- The text of a row of two cells, and the end of the response. -/
def pairRows : JsString :=
  91 :: 91 :: 34 :: (ascii "a" ++ 34 :: 44 :: 34 :: (ascii "b" ++ 34 :: 93 :: 93 :: [125]))

/-- The text of two fields. -/
def pairFields (rest : JsString) : JsString :=
  91 :: 123 :: 34 :: (ascii "name" ++ 34 :: 58 :: 34 :: (ascii "x" ++ 34 :: 125 :: 44 ::
    123 :: 34 :: (ascii "name" ++ 34 :: 58 :: 34 :: (ascii "y" ++ 34 :: 125 :: 93 :: rest))))

/-- The columns `x` and `y`, and one row. -/
def pairText : JsString :=
  123 :: 34 :: (fieldsName ++ 34 :: 58 ::
    pairFields (44 :: 34 :: (rowsName ++ 34 :: 58 :: pairRows)))

def pairMembers : List (JsString × Ast) :=
  [(fieldsName, .array [.object [(ascii "name", .string (ascii "x"))],
      .object [(ascii "name", .string (ascii "y"))]]),
    (rowsName, .array [rowAst [some (ascii "a"), some (ascii "b")]])]

def pairResult : ParsedResult where
  fields := .array [.object [(ascii "name", .string (ascii "x"))],
    .object [(ascii "name", .string (ascii "y"))]]
  rows := [[some (ascii "a"), some (ascii "b")]]
  command := none
  rowCount := none

theorem isName_letter {u : UInt16} (hu : 97 ≤ u.toNat ∧ u.toNat ≤ 122) : IsName [u] := by
  refine ⟨List.cons_ne_nil _ _, fun v hv => ?_⟩
  rw [List.mem_singleton.mp hv]
  exact hu

theorem pairFields_read (rest : JsString) : Reads (pairFields rest) (.array [.object [(ascii "name",
    .string (ascii "x"))], .object [(ascii "name", .string (ascii "y"))]]) rest := by
  refine reads_pair rfl (fun h => ?_) (reads_field (isName_letter (u := 120) (by decide)))
    (reads_field (isName_letter (u := 121) (by decide)))
  exact absurd (Option.some.inj h) (by decide)

theorem pairText_parses : parseText pairText = some (.object pairMembers) := by
  have hrow : Reads _ (rowAst [some (ascii "a"), some (ascii "b")]) (93 :: [125]) :=
    reads_pair (s := 34 :: (ascii "a" ++ 34 :: 44 :: 34 :: (ascii "b" ++ 34 :: 93 :: 93 :: [125])))
      rfl (by decide) (reads_name (isName_letter (u := 97) (by decide)))
      (reads_name (isName_letter (u := 98) (by decide)))
  have hrows : Reads pairRows (.array [rowAst [some (ascii "a"), some (ascii "b")]]) [125] :=
    fuel_rules.array rfl (by decide) (fuel_rules.lastItem hrow rfl)
  have hkey : ∀ {w : JsString} (q : JsString), IsName w →
      Json.parseChars (w ++ 34 :: 58 :: q) = some (w, 58 :: q) :=
    fun q hw => Json.parseChars_iff.mpr (chars_of_name hw.2 (58 :: q))
  have hskip : ∀ q, skipWs (pairFields q) = pairFields q := fun _ => rfl
  have hmembers := fuel_rules.member (s := 34 :: (fieldsName ++ 34 :: 58 ::
      pairFields (44 :: 34 :: (rowsName ++ 34 :: 58 :: pairRows)))) rfl (hkey _ isName_fields) rfl
    (pairFields_read _) rfl (fuel_rules.lastMember rfl (hkey _ isName_rows) rfl hrows rfl)
  have hobject := fuel_rules.object (s := pairText) rfl
    (fun h => absurd (Option.some.inj h) (by decide)) hmembers
  exact parseText_of_value (hobject.2 pairText.length (Nat.le_refl _)) rfl

theorem pairResponse (rt : Runtime) : Response rt pairText pairMembers pairResult where
  wellFormed := by decide
  text := pairText_parses
  result := ⟨rfl, ⟨_, rfl⟩, rfl, rfl, rfl⟩
  single := by decide
  nested := by decide
  order := ⟨_, ⟨[123], by rw [keyText_append]; rfl⟩, pairRows, by decide⟩

/-- `mode: 'raw'`, with the columns of a shape. -/
def rawMode (columns : List JsString) (_ : Tree) : Except Thrown (Plan Bytes) :=
  .ok ⟨columns, .ok⟩

open Plans (hexOnly)

theorem pairText_agrees : Response hexOnly.env.rt pairText pairMembers pairResult ∧
    (∃ fuel result, decodeSingleRaw hexOnly.env.rt (rawMode [ascii "x", ascii "y"]) fuel
        (utf8 pairText) = some result ∧ result.map QueryResult.rows =
      (decodeParsed (rawMode [ascii "x", ascii "y"]) pairResult).map QueryResult.rows) := by
  have hcols : ∀ p, rawMode [ascii "x", ascii "y"] pairResult.fields = .ok p →
      ∀ row ∈ pairResult.rows, row.length = p.columns.length := by
    intro p hp row hrow
    cases hp
    rw [List.mem_singleton.mp hrow]
    rfl
  have hall := decodeSingleRaw_agrees (pairResponse hexOnly.env.rt) hcols
  exact ⟨pairResponse hexOnly.env.rt, hall.1⟩

/-- `{"fields":[],"rows":[`, cut off. -/
def cutText : JsString :=
  123 :: 34 :: (fieldsName ++ 34 :: 58 :: 91 :: 93 :: 44 :: 34 :: (rowsName ++ [34, 58, 91]))

theorem cutText_scanned (rt : Runtime) :
    fieldsOf rt (utf8 cutText) = some (.array []) ∧ rowsAt (utf8 cutText) = [] := by
  have hread : Reads (91 :: 93 :: 44 :: 34 :: (rowsName ++ [34, 58, 91])) (.array [])
      (44 :: 34 :: (rowsName ++ [34, 58, 91])) := fuel_rules.emptyArray rfl rfl
  have hat : fieldsAt (utf8 cutText) =
      ws (utf8 (91 :: 93 :: 44 :: 34 :: (rowsName ++ [34, 58, 91]))) := by decide
  have hend := endOfValue_array (by decide) hread
  constructor
  · unfold fieldsOf
    rw [hat, hend, fields_text rt (by decide) hread]
    rfl
  · unfold rowsAt
    rw [hat, hend]
    decide

theorem pairText_rows : rowsAt (utf8 pairText) = (utf8 pairRows).drop 1 := by
  have hat : fieldsAt (utf8 pairText) =
      ws (utf8 (pairFields (44 :: 34 :: (rowsName ++ 34 :: 58 :: pairRows)))) := by decide
  have hend := endOfValue_array (by decide)
    (pairFields_read (44 :: 34 :: (rowsName ++ 34 :: 58 :: pairRows)))
  unfold rowsAt
  rw [hat, hend]
  decide

/-- A shape of one column reads the second cell as a row of its own. -/
theorem pairText_misread (rt : Runtime) : ∀ fuel rows b,
    rawRows rt ⟨[ascii "x"], .ok⟩ fuel ((utf8 pairRows).drop 1) = some (.ok (rows, b)) →
      rows.length = 2
  | 0, _, _, h => by cases h
  | 1, _, _, h => by cases h
  | 2, _, _, h => by cases h
  | fuel + 3, rows, b, h => by
    have hrows : rawRows rt ⟨[ascii "x"], .ok⟩ (fuel + 3) ((utf8 pairRows).drop 1) =
        some (.ok ([[0, 1, 0, 0, 0, 1, 97], [0, 1, 0, 0, 0, 0]], [125])) := rfl
    rw [hrows] at h
    cases h
    rfl

/-- The scan of a response that is cut off goes on for ever, and that of a response with a shape of
fewer columns returns other rows. -/
theorem cutText_differs : ¬Terminates hexOnly.env.rt (rawMode []) (utf8 cutText) ∧
    Response hexOnly.env.rt pairText pairMembers pairResult ∧
    ¬∃ fuel result, decodeSingleRaw hexOnly.env.rt (rawMode [ascii "x"]) fuel (utf8 pairText) =
      some result ∧ result.map QueryResult.rows =
        (decodeParsed (rawMode [ascii "x"]) pairResult).map QueryResult.rows := by
  refine ⟨fun h => ?_, pairResponse _, ?_⟩
  · obtain ⟨hfields, hrows⟩ := cutText_scanned hexOnly.env.rt
    have hcloses := terminates_iff.mp h _ _ _ hfields rfl rfl rfl
    rw [hrows] at hcloses
    exact not_closes_nil hcloses
  · rintro ⟨fuel, result, hresult, hrows⟩
    have hparsed : (decodeParsed (rawMode [ascii "x"]) pairResult).map QueryResult.rows =
        .ok [[0, 1, 0, 0, 0, 1, 97]] := rfl
    obtain ⟨-, -, -, hfields, -, -⟩ := (pairResponse hexOnly.env.rt).fields
    unfold decodeSingleRaw at hresult
    rw [hfields] at hresult
    obtain ⟨r, hraw, rfl⟩ := Option.map_eq_some_iff.mp hresult
    rw [hparsed] at hrows
    rw [pairText_rows] at hraw
    cases r with
    | error e => cases hrows
    | ok r =>
      obtain ⟨rows, b⟩ := r
      have htwo := pairText_misread _ fuel rows b hraw
      have hrows : (rawResult hexOnly.env.rt [ascii "x"] rows b).map QueryResult.rows =
          .ok [[0, 1, 0, 0, 0, 1, 97]] := hrows
      unfold rawResult at hrows
      cases hfield : strField hexOnly.env.rt (latin1 (keyText (ascii "command"))) b with
      | error e =>
        rw [hfield] at hrows
        cases hrows
      | ok x =>
        rw [hfield] at hrows
        cases hrows
        cases htwo

end Minipg.Neon
