import Minipg.Decode.Agreement
import Minipg.Decode.Dispatch
import Minipg.Decode.Transports

/-!
# The same rows over every transport

A result decodes to the same rows wherever the binary decoder of a requested column gives what is
decoded from its text (`rows_same`), and only there (`rows_forced`).  For a plain query this is left
to the types without an override.  The columns of a shape are requested as binary without a look at
`config.types`, so what is needed there is a condition on the overrides: `entries_agree_iff`.
-/

namespace Minipg.Plans

open Js Cells

variable {J : Type} {cfg : PlanConfig} {dec : Decoding J} {oids : List Int}

/-! ### The same rows -/

section Same

variable {α β γ ε δ : Type}

/-- The same value, or both throw. -/
def Same (x : Except ε α) (y : Except δ α) : Prop := ∀ v, x = .ok v ↔ y = .ok v

theorem Same.refl (x : Except ε α) : Same x x := fun _ => Iff.rfl

theorem Same.bind {x : Except ε α} {y : Except ε α} {f g : α → Except ε β} (h : Same x y)
    (hf : ∀ a, Same (f a) (g a)) : Same (x >>= f) (y >>= g) := by
  cases x with
  | error e =>
    cases y with
    | error e' => exact fun v => ⟨nofun, nofun⟩
    | ok a => cases (h a).mpr rfl
  | ok a =>
    rw [(h a).mp rfl]
    exact hf a

theorem Same.mapError {x y : Except ε α} (f : ε → δ) (h : Same x y) :
    Same (x.mapError f) (y.mapError f) := by
  cases x with
  | error e =>
    cases y with
    | error e' => exact fun v => ⟨nofun, nofun⟩
    | ok a => cases (h a).mpr rfl
  | ok a =>
    rw [(h a).mp rfl]
    exact .refl _

theorem Same.of_mapError {x y : Except ε α} {f : ε → δ} (h : Same (x.mapError f) (y.mapError f)) :
    Same x y := by
  intro v
  have hmap : ∀ z : Except ε α, z.mapError f = .ok v ↔ z = .ok v := by
    intro z
    cases z <;> simp [Except.mapError]
  rw [← hmap, ← hmap]
  exact h v

theorem collect_same {f g : α → Except ε β} : ∀ {l : List α}, (∀ a ∈ l, Same (f a) (g a)) →
    Same (collect f l) (collect g l)
  | [], _ => .refl _
  | a :: _, h =>
    (h a List.mem_cons_self).bind fun _ =>
      (collect_same fun b hb => h b (List.mem_cons_of_mem a hb)).bind fun _ => .refl _

theorem collect_append (f : α → Except ε β) : ∀ l m : List α, collect f (l ++ m) =
    collect f l >>= fun bs => collect f m >>= fun cs => pure (bs ++ cs)
  | [], m => by
    show collect f m = collect f m >>= fun cs => pure cs
    cases collect f m <;> rfl
  | a :: l, m => by
    show (f a >>= fun b => collect f (l ++ m) >>= fun bs => pure (b :: bs)) = _
    rw [collect_append f l m]
    cases ha : f a with
    | error e => simp only [collect, ha, bind, Except.bind]
    | ok b =>
      cases hl : collect f l with
      | error e => simp only [collect, ha, hl, bind, Except.bind]
      | ok bs =>
        cases hm : collect f m <;>
          simp [collect, ha, hl, bind, Except.bind, pure, Except.pure]

theorem collect_const {f : α → Except ε β} {b : β} : ∀ {l : List α}, (∀ a ∈ l, f a = .ok b) →
    collect f l = .ok (List.replicate l.length b)
  | [], _ => rfl
  | a :: l, h => by
    have ih := collect_const fun a' ha' => h a' (List.mem_cons_of_mem a ha')
    simp only [collect, h a List.mem_cons_self, ih, bind, Except.bind, pure, Except.pure]
    rfl

/-- A list with one element that is not known to be collected as `b`. -/
theorem collect_single {f : α → Except ε β} {b : β} {l m : List α} {a : α}
    (hl : ∀ x ∈ l, f x = .ok b) (hm : ∀ x ∈ m, f x = .ok b) : collect f (l ++ a :: m) =
      (f a).map fun x => List.replicate l.length b ++ x :: List.replicate m.length b := by
  rw [collect_append, collect_const hl]
  have hcons : collect f (a :: m) = f a >>= fun x => collect f m >>= fun xs => pure (x :: xs) := rfl
  rw [hcons, collect_const hm]
  cases f a <;> rfl

theorem Same.of_map {x y : Except ε α} {g : α → β} (hg : Function.Injective g)
    (h : Same (x.map g) (y.map g)) : Same x y := by
  intro v
  have hmap : ∀ z : Except ε α, z.map g = .ok (g v) ↔ z = .ok v := by
    intro z
    cases z with
    | error e => simp [Except.map]
    | ok a => simp [Except.map, hg.eq_iff]
  rw [← hmap, ← hmap]
  exact h (g v)

theorem collect_map (f : β → Except ε γ) (h : α → β) :
    ∀ l : List α, collect f (l.map h) = collect (fun a => f (h a)) l
  | [] => rfl
  | a :: l => by
    show (f (h a) >>= fun b => collect f (l.map h) >>= fun bs => pure (b :: bs)) = _
    rw [collect_map f h l]
    rfl

end Same

/-! ### Cells -/

/-- The cells of a row, each with its column. -/
theorem zip_served (cols : List (Column J)) (row : List (Option Datum)) :
    cols.zip (served (cols.map fun c => c.format) row) =
      (cols.zip row).map fun p => (p.1, p.2.map (·.form p.1.format)) := by
  unfold served
  induction cols generalizing row with
  | nil => rfl
  | cons c cols ih =>
    cases row with
    | nil => rfl
    | cons d row =>
      rw [List.map_cons, List.zip_cons_cons, List.map_cons, List.zip_cons_cons, ih]
      rfl

theorem zip_texts (cols : List (Column J)) (row : List (Option Datum)) :
    (cols.map Column.asText).zip (row.map (·.map Datum.text)) =
      (cols.zip row).map fun p => (p.1.asText, p.2.map Datum.text) := by
  rw [List.zip_map]
  rfl

variable (cfg dec) in
/-- The binary decoder of a column gives what is decoded from the text. -/
def Kept (c : Column J) (v : Datum) : Prop :=
  Same (decodeCell cfg dec c (some v.binary)) (decodeCell cfg dec c.asText (some v.text))

theorem text_decoder {c : Column J} (h : c.format = .text) : ∃ d, decoder cfg dec c = .ok d := by
  have hne : c.format ≠ .binary := by
    rw [h]
    decide
  unfold decoder
  rw [h]
  cases c.json with
  | some marker => exact ⟨_, rfl⟩
  | none =>
    cases cfg.engine with
    | jit =>
      simp only [compiled, if_neg hne]
      exact ⟨_, rfl⟩
    | interpreted =>
      simp only [pickDecoder, if_neg hne]
      repeat' split
      all_goals exact ⟨_, rfl⟩

theorem binary_decoder {c : Column J} (h : c.format = .binary)
    (ho : c.oid ∈ binaryFast ∨ c.oid = 700) : ∃ d, decoder cfg dec c = .ok d := by
  have hpick : ∃ cell, pickBinary dec.env.rt c.oid c.js = .ok cell := by
    have hcases : c.oid = 21 ∨ c.oid = 23 ∨ c.oid = 26 ∨ c.oid = 20 ∨ c.oid = 701 ∨ c.oid = 1082 ∨
        c.oid = 1114 ∨ c.oid = 1184 ∨ c.oid = 17 ∨ c.oid = 700 := by
      simpa [binaryFast, or_assoc] using ho
    rcases hcases with ho | ho | ho | ho | ho | ho | ho | ho | ho | ho <;> rw [ho] <;>
      exact ⟨_, rfl⟩
  obtain ⟨cell, hcell⟩ := hpick
  have hsnippet := pickBinary_eq dec.env.rt c.oid c.js
  rw [hcell] at hsnippet
  unfold decoder
  rw [h]
  cases cfg.engine with
  | jit =>
    simp only [compiled, if_pos h, ← hsnippet]
    exact ⟨_, rfl⟩
  | interpreted =>
    simp only [pickDecoder, if_pos h, hcell]
    exact ⟨_, rfl⟩

theorem null_cell {c : Column J} (h : ∃ d, decoder cfg dec c = .ok d) :
    decodeCell cfg dec c none = .ok none := by
  obtain ⟨d, hd⟩ := h
  unfold decodeCell
  rw [hd]
  rfl

theorem plan_decoder {cols : List (ShapeCol J)} (h : Requestable cols) {c : Column J}
    (hc : c ∈ Connection.planCols cfg cols oids) : ∃ d, decoder cfg dec c = .ok d := by
  cases hf : c.format with
  | text => exact text_decoder hf
  | binary =>
    rw [connection_plan] at hc
    obtain ⟨⟨s, j⟩, hs, rfl⟩ := List.mem_map.mp hc
    cases s with
    | unknown =>
      have htext : (Connection.resolveCol cfg (Column.plain (J := J) (oids[j]?.getD 0)
        .text)).format = .binary := hf
      rw [resolved_text] at htext
      cases htext
    | known c =>
      obtain ⟨hb, ho⟩ := resolveCol_binary hf
      refine binary_decoder hf ?_
      rw [show (settled cfg _ (ShapeCol.known c)).oid = _ from ho]
      exact h c (List.mem_of_getElem? (List.mem_zipIdx_iff_getElem?.mp hs)) hb

/-! ### Rows -/

/-- The rows of a result of these types, `Valid` being the values of a type. -/
structure WellTyped (Valid : Int → Datum → Prop) (oids : List Int) (r : Result) : Prop where
  types : r.oids = oids
  width : ∀ row ∈ r.rows, row.length = oids.length
  values : ∀ row ∈ r.rows, ∀ (i : Nat) (v : Datum) (oid : Int), row[i]? = some (some v) →
    oids[i]? = some oid → Valid oid v

variable (cfg dec) in
/-- The requested columns of a plan, those with `p`, are kept on every value. -/
def AllKept (Valid : Int → Datum → Prop) (oids : List Int) (plan : List (Column J))
    (p : Column J → Int → Prop) : Prop :=
  ∀ (i : Nat) (c : Column J) (oid : Int), plan[i]? = some c → oids[i]? = some oid →
    c.format = .binary → p c oid → ∀ v, Valid oid v → Kept cfg dec c v

variable (cfg dec) in
/-- The rows as they were requested, of a plan. -/
def requested (places : List Place) (mode : Rows.RowMode) (plan : List (Column J)) (r : Result) :
    Except Failure (List Row) :=
  collect (fun row => decodeRow cfg dec places mode
    (plan.zip (served (plan.map fun c => c.format) row))) r.rows

variable (cfg dec) in
/-- The rows of the same plan from text. -/
def texts (places : List Place) (mode : Rows.RowMode) (plan : List (Column J)) (r : Result) :
    Except Failure (List Row) :=
  collect (fun row => decodeRow cfg dec places mode
    ((plan.map Column.asText).zip (row.map (·.map Datum.text)))) r.rows

section Rows

variable {Valid : Int → Datum → Prop} {plan : List (Column J)}
  (total : ∀ c ∈ plan, ∃ d, decoder cfg dec c = .ok d)

include total

theorem cell_same (hkept : AllKept cfg dec Valid oids plan fun _ _ => True) {r : Result}
    (h : WellTyped Valid oids r) {row : List (Option Datum)} (hrow : row ∈ r.rows)
    {p : Column J × Option Datum} (hp : p ∈ plan.zip row) :
    Same (decodeCell cfg dec p.1 (p.2.map (·.form p.1.format)))
      (decodeCell cfg dec p.1.asText (p.2.map Datum.text)) := by
  obtain ⟨i, hi⟩ := List.mem_iff_getElem?.mp hp
  obtain ⟨hc, hd⟩ := List.getElem?_zip_eq_some.mp hi
  obtain ⟨c, d⟩ := p
  cases d with
  | none =>
    have htext : decodeCell cfg dec c.asText none = .ok none := null_cell (text_decoder rfl)
    have hnone : decodeCell cfg dec c none = .ok none :=
      null_cell (total c (List.mem_of_getElem? hc))
    show Same (decodeCell cfg dec c none) (decodeCell cfg dec c.asText none)
    rw [hnone, htext]
    exact .refl _
  | some v =>
    show Same (decodeCell cfg dec c (some (v.form c.format))) _
    cases hf : c.format with
    | text =>
      rw [asText_of_text hf]
      exact .refl _
    | binary =>
      have hlt : i < oids.length := by
        rw [← h.width row hrow]
        exact (List.getElem?_eq_some_iff.mp hd).1
      have hoid : oids[i]? = some oids[i] := List.getElem?_eq_getElem hlt
      exact hkept i c oids[i] hc hoid hf trivial v (h.values row hrow i v _ hd hoid)

/-- The rows are those of the text if every requested column is kept. -/
theorem rows_same (hkept : AllKept cfg dec Valid oids plan fun _ _ => True) {r : Result}
    (h : WellTyped Valid oids r) (places : List Place) (mode : Rows.RowMode) :
    Same (requested cfg dec places mode plan r) (texts cfg dec places mode plan r) := by
  refine collect_same fun row hrow => ?_
  refine Same.bind (Same.mapError _ ?_) fun vals => .refl _
  rw [zip_served, zip_texts, collect_map, collect_map]
  refine collect_same fun p hp => ?_
  exact cell_same total hkept h hrow hp

end Rows

/-- Columns without names. -/
def nameless (n : Nat) : List Place := List.replicate n { name := "" }

/-- A row of cells, as an array. -/
theorem assemble_array (n : Nat) (vals : List (Rows.Cell Value)) :
    assemble cfg (nameless n) .array vals =
      .ok (.array ((List.range n).map (Rows.cellAt vals))) := by
  have hcells : (List.range n).map (Rows.cellAt vals) =
      (nameless n).zipIdx.map fun p => Rows.cellAt vals p.2 := by
    have hidx : (nameless n).zipIdx.map (·.2) = List.range n := by
      rw [List.zipIdx_map_snd, ← List.range_eq_range']
      simp [nameless]
    rw [← hidx, List.map_map]
    rfl
  have hplain : ∀ c ∈ nameless n, c = { name := "" } := fun c hc => List.eq_of_mem_replicate hc
  unfold assemble
  cases cfg.engine with
  | interpreted =>
    simp [Rows.interpretedMapper, nameless, Except.mapError]
  | jit =>
    have hflat : ((nameless n).any fun c => c.path.isSome) = false := by
      refine List.any_eq_false.mpr fun c hc => ?_
      rw [hplain c hc]
      simp
    have heval : Rows.evalCells (Rows.arrayParts (nameless n).zipIdx []).2 vals
        (Rows.arrayParts (nameless n).zipIdx []).1 =
          .ok ((nameless n).zipIdx.map fun p => Rows.cellAt vals p.2) := by
      refine (Rows.evalCells_eq_iff (nameless n).zipIdx [] List.prefix_rfl).mpr ?_
      intro p hp f v hf
      rw [hplain p.1 (List.fst_mem_of_mem_zipIdx hp)] at hf
      cases hf
    simp only [Rows.compiledMapper, hflat, heval, hcells, Except.map, Except.mapError]
    rfl

/-- The array of `n` cells that has `x` at `i`, and then `m` more. -/
def arrayAt (n i m : Nat) (x : Rows.Cell Value) : Row :=
  .array ((List.range n).map (Rows.cellAt (List.replicate i none ++ x :: List.replicate m none)))

theorem arrayAt_injective {n i m : Nat} (h : i < n) : Function.Injective (arrayAt n i m) := by
  intro x y hxy
  have hat : ∀ x : Rows.Cell Value,
      Rows.cellAt (List.replicate i none ++ x :: List.replicate m none) i = x := by
    intro x
    simp [Rows.cellAt]
  have hcells := congrArg (·[i]?) (Rows.RowValue.array.inj hxy)
  simp only [List.getElem?_map, List.getElem?_range h, Option.map_some, hat] at hcells
  exact Option.some.inj hcells

theorem decodeRow_single {pre post : List (Column J × Option Bytes)} {c : Column J}
    {b : Option Bytes} (n : Nat) (hpre : ∀ p ∈ pre, decodeCell cfg dec p.1 p.2 = .ok none)
    (hpost : ∀ p ∈ post, decodeCell cfg dec p.1 p.2 = .ok none) :
    decodeRow cfg dec (nameless n) .array (pre ++ (c, b) :: post) =
      ((decodeCell cfg dec c b).mapError .decoding).map (arrayAt n pre.length post.length) := by
  unfold decodeRow
  rw [collect_single hpre hpost]
  cases decodeCell cfg dec c b with
  | error e => rfl
  | ok x => exact assemble_array n _

/-- A result of one row, with one value in it. -/
def lone (oids : List Int) (i : Nat) (v : Datum) : Result where
  oids
  rows := [List.replicate i none ++ some v :: List.replicate (oids.length - (i + 1)) none]

theorem lone_wellTyped {Valid : Int → Datum → Prop} {i : Nat} {oid : Int} {v : Datum}
    (hoid : oids[i]? = some oid) (hv : Valid oid v) : WellTyped Valid oids (lone oids i v) := by
  have hlt : i < oids.length := (List.getElem?_eq_some_iff.mp hoid).1
  refine ⟨rfl, fun row hrow => ?_, fun row hrow j w oid' hj hoid' => ?_⟩
  · rw [List.mem_singleton.mp hrow]
    simp
    omega
  · rw [List.mem_singleton.mp hrow, List.getElem?_append, List.length_replicate] at hj
    split at hj
    · rw [List.getElem?_replicate] at hj
      simp at hj
    · cases hk : j - i with
      | zero =>
        have hji : j = i := by omega
        rw [hk] at hj
        cases hj
        rw [hji, hoid] at hoid'
        cases hoid'
        exact hv
      | succ k =>
        rw [hk, List.getElem?_cons_succ, List.getElem?_replicate] at hj
        simp at hj

theorem zip_lone {plan : List (Column J)} {i : Nat} {c : Column J} (hc : plan[i]? = some c)
    (v : Datum) (n : Nat) :
    plan.zip (List.replicate i none ++ some v :: List.replicate n none) =
      (plan.take i).zip (List.replicate i none) ++
        (c, some v) :: (plan.drop (i + 1)).zip (List.replicate n none) := by
  obtain ⟨hlt, hget⟩ := List.getElem?_eq_some_iff.mp hc
  conv_lhs => rw [← List.take_append_drop i plan, List.drop_eq_getElem_cons hlt, hget]
  rw [List.zip_append (by simp; omega), List.zip_cons_cons]

/-- The row of one value, with its cells as `present` gives them to the decoder. -/
theorem decodeRow_lone {plan : List (Column J)} {i : Nat} {c : Column J} (hc : plan[i]? = some c)
    (v : Datum) (n : Nat) (present : Column J × Option Datum → Column J × Option Bytes)
    (hnull : ∀ c ∈ plan,
      decodeCell cfg dec (present (c, none)).1 (present (c, none)).2 = .ok none) :
    decodeRow cfg dec (nameless plan.length) .array
      ((plan.zip (List.replicate i none ++ some v :: List.replicate n none)).map present) =
        ((decodeCell cfg dec (present (c, some v)).1 (present (c, some v)).2).mapError
          .decoding).map (arrayAt plan.length i (min (plan.length - (i + 1)) n)) := by
  have hlt : i < plan.length := (List.getElem?_eq_some_iff.mp hc).1
  have hnone : ∀ {l : List (Column J)} {m : Nat}, (∀ c ∈ l, c ∈ plan) →
      ∀ p ∈ (l.zip (List.replicate m none)).map present, decodeCell cfg dec p.1 p.2 = .ok none := by
    intro l m hl p hp
    obtain ⟨⟨c, d⟩, hcd, rfl⟩ := List.mem_map.mp hp
    obtain ⟨hmem, hd⟩ := List.of_mem_zip hcd
    rw [List.eq_of_mem_replicate hd]
    exact hnull c (hl c hmem)
  have hrow := @decodeRow_single J cfg dec _ _ (present (c, some v)).1 (present (c, some v)).2
    plan.length (hnone (m := i) fun c => List.mem_of_mem_take (i := i))
    (hnone (m := n) fun c => List.mem_of_mem_drop (i := i + 1))
  rw [zip_lone hc, List.map_append, List.map_cons]
  simpa [Nat.min_eq_left (Nat.le_of_lt hlt)] using hrow

/-- The rows are those of the text only if every requested column is kept. -/
theorem rows_forced {Valid : Int → Datum → Prop} {plan : List (Column J)}
    (total : ∀ c ∈ plan, ∃ d, decoder cfg dec c = .ok d)
    (h : ∀ r places mode, WellTyped Valid oids r →
      Same (requested cfg dec places mode plan r) (texts cfg dec places mode plan r)) :
    AllKept cfg dec Valid oids plan fun _ _ => True := by
  intro i c oid hc hoid hb _ v hv
  have hlt : i < plan.length := (List.getElem?_eq_some_iff.mp hc).1
  have hsame := h (lone oids i v) (nameless plan.length) .array (lone_wellTyped hoid hv)
  have hone : ∀ f : List (Option Datum) → Except Failure Row, collect f (lone oids i v).rows =
      (f (List.replicate i none ++ some v :: List.replicate (oids.length - (i + 1)) none)).map
        ([·]) := by
    intro f
    have hnone : ∀ x ∈ ([] : List (List (Option Datum))), f x = .ok (.array []) := nofun
    exact collect_single hnone hnone
  unfold requested texts at hsame
  rw [hone, hone, zip_served, zip_texts, decodeRow_lone hc v _ _ fun c hmem => ?_,
    decodeRow_lone hc v _ _ fun c hmem => ?_] at hsame
  · have hcell := hsame.of_map fun x y hxy => List.head_eq_of_cons_eq hxy
    have hkept := (hcell.of_map (arrayAt_injective hlt)).of_mapError
    simp only [hb, Option.map_some, Datum.form] at hkept
    exact hkept
  · exact null_cell (text_decoder rfl)
  · exact null_cell (total c hmem)

/-! ### The entries -/

variable (cfg dec) in
/-- The built-in decoders agree on the columns that are requested as binary for their type. -/
def BuiltinsAgree (Valid : Int → Datum → Prop) (oids : List Int) (cols : List (ShapeCol J)) :
    Prop :=
  AllKept cfg dec Valid oids (Connection.planCols cfg cols oids) fun c oid =>
    c.oid = oid ∧ cfg.decoders.custom oid = none

theorem shaped_eq (places : List Place) (mode : Rows.RowMode) (r : Result)
    (cols : List (ShapeCol J)) : Connection.shaped cfg dec places mode r cols =
      requested cfg dec places mode (Connection.planCols cfg cols r.oids) r := by
  unfold Connection.shaped Connection.decodeRows requested
  rw [resultFormat_plan]

theorem decode_eq (places : List Place) (mode : Rows.RowMode) (r : Result)
    (cols : List (ShapeCol J)) :
    HttpClient.decode cfg dec places mode r "bigint" (some cols) =
      texts cfg dec places mode (Connection.planCols cfg cols r.oids) r := by
  unfold HttpClient.decode texts
  rw [http_plan]

theorem decodeParsed_eq (places : List Place) (mode : Rows.RowMode) (r : Result)
    (shape : Option (List (ShapeCol J))) : NeonHttpClient.decodeParsed cfg dec places mode r shape =
      HttpClient.decode cfg dec places mode r "bigint" shape := by
  unfold NeonHttpClient.decodeParsed HttpClient.decode
  rw [neon_planCols]

theorem unshaped_eq (places : List Place) (mode : Rows.RowMode) (r : Result) (reuse : Bool) :
    Connection.unshaped (J := J) cfg dec places mode r reuse = requested cfg dec places mode
      (Connection.planCols cfg (Connection.plainCols cfg reuse r.oids) r.oids) r := by
  unfold Connection.unshaped Connection.decodeRows requested
  dsimp only
  rw [← resultFormat_plan]
  cases reuse with
  | true => rfl
  | false =>
    have hformats : Connection.resultFormat (Connection.resolveCols cfg
        (Connection.plainCols (J := J) cfg false r.oids)) = r.oids.map fun _ => .text := by
      unfold Connection.resultFormat Connection.resolveCols Connection.plainCols
      rw [List.map_map, List.map_map]
      refine List.map_congr_left fun oid _ => ?_
      exact resolved_text oid
    rw [hformats]
    rfl

theorem decode_plain_eq (places : List Place) (mode : Rows.RowMode) (r : Result) (reuse : Bool) :
    HttpClient.decode (J := J) cfg dec places mode r "bigint" none = texts cfg dec places mode
      (Connection.planCols cfg (Connection.plainCols cfg reuse r.oids) r.oids) r := by
  unfold HttpClient.decode texts
  rw [http_plain reuse]

theorem reused_plain {oid : Int} (h : cfg.reuseBinaryOids oid = true) :
    cfg.decoders.custom oid = none := by
  obtain ⟨hfast, htypes⟩ := of_decide_eq_true h
  have hjson : oid ∉ ([114, 3802, 199, 3807] : List Int) := by
    simp only [binaryFast, List.mem_cons, List.not_mem_nil, or_false] at hfast ⊢
    omega
  unfold PlanConfig.decoders
  dsimp only
  rw [htypes]
  exact if_neg hjson

/-- The columns of a plain query are requested as binary for their type, and without an override. -/
theorem plain_kept {Valid : Int → Datum → Prop} {reuse : Bool}
    (h : BuiltinsAgree cfg dec Valid oids (Connection.plainCols (J := J) cfg reuse oids)) :
    AllKept cfg dec Valid oids
      (Connection.planCols cfg (Connection.plainCols cfg reuse oids) oids) fun _ _ => True := by
  intro i c oid hc hoid hb _
  refine h i c oid hc hoid hb ?_
  rw [connection_plan, List.getElem?_map, List.getElem?_zipIdx] at hc
  simp only [Connection.plainCols, List.getElem?_map, hoid, Option.map_some] at hc
  obtain rfl := Option.some.inj hc
  obtain ⟨hformat, ho⟩ := resolveCol_binary hb
  refine ⟨ho, ?_⟩
  by_cases hreuse : reuse = true ∧ cfg.reuseBinaryOids oid = true
  · exact reused_plain hreuse.2
  · rw [if_neg hreuse] at hformat
    cases hformat

/-- **The entries give the same rows for a query without a shape, and for a shape exactly if every
column that it requests as binary, while it is overridden or the result has another type, is
decoded as its text is.** -/
theorem entries_agree_iff {leaves : List (Declared J)} {cols : List (ShapeCol J)}
    {Valid : Int → Datum → Prop} (hs : shapeCols leaves = .ok cols)
    (hb : ∀ reuse, BuiltinsAgree cfg dec Valid oids (Connection.plainCols (J := J) cfg reuse oids))
    (hb' : BuiltinsAgree cfg dec Valid oids cols) :
    (∀ r places mode reuse, WellTyped Valid oids r →
      Same (Connection.unshaped (J := J) cfg dec places mode r reuse)
        (HttpClient.decode (J := J) cfg dec places mode r "bigint" none) ∧
      Same (Connection.unshaped (J := J) cfg dec places mode r reuse)
        (NeonHttpClient.decodeParsed (J := J) cfg dec places mode r none)) ∧
    ((∀ r places mode, WellTyped Valid oids r →
      Same (Connection.shaped cfg dec places mode r cols)
        (HttpClient.decode cfg dec places mode r "bigint" (some cols)) ∧
      Same (Connection.shaped cfg dec places mode r cols)
        (NeonHttpClient.decodeParsed cfg dec places mode r (some cols))) ↔
      AllKept cfg dec Valid oids (Connection.planCols cfg cols oids) fun c oid =>
        c.oid ≠ oid ∨ (cfg.decoders.custom oid).isSome) := by
  refine ⟨fun r places mode reuse h => ?_, fun h => ?_, fun h r places mode hr => ?_⟩
  · have hsame := rows_same (fun c => plan_decoder (plain_requestable reuse))
      (plain_kept (hb reuse)) h places mode
    rw [decodeParsed_eq, unshaped_eq, decode_plain_eq places mode r reuse, h.types]
    exact ⟨hsame, hsame⟩
  · have hall := rows_forced (fun c => plan_decoder (shape_requestable hs))
      fun r places mode hr => by
        have hsame := (h r places mode hr).1
        rw [shaped_eq, decode_eq, hr.types] at hsame
        exact hsame
    exact fun i c oid hc hoid hf _ => hall i c oid hc hoid hf trivial
  · have hall : AllKept cfg dec Valid oids (Connection.planCols cfg cols oids)
        fun _ _ => True := by
      intro i c oid hc hoid hf _
      by_cases hp : c.oid = oid ∧ cfg.decoders.custom oid = none
      · exact hb' i c oid hc hoid hf hp
      · refine h i c oid hc hoid hf ((not_and_or.mp hp).imp_right fun ho => ?_)
        exact Option.isSome_iff_ne_none.mpr ho
    have hsame := rows_same (fun c => plan_decoder (shape_requestable hs)) hall hr places mode
    rw [decodeParsed_eq, shaped_eq, decode_eq, hr.types]
    exact ⟨hsame, hsame⟩

/-! ### An empty value and an override -/

/-- All that is asked here is the decoding of `\\x`. -/
def hexOnly : Decoding Unit where
  env := {
    rt := {
      int := fun i => BitVec.ofInt 64 i
      nan := 0x7ff8000000000000
      infinity := 0x7ff0000000000000
      neg := fun x => x
      add := fun x _ => x
      sub := fun x _ => x
      mul := fun x _ => x
      div := fun x _ => x
      floor := fun x => x
      fround := fun x => x
      isZero := fun x => x = 0
      lt := fun _ _ => false
      le := fun _ _ => false
      pow10 := fun x => x
      float32 := fun _ => 0
      text := fun _ => []
      number := fun _ => 0
      bigint := fun _ => .error (.other 0)
      parseJson := fun _ => .error (.other 0)
      newDate := fun _ => .date none
      utc := fun x _ _ _ _ _ _ => x
      utf8 := fun b => b.map fun c => UInt16.ofNat c.toNat
      hexBytes := fun _ => [] }
    registry := ⟨fun _ => none, nofun⟩
    geo := fun _ s => .ok (.string s) }
  json := fun _ _ _ _ _ => .error (.other 0)

/-- The empty `bytea`. -/
def emptyBytes : Datum := ⟨[92, 120], []⟩

def noOverride : PlanConfig := ⟨fun _ => none, none, .date, .jit⟩

def byteaCols : List (ShapeCol Unit) := [.known (.scalar 17 none .binary)]

theorem byteaCols_shape : shapeCols [.type (ascii "bytea")] = .ok byteaCols := by rfl

theorem emptyBytes_kept {plan : List (Column Unit)} (p : Column Unit → Int → Prop)
    (h : ∀ c ∈ plan, c.format = .binary → c = .plain 17 .binary) :
    AllKept noOverride hexOnly (fun _ v => v = emptyBytes) [17] plan p := by
  intro i c oid hc _ hb _ v hv
  rw [h c (List.mem_of_getElem? hc) hb, hv]
  exact .refl _

theorem emptyBytes_plain (reuse : Bool) : BuiltinsAgree noOverride hexOnly
    (fun _ v => v = emptyBytes) [17] (Connection.plainCols (J := Unit) noOverride reuse [17]) := by
  refine emptyBytes_kept _ fun c hc hb => ?_
  cases reuse with
  | true =>
    have hplan : Connection.planCols noOverride (Connection.plainCols (J := Unit) noOverride true
      [17]) [17] = [.plain 17 .binary] := rfl
    rw [hplan] at hc
    exact List.mem_singleton.mp hc
  | false =>
    have hplan : Connection.planCols noOverride (Connection.plainCols (J := Unit) noOverride false
      [17]) [17] = [.plain 17 .text] := rfl
    rw [hplan] at hc
    rw [List.mem_singleton.mp hc] at hb
    cases hb

theorem emptyBytes_shaped (p : Column Unit → Int → Prop) : AllKept noOverride hexOnly
    (fun _ v => v = emptyBytes) [17] (Connection.planCols noOverride byteaCols [17]) p := by
  have hplan : Connection.planCols noOverride byteaCols [17] = [.plain 17 .binary] := rfl
  rw [hplan]
  exact emptyBytes_kept p fun c hc _ => List.mem_singleton.mp hc

theorem emptyBytes_typed : WellTyped (fun _ v => v = emptyBytes) [17]
    ⟨[17], [[some emptyBytes]]⟩ := by
  refine ⟨rfl, fun row hrow => ?_, fun row hrow i v oid hv _ => ?_⟩
  · rw [List.mem_singleton.mp hrow]
    rfl
  · rw [List.mem_singleton.mp hrow] at hv
    have hmem := List.mem_singleton.mp (List.mem_of_getElem? hv)
    exact Option.some.inj hmem

theorem emptyBytes_same : Same
    (Connection.shaped noOverride hexOnly [{ name := "b" }] .object ⟨[17], [[some emptyBytes]]⟩
      byteaCols)
    (HttpClient.decode noOverride hexOnly [{ name := "b" }] .object ⟨[17], [[some emptyBytes]]⟩
      "bigint" (some byteaCols)) := by
  have hiff := entries_agree_iff byteaCols_shape emptyBytes_plain (emptyBytes_shaped _)
  exact (hiff.2.mpr (emptyBytes_shaped _) _ _ _ emptyBytes_typed).1

/-- `types` of a configuration that reads `int4` as text. -/
def int4Override : PlanConfig :=
  ⟨fun oid => if oid = 23 then some fun b => .ok (.string (b.map fun c => UInt16.ofNat c.toNat))
    else none, none, .date, .interpreted⟩

def five : Datum := ⟨[53], [0, 0, 0, 5]⟩

/-- The socket reads a number, and the others call the override. -/
theorem int4_not_overridden : ¬∃ (dec : Decoding Unit) (cols : List (ShapeCol Unit)),
    shapeCols [.type (ascii "int4")] = .ok cols ∧ Same
      (Connection.shaped int4Override dec [{ name := "n" }] .object ⟨[23], [[some five]]⟩ cols)
      (HttpClient.decode int4Override dec [{ name := "n" }] .object ⟨[23], [[some five]]⟩
        "bigint" (some cols)) := by
  rintro ⟨dec, cols, hcols, h⟩
  have hint4 : shapeCols (J := Unit) [.type (ascii "int4")] =
      .ok [.known (.scalar 23 none .binary)] := rfl
  rw [hint4] at hcols
  cases hcols
  have hnumber := (h [.object [("n", .cell (some (.number (dec.env.rt.int 5))))]]).mp rfl
  have hstring : HttpClient.decode int4Override dec [{ name := "n" }] .object
      ⟨[23], [[some five]]⟩ "bigint" (some [.known (.scalar 23 none .binary)]) =
        .ok [.object [("n", .cell (some (.string [53])))]] := rfl
  rw [hstring] at hnumber
  cases hnumber

end Minipg.Plans
