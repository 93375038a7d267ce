import Minipg.Encode.Arrays
import Minipg.Encode.Copy
import Minipg.Js.Lossy
import Minipg.Wire.Framing

/-!
# COPY in the binary format

`copyRowsBinary` (`src/encode.ts`) writes rows in the binary format of COPY and hands the buffer out
in chunks.  `CopyBinary.parse` are PostgreSQL's rules of that format: a header, tuples with the
number of their fields, which has a sign, and the number -1 at the end.  The chunks, put together,
are read as the rows (`copyRowsBinary_parses`).
-/

namespace Minipg.Encode

open Js Writer Appending Taking
open Cells (Runtime ReadsAs pickBinary)

/-! ### The rows -/

/-- What `copyRowsBinary` throws. -/
inductive CopyError
  | typeError (message : JsString)
  | thrown (e : Thrown)
  deriving DecidableEq, Repr

/-- `names[c]`, as the key of a property. -/
def columnName (names : List JsString) (c : Nat) : JsString := names.getD c (ascii "undefined")

/-- A value does not fit the type of its column. -/
def incompatible (r : Nat) (name : JsString) : CopyError :=
  .typeError (ascii "copy: row " ++ ascii (toString r) ++ ascii ", column \"" ++ name ++
    ascii "\" — value is incompatible with its declared type")

/-- A cell, or the length of NULL. -/
def fieldInto (e : Oid) (v : Value) : Write Unit :=
  if v.isNullish then int32 (-1) else elemEncoderFor e v

/-- The cells of row `r` from column `c` on. -/
def writeTuple (names : List JsString) (r : Nat) (row : CopyRow) :
    List Oid → Nat → Writer → Except CopyError Writer
  | [], _, w => .ok w
  | e :: oids, c, w =>
    match fieldInto e (row.cell (columnName names c) c) w with
    | .error .mismatch => .error (incompatible r (columnName names c))
    | .error e => .error (.thrown e)
    | .ok ((), w) => writeTuple names r row oids (c + 1) w

/-- The rows from row `r` on: the chunks that are yielded, and the error of a cell. -/
def copyTuples (oids : List Oid) (names : List JsString) (chunkBytes : Nat) :
    List CopyRow → Nat → Writer → List (List UInt8) × Except CopyError Unit
  | [], _, w =>
    match int16 0xffff w with
    | .error e => ([], .error (.thrown e))
    | .ok ((), w) => ([w.buf], .ok ())
  | row :: rows, r, w =>
    match int16 oids.length w with
    | .error e => ([], .error (.thrown e))
    | .ok ((), w) =>
      match writeTuple names r row oids 0 w with
      | .error e => ([], .error e)
      | .ok w =>
        if chunkBytes ≤ w.buf.length then
          let (chunks, result) := copyTuples oids names chunkBytes rows (r + 1) { w with buf := [] }
          (w.buf :: chunks, result)
        else copyTuples oids names chunkBytes rows (r + 1) w

/-- `COPY_SIG`. -/
def copySig : List UInt8 := [0x50, 0x47, 0x43, 0x4f, 0x50, 0x59, 0x0a, 0xff, 0x0d, 0x0a, 0x00]

def copyRowsBinary (oids : List Oid) (names : List JsString) (chunkBytes : Nat)
    (rows : List CopyRow) : List (List UInt8) × Except CopyError Unit :=
  match (do bytes copySig; int32 0; int32 0 : Write Unit) {} with
  | .error e => ([], .error (.thrown e))
  | .ok ((), w) => copyTuples oids names chunkBytes rows 0 w

/-! ### The rules of the server -/

namespace CopyBinary

/-- The signature, no flags, and no extension. -/
def header : List UInt8 := copySig ++ (bigEndian 4 0 ++ bigEndian 4 0)

def trailer : List UInt8 := [0xff, 0xff]

def tupleBytes (fields : List (Option (List UInt8))) : List UInt8 :=
  bigEndian 2 fields.length ++ fields.flatMap framed

/-- The tuples up to the trailer. -/
def tuples : Nat → Take UInt8 (List (List (Option (List UInt8))))
  | 0 => failure
  | fuel + 1 => do
    let n ← Frontend.uint16
    if n = 0xffff then return []
    else if 0x8000 ≤ n then failure
    else
      let fields ← times Frontend.value n.toNat
      let rest ← tuples fuel
      return fields :: rest

def table (fuel : Nat) : Take UInt8 (List (List (Option (List UInt8)))) := do
  let start ← exactly header.length
  if start = header then tuples fuel else failure

/-- The fields of the tuples, where the data is as the format says. -/
def parse (data : List UInt8) : Option (List (List (Option (List UInt8)))) :=
  whole (table data.length) data

theorem tuples_takes : ∀ {ts : List (List (Option (List UInt8)))} {fuel : Nat},
    (∀ t ∈ ts, t.length ≤ 0x7fff ∧ ∀ f ∈ t, Fits f) → ts.length < fuel →
      Takes (tuples fuel) (ts.flatMap tupleBytes ++ trailer) ts
  | _, 0, _, hfuel => absurd hfuel (Nat.not_lt_zero _)
  | [], fuel + 1, _, _ => by
    have hend : trailer = bigEndian 2 0xffff := by decide
    rw [List.flatMap_nil, List.nil_append, hend]
    exact (Frontend.uint16_takes (by decide) (by decide)).last (.pure [])
  | t :: ts, fuel + 1, h, hfuel => by
    obtain ⟨hlen, hfits⟩ := h t List.mem_cons_self
    have hrest := tuples_takes (fun u hu => h u (List.mem_cons_of_mem t hu))
      (Nat.lt_of_succ_lt_succ hfuel)
    have hfields : Takes (times Frontend.value t.length) (t.flatMap framed) (t.map id) :=
      Takes.times fun f hf => Frontend.value_takes (hfits f hf)
    rw [List.map_id] at hfields
    rw [List.flatMap_cons, tupleBytes, List.append_assoc, List.append_assoc]
    refine (Frontend.uint16_takes (by omega) (by omega)).bind ?_
    rw [if_neg (by omega), if_neg (by omega), Int.toNat_natCast]
    exact hfields.bind (hrest.last (.pure (t :: ts)))

theorem length_le_bytes : ∀ ts : List (List (Option (List UInt8))),
    ts.length ≤ (ts.flatMap tupleBytes).length
  | [] => Nat.le_refl 0
  | t :: ts => by
    have hrest := length_le_bytes ts
    rw [List.flatMap_cons, List.length_append, List.length_cons, tupleBytes, List.length_append,
      bigEndian_length]
    omega

theorem parse_table {ts : List (List (Option (List UInt8)))}
    (h : ∀ t ∈ ts, t.length ≤ 0x7fff ∧ ∀ f ∈ t, Fits f) :
    parse (header ++ (ts.flatMap tupleBytes ++ trailer)) = some ts := by
  have hshort := length_le_bytes ts
  apply Takes.whole
  refine (Takes.exactly header).bind ?_
  rw [if_pos rfl]
  apply tuples_takes h
  simp only [List.length_append]
  have hpos : 0 < header.length := by decide
  omega

end CopyBinary

/-! ### Fields -/

open CopyBinary (header trailer tupleBytes)

variable {rt : Runtime}

/-- The value as text can carry it. -/
def clean : Value → Value
  | .string s => .string (toWellFormed s)
  | v => v

theorem elemEncoderFor_clean (e : Oid) (v : Value) :
    elemEncoderFor e (clean v) = elemEncoderFor e v := by
  cases v with
  | string s =>
    have hnul : Js.hasNul (toWellFormed s) = Js.hasNul s := by
      rw [Bool.eq_iff_iff]
      simpa [Js.hasNul] using nul_toWellFormed s
    have htext : elemEncoderFor 25 (clean (.string s)) = elemEncoderFor 25 (.string s) := by
      show (if Js.hasNul (toWellFormed s) then throw .mismatch else lpStr (toWellFormed s)) =
        if Js.hasNul s then throw .mismatch else lpStr s
      unfold lpStr
      rw [hnul, utf8_toWellFormed]
    unfold elemEncoderFor
    split
    all_goals first | rfl | exact htext
  | _ => rfl

/-- A field of the data holds a cell of a column: NULL for null and undefined, else bytes that the
decoder of the type reads as the value. -/
inductive Field (rt : Runtime) (e : Oid) (v : Value) : Option (List UInt8) → Prop
  | null (h : v.isNullish) : Field rt e v none
  | value {body : List UInt8} {d : Cells.Cell} (h : ¬v.isNullish) (fits : Fits (some body))
    (hd : pickBinary rt.standard e none = .ok d) (reads : ReadsAs d body (received e (clean v))) :
    Field rt e v (some body)

theorem Field.fits {e : Oid} {v : Value} {f : Option (List UInt8)} (h : Field rt e v f) :
    Fits f := by
  cases h with
  | null _ => exact fun _ hb => nomatch hb
  | value _ fits _ _ => exact fits

/-- The cell can be written. -/
def Encodable (e : Oid) (v : Value) : Prop := ∃ bs, Yields (fieldInto e v) (.ok ((), bs))

theorem fieldInto_cases (rt : Runtime) (e : Oid) (v : Value) :
    (∃ f, Field rt e v f ∧ Yields (fieldInto e v) (.ok ((), framed f))) ∨
    Yields (fieldInto e v) (.error .mismatch) ∨
    Yields (fieldInto e v) (.error (.js .rangeError)) := by
  unfold fieldInto
  by_cases hv : v.isNullish
  · rw [if_pos hv]
    exact .inl ⟨none, .null hv, append_yields _⟩
  · rw [if_neg hv]
    have hwf : ∀ s, clean v = .string s → isWellFormed s := by
      intro s hs
      cases v with
      | string t =>
        cases hs
        exact wellFormed_toWellFormed t
      | _ => cases hs
    obtain ⟨r, hr, herr, hok⟩ := @carries_elem rt e (clean v) hwf
    rw [elemEncoderFor_clean] at hr
    cases r with
    | error err =>
      rcases herr err rfl with rfl | rfl
      · exact .inr (.inl hr)
      · exact .inr (.inr hr)
    | ok p =>
      obtain ⟨⟨⟩, bs⟩ := p
      obtain ⟨body, rfl, hfits, d, hd, hreads⟩ := hok bs rfl
      exact .inl ⟨some body, .value hv hfits hd hreads, hr⟩

theorem not_encodable {e : Oid} {v : Value} {err : Thrown}
    (h : Yields (fieldInto e v) (.error err)) : ¬Encodable e v := by
  rintro ⟨bs, hbs⟩
  have h := h {}
  rw [hbs {}] at h
  cases h

/-! ### Rows -/

variable {oids : List Oid} {names : List JsString}

/-- The cell of a row for a column with its number. -/
def CopyRow.at (names : List JsString) (row : CopyRow) (column : Oid × Nat) : Value :=
  row.cell (columnName names column.2) column.2

/-- All cells of the row can be written. -/
def Encodes (oids : List Oid) (names : List JsString) (row : CopyRow) : Prop :=
  ∀ p ∈ oids.zipIdx, Encodable p.1 (row.at names p)

/-- A tuple of the data holds a row. -/
def Holds (rt : Runtime) (oids : List Oid) (names : List JsString) (row : CopyRow)
    (fields : List (Option (List UInt8))) : Prop :=
  List.Forall₂ (fun p f => Field rt p.1 (row.at names p) f) oids.zipIdx fields

/-- The error of row `r` is about its first cell that cannot be written. -/
def Rejects (names : List JsString) (r : Nat) (row : CopyRow) (columns : List (Oid × Nat))
    (err : CopyError) : Prop :=
  ∃ before column after, columns = before ++ column :: after ∧
    (∀ p ∈ before, Encodable p.1 (row.at names p)) ∧
    (Yields (fieldInto column.1 (row.at names column)) (.error .mismatch) ∧
        err = incompatible r (columnName names column.2) ∨
      Yields (fieldInto column.1 (row.at names column)) (.error (.js .rangeError)) ∧
        err = .thrown (.js .rangeError))

theorem Rejects.not_encodes {r : Nat} {row : CopyRow} {err : CopyError}
    (h : Rejects names r row oids.zipIdx err) : ¬Encodes oids names row := by
  obtain ⟨before, column, after, hcols, -, herr⟩ := h
  intro hall
  have hcell := hall column (by rw [hcols]; simp)
  rcases herr with ⟨herr, -⟩ | ⟨herr, -⟩
  · exact not_encodable herr hcell
  · exact not_encodable herr hcell

theorem writeTuple_cases (rt : Runtime) (names : List JsString) (r : Nat) (row : CopyRow) :
    ∀ (es : List Oid) (c : Nat),
      (∃ fields, List.Forall₂ (fun p f => Field rt p.1 (row.at names p) f) (es.zipIdx c) fields ∧
        (∀ p ∈ es.zipIdx c, Encodable p.1 (row.at names p)) ∧
        ∀ w, writeTuple names r row es c w = .ok (w.app (fields.flatMap framed))) ∨
      ∃ err, Rejects names r row (es.zipIdx c) err ∧
        ∀ w, writeTuple names r row es c w = .error err
  | [], c => by
    refine .inl ⟨[], .nil, fun _ h => (by cases h), fun w => ?_⟩
    exact congrArg Except.ok (congrArg (Writer.mk · w.msgStart) (List.append_nil w.buf)).symm
  | e :: es, c => by
    have hstep : ∀ {err : Thrown}, Yields (fieldInto e (row.at names (e, c))) (.error err) →
        ∀ w, fieldInto e (row.cell (columnName names c) c) w = .error err := fun h w => h w
    rcases fieldInto_cases rt e (row.at names (e, c)) with ⟨f, hf, hput⟩ | herr | herr
    · have hfirst : ∀ w, fieldInto e (row.cell (columnName names c) c) w =
          .ok ((), w.app (framed f)) := hput
      rcases writeTuple_cases rt names r row es (c + 1) with ⟨fields, hfields, henc, hall⟩ |
        ⟨err, ⟨before, column, after, hcols, hbefore, herr⟩, hall⟩
      · refine .inl ⟨f :: fields, .cons hf hfields, ?_, fun w => ?_⟩
        · intro p hp
          rcases List.mem_cons.mp hp with rfl | hp
          · exact ⟨_, hput⟩
          · exact henc p hp
        · simp only [writeTuple, hfirst, hall]
          simp [Writer.app]
      · refine .inr ⟨err, ⟨(e, c) :: before, column, after, ?_, ?_, herr⟩, fun w => ?_⟩
        · rw [List.zipIdx_cons, hcols, List.cons_append]
        · intro p hp
          rcases List.mem_cons.mp hp with rfl | hp
          · exact ⟨_, hput⟩
          · exact hbefore p hp
        · simp only [writeTuple, hfirst, hall]
    · refine .inr ⟨_, ⟨[], (e, c), es.zipIdx (c + 1), rfl, fun _ h => (by cases h),
        .inl ⟨herr, rfl⟩⟩, fun w => ?_⟩
      simp only [writeTuple, hstep herr]
    · refine .inr ⟨_, ⟨[], (e, c), es.zipIdx (c + 1), rfl, fun _ h => (by cases h),
        .inr ⟨herr, rfl⟩⟩, fun w => ?_⟩
      simp only [writeTuple, hstep herr]

/-! ### Chunks -/

theorem count_written (h : oids.length ≤ 0x7fff) (w : Writer) :
    int16 oids.length w = .ok ((), w.app (bigEndian 2 oids.length)) := by
  have hcount : uint16BE (oids.length : Int) = .ok (bigEndian 2 oids.length) :=
    if_pos ⟨by omega, by omega⟩
  show appendOr (uint16BE oids.length) w = _
  rw [hcount]
  rfl

theorem trailer_written (w : Writer) : int16 0xffff w = .ok ((), w.app trailer) := by
  have hend : trailer = bigEndian 2 0xffff := by decide
  rw [hend]
  exact append_yields _ w

theorem Holds.length {row : CopyRow} {fields : List (Option (List UInt8))}
    (h : Holds rt oids names row fields) : fields.length = oids.length := by
  rw [← h.length_eq, List.length_zipIdx]

theorem mem_right {α β : Type} {R : α → β → Prop} {l : List α} {l' : List β}
    (h : List.Forall₂ R l l') : ∀ b ∈ l', ∃ a ∈ l, R a b := by
  induction h with
  | nil => exact fun _ hb => nomatch hb
  | @cons a b l l' hab _ ih =>
    intro b' hb'
    rcases List.mem_cons.mp hb' with rfl | hb'
    · exact ⟨a, List.mem_cons_self, hab⟩
    · obtain ⟨a', ha', h'⟩ := ih b' hb'
      exact ⟨a', List.mem_cons_of_mem a ha', h'⟩

/-- What the rows from row `r` on come to: tuples for the rows that can be written, up to the first
that cannot, wherever the buffer is handed out. -/
theorem copyTuples_cases (rt : Runtime) (hoids : oids.length ≤ 0x7fff) (names : List JsString) :
    ∀ (rows : List CopyRow) (r : Nat), ∃ table : List (List (Option (List UInt8))),
      List.Forall₂ (Holds rt oids names) (rows.take table.length) table ∧
      (∀ row ∈ rows.take table.length, Encodes oids names row) ∧
      (table.length = rows.length ∧ (∀ n w, (copyTuples oids names n rows r w).2 = .ok () ∧
        (copyTuples oids names n rows r w).1.flatten =
          w.buf ++ (table.flatMap tupleBytes ++ trailer)) ∨
      ∃ row err, rows[table.length]? = some row ∧
        Rejects names (r + table.length) row oids.zipIdx err ∧
        ∀ n w, (copyTuples oids names n rows r w).2 = .error err ∧
          ((copyTuples oids names n rows r w).1.flatten = [] ∨
            ∃ j, (copyTuples oids names n rows r w).1.flatten =
              w.buf ++ (table.take j).flatMap tupleBytes))
  | [], r => by
    refine ⟨[], .nil, fun _ h => (by cases h), .inl ⟨rfl, fun n w => ?_⟩⟩
    simp [copyTuples, trailer_written, Writer.app]
  | row :: rows, r => by
    rcases writeTuple_cases rt names r row oids 0 with ⟨fields, hfields, henc, hwrite⟩ |
      ⟨err, hrejects, hwrite⟩
    · obtain ⟨table, htable, hall, hrest⟩ := copyTuples_cases rt hoids names rows (r + 1)
      have hlen : fields.length = oids.length := Holds.length hfields
      have hbytes : ∀ w : Writer, (w.app (bigEndian 2 oids.length)).app (fields.flatMap framed) =
          w.app (tupleBytes fields) := by
        intro w
        simp [Writer.app, tupleBytes, hlen]
      -- a row that is written is handed out at once, or is in the buffer for the rest
      have hstep : ∀ n w, copyTuples oids names n (row :: rows) r w =
          if n ≤ (w.app (tupleBytes fields)).buf.length then
            ((w.app (tupleBytes fields)).buf ::
              (copyTuples oids names n rows (r + 1) { w with buf := [] }).1,
              (copyTuples oids names n rows (r + 1) { w with buf := [] }).2)
          else copyTuples oids names n rows (r + 1) (w.app (tupleBytes fields)) := by
        intro n w
        simp only [copyTuples, count_written hoids, hwrite, hbytes]
        rfl
      refine ⟨fields :: table, .cons hfields htable, ?_, ?_⟩
      · intro row' hrow'
        rcases List.mem_cons.mp hrow' with rfl | hrow'
        · exact henc
        · exact hall row' hrow'
      · rcases hrest with ⟨htl, hok⟩ | ⟨bad, err, hbad, hrejects, herr⟩
        · refine .inl ⟨congrArg (· + 1) htl, fun n w => ?_⟩
          rw [hstep]
          split
          · obtain ⟨hresult, hflat⟩ := hok n { w with buf := [] }
            refine ⟨hresult, ?_⟩
            rw [List.flatten_cons, hflat]
            simp [Writer.app]
          · obtain ⟨hresult, hflat⟩ := hok n (w.app (tupleBytes fields))
            refine ⟨hresult, ?_⟩
            rw [hflat]
            simp [Writer.app]
        · have hrow : r + (table.length + 1) = r + 1 + table.length := by omega
          refine .inr ⟨bad, err, hbad, ?_, fun n w => ?_⟩
          · rw [List.length_cons, hrow]
            exact hrejects
          · rw [hstep]
            split
            · obtain ⟨hresult, hflat⟩ := herr n { w with buf := [] }
              refine ⟨hresult, .inr ?_⟩
              rcases hflat with hflat | ⟨j, hflat⟩
              · refine ⟨1, ?_⟩
                rw [List.flatten_cons, hflat]
                simp [Writer.app]
              · refine ⟨j + 1, ?_⟩
                rw [List.flatten_cons, hflat]
                simp [Writer.app]
            · obtain ⟨hresult, hflat⟩ := herr n (w.app (tupleBytes fields))
              refine ⟨hresult, ?_⟩
              rcases hflat with hflat | ⟨j, hflat⟩
              · exact .inl hflat
              · refine .inr ⟨j + 1, ?_⟩
                rw [hflat]
                simp [Writer.app]
    · refine ⟨[], .nil, fun _ h => (by cases h), .inr ⟨row, err, rfl, hrejects, fun n w => ?_⟩⟩
      simp [copyTuples, count_written hoids, hwrite]

theorem copyRowsBinary_eq (oids : List Oid) (names : List JsString) (n : Nat)
    (rows : List CopyRow) :
    copyRowsBinary oids names n rows = copyTuples oids names n rows 0 ⟨header, 0⟩ := rfl

/-- **The chunks, put together, are the rows**: one header, a tuple for each row with a field for
each of its cells, and the trailer, whatever the size of the chunks.  A row with a cell that cannot
be written is the end of it, and only whole tuples of rows before it have been handed out. -/
theorem copyRowsBinary_parses (rt : Runtime) (hoids : oids.length ≤ 0x7fff) (names : List JsString)
    (n : Nat) (rows : List CopyRow) :
    ((copyRowsBinary oids names n rows).2 = .ok () → ∃ table,
      (copyRowsBinary oids names n rows).1.flatten =
        header ++ (table.flatMap tupleBytes ++ trailer) ∧
      CopyBinary.parse (copyRowsBinary oids names n rows).1.flatten = some table ∧
      List.Forall₂ (Holds rt oids names) rows table ∧
      ∀ m, (copyRowsBinary oids names m rows).2 = .ok () ∧
        (copyRowsBinary oids names m rows).1.flatten =
          (copyRowsBinary oids names n rows).1.flatten) ∧
    ∀ k row, rows[k]? = some row → (∀ row' ∈ rows.take k, Encodes oids names row') →
      ¬Encodes oids names row → ∃ err, (copyRowsBinary oids names n rows).2 = .error err ∧
        Rejects names k row oids.zipIdx err ∧
        ((copyRowsBinary oids names n rows).1.flatten = [] ∨ ∃ table,
          List.Forall₂ (Holds rt oids names) (rows.take table.length) table ∧ table.length ≤ k ∧
            (copyRowsBinary oids names n rows).1.flatten =
              header ++ table.flatMap tupleBytes) := by
  obtain ⟨table, htable, henc, hrun⟩ := copyTuples_cases rt hoids names rows 0
  simp only [copyRowsBinary_eq]
  have hfits : ∀ t ∈ table, t.length ≤ 0x7fff ∧ ∀ f ∈ t, Fits f := by
    intro t ht
    obtain ⟨row, -, hrow⟩ := mem_right htable t ht
    refine ⟨by rw [hrow.length]; exact hoids, fun f hf => ?_⟩
    obtain ⟨p, -, hfield⟩ := mem_right hrow f hf
    exact hfield.fits
  rcases hrun with ⟨hlen, hok⟩ | ⟨bad, err, hbad, hrejects, herr⟩
  · constructor
    · intro _
      obtain ⟨-, hflat⟩ := hok n ⟨header, 0⟩
      rw [hlen, List.take_length] at htable
      refine ⟨table, hflat, ?_, htable, fun m => ?_⟩
      · rw [hflat]
        exact CopyBinary.parse_table hfits
      · obtain ⟨hresult, hflat'⟩ := hok m ⟨header, 0⟩
        exact ⟨hresult, hflat'.trans hflat.symm⟩
    · intro k row hk _ hnot
      rw [hlen, List.take_length] at henc
      exact absurd (henc row (List.mem_of_getElem? hk)) hnot
  · obtain ⟨hresult, hflat⟩ := herr n ⟨header, 0⟩
    rw [Nat.zero_add] at hrejects
    constructor
    · intro hok
      rw [hresult] at hok
      cases hok
    · intro k row hk hbefore hnot
      -- the first row that cannot be written is the one that is thrown for
      have hk' : k = table.length := by
        rcases Nat.lt_trichotomy k table.length with hlt | heq | hgt
        · have hmem : row ∈ rows.take table.length :=
            List.mem_of_getElem? ((List.getElem?_take_of_lt hlt).trans hk)
          exact absurd (henc row hmem) hnot
        · exact heq
        · have hmem : bad ∈ rows.take k :=
            List.mem_of_getElem? ((List.getElem?_take_of_lt hgt).trans hbad)
          exact absurd (hbefore bad hmem) hrejects.not_encodes
      subst hk'
      cases hbad.symm.trans hk
      refine ⟨err, hresult, hrejects, hflat.imp_right fun ⟨j, hj⟩ => ?_⟩
      refine ⟨table.take j, ?_, by rw [List.length_take]; exact Nat.min_le_right _ _, hj⟩
      have hpart := List.forall₂_take j htable
      rwa [List.take_take, ← List.length_take] at hpart

/-- A text with a surrogate that stands alone, and NULL; the rows do not fit one chunk. -/
def sampleTuples : List CopyRow := [.list [.string [0xd800]], .list [.null]]

theorem sampleTuples_parse : [25].length ≤ 0x7fff ∧ ∃ table,
    CopyBinary.parse (copyRowsBinary [25] [[0x61]] 4 sampleTuples).1.flatten = some table ∧
      List.Forall₂ (Holds Plans.hexOnly.env.rt [25] [[0x61]]) sampleTuples table := by
  obtain ⟨hok, -⟩ := copyRowsBinary_parses Plans.hexOnly.env.rt
    (show [25].length ≤ 0x7fff by decide) [[0x61]] 4 sampleTuples
  obtain ⟨table, -, hparse, hholds, -⟩ := hok (by decide)
  exact ⟨by decide, table, hparse, hholds⟩

/-- The number 1 in a column of int8 is read back as `1n`. -/
theorem int8_cell_differs :
    copyRowsBinary [20] [[0x61]] 4 [.list [.number 0x3FF0000000000000]] =
      ([header ++ tupleBytes [some (bigEndian 8 1)], trailer], .ok ()) ∧
    CopyBinary.parse (header ++ ([[some (bigEndian 8 1)]].flatMap tupleBytes ++ trailer)) =
      some [[some (bigEndian 8 1)]] ∧
    pickBinary Plans.hexOnly.env.rt.standard 20 none = .ok Cells.binInt8BigInt ∧
    ReadsAs Cells.binInt8BigInt (bigEndian 8 1) (.bigint 1) ∧
    Value.bigint 1 ≠ .number 0x3FF0000000000000 := by
  refine ⟨by decide, ?_, rfl, readInt8 (by decide), fun h => by cases h⟩
  have htable : ∀ t ∈ [[some (bigEndian 8 1)]], t.length ≤ 0x7fff ∧ ∀ f ∈ t, Fits f := by
    intro t ht
    cases List.mem_singleton.mp ht
    refine ⟨by decide, fun f hf => ?_⟩
    cases List.mem_singleton.mp hf
    exact fits_some.mpr (by decide)
  exact CopyBinary.parse_table htable

end Minipg.Encode
