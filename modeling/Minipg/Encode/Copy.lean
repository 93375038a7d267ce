import Minipg.Encode.Text
import Mathlib.Data.List.Forall2

/-!
# COPY in the text format

`copyRowsText` (`src/encode.ts`) writes rows in the text format of COPY and hands the buffer out in
chunks.  `CopyText.parse` are PostgreSQL's rules of that format: lines up to a newline that no
backslash escapes, fields up to such a tab, `\N` for NULL and the escapes of the backslash.  The
chunks of rows of strings, put together, are read as these rows (`copyRowsText_parses`).
-/

namespace Minipg.Encode

open Js Writer Appending

/-! ### The rows -/

/-- A row as an array, or by the names of its columns. -/
inductive CopyRow
  | list (cells : List Value)
  | record (get : JsString → Value)

/-- `cell(row, names, c)`, with the name of the column. -/
def CopyRow.cell (row : CopyRow) (name : JsString) (c : Nat) : Value :=
  match row with
  | .list cells => (cells[c]?).getD .undefined
  | .record get => get name

/-- What follows the backslash. -/
def copyEscape (c : UInt16) : Option UInt16 :=
  if c = 0x5c then some 0x5c
  else if c = 0x09 then some 0x74
  else if c = 0x0a then some 0x6e
  else if c = 0x0d then some 0x72
  else none

/-- `run` is `s.slice(start, i)`. -/
def writeEscCopyRun (run : JsString) : JsString → Write Unit
  | [] => if run ≠ [] then str run else pure ()
  | c :: rest =>
    match copyEscape c with
    | some e => do
      if run ≠ [] then str run
      byte 0x5c
      byte e.toNat
      writeEscCopyRun [] rest
    | none => writeEscCopyRun (run ++ [c]) rest

def writeEscCopy (s : JsString) : Write Unit := writeEscCopyRun [] s

def copyTextCellInto (js : Engine) : Value → Write Unit
  | .string s => writeEscCopy s
  | .number x => asc (js.string (.number x))
  | .bigint n => asc (js.string (.bigint n))
  | .boolean b => byte (if b then 0x74 else 0x66)
  | .date t => writeIso t
  | .buffer b => do
    asc (ascii "\\\\x")
    asc (hex b)
  | .array arr => do writeEscCopy (← stringified js (.array arr))
  | .object id => do writeEscCopy (← stringified js (.object id))
  | .other id => writeEscCopy (js.string (.other id))
  | .undefined => writeEscCopy (js.string .undefined)
  | .null => do writeEscCopy (← stringified js .null)

/-- A cell, or the marker of NULL. -/
def cellInto (js : Engine) (v : Value) : Write Unit :=
  if v.isNullish then asc (ascii "\\N") else copyTextCellInto js v

/-- The cells of a row from column `c` on. -/
def writeCells (js : Engine) (row : CopyRow) : List JsString → Nat → Write Unit
  | [], _ => pure ()
  | name :: names, c => do
    if c ≠ 0 then byte 0x09
    cellInto js (row.cell name c)
    writeCells js row names (c + 1)

def writeRow (js : Engine) (names : List JsString) (row : CopyRow) : Write Unit := do
  writeCells js row names 0
  byte 0x0a

/-- The chunks that are yielded, and the error of a value that cannot be written. -/
def copyRowsText (js : Engine) (names : List JsString) (chunkBytes : Nat) :
    List CopyRow → Writer → List (List UInt8) × Except Thrown Unit
  | [], w => (if w.buf ≠ [] then [w.buf] else [], .ok ())
  | row :: rows, w =>
    match writeRow js names row w with
    | .error e => ([], .error e)
    | .ok ((), w) =>
      if chunkBytes ≤ w.buf.length then
        let (chunks, r) := copyRowsText js names chunkBytes rows { w with buf := [] }
        (w.buf :: chunks, r)
      else copyRowsText js names chunkBytes rows w

/-! ### The rules of the server -/

namespace CopyText

/-- The lines of the data.  A backslash keeps the byte after it in the line; backslash and period
alone on a line end the data, and anywhere else they are an error, as is a carriage return. -/
def lines : List UInt8 → List UInt8 → Option (List (List UInt8))
  | [], line => if line = [] then some [] else some [line]
  | b :: rest, line =>
    if b = 0x0a then (lines rest []).map (line :: ·)
    else if b = 0x0d then none
    else if b = 0x5c then
      match rest with
      | [] => some [line ++ [b]]
      | c :: rest =>
        if c = 0x2e then if line = [] ∧ rest.head?.all (· = 0x0a) then some [] else none
        else lines rest (line ++ [b, c])
    else lines rest (line ++ [b])

/-- The fields of a line, with their escapes. -/
def fields : List UInt8 → List UInt8 → List (List UInt8)
  | [], field => [field]
  | b :: rest, field =>
    if b = 0x09 then field :: fields rest []
    else if b = 0x5c then
      match rest with
      | [] => [field ++ [b]]
      | c :: rest => fields rest (field ++ [b, c])
    else fields rest (field ++ [b])

def octal? (b : UInt8) : Option Nat :=
  if 0x30 ≤ b.toNat ∧ b.toNat ≤ 0x37 then some (b.toNat - 0x30) else none

def hexadecimal? (b : UInt8) : Option Nat :=
  if 0x30 ≤ b.toNat ∧ b.toNat ≤ 0x39 then some (b.toNat - 0x30)
  else if 0x41 ≤ b.toNat ∧ b.toNat ≤ 0x46 then some (b.toNat - 0x37)
  else if 0x61 ≤ b.toNat ∧ b.toNat ≤ 0x66 then some (b.toNat - 0x57)
  else none

/-- At most `k` more digits of a number. -/
def number (digit? : UInt8 → Option Nat) (base : Nat) : Nat → Nat → List UInt8 → Nat × List UInt8
  | k + 1, n, b :: rest =>
    match digit? b with
    | some d => number digit? base k (n * base + d) rest
    | none => (n, b :: rest)
  | _, n, bs => (n, bs)

/-- The byte that follows a backslash, where it is no digit and no `x`. -/
def escaped (c : UInt8) : UInt8 :=
  if c = 0x62 then 0x08
  else if c = 0x66 then 0x0c
  else if c = 0x6e then 0x0a
  else if c = 0x72 then 0x0d
  else if c = 0x74 then 0x09
  else if c = 0x76 then 0x0b
  else c

theorem number_length (digit? : UInt8 → Option Nat) (base : Nat) : ∀ (k n : Nat) (bs : List UInt8),
    (number digit? base k n bs).2.length ≤ bs.length
  | 0, _, bs => by
    rw [number]
    rintro k b rest ⟨⟩
  | _ + 1, _, [] => Nat.le_refl _
  | k + 1, n, b :: rest => by
    unfold number
    cases digit? b with
    | none => exact Nat.le_refl _
    | some d => exact Nat.le_succ_of_le (number_length digit? base k _ rest)

/-- A field without its escapes. -/
def unescape : List UInt8 → List UInt8
  | [] => []
  | b :: rest =>
    if b ≠ 0x5c then b :: unescape rest
    else
      match rest with
      | [] => [b]
      | c :: rest =>
        match octal? c with
        | some d =>
          byteOf ((number octal? 8 2 d rest).1 % 256) :: unescape (number octal? 8 2 d rest).2
        | none =>
          if c = 0x78 then
            match rest with
            | [] => [c]
            | h :: more =>
              match hexadecimal? h with
              | some d =>
                byteOf (number hexadecimal? 16 1 d more).1 ::
                  unescape (number hexadecimal? 16 1 d more).2
              | none => c :: unescape (h :: more)
          else escaped c :: unescape rest
termination_by bs => bs.length
decreasing_by
  · simp
  · have := number_length octal? 8 2 d rest
    simp only [List.length_cons]
    omega
  · have := number_length hexadecimal? 16 1 d more
    simp only [List.length_cons]
    omega
  · simp only [List.length_cons]
    omega
  · simp only [List.length_cons]
    omega

/-- `\N` is NULL; a value is text in UTF-8. -/
def value (field : List UInt8) : Option (Option JsString) :=
  if field = [0x5c, 0x4e] then some none else (utf8Decode (unescape field)).map some

/-- A line has one field for each column. -/
def row (columns : Nat) (line : List UInt8) : Option (List (Option JsString)) :=
  if (fields line []).length = columns then (fields line []).mapM value else none

def parse (columns : Nat) (data : List UInt8) : Option (List (List (Option JsString))) :=
  if (0 : UInt8) ∈ data then none else (lines data []).bind fun ls => ls.mapM (row columns)

end CopyText

/-! ### What is written -/

/-- A text with its escapes. -/
def escCopy (s : JsString) : JsString :=
  s.flatMap fun c =>
    match copyEscape c with
    | some e => [0x5c, e]
    | none => [c]

theorem copyEscape_ascii {c e : UInt16} (h : copyEscape c = some e) :
    IsAscii c ∧ IsAscii e := by
  unfold copyEscape at h
  split at h
  · next hc => cases h; subst hc; decide
  split at h
  · next hc => cases h; subst hc; decide
  split at h
  · next hc => cases h; subst hc; decide
  split at h
  · next hc => cases h; subst hc; decide
  · cases h

theorem escCopy_special {c e : UInt16} (h : copyEscape c = some e) (s : JsString) :
    escCopy (c :: s) = 0x5c :: e :: escCopy s := by
  simp [escCopy, h]

theorem escCopy_plain {c : UInt16} (h : copyEscape c = none) (s : JsString) :
    escCopy (c :: s) = c :: escCopy s := by
  simp [escCopy, h]

theorem byte_ascii {e : UInt16} (h : IsAscii e) :
    byteOf ((e.toNat : Int) % 256).toNat = byteOf e.toNat := by
  have hlt : e.toNat < 128 := h
  have hmod : ((e.toNat : Int) % 256).toNat = e.toNat := by omega
  rw [hmod]

/-- The runs between the characters that are escaped. -/
theorem writeEscCopyRun_yields (s : JsString) : ∀ run,
    Yields (writeEscCopyRun run s) (.ok ((), utf8 (run ++ escCopy s))) := by
  induction s with
  | nil =>
    intro run
    show Yields _ (.ok ((), utf8 (run ++ [])))
    rw [List.append_nil]
    exact run_yields run
  | cons c rest ih =>
    intro run
    cases hc : copyEscape c with
    | some e =>
      have hlow : ∀ u ∈ (0x5c :: e :: escCopy rest).head?, isLow u = false := by
        intro u hu
        obtain rfl : 0x5c = u := Option.some.inj hu
        rfl
      have hslash : IsAscii (0x5c : UInt16) := by decide
      have he := (copyEscape_ascii hc).2
      rw [escCopy_special hc, utf8_append run hlow, utf8_cons_ascii hslash, utf8_cons_ascii he]
      have hbyte : Yields (byte e.toNat) (.ok ((), [byteOf e.toNat])) := by
        show Yields (append [byteOf ((e.toNat : Int) % 256).toNat]) _
        rw [byte_ascii he]
        exact append_yields _
      have hbytes := (run_yields run).bind fun _ =>
        (append_yields [byteOf (92 : Nat)]).bind fun _ => hbyte.bind fun _ => ih []
      have hstep : writeEscCopyRun run (c :: rest) =
          (do (if run ≠ [] then str run else pure ()); byte 0x5c; byte e.toNat
              writeEscCopyRun [] rest) := by
        simp only [writeEscCopyRun, hc]
        split <;> rfl
      rw [hstep]
      exact hbytes
    | none =>
      have hstep : writeEscCopyRun run (c :: rest) = writeEscCopyRun (run ++ [c]) rest := by
        simp only [writeEscCopyRun, hc]
      have hplain := ih (run ++ [c])
      rw [List.append_assoc] at hplain
      rw [escCopy_plain hc, hstep]
      exact hplain

/-- A byte with its escape. -/
def escByte (b : UInt8) : List UInt8 :=
  if b = 0x5c then [0x5c, 0x5c]
  else if b = 0x09 then [0x5c, 0x74]
  else if b = 0x0a then [0x5c, 0x6e]
  else if b = 0x0d then [0x5c, 0x72]
  else [b]

theorem escByte_plain {b : UInt8} (h : 14 ≤ b.toNat) (h' : b.toNat ≠ 92) : escByte b = [b] := by
  have hne : ∀ c : UInt8, c.toNat ≠ b.toNat → b ≠ c := fun c hc he => hc (he ▸ rfl)
  unfold escByte
  rw [if_neg (hne _ (by simp; omega)), if_neg (hne _ (by simp; omega)),
    if_neg (hne _ (by simp; omega)), if_neg (hne _ (by simp; omega))]

/-- A code unit that is no ASCII has no byte that is escaped. -/
theorem flatMap_high {bs : List UInt8} (h : ∀ b ∈ bs, 128 ≤ b.toNat) : bs.flatMap escByte = bs := by
  induction bs with
  | nil => rfl
  | cons b bs ih =>
    have hb := h b List.mem_cons_self
    rw [List.flatMap_cons, escByte_plain (by omega) (by omega),
      ih fun c hc => h c (List.mem_cons_of_mem b hc)]
    rfl

/-- The escapes of ASCII. -/
theorem escByte_ascii {u : UInt16} (h : IsAscii u) :
    (match copyEscape u with
      | some e => [0x5c, byteOf e.toNat]
      | none => [byteOf u.toNat]) = escByte (byteOf u.toNat) := by
  have hall : ∀ n < 128, (match copyEscape (UInt16.ofNat n) with
      | some e => [0x5c, byteOf e.toNat]
      | none => [byteOf n]) = escByte (byteOf n) := by
    decide +kernel
  have hu := hall u.toNat h
  rwa [UInt16.ofNat_toNat] at hu

theorem copyEscape_high {u : UInt16} (h : ¬IsAscii u) : copyEscape u = none := by
  cases hc : copyEscape u with
  | none => rfl
  | some e => exact absurd (copyEscape_ascii hc).1 h

/-- A code unit that completes no pair is still one after the escapes. -/
theorem escCopy_head {s : JsString} (h : ∀ v ∈ s.head?, isLow v = false) :
    ∀ v ∈ (escCopy s).head?, isLow v = false := by
  cases s with
  | nil => exact h
  | cons c s =>
    intro v hv
    cases hc : copyEscape c with
    | some e =>
      rw [escCopy_special hc] at hv
      cases hv
      rfl
    | none =>
      rw [escCopy_plain hc] at hv
      cases hv
      exact h c rfl

/-- **The escapes of a text** are those of its bytes. -/
theorem utf8_escCopy : ∀ s : JsString, utf8 (escCopy s) = (utf8 s).flatMap escByte
  | [] => rfl
  | u :: rest => by
    by_cases hu : IsAscii u
    · have hbytes := escByte_ascii hu
      rw [utf8_cons_ascii hu, List.flatMap_cons, ← hbytes, ← utf8_escCopy rest]
      cases hc : copyEscape u with
      | some e =>
        have hslash : IsAscii (0x5c : UInt16) := by decide
        rw [escCopy_special hc, utf8_cons_ascii hslash, utf8_cons_ascii (copyEscape_ascii hc).2]
        rfl
      | none =>
        rw [escCopy_plain hc, utf8_cons_ascii hu]
        rfl
    · rw [escCopy_plain (copyEscape_high hu)]
      have hone : isHigh u = false ∨ (∀ v ∈ rest.head?, isLow v = false) →
          utf8 (u :: escCopy rest) = (utf8 (u :: rest)).flatMap escByte := by
        intro hno
        rw [utf8_cons hno, utf8_cons (hno.imp_right escCopy_head), List.flatMap_append,
          flatMap_high (unitBytes_high hu), utf8_escCopy rest]
      cases rest with
      | nil => exact hone (.inr fun _ hv => (nomatch hv))
      | cons v more =>
        by_cases hp : (isHigh u && isLow v) = true
        · obtain ⟨hh, hl⟩ := Bool.and_eq_true_iff.mp hp
          have hv : ¬IsAscii v := fun hv => absurd (hv.not_surrogate.2 ▸ hl) (by decide)
          have hpair : ∀ t, utf8 (u :: v :: t) = utf8Pair u v ++ utf8 t := fun t => if_pos hp
          rw [escCopy_plain (copyEscape_high hv), hpair, hpair, List.flatMap_append,
            flatMap_high (utf8Pair_high hh hl), utf8_escCopy more]
        · refine hone ?_
          cases hh : isHigh u with
          | false => exact .inl rfl
          | true =>
            rw [hh, Bool.true_and, Bool.not_eq_true] at hp
            refine .inr fun w hw => ?_
            cases hw
            exact hp

/-! ### The chunks -/

/-- A value that is a string or NULL, as the cell that is to be read. -/
inductive IsCell : Value → Option JsString → Prop
  | undefined : IsCell .undefined none
  | null : IsCell .null none
  | string (s : JsString) : IsCell (.string s) (some s)

/-- The cells of a row, for the columns from `c` on. -/
def HoldsFrom (c : Nat) (names : List JsString) (row : CopyRow) (cells : List (Option JsString)) :
    Prop :=
  List.Forall₂ (fun p cell => IsCell (row.cell p.1 p.2) cell) (names.zipIdx c) cells

def cellBytes : Option JsString → List UInt8
  | none => [0x5c, 0x4e]
  | some s => (utf8 s).flatMap escByte

/-- Fields with tabs between them. -/
def tabbed : List (List UInt8) → List UInt8
  | [] => []
  | f :: fs => f ++ fs.flatMap (0x09 :: ·)

def lineBytes (cells : List (Option JsString)) : List UInt8 := tabbed (cells.map cellBytes)

variable {js : Engine} {names : List JsString}

theorem cell_yields {v : Value} {cell : Option JsString} (h : IsCell v cell) :
    Yields (cellInto js v) (.ok ((), cellBytes cell)) := by
  cases h with
  | undefined => exact append_yields _
  | null => exact append_yields _
  | string s =>
    have hs := writeEscCopyRun_yields s []
    rw [List.nil_append, utf8_escCopy] at hs
    exact hs

/-- What is written for the columns from `c` on. -/
theorem writeCells_yields {row : CopyRow} : ∀ {names : List JsString} {c : Nat}
    {cells : List (Option JsString)}, HoldsFrom c names row cells →
    Yields (writeCells js row names c) (.ok ((), if c ≠ 0 then
      (cells.map cellBytes).flatMap (0x09 :: ·) else lineBytes cells))
  | [], c, cells, h => by
    cases h
    have hnil : (if c ≠ 0 then (([] : List (Option JsString)).map cellBytes).flatMap (0x09 :: ·)
        else lineBytes []) = [] := by
      split <;> rfl
    rw [hnil]
    exact .pure ()
  | name :: names, c, cells, h => by
    cases h with
    | @cons _ cell _ cells hcell hrest =>
      have htab : Yields (if c ≠ 0 then byte 0x09 else pure ())
          (.ok ((), if c ≠ 0 then [0x09] else [])) := by
        by_cases hc : c ≠ 0
        · rw [if_pos hc, if_pos hc]
          exact append_yields _
        · rw [if_neg hc, if_neg hc]
          exact .pure ()
      have hnext := writeCells_yields hrest
      rw [if_pos (Nat.succ_ne_zero c)] at hnext
      have hall := htab.bind fun _ => (@cell_yields js _ _ hcell).bind fun _ => hnext
      have hstep : writeCells js row (name :: names) c = (do
          (if c ≠ 0 then byte 0x09 else pure ())
          cellInto js (row.cell name c)
          writeCells js row names (c + 1)) := by
        rw [writeCells]
        split <;> rfl
      have hbytes : (if c ≠ 0 then ((cell :: cells).map cellBytes).flatMap (0x09 :: ·)
          else lineBytes (cell :: cells)) = (if c ≠ 0 then [0x09] else []) ++
            (cellBytes cell ++ (cells.map cellBytes).flatMap (0x09 :: ·)) := by
        split <;> rfl
      rw [hstep, hbytes]
      exact hall

def tableBytes (table : List (List (Option JsString))) : List UInt8 :=
  table.flatMap fun cells => lineBytes cells ++ [0x0a]

/-- **The chunks, put together**, wherever they are cut. -/
theorem copyRowsText_chunks (chunkBytes : Nat) {rows : List CopyRow}
    {table : List (List (Option JsString))} (h : List.Forall₂ (HoldsFrom 0 names) rows table) :
    ∀ w : Writer, (copyRowsText js names chunkBytes rows w).2 = .ok () ∧
      (copyRowsText js names chunkBytes rows w).1.flatten = w.buf ++ tableBytes table := by
  induction h with
  | nil =>
    intro w
    refine ⟨rfl, ?_⟩
    show (if w.buf ≠ [] then [w.buf] else []).flatten = w.buf ++ []
    by_cases hw : w.buf = []
    · rw [if_neg (not_not.mpr hw), hw]
      rfl
    · rw [if_pos hw, List.flatten_singleton, List.append_nil]
  | @cons row cells rows table hrow _ ih =>
    intro w
    have hwrite : writeRow js names row w = .ok ((), w.app (lineBytes cells ++ [0x0a])) :=
      ((writeCells_yields hrow).bind fun _ => append_yields [byteOf (10 : Nat)]) w
    have hbytes : tableBytes (cells :: table) = lineBytes cells ++ [0x0a] ++ tableBytes table := rfl
    rw [copyRowsText, hwrite, hbytes, ← List.append_assoc]
    dsimp only
    split
    · obtain ⟨hok, hflat⟩ := ih { w.app (lineBytes cells ++ [0x0a]) with buf := [] }
      refine ⟨hok, ?_⟩
      rw [List.flatten_cons, hflat]
      rfl
    · exact ih _

/-! ### What the server reads -/

namespace CopyText

theorem lines_newline (rest line : List UInt8) :
    lines (0x0a :: rest) line = (lines rest []).map (line :: ·) := by
  rw [lines.eq_def]
  rfl

theorem lines_plain {b : UInt8} (hnl : b ≠ 0x0a) (hcr : b ≠ 0x0d) (hslash : b ≠ 0x5c)
    (rest line : List UInt8) : lines (b :: rest) line = lines rest (line ++ [b]) := by
  rw [lines.eq_def]
  dsimp only
  rw [if_neg hnl, if_neg hcr, if_neg hslash]

theorem fields_tab (rest field : List UInt8) :
    fields (0x09 :: rest) field = field :: fields rest [] := by
  rw [fields.eq_def]
  rfl

theorem fields_plain {b : UInt8} (htab : b ≠ 0x09) (hslash : b ≠ 0x5c) (rest field : List UInt8) :
    fields (b :: rest) field = fields rest (field ++ [b]) := by
  rw [fields.eq_def]
  dsimp only
  rw [if_neg htab, if_neg hslash]

theorem unescape_plain {b : UInt8} (h : b ≠ 0x5c) (rest : List UInt8) :
    unescape (b :: rest) = b :: unescape rest := by
  rw [unescape.eq_def]
  dsimp only
  rw [if_pos h]

theorem unescape_escape {c : UInt8} (hoct : octal? c = none) (hx : c ≠ 0x78) (rest : List UInt8) :
    unescape (0x5c :: c :: rest) = escaped c :: unescape rest := by
  rw [unescape.eq_def]
  dsimp only
  rw [if_neg (not_not.mpr rfl), hoct]
  dsimp only
  rw [if_neg hx]

/-- An escaped byte stands in a line. -/
theorem lines_escByte (b : UInt8) (rest line : List UInt8) :
    lines (escByte b ++ rest) line = lines rest (line ++ escByte b) := by
  unfold escByte
  split
  · rfl
  split
  · rfl
  split
  · rfl
  split
  · rfl
  next hslash htab hnl hcr =>
    exact lines_plain hnl hcr hslash rest line

theorem fields_escByte (b : UInt8) (rest field : List UInt8) :
    fields (escByte b ++ rest) field = fields rest (field ++ escByte b) := by
  unfold escByte
  split
  · rfl
  split
  · rfl
  split
  · rfl
  split
  · rfl
  next hslash htab hnl hcr =>
    exact fields_plain htab hslash rest field

theorem lines_cell (cell : Option JsString) (rest line : List UInt8) :
    lines (cellBytes cell ++ rest) line = lines rest (line ++ cellBytes cell) := by
  cases cell with
  | none => rfl
  | some s =>
    show lines ((utf8 s).flatMap escByte ++ rest) line =
      lines rest (line ++ (utf8 s).flatMap escByte)
    induction utf8 s generalizing line with
    | nil =>
      rw [List.flatMap_nil, List.append_nil]
      rfl
    | cons b bs ih =>
      rw [List.flatMap_cons, List.append_assoc, lines_escByte, ih, List.append_assoc]

theorem fields_cell (cell : Option JsString) (rest field : List UInt8) :
    fields (cellBytes cell ++ rest) field = fields rest (field ++ cellBytes cell) := by
  cases cell with
  | none => rfl
  | some s =>
    show fields ((utf8 s).flatMap escByte ++ rest) field =
      fields rest (field ++ (utf8 s).flatMap escByte)
    induction utf8 s generalizing field with
    | nil =>
      rw [List.flatMap_nil, List.append_nil]
      rfl
    | cons b bs ih =>
      rw [List.flatMap_cons, List.append_assoc, fields_escByte, ih, List.append_assoc]

/-- The cells behind the first one. -/
theorem lines_more (cells : List (Option JsString)) : ∀ rest line : List UInt8,
    lines ((cells.map cellBytes).flatMap (0x09 :: ·) ++ rest) line =
      lines rest (line ++ (cells.map cellBytes).flatMap (0x09 :: ·)) := by
  induction cells with
  | nil =>
    intro rest line
    show lines rest line = lines rest (line ++ [])
    rw [List.append_nil]
  | cons cell cells ih =>
    intro rest line
    have htab : lines (0x09 :: (cellBytes cell ++ ((cells.map cellBytes).flatMap (0x09 :: ·) ++
        rest))) line = lines (cellBytes cell ++ ((cells.map cellBytes).flatMap (0x09 :: ·) ++ rest))
          (line ++ [0x09]) := lines_plain (by decide) (by decide) (by decide) _ _
    rw [List.map_cons, List.flatMap_cons, List.append_assoc, List.cons_append, htab, lines_cell, ih]
    simp

theorem lines_line (cells : List (Option JsString)) (rest line : List UInt8) :
    lines (lineBytes cells ++ rest) line = lines rest (line ++ lineBytes cells) := by
  cases cells with
  | nil =>
    show lines rest line = lines rest (line ++ [])
    rw [List.append_nil]
  | cons cell cells =>
    show lines (cellBytes cell ++ _ ++ rest) line = lines rest (line ++ (cellBytes cell ++ _))
    rw [List.append_assoc, lines_cell, lines_more, List.append_assoc]

theorem lines_table (table : List (List (Option JsString))) :
    lines (tableBytes table) [] = some (table.map lineBytes) := by
  induction table with
  | nil => rfl
  | cons cells table ih =>
    show lines (lineBytes cells ++ [0x0a] ++ tableBytes table) [] = _
    rw [List.append_assoc, lines_line, List.nil_append, List.singleton_append, lines_newline, ih]
    rfl

theorem fields_more (cells : List (Option JsString)) : ∀ field : List UInt8,
    fields ((cells.map cellBytes).flatMap (0x09 :: ·)) field = field :: cells.map cellBytes := by
  induction cells with
  | nil => exact fun _ => rfl
  | cons cell cells ih =>
    intro field
    rw [List.map_cons, List.flatMap_cons, List.cons_append, fields_tab, fields_cell, ih,
      List.nil_append]

theorem fields_line {cells : List (Option JsString)} (h : cells ≠ []) :
    fields (lineBytes cells) [] = cells.map cellBytes := by
  obtain ⟨cell, cells, rfl⟩ := List.exists_cons_of_ne_nil h
  show fields (cellBytes cell ++ _) [] = _
  rw [fields_cell, fields_more]
  rfl

theorem unescape_escByte (b : UInt8) (rest : List UInt8) :
    unescape (escByte b ++ rest) = b :: unescape rest := by
  unfold escByte
  split
  · next h =>
    subst h
    exact unescape_escape (by decide) (by decide) rest
  split
  · next h =>
    subst h
    exact unescape_escape (by decide) (by decide) rest
  split
  · next h =>
    subst h
    exact unescape_escape (by decide) (by decide) rest
  split
  · next h =>
    subst h
    exact unescape_escape (by decide) (by decide) rest
  next hslash _ _ _ =>
    exact unescape_plain hslash rest

theorem unescape_escaped (bs : List UInt8) : unescape (bs.flatMap escByte) = bs := by
  induction bs with
  | nil => rw [List.flatMap_nil, unescape]
  | cons b bs ih => rw [List.flatMap_cons, unescape_escByte, ih]

/-- No text is written as the marker of NULL. -/
theorem escaped_ne_null (bs : List UInt8) : bs.flatMap escByte ≠ [0x5c, 0x4e] := by
  cases bs with
  | nil => exact fun h => nomatch h
  | cons b bs =>
    rw [List.flatMap_cons]
    unfold escByte
    intro h
    split at h
    · cases h
    split at h
    · cases h
    split at h
    · cases h
    split at h
    · cases h
    next hslash _ _ _ => exact hslash (List.cons.inj h).1

theorem value_cell {cell : Option JsString} (h : ∀ s ∈ cell, isWellFormed s) :
    value (cellBytes cell) = some cell := by
  cases cell with
  | none => rfl
  | some s =>
    have hno : cellBytes (some s) ≠ [0x5c, 0x4e] := escaped_ne_null _
    have hbytes : unescape (cellBytes (some s)) = utf8 s := unescape_escaped _
    unfold value
    rw [if_neg hno, hbytes, utf8Decode_utf8 (h s rfl)]
    rfl

theorem row_line {cells : List (Option JsString)} (hne : cells ≠ [])
    (h : ∀ cell ∈ cells, ∀ s ∈ cell, isWellFormed s) :
    row cells.length (lineBytes cells) = some cells := by
  unfold row
  rw [fields_line hne, List.length_map, if_pos rfl]
  clear hne
  induction cells with
  | nil => rfl
  | cons cell cells ih =>
    rw [List.map_cons, List.mapM_cons, value_cell (h cell List.mem_cons_self),
      ih fun c hc => h c (List.mem_cons_of_mem cell hc)]
    rfl

theorem escByte_noNul {b : UInt8} (h : b ≠ 0) : 0 ∉ escByte b := by
  unfold escByte
  split
  · decide
  split
  · decide
  split
  · decide
  split
  · decide
  · exact fun hm => h (List.mem_singleton.mp hm).symm

theorem cell_noNul {cell : Option JsString} (h : ∀ s ∈ cell, 0 ∉ s) : 0 ∉ cellBytes cell := by
  cases cell with
  | none => decide
  | some s =>
    intro hm
    obtain ⟨b, hb, hz⟩ := List.mem_flatMap.mp hm
    refine escByte_noNul ?_ hz
    rintro rfl
    exact utf8_noNul (h s rfl) hb

theorem line_noNul {cells : List (Option JsString)} (h : ∀ cell ∈ cells, ∀ s ∈ cell, 0 ∉ s) :
    0 ∉ lineBytes cells := by
  cases cells with
  | nil => exact fun hm => nomatch hm
  | cons cell cells =>
    refine List.not_mem_append (cell_noNul (h cell List.mem_cons_self)) fun hm => ?_
    obtain ⟨f, hf, hz⟩ := List.mem_flatMap.mp hm
    obtain ⟨c, hc, rfl⟩ := List.mem_map.mp hf
    rcases List.mem_cons.mp hz with hz | hz
    · cases hz
    · exact cell_noNul (h c (List.mem_cons_of_mem cell hc)) hz

/-- **The data of a table is read as the table.** -/
theorem parse_table {columns : Nat} (hpos : 0 < columns) {table : List (List (Option JsString))}
    (hlen : ∀ cells ∈ table, cells.length = columns)
    (h : ∀ cells ∈ table, ∀ cell ∈ cells, ∀ s ∈ cell, isWellFormed s ∧ 0 ∉ s) :
    parse columns (tableBytes table) = some table := by
  have hnul : (0 : UInt8) ∉ tableBytes table := by
    intro hm
    obtain ⟨cells, hcells, hz⟩ := List.mem_flatMap.mp hm
    rcases List.mem_append.mp hz with hz | hz
    · exact line_noNul (fun cell hc s hs => (h cells hcells cell hc s hs).2) hz
    · cases List.mem_singleton.mp hz
  unfold parse
  rw [if_neg hnul, lines_table]
  show (table.map lineBytes).mapM (row columns) = some table
  clear hnul
  induction table with
  | nil => rfl
  | cons cells table ih =>
    have hcells := hlen cells List.mem_cons_self
    have hrow : row columns (lineBytes cells) = some cells := by
      rw [← hcells]
      refine row_line ?_ fun cell hc s hs => (h cells List.mem_cons_self cell hc s hs).1
      rintro rfl
      rw [← hcells] at hpos
      exact absurd hpos (Nat.lt_irrefl 0)
    rw [List.map_cons, List.mapM_cons, hrow,
      ih (fun c hc => hlen c (List.mem_cons_of_mem cells hc))
        fun c hc => h c (List.mem_cons_of_mem cells hc)]
    rfl

end CopyText

/-- **The chunks of rows of strings are read as these rows**, whatever their size. -/
theorem copyRowsText_parses (js : Engine) {names : List JsString} (hnames : names ≠ [])
    (chunkBytes : Nat) {rows : List CopyRow} {table : List (List (Option JsString))}
    (hrows : List.Forall₂ (HoldsFrom 0 names) rows table)
    (htext : ∀ cells ∈ table, ∀ cell ∈ cells, ∀ s ∈ cell, isWellFormed s ∧ 0 ∉ s) :
    (copyRowsText js names chunkBytes rows {}).2 = .ok () ∧
      CopyText.parse names.length (copyRowsText js names chunkBytes rows {}).1.flatten =
        some table := by
  obtain ⟨hok, hflat⟩ := @copyRowsText_chunks js names chunkBytes rows table hrows {}
  refine ⟨hok, ?_⟩
  rw [hflat]
  show CopyText.parse names.length (tableBytes table) = some table
  refine CopyText.parse_table (List.length_pos_of_ne_nil hnames) (fun cells hcells => ?_) htext
  obtain ⟨row, -, hrow⟩ : ∃ row ∈ rows, HoldsFrom 0 names row cells := by
    clear hflat hok htext
    induction hrows with
    | nil => cases hcells
    | cons hrow _ ih =>
      rcases List.mem_cons.mp hcells with rfl | hcells
      · exact ⟨_, List.mem_cons_self, hrow⟩
      · obtain ⟨r, hr, hh⟩ := ih hcells
        exact ⟨r, List.mem_cons_of_mem _ hr, hh⟩
  rw [← hrow.length_eq, List.length_zipIdx]

/-- Two rows with a tab, the text `\N`, NULL and the text `\.`. -/
def sampleRows : List CopyRow :=
  [.list [.string [0x09], .string [0x5c, 0x4e]], .list [.null, .string [0x5c, 0x2e]]]

theorem sampleRows_parse :
    CopyText.parse 2 (copyRowsText nullEngine [[0x61], [0x62]] 4 sampleRows {}).1.flatten =
      some [[some [0x09], some [0x5c, 0x4e]], [none, some [0x5c, 0x2e]]] := by
  have hrows : List.Forall₂ (HoldsFrom 0 [[0x61], [0x62]]) sampleRows
      [[some [0x09], some [0x5c, 0x4e]], [none, some [0x5c, 0x2e]]] :=
    .cons (.cons (.string _) (.cons (.string _) .nil))
      (.cons (.cons .null (.cons (.string _) .nil)) .nil)
  exact (copyRowsText_parses nullEngine (by decide) 4 hrows (by decide)).2

end Minipg.Encode
