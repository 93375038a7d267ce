import Minipg.Decode.Entries
import Minipg.Decode.Milliseconds
import Minipg.Decode.Numerals
import Minipg.Lib.Related

/-!
# The second execution of a prepared statement

A plain query under a name is answered in text at first, and from then on the columns of
`BINARY_FAST` are requested as binary.  The two forms of a value of the server decode to the same
value (`formats_agree`), so the rows are the same (`reuse_invisible`).
-/

namespace Minipg.Plans

open Js Cells Encode
open Lib (Related)

/-! ### Values of the server -/

/-- A text of a float: of the decimal numbers any that is nearest to it. -/
inductive Float8Text : Double → Bytes → Prop
  | nan {x : Double} (h : x.isNaN = true) : Float8Text x nanWord
  | infinity (neg : Bool) : Float8Text (.infinity neg) (infinityWord neg)
  | literal {t : Literal} (hlen : t.text.length < 2 ^ 31) :
      Float8Text (.round t.neg t.value) t.text

/-- The text and the binary form of a value of a type of `BINARY_FAST`. -/
inductive ServerValue : Int → Datum → Prop
  | int2 {n : Int} (h : -32768 ≤ n ∧ n ≤ 32767) : ServerValue 21 ⟨intText n, bigEndian 2 n⟩
  | int4 {n : Int} (h : -2147483648 ≤ n ∧ n ≤ 2147483647) :
      ServerValue 23 ⟨intText n, bigEndian 4 n⟩
  | oid {n : Int} (h : 0 ≤ n ∧ n ≤ 4294967295) : ServerValue 26 ⟨intText n, bigEndian 4 n⟩
  | int8 {n : Int} (h : -9223372036854775808 ≤ n ∧ n ≤ 9223372036854775807) :
      ServerValue 20 ⟨intText n, bigEndian 8 n⟩
  | float8 {x : Double} {text : Bytes} (h : Float8Text x text) :
      ServerValue 701 ⟨text, bigEndian 8 x.toNat⟩
  | date {days : Int} {text : Bytes} (h : -2147483648 ≤ days ∧ days ≤ 2147483647)
      (ht : DateText days text) : ServerValue 1082 ⟨text, bigEndian 4 days⟩
  | timestamp {us : Int} {text : Bytes} (h : -9223372036854775808 ≤ us ∧ us ≤ 9223372036854775807)
      (ht : TimestampText us text) : ServerValue 1114 ⟨text, bigEndian 8 us⟩
  | timestamptz {us : Int} {text : Bytes}
      (h : -9223372036854775808 ≤ us ∧ us ≤ 9223372036854775807)
      (ht : TimestampText us text) : ServerValue 1184 ⟨text, bigEndian 8 us⟩
  | bytea (b : Bytes) : ServerValue 17 ⟨latin1 (ascii "\\x" ++ hex b), b⟩

/-- All `NaN`s are one value. -/
inductive SameValue : Value → Value → Prop
  | refl (v : Value) : SameValue v v
  | nan {x y : Double} (hx : x.isNaN = true) (hy : y.isNaN = true) :
      SameValue (.number x) (.number y)

/-- The built-in decoders of a type give the same value of the two forms, wherever they stand. -/
def FormsAgree (rt : Runtime) (oid : Int) (v : Datum) : Prop :=
  ∃ text binary, pickText rt.standard oid none = some text ∧
    pickBinary rt.standard oid none = .ok binary ∧ ∀ pre post pre' post', ∃ x y,
      text (pre ++ v.text ++ post) pre.length v.text.length = .ok x ∧
      binary (pre' ++ v.binary ++ post') pre'.length v.binary.length = .ok y ∧ SameValue x y

section Forms

variable (rt : Runtime)

theorem int_agree {oid : Int} {n : Int} {size : Nat} (binary : Cells.Cell)
    (htext : pickText rt.standard oid none = some (txtIntCell rt.standard))
    (hpick : pickBinary rt.standard oid none = .ok binary) (hn : n.natAbs < 10 ^ 15)
    (hread : ∀ pre post l,
      binary (pre ++ bigEndian size n ++ post) pre.length l = .ok (.number (.ofInt n))) :
    FormsAgree rt oid ⟨intText n, bigEndian size n⟩ := by
  refine ⟨_, _, htext, hpick, fun pre post pre' post' => ?_⟩
  refine ⟨.number (.ofInt n), .number (.ofInt n), ?_, hread pre' post' _, .refl _⟩
  show Except.ok (Value.number (txtInt rt.standard (pre ++ intText n ++ post) pre.length
    (intText n).length)) = _
  rw [txtInt_numeral rt hn]

theorem date_agree {oid : Int} {text binary : Bytes} (ms : Int) {dec : Cells.Cell}
    (htext : pickText rt.standard oid none = some (tsDate rt.standard))
    (hpick : pickBinary rt.standard oid none = .ok dec)
    (hparse : ∀ pre post, let t := tsParse rt.standard (pre ++ text ++ post) pre.length text.length
      if Clipped ms then t = .ofInt ms else t.isNaN = true)
    (hread : ∀ pre post l, ∃ x, dec (pre ++ binary ++ post) pre.length l = .ok (newDate x) ∧
      if Clipped ms then x = .ofInt ms else Far x ms) :
    FormsAgree rt oid ⟨text, binary⟩ := by
  refine ⟨_, _, htext, hpick, fun pre post pre' post' => ?_⟩
  obtain ⟨y, hy, hcases⟩ := hread pre' post' binary.length
  have ht := hparse pre post
  dsimp only at ht
  have hsame : newDate (tsParse rt.standard (pre ++ text ++ post) pre.length text.length) =
      newDate y := by
    by_cases hclip : Clipped ms
    · rw [if_pos hclip] at ht hcases
      rw [ht, hcases]
    · rw [if_neg hclip] at ht hcases
      rw [hcases.newDate, Double.newDate_nan ht]
  refine ⟨_, _, rfl, hy, ?_⟩
  show SameValue (newDate (tsParse rt.standard _ _ _)) (newDate y)
  rw [hsame]
  exact .refl _

theorem float_agree {x : Double} {text : Bytes} (h : Float8Text x text) :
    FormsAgree rt 701 ⟨text, bigEndian 8 x.toNat⟩ := by
  refine ⟨txtF64 rt.standard, binFloat8, rfl, rfl, fun pre post pre' post' => ?_⟩
  have hbinary : binFloat8 (pre' ++ bigEndian 8 x.toNat ++ post') pre'.length 8 =
      .ok (.number x) := by
    have hx := x.isLt
    have hmod : ((x.toNat : Int) % 256 ^ 8).toNat = x.toNat := by omega
    show (readBE 8 _ _ >>= fun n => pure (Value.number (BitVec.ofNat 64 n))) = _
    rw [readBE_bigEndian, hmod]
    show Except.ok (Value.number (BitVec.ofNat 64 x.toNat)) = _
    rw [BitVec.ofNat_toNat, BitVec.setWidth_eq]
  refine ⟨_, .number x, rfl, by rw [bigEndian_length]; exact hbinary, ?_⟩
  show SameValue (.number (f64FromBytes rt.standard (pre ++ text ++ post) pre.length text.length)) _
  cases h with
  | nan h =>
    rw [f64FromBytes_nan]
    exact .nan (by decide) h
  | infinity neg =>
    rw [f64FromBytes_infinity]
    exact .refl _
  | @literal t hlen =>
    rw [f64FromBytes_literal rt t (by omega)]
    exact .refl _

theorem bytea_agree (b : Bytes) : FormsAgree rt 17 ⟨latin1 (ascii "\\x" ++ hex b), b⟩ := by
  refine ⟨txtBytea rt.standard, binBytea, rfl, rfl, fun pre post pre' post' => ?_⟩
  refine ⟨_, .buffer b, rfl, congrArg (fun c => Except.ok (Value.buffer c)) (slice_middle ..), ?_⟩
  have hlow : ∀ u ∈ ascii "\\x" ++ hex b, u.toNat < 256 := by
    intro u hu
    rcases List.mem_append.mp hu with hu | hu
    · rcases List.mem_pair.mp hu with rfl | rfl
      · decide
      · decide
    · exact hex_lt b u hu
  show SameValue (bytesOfText rt.standard (latin1Slice _ _ _)) _
  rw [latin1Slice_latin1 hlow]
  show SameValue (.buffer (hexBytes (hex b))) _
  rw [hexBytes_hex]
  exact .refl _

theorem timestamp_agree {oid us : Int} {text : Bytes} (ho : oid = 1114 ∨ oid = 1184)
    (h : -9223372036854775808 ≤ us ∧ us ≤ 9223372036854775807) (ht : TimestampText us text) :
    FormsAgree rt oid ⟨text, bigEndian 8 us⟩ := by
  have hms : microsOf us / 1000 = us / 1000 + Cells.pgEpochMs := by
    unfold microsOf
    omega
  have hpicks : pickText rt.standard oid none = some (tsDate rt.standard) ∧
      pickBinary rt.standard oid none = .ok (binTsDate rt.standard) := by
    rcases ho with rfl | rfl
    · exact ⟨rfl, rfl⟩
    · exact ⟨rfl, rfl⟩
  refine date_agree rt (microsOf us / 1000) hpicks.1 hpicks.2
    (tsParse_cases rt ht (by decide) (by decide)) fun pre post l => ?_
  rw [hms]
  exact ⟨_, rfl, binTimestampMs_cases rt h pre post⟩

/-- Every value of these types is the same from both of its forms. -/
theorem forms_agree {oid : Int} {v : Datum} (h : ServerValue oid v) : FormsAgree rt oid v := by
  cases h with
  | @int2 n h =>
    refine int_agree rt (binInt2 rt.standard) rfl rfl (by omega) fun pre post l => ?_
    have hread : signed 16 (n % 256 ^ 2).toNat = n :=
      @signed_emod 16 (by decide) n (by omega) (by omega)
    show (readBE 2 _ _ >>= fun m => pure (Value.number (.ofInt (signed 16 m)))) = _
    rw [readBE_bigEndian]
    show Except.ok (Value.number (.ofInt (signed 16 _))) = _
    rw [hread]
  | @int4 n h =>
    refine int_agree rt (binInt4 rt.standard) rfl rfl (by omega) fun pre post l => ?_
    have hread : signed 32 (n % 256 ^ 4).toNat = n :=
      @signed_emod 32 (by decide) n (by omega) (by omega)
    show (readBE 4 _ _ >>= fun m => pure (Value.number (.ofInt (signed 32 m)))) = _
    rw [readBE_bigEndian]
    show Except.ok (Value.number (.ofInt (signed 32 _))) = _
    rw [hread]
  | @oid n h =>
    refine int_agree rt (binOid rt.standard) rfl rfl (by omega) fun pre post l => ?_
    have hmod : ((n % 256 ^ 4).toNat : Int) = n := by omega
    show (readBE 4 _ _ >>= fun m => pure (Value.number (.ofInt m))) = _
    rw [readBE_bigEndian]
    show Except.ok (Value.number (.ofInt _)) = _
    rw [hmod]
  | @int8 n h =>
    refine ⟨txtBigInt rt.standard, binInt8BigInt, rfl, rfl, fun pre post pre' post' => ?_⟩
    exact ⟨.bigint n, .bigint n, bigint_numeral rt n pre post, readInt8 h pre' post', .refl _⟩
  | float8 h => exact float_agree rt h
  | @date days text h ht =>
    have hms : microsOfDay days / 1000 = days * 86400000 + Cells.pgEpochMs := by
      unfold microsOfDay
      omega
    have hpick : pickBinary rt.standard 1082 none = .ok (binDateDate rt.standard) := rfl
    refine date_agree rt (microsOfDay days / 1000) rfl hpick
      (tsParse_cases rt ht (by decide) (by decide)) fun pre post l => ?_
    obtain ⟨x, hx, hcases⟩ := dateMs_cases rt h pre post
    rw [hms]
    refine ⟨x, ?_, hcases⟩
    show (dateMs rt.standard _ _ >>= fun x => pure (newDate x)) = _
    rw [hx]
    rfl
  | timestamp h ht => exact timestamp_agree rt (.inl rfl) h ht
  | timestamptz h ht => exact timestamp_agree rt (.inr rfl) h ht
  | bytea b => exact bytea_agree rt b

end Forms

/-! ### Columns -/

section Columns

variable {map : DecoderMap} {oid : Int} {v : Datum}

theorem ServerValue.plain (h : ServerValue oid v) : -2000 < oid ∧ elemOid oid = none := by
  cases h
  all_goals exact ⟨by decide, rfl⟩

/-- A column of a plain query. -/
def plainCol (oid : Int) (format : WireFormat) : CodegenCol :=
  (Column.plain (J := Unit) oid format).toCodegenCol

/-- **Both forms decode to the same value**, in both mappers. -/
theorem decoders_agree (env : Env) (hmap : map.custom oid = none) (h : ServerValue oid v)
    (pre post pre' post' : Bytes) : ∀ engine ∈ engines, ∃ x y,
      decode (engine (standardEnv env) (plainCol oid .text) map) (pre ++ v.text ++ post) pre.length
        v.text.length = .ok x ∧
      decode (engine (standardEnv env) (plainCol oid .binary) map) (pre' ++ v.binary ++ post')
        pre'.length v.binary.length = .ok y ∧ SameValue x y := by
  intro engine hengine
  obtain ⟨text, binary, htext, hbinary, hagree⟩ := forms_agree env.rt h
  obtain ⟨x, y, hx, hy, hsame⟩ := hagree pre post pre' post'
  have hfirst := text_picked (standardEnv env) (plainCol oid .text) h.plain.1 nofun hmap rfl htext
    engine hengine
  have hlater := binary_picked (standardEnv env) map (plainCol oid .binary) rfl hbinary engine
    hengine
  refine ⟨x, y, ?_, ?_, hsame⟩
  · rw [hfirst]
    exact hx
  · rw [hlater]
    exact hy

end Columns

/-! ### Rows -/

abbrev SameCell : Rows.Cell Value → Rows.Cell Value → Prop := Option.Rel SameValue

theorem SameCell.refl : ∀ c : Rows.Cell Value, SameCell c c
  | none => .none
  | some v => .some (.refl v)

/-- The same properties, with the same cells in them. -/
abbrev SameProps : Rows.Props Value → Rows.Props Value → Prop :=
  List.Forall₂ fun p q => p.1 = q.1 ∧ ∃ c d, p.2 = .cell c ∧ q.2 = .cell d ∧ SameCell c d

/-- The rows of a plain query are arrays or flat objects. -/
inductive SameRow : Row → Row → Prop
  | array {cs ds : List (Rows.Cell Value)} (h : List.Forall₂ SameCell cs ds) :
      SameRow (.array cs) (.array ds)
  | object {ps qs : Rows.Props Value} (h : SameProps ps qs) : SameRow (.object ps) (.object qs)

theorem defineProperty_same {ps qs : Rows.Props Value} (h : SameProps ps qs) (k : String)
    {c d : Rows.Cell Value} (hc : SameCell c d) :
    SameProps (Rows.defineProperty ps k (.cell c)) (Rows.defineProperty qs k (.cell d)) := by
  induction h with
  | nil => exact .cons ⟨rfl, c, d, rfl, rfl, hc⟩ .nil
  | @cons p q ps qs hpq hrest ih =>
    obtain ⟨k', v⟩ := p
    obtain ⟨k'', w⟩ := q
    obtain rfl : k' = k'' := hpq.1
    unfold Rows.defineProperty
    by_cases hk : k' = k
    · rw [if_pos hk, if_pos hk]
      exact .cons ⟨rfl, c, d, rfl, rfl, hc⟩ hrest
    · rw [if_neg hk, if_neg hk]
      exact .cons hpq ih

theorem setKey_same {ps qs : Rows.Props Value} (h : SameProps ps qs) (k : String)
    {c d : Rows.Cell Value} (hc : SameCell c d) :
    SameProps (Rows.setKey ps k (.cell c)) (Rows.setKey qs k (.cell d)) := by
  unfold Rows.setKey Rows.assign
  split
  · exact defineProperty_same h k hc
  · exact defineProperty_same h k hc

theorem cellAt_same {cs ds : List (Rows.Cell Value)} (h : List.Forall₂ SameCell cs ds) :
    ∀ i, SameCell (Rows.cellAt cs i) (Rows.cellAt ds i) := by
  induction h with
  | nil => exact fun i => .refl none
  | cons hcd _ ih =>
    intro i
    cases i with
    | zero => exact hcd
    | succ i => exact ih i

theorem flatRow_same {cs ds : List (Rows.Cell Value)} (h : List.Forall₂ SameCell cs ds)
    (places : List Place) : SameProps (Rows.flatRow places cs) (Rows.flatRow places ds) := by
  have hfold : ∀ (l : List (Place × Nat)) {ps qs : Rows.Props Value}, SameProps ps qs → SameProps
      (l.foldl (fun obj (c, i) => Rows.setKey obj c.name (.cell (Rows.cellAt cs i))) ps)
      (l.foldl (fun obj (c, i) => Rows.setKey obj c.name (.cell (Rows.cellAt ds i))) qs) := by
    intro l
    induction l with
    | nil => exact fun h => h
    | cons p l ih => exact fun hps => ih (setKey_same hps p.1.name (cellAt_same h p.2))
  exact hfold places.zipIdx .nil

/-- A column of a plain query has nothing but its name. -/
def named (names : List String) : List Place := names.map fun n => { name := n }

variable {J : Type} {cfg : PlanConfig} {dec : Decoding J} {oids : List Int}

theorem assemble_named (names : List String) (mode : Rows.RowMode)
    (vals : List (Rows.Cell Value)) : assemble cfg (named names) mode vals =
      .ok (match mode with
        | .array => .array ((List.range names.length).map (Rows.cellAt vals))
        | .object => .object (Rows.flatRow (named names) vals)) := by
  have hflat : ∀ c ∈ named names, c.path = none ∧ c.xform = none := by
    intro c hc
    obtain ⟨n, -, rfl⟩ := List.mem_map.mp hc
    exact ⟨rfl, rfl⟩
  have hlen : (named names).length = names.length := List.length_map ..
  have hplain : ((named names).any fun c => c.path.isSome || c.xform.isSome) = false := by
    refine List.any_eq_false.mpr fun c hc => ?_
    obtain ⟨hpath, hxform⟩ := hflat c hc
    rw [hpath, hxform]
    exact Bool.false_ne_true
  have hinterpreted : Rows.interpretedMapper (ε := JsError) (named names) vals mode =
      .ok (match mode with
        | .array => .array ((List.range names.length).map (Rows.cellAt vals))
        | .object => .object (Rows.flatRow (named names) vals)) := by
    cases mode with
    | array =>
      unfold Rows.interpretedMapper
      rw [hlen]
    | object =>
      unfold Rows.interpretedMapper
      rw [hplain]
      rfl
  unfold assemble
  cases cfg.engine with
  | interpreted =>
    dsimp only
    rw [hinterpreted]
    rfl
  | jit =>
    have hcompiled : Rows.compiledMapper [] (named names) vals mode =
        Rows.interpretedMapper (named names) vals mode := by
      cases mode with
      | object => exact Rows.object_rows_agree [] (named names)
      | array =>
        have hpath : ((named names).any fun c => c.path.isSome) = false := by
          refine List.any_eq_false.mpr fun c hc => ?_
          rw [(hflat c hc).1]
          exact Bool.false_ne_true
        have heval : Rows.evalCells (Rows.arrayParts (named names).zipIdx []).2 vals
            (Rows.arrayParts (named names).zipIdx []).1 =
              .ok ((named names).zipIdx.map fun p => Rows.cellAt vals p.2) := by
          refine (Rows.evalCells_eq_iff (named names).zipIdx [] List.prefix_rfl).mpr ?_
          intro p hp f v hf
          rw [(hflat p.1 (List.fst_mem_of_mem_zipIdx hp)).2] at hf
          cases hf
        have hcells : (List.range (named names).length).map (Rows.cellAt vals) =
            (named names).zipIdx.map fun p => Rows.cellAt vals p.2 := by
          rw [List.range_eq_range', ← List.zipIdx_map_snd 0 (named names), List.map_map]
          rfl
        unfold Rows.compiledMapper Rows.interpretedMapper
        dsimp only
        rw [hpath, if_neg Bool.false_ne_true, heval, hcells]
        rfl
    dsimp only
    rw [hcompiled, hinterpreted]
    rfl

theorem assemble_same {cs ds : List (Rows.Cell Value)} (h : List.Forall₂ SameCell cs ds)
    (names : List String) (mode : Rows.RowMode) :
    Related SameRow (assemble cfg (named names) mode cs) (assemble cfg (named names) mode ds) := by
  rw [assemble_named, assemble_named]
  cases mode with
  | array =>
    refine SameRow.array ?_
    refine List.forall₂_map_left_iff.mpr (List.forall₂_map_right_iff.mpr ?_)
    exact List.forall₂_same.mpr fun i _ => cellAt_same h i
  | object => exact SameRow.object (flatRow_same h (named names))

theorem collect_related {α β γ δ ε : Type} {R : α → β → Prop} {S : γ → δ → Prop}
    {f : α → Except ε γ} {g : β → Except ε δ} {l : List α} {m : List β}
    (h : List.Forall₂ R l m) (hf : ∀ a b, R a b → Related S (f a) (g b)) :
    Related (List.Forall₂ S) (collect f l) (collect g m) := by
  induction h with
  | nil => exact List.Forall₂.nil
  | cons hab _ ih =>
    refine (hf _ _ hab).bind fun c d hcd => ?_
    exact ih.bind fun cs ds hcds => List.Forall₂.cons hcd hcds

/-! ### Executions -/

/-- The columns of a plain query that are requested as binary. -/
theorem reused_col {oid : Int} {v : Datum} (h : ServerValue oid v)
    (hb : (Connection.resolveCol cfg (Column.plain (J := J) oid .binary)).format = .binary) :
    Connection.resolveCol cfg (Column.plain (J := J) oid .binary) = .plain oid .binary := by
  have htag : tagArrayCol (Column.plain (J := J) oid .binary) = .plain oid .binary := by
    unfold tagArrayCol
    rw [if_neg (by simp [Column.plain])]
    split
    · rfl
    · rename_i elem helem
      rw [show (Column.plain (J := J) oid .binary).oid = oid from rfl, h.plain.2] at helem
      cases helem
  unfold Connection.resolveCol at hb ⊢
  rw [htag] at hb ⊢
  by_cases ht : cfg.temporal = .string
  · rw [if_pos ht] at hb ⊢
    have hscalar : (Column.plain (J := J) oid .binary).elementsAsText = none :=
      elementsAsText_scalar rfl
    unfold textInstant at hb ⊢
    split at hb
    · cases hb
    · rename_i hcond
      rw [if_neg hcond, hscalar]
      rfl
  · rw [if_neg ht]

theorem sameCell_of {x y : Value} (h : SameValue x y) : SameCell (cellOf x) (cellOf y) := by
  cases h with
  | refl v => exact .refl _
  | nan hx hy => exact .some (.nan hx hy)

/-- With the arithmetic of the language. -/
def Decoding.standard (dec : Decoding J) : Decoding J := { dec with env := standardEnv dec.env }

def engineOf : RowEngine → Env → CodegenCol → DecoderMap → Except JsError Cells.Cell
  | .jit => compiled
  | .interpreted => pickDecoder

theorem engineOf_mem (e : RowEngine) : engineOf e ∈ engines := by
  cases e with
  | jit => exact List.mem_cons_self
  | interpreted => exact List.mem_cons_of_mem _ List.mem_cons_self

theorem decodeCell_plain (dec : Decoding J) {oid : Int} {format : WireFormat} {b : Bytes} {x : Value}
    (h : decode (engineOf cfg.engine dec.env (plainCol oid format) cfg.decoders) b 0 b.length =
      .ok x) : decodeCell cfg dec (.plain oid format) (some b) = .ok (cellOf x) := by
  have hdecoder : decoder cfg dec (.plain oid format) =
      (engineOf cfg.engine dec.env (plainCol oid format) cfg.decoders).map
        fun c (b : Bytes) => c b 0 b.length := by
    unfold decoder
    cases cfg.engine with
    | jit => cases format <;> rfl
    | interpreted => cases format <;> rfl
  unfold decodeCell
  rw [hdecoder]
  cases hcell : engineOf cfg.engine dec.env (plainCol oid format) cfg.decoders with
  | error e =>
    rw [hcell] at h
    cases h
  | ok c =>
    rw [hcell] at h
    have hx : c b 0 b.length = .ok x := h
    show (c b 0 b.length >>= fun v => pure (cellOf v)) = _
    rw [hx]
    rfl

/-- The values of a result; of the types that are always text any bytes. -/
def Served (oid : Int) (v : Datum) : Prop := oid ∈ binaryFast → ServerValue oid v

/-- A cell of the first execution and that of a later one. -/
theorem cell_related {r : Result} (h : WellTyped Served r.oids r) {row : List (Option Datum)}
    (hrow : row ∈ r.rows) {p : Column J × Option Datum}
    (hp : p ∈ (Connection.planCols cfg (Connection.plainCols cfg true r.oids) r.oids).zip row) :
    Related SameCell (decodeCell cfg dec.standard p.1.asText (p.2.map Datum.text))
      (decodeCell cfg dec.standard p.1 (p.2.map (·.form p.1.format))) := by
  obtain ⟨i, hi⟩ := List.mem_iff_getElem?.mp hp
  obtain ⟨hc, hd⟩ := List.getElem?_zip_eq_some.mp hi
  obtain ⟨c, d⟩ := p
  have hdec : ∃ d, decoder cfg dec.standard c = .ok d :=
    plan_decoder (plain_requestable true) (List.mem_of_getElem? hc)
  cases hf : c.format with
  | text =>
    rw [asText_of_text hf]
    exact .refl SameCell.refl _
  | binary =>
    cases d with
    | none =>
      have htext : decodeCell cfg dec.standard c.asText none = .ok none :=
        null_cell (text_decoder rfl)
      show Related SameCell (decodeCell cfg dec.standard c.asText none)
        (decodeCell cfg dec.standard c none)
      rw [null_cell hdec, htext]
      exact SameCell.refl none
    | some v =>
      have hlt : i < r.oids.length := by
        rw [← h.width row hrow]
        exact (List.getElem?_eq_some_iff.mp hd).1
      have hoid : r.oids[i]? = some r.oids[i] := List.getElem?_eq_getElem hlt
      have hserved := h.values row hrow i v _ hd hoid
      generalize r.oids[i] = oid at hoid hserved
      rw [connection_plan, List.getElem?_map, List.getElem?_zipIdx] at hc
      simp only [Connection.plainCols, List.getElem?_map, hoid, Option.map_some] at hc
      have hcol := Option.some.inj hc
      have hreuse : cfg.reuseBinaryOids oid = true := by
        by_contra hnot
        rw [if_neg (by simpa using hnot)] at hcol
        have hformat : (Connection.resolveCol cfg (Column.plain (J := J) oid .text)).format =
            .binary := by
          rw [← hf, ← hcol]
          rfl
        rw [resolved_text oid] at hformat
        cases hformat
      have hvalue := hserved (of_decide_eq_true hreuse).1
      have hmap := reused_plain hreuse
      rw [if_pos ⟨trivial, hreuse⟩] at hcol
      have hresolved : Connection.resolveCol cfg (Column.plain (J := J) oid .binary) = c := hcol
      have hplain : c = .plain oid .binary := by
        rw [← hresolved]
        refine reused_col hvalue ?_
        rw [hresolved]
        exact hf
      subst hplain
      obtain ⟨x, y, hx, hy, hsame⟩ := decoders_agree dec.env hmap hvalue [] [] [] []
        (engineOf cfg.engine) (engineOf_mem cfg.engine)
      rw [List.nil_append, List.append_nil, List.length_nil] at hx hy
      have hfirst := decodeCell_plain dec.standard hx
      have hlater := decodeCell_plain dec.standard hy
      show Related SameCell (decodeCell cfg dec.standard (.plain oid .text) (some v.text))
        (decodeCell cfg dec.standard (.plain oid .binary) (some v.binary))
      rw [hfirst, hlater]
      exact sameCell_of hsame

theorem decodeRow_related {r : Result} (h : WellTyped Served r.oids r) {row : List (Option Datum)}
    (hrow : row ∈ r.rows) (names : List String) (mode : Rows.RowMode) :
    let plan := Connection.planCols cfg (Connection.plainCols (J := J) cfg true r.oids) r.oids
    Related SameRow
      (decodeRow cfg dec.standard (named names) mode
        ((plan.map Column.asText).zip (row.map (·.map Datum.text))))
      (decodeRow cfg dec.standard (named names) mode
        (plan.zip (served (plan.map fun c => c.format) row))) := by
  intro plan
  unfold decodeRow
  rw [zip_texts, zip_served, collect_map, collect_map]
  have hcells := collect_related (R := fun p p' => p = p' ∧ p ∈ plan.zip row)
    (f := fun p => decodeCell cfg dec.standard p.1.asText (p.2.map Datum.text))
    (g := fun p => decodeCell cfg dec.standard p.1 (p.2.map (·.form p.1.format)))
    (List.forall₂_same.mpr fun p hp => ⟨rfl, hp⟩) fun p p' hp => by
      obtain ⟨rfl, hp⟩ := hp
      exact cell_related h hrow hp
  exact hcells.mapError.bind fun cs ds hsame => assemble_same hsame names mode

/-- The first execution is answered in text. -/
theorem first_same {Valid : Int → Datum → Prop} {r : Result} (h : WellTyped Valid r.oids r)
    (places : List Place) (mode : Rows.RowMode) :
    Same (Connection.unshaped (J := J) cfg dec places mode r false)
      (HttpClient.decode (J := J) cfg dec places mode r "bigint" none) := by
  have hkept : AllKept cfg dec Valid r.oids (Connection.planCols cfg
      (Connection.plainCols (J := J) cfg false r.oids) r.oids) fun _ _ => True := by
    intro i c oid hc _ hb
    rw [connection_plan, List.getElem?_map, List.getElem?_zipIdx] at hc
    cases ho : r.oids[i]? with
    | none =>
      simp only [Connection.plainCols, List.getElem?_map, ho, Option.map_none] at hc
      cases hc
    | some o =>
      simp only [Connection.plainCols, List.getElem?_map, ho, Option.map_some] at hc
      have htext : (Connection.resolveCol cfg (Column.plain (J := J) o .text)).format = .text :=
        resolved_text o
      have hcol : Connection.resolveCol cfg (Column.plain (J := J) o .text) = c := by
        rw [if_neg fun hreuse => Bool.false_ne_true hreuse.1] at hc
        exact Option.some.inj hc
      rw [hcol, hb] at htext
      cases htext
  have hrows := rows_same (fun c => plan_decoder (plain_requestable false)) hkept h places mode
  rw [unshaped_eq, decode_plain_eq places mode r false]
  exact hrows

/-- **Reuse is invisible**: the two forms of a value decode to the same value, in both mappers, so a
plain query gives the same rows when it is executed again. -/
theorem reuse_invisible :
    (∀ (env : Env) (map : DecoderMap) (oid : Int) (v : Datum), map.custom oid = none →
      ServerValue oid v → ∀ pre post pre' post' : Bytes, ∀ engine ∈ engines, ∃ x y,
        decode (engine (standardEnv env) (plainCol oid .text) map) (pre ++ v.text ++ post) pre.length
          v.text.length = .ok x ∧
        decode (engine (standardEnv env) (plainCol oid .binary) map) (pre' ++ v.binary ++ post')
          pre'.length v.binary.length = .ok y ∧ SameValue x y) ∧
    ∀ (J : Type) (cfg : PlanConfig) (dec : Decoding J) (names : List String) (mode : Rows.RowMode)
      (r : Result), WellTyped Served r.oids r →
        Related (List.Forall₂ SameRow)
          (Connection.unshaped (J := J) cfg dec.standard (named names) mode r false)
          (Connection.unshaped (J := J) cfg dec.standard (named names) mode r true) := by
  refine ⟨fun env map oid v hmap hv pre post pre' post' => decoders_agree env hmap hv pre post pre' post',
    fun J cfg dec names mode r hr => ?_⟩
  refine Related.of_same (first_same hr (named names) mode) ?_
  rw [decode_plain_eq (named names) mode r true, unshaped_eq]
  unfold texts requested
  refine collect_related (R := fun row row' => row = row' ∧ row ∈ r.rows)
    (List.forall₂_same.mpr fun row hrow => ⟨rfl, hrow⟩) fun row row' hrow => ?_
  obtain ⟨rfl, hrow⟩ := hrow
  exact decodeRow_related hr hrow names mode

/-- An `int4`. -/
def fiveForms : Datum := ⟨intText 5, bigEndian 4 5⟩

theorem fiveForms_served : WellTyped Served [23] ⟨[23], [[some fiveForms]]⟩ := by
  refine ⟨rfl, fun row hrow => ?_, fun row hrow i v oid hv hoid _ => ?_⟩
  · rw [List.mem_singleton.mp hrow]
    rfl
  · rw [List.mem_singleton.mp hrow] at hv
    have hvalue := List.mem_singleton.mp (List.mem_of_getElem? hv)
    have htype := List.mem_singleton.mp (List.mem_of_getElem? hoid)
    rw [htype, Option.some.inj hvalue]
    exact .int4 ⟨by decide, by decide⟩

theorem five_reused : (∃ x y,
      decode (compiled (standardEnv hexOnly.env) (plainCol 23 .text) plainMap) fiveForms.text 0
        fiveForms.text.length = .ok x ∧
      decode (compiled (standardEnv hexOnly.env) (plainCol 23 .binary) plainMap) fiveForms.binary 0
        fiveForms.binary.length = .ok y ∧ SameValue x y) ∧
    Related (List.Forall₂ SameRow)
      (Connection.unshaped noOverride hexOnly.standard (named ["n"]) .object
        ⟨[23], [[some fiveForms]]⟩ false)
      (Connection.unshaped noOverride hexOnly.standard (named ["n"]) .object
        ⟨[23], [[some fiveForms]]⟩ true) := by
  have hcells := reuse_invisible.1 hexOnly.env plainMap 23 fiveForms rfl
    (.int4 ⟨by decide, by decide⟩) [] [] [] [] compiled List.mem_cons_self
  rw [List.nil_append, List.nil_append, List.append_nil, List.append_nil] at hcells
  exact ⟨hcells, reuse_invisible.2 Unit noOverride hexOnly ["n"] .object _ fiveForms_served⟩

end Minipg.Plans
