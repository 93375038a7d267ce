import Minipg.Encode.Appends

/-!
# The compiled encoder writes the same bytes

Both encoders reserve the format codes, the one as text, the other as what its code is compiled for,
and both set a code where the encoder of a value chose the other format; a row of the compiled one
repeats because the types do (`paramPeriod_spec`).  So both fill the same slots
(`writeParams_fills`, `runRows_fills`), and what stands around them is the same.
-/

namespace Minipg.Encode

open Js Writer Appending Slots

variable {js : Engine} {oids : List Oid} {params : List Value}

/-! ### One column -/

/-- The encoder of a type. -/
def encoderOf (js : Engine) (oid : Oid) : BinEnc :=
  (binEncoderFor js oid).getD (encodeValueInto js)

theorem encoderOf_appends (oid : Oid) (v : Value) : OnlyAppends (encoderOf js oid v) := by
  unfold encoderOf
  cases h : binEncoderFor js oid with
  | none => exact encodeValueInto_appends v
  | some enc => exact binEncoderFor_appends oid v enc h

/-- `enc`, and the slot at `off` if it held another format. -/
def setting (enc : Write Format) (held : Format) (off : Nat) : Write Unit :=
  enc >>= fun f => if f ≠ held then patch16 off f.code else pure ()

/-- A value that is written in binary leaves its slot alone. -/
theorem setting_binary (m : Write Unit) (off : Nat) :
    setting (do m; return .binary) .binary off = m := by
  simp [setting]

theorem setting_binary₂ (m m' : Write Unit) (off : Nat) :
    setting (do m; m'; return .binary) .binary off = (do m; m') := by
  simp [setting]

theorem setting_guarded (m m' : Write Unit) (off : Nat) :
    setting (do m; m'; return .text) .text off = (do m; m') := by
  simp [setting]

/-- An integer column. -/
theorem setting_int {lo hi : Int} (v : Value) (m m' : Int → Write Unit) (off : Nat) :
    (match intIn lo hi v with
      | none => fallback js v off
      | some n => do m n; m' n) =
    setting (match intIn lo hi v with
      | some n => do m n; m' n; return .binary
      | none => encodeValueInto js v) .binary off := by
  cases intIn lo hi v with
  | none => rfl
  | some n => exact (setting_binary₂ (m n) (m' n) off).symm

/-- **The code of a column does what its encoder does.** -/
theorem timestamp_run (off : Nat) (v : Value) :
    Snippet.timestamp.run js off v = setting (match v with
      | .date (some t) => do
        writeMicros t
        return .binary
      | v => encodeValueInto js v) .binary off := by
  cases v with
  | date t =>
    cases t with
    | none => rfl
    | some t => exact (setting_binary (writeMicros t) off).symm
  | _ => rfl

theorem snippet_run (oid : Oid) (off : Nat) (v : Value) :
    (snippetFor js oid).run js off v = setting (encoderOf js oid v) (bakedFormat oid) off := by
  have htext : Snippet.text.run js off v = setting (encodeValueInto js v) .text off := by
    cases v with
    | string s => exact (setting_guarded (guardNul s) (lpStr s) off).symm
    | _ => rfl
  unfold snippetFor
  split
  · cases v with
    | boolean b => exact (setting_binary₂ (int32 1) (byte _) off).symm
    | _ => rfl
  · exact setting_int v (fun _ => int32 2) (fun n => int16 (n % 65536)) off
  · exact setting_int v (fun _ => int32 4) (fun n => int32 n) off
  · cases v with
    | number x =>
      show (match x.safeInteger? with | some n => lpI64 n | none => fallback js _ off) =
        setting (match x.safeInteger? with
          | some n => do lpI64 n; return .binary
          | none => encodeValueInto js (.number x)) .binary off
      cases x.safeInteger? with
      | none => rfl
      | some n => exact (setting_binary (lpI64 n) off).symm
    | bigint n =>
      show (if n ≥ i64Min ∧ n ≤ i64Max then lpI64Big n else fallback js _ off) =
        setting (if i64Min ≤ n ∧ n ≤ i64Max then do lpI64Big n; return .binary
          else encodeValueInto js (.bigint n)) .binary off
      by_cases hn : i64Min ≤ n ∧ n ≤ i64Max
      · rw [if_pos hn, if_pos (show n ≥ i64Min ∧ n ≤ i64Max from hn)]
        exact (setting_binary (lpI64Big n) off).symm
      · rw [if_neg hn, if_neg (show ¬(n ≥ i64Min ∧ n ≤ i64Max) from hn)]
        rfl
    | _ => rfl
  · cases v with
    | number x => exact (setting_binary (lpF8 x) off).symm
    | _ => rfl
  · exact timestamp_run off v
  · exact timestamp_run off v
  · exact htext
  · exact htext
  · have hbaked : bakedFormat oid = .text := by simp [bakedFormat, jitFast, *]
    rw [hbaked]
    rfl

/-- The plan encodes each parameter by its type. -/
theorem plan_eq {i : Nat} {oid : Oid} (h : oids[i]? = some oid) (v : Value) :
    ((compileParamPlan js oids).getD fun v _ => encodeValueInto js v) v i = encoderOf js oid v := by
  have hi : (oids.map (binEncoderFor js))[i]? = some (binEncoderFor js oid) := by
    rw [List.getElem?_map, h]
    rfl
  unfold compileParamPlan encoderOf
  dsimp only
  split
  · rw [Option.getD_some, hi]
    cases binEncoderFor js oid <;> rfl
  · next hany =>
    have hnone : binEncoderFor js oid = none := by
      cases henc : binEncoderFor js oid with
      | none => rfl
      | some enc =>
        refine absurd (List.any_eq_true.mpr ⟨_, List.mem_of_getElem? hi, ?_⟩) hany
        rw [henc]
        rfl
    rw [hnone]
    rfl

/-! ### The period of the types -/

/-- A list that repeats after `p`. -/
def RepeatsAfter {α : Type} (p : Nat) (l : List α) : Prop :=
  ∀ i < l.length, p ≤ i → l[i]? = l[i - p]?

theorem RepeatsAfter.getElem?_mod {α : Type} {p : Nat} {l : List α} (h : RepeatsAfter p l)
    (hp : 0 < p) : ∀ i < l.length, l[i]? = l[i % p]? := by
  intro i
  induction i using Nat.strongRecOn with
  | ind i ih =>
    intro hi
    by_cases hip : p ≤ i
    · rw [h i hi hip, ih (i - p) (by omega) (by omega), Nat.mod_eq_sub_mod hip]
    · rw [Nat.mod_eq_of_lt (by omega)]

theorem paramPeriod_spec (h : oids ≠ []) :
    0 < paramPeriod oids ∧ oids.length % paramPeriod oids = 0 ∧
      RepeatsAfter (paramPeriod oids) oids := by
  unfold paramPeriod
  dsimp only
  cases hf : ((List.range oids.length).drop 1).find? _ with
  | none =>
    refine ⟨List.length_pos_iff.mpr h, Nat.mod_self _, fun i hi hle => ?_⟩
    exact absurd hi (Nat.not_lt.mpr hle)
  | some p =>
    have hrep := List.find?_some hf
    rw [decide_eq_true_eq] at hrep
    obtain ⟨k, hk⟩ := List.mem_iff_getElem?.mp (List.mem_of_find?_eq_some hf)
    rw [List.getElem?_drop] at hk
    obtain ⟨hlt, hp⟩ := List.getElem?_eq_some_iff.mp hk
    rw [List.getElem_range] at hp
    refine ⟨?_, hrep.1, hrep.2⟩
    show 0 < p
    omega

/-! ### The slots -/

def codeBytes (fs : List Format) : List UInt8 := fs.flatMap (bigEndian 2 ·.code)

theorem codeBytes_append (fs gs : List Format) :
    codeBytes (fs ++ gs) = codeBytes fs ++ codeBytes gs := List.flatMap_append

theorem codeBytes_length : ∀ fs, (codeBytes fs).length = fs.length * 2
  | [] => rfl
  | f :: fs => by
    show (bigEndian 2 f.code ++ codeBytes fs).length = _
    rw [List.length_append, codeBytes_length fs, bigEndian_length, List.length_cons]
    omega

theorem uint16BE_code (f : Format) : uint16BE f.code = .ok (bigEndian 2 f.code) := by
  cases f <;> rfl

/-- A Bind message up to its values: `pre`, the format codes, `mid`. -/
def bindSlots (pre mid : List UInt8) (msgStart : Nat) : Slots Writer UInt8 Thrown Format where
  st fs xs := ⟨pre ++ codeBytes fs ++ (mid ++ xs), msgStart⟩
  set i f := patch16 (pre.length + i * 2) f.code
  app_st fs xs ys := by
    show Writer.mk _ _ = Writer.mk _ _
    simp only [List.append_assoc]
  set_st before f f' after xs := by
    unfold patch16
    rw [uint16BE_code]
    show Except.ok ((), Writer.mk _ _) = Except.ok ((), Writer.mk _ _)
    have hpos : pre.length + before.length * 2 = (pre ++ codeBytes before).length := by
      rw [List.length_append, codeBytes_length]
    have hbuf : ∀ g : Format, pre ++ codeBytes (before ++ g :: after) ++ (mid ++ xs) =
        (pre ++ codeBytes before) ++ bigEndian 2 g.code ++ (codeBytes after ++ (mid ++ xs)) := by
      intro g
      rw [codeBytes_append]
      show _ ++ (_ ++ (bigEndian 2 g.code ++ codeBytes after)) ++ _ = _
      simp only [List.append_assoc]
    have hlen : (bigEndian 2 f'.code).length = (bigEndian 2 f.code).length := by
      rw [bigEndian_length, bigEndian_length]
    rw [hpos, hbuf f', hbuf f, overwrite_app hlen]

variable {pre mid : List UInt8} {msgStart : Nat} {r : Oid → Value → Outcome Thrown UInt8 Format}

theorem setting_fills (hr : ∀ oid v, Yields (encoderOf js oid v) (r oid v)) (oid : Oid) (v : Value)
    (held : Format) (i : Nat) :
    (bindSlots pre mid msgStart).FillsAll
      (setting (encoderOf js oid v) held (pre.length + i * 2)) i [held] [r oid v] :=
  .one held (hr oid v)

/-- What the pairs of types and values write. -/
def outcomes (r : Oid → Value → Outcome Thrown UInt8 Format) (ps : List (Oid × Value)) :
    List (Outcome Thrown UInt8 Format) := ps.map fun p => r p.1 p.2

theorem writeParams_cons (enc : ParamsEncoder) (fmtPos : Nat) (v : Value) (rest : List Value)
    (i : Nat) :
    writeParams enc fmtPos (v :: rest) i = (do
      setting (enc v i) .text (fmtPos + i * 2)
      writeParams enc fmtPos rest (i + 1)) := by
  simp only [setting, bind_assoc]
  refine congrArg _ (funext fun f => ?_)
  dsimp only
  split <;> simp

theorem writeParams_fills (hr : ∀ oid v, Yields (encoderOf js oid v) (r oid v))
    {enc : ParamsEncoder} (ps : List (Oid × Value)) : ∀ i,
    (∀ k p, ps[k]? = some p → enc p.2 (i + k) = encoderOf js p.1 p.2) →
    (bindSlots pre mid msgStart).FillsAll (writeParams enc pre.length (ps.map Prod.snd) i) i
      (ps.map fun _ => .text) (outcomes r ps) := by
  induction ps with
  | nil =>
    intro i _
    exact .nil
  | cons p ps ih =>
    intro i henc
    have hp : enc p.2 i = encoderOf js p.1 p.2 := henc 0 p rfl
    have hrest := ih (i + 1) fun k q hq => by
      rw [Nat.add_right_comm]
      exact henc (k + 1) q hq
    rw [List.map_cons, writeParams_cons, hp]
    exact FillsAll.append (setting_fills hr p.1 p.2 .text i) hrest rfl

theorem runCols_fills (hr : ∀ oid v, Yields (encoderOf js oid v) (r oid v)) {vb : Nat}
    (ps : List (Oid × Value)) : ∀ c,
    (∀ k p, ps[k]? = some p → p.2 = params.getD (vb + c + k) .undefined) →
    (bindSlots pre mid msgStart).FillsAll
      (BindCode.runCols js params vb (pre.length + vb * 2) (ps.map fun p => snippetFor js p.1) c)
      (vb + c) (ps.map (bakedFormat ·.1)) (outcomes r ps) := by
  induction ps with
  | nil =>
    intro c _
    exact .nil
  | cons p ps ih =>
    intro c hv
    have hp : p.2 = params.getD (vb + c) .undefined := hv 0 p rfl
    have hrest := ih (c + 1) fun k q hq => by
      rw [hv (k + 1) q hq]
      congr 1
      omega
    have hone : (snippetFor js p.1).run js (pre.length + vb * 2 + c * 2)
        (params.getD (vb + c) .undefined) =
        setting (encoderOf js p.1 p.2) (bakedFormat p.1) (pre.length + (vb + c) * 2) := by
      rw [← hp, snippet_run]
      congr 1
      omega
    show FillsAll _ (do
      (snippetFor js p.1).run js (pre.length + vb * 2 + c * 2) (params.getD (vb + c) .undefined)
      BindCode.runCols js params vb (pre.length + vb * 2) _ (c + 1)) _ _ _
    rw [hone]
    exact FillsAll.append (setting_fills hr p.1 p.2 (bakedFormat p.1) (vb + c)) hrest rfl

/-- The first row of pairs whose types repeat. -/
theorem first_row {os : List Oid} {ps : List (Oid × Value)} (hlen : os.length ≤ ps.length)
    (h : ∀ j p, ps[j]? = some p → os[j % os.length]? = some p.1) :
    os = (ps.take os.length).map Prod.fst := by
  apply List.ext_getElem?
  intro j
  rw [List.getElem?_map, List.getElem?_take]
  by_cases hj : j < os.length
  · rw [if_pos hj, List.getElem?_eq_getElem (Nat.lt_of_lt_of_le hj hlen)]
    have hp := h j _ (List.getElem?_eq_getElem (Nat.lt_of_lt_of_le hj hlen))
    rw [Nat.mod_eq_of_lt hj] at hp
    exact hp
  · rw [if_neg hj, List.getElem?_eq_none (Nat.not_lt.mp hj)]
    rfl

/-- **The rows of the compiled code.** -/
theorem runRows_fills (hr : ∀ oid v, Yields (encoderOf js oid v) (r oid v)) {code : BindCode}
    {os : List Oid} {base : Nat} (hcols : code.cols = os.map (snippetFor js))
    (hbase : base + code.fmt0 = pre.length) : ∀ (k row : Nat) (ps : List (Oid × Value)),
    ps.length = k * os.length →
    (∀ j p, ps[j]? = some p → os[j % os.length]? = some p.1 ∧
      p.2 = params.getD (row * os.length + j) .undefined) →
    (bindSlots pre mid msgStart).FillsAll (code.runRows js params base k row) (row * os.length)
      (ps.map (bakedFormat ·.1)) (outcomes r ps) := by
  intro k
  induction k with
  | zero =>
    intro row ps hlen _
    rw [List.length_eq_zero_iff.mp (hlen.trans (Nat.zero_mul _))]
    exact .nil
  | succ k ih =>
    intro row ps hlen hps
    have hle : os.length ≤ ps.length := by
      rw [hlen, Nat.succ_mul]
      exact Nat.le_add_left _ _
    have hos : os = (ps.take os.length).map Prod.fst := first_row hle fun j p hj => (hps j p hj).1
    have hp : code.cols.length = os.length := by rw [hcols, List.length_map]
    have hcols' : code.cols = (ps.take os.length).map fun p => snippetFor js p.1 := by
      rw [hcols]
      conv_lhs => rw [hos]
      rw [List.map_map]
      rfl
    have hfirst : (bindSlots pre mid msgStart).FillsAll
        (BindCode.runCols js params (row * os.length) (pre.length + row * os.length * 2)
          ((ps.take os.length).map fun p => snippetFor js p.1) 0) (row * os.length)
        ((ps.take os.length).map (bakedFormat ·.1)) (outcomes r (ps.take os.length)) := by
      refine runCols_fills hr (ps.take os.length) 0 fun j p hj => ?_
      rw [List.getElem?_take] at hj
      split at hj
      · exact (hps j p hj).2
      · cases hj
    have hrest : (bindSlots pre mid msgStart).FillsAll (code.runRows js params base k (row + 1))
        ((row + 1) * os.length) ((ps.drop os.length).map (bakedFormat ·.1))
        (outcomes r (ps.drop os.length)) := by
      refine ih (row + 1) (ps.drop os.length) ?_ fun j p hj => ?_
      · rw [List.length_drop, hlen, Nat.succ_mul, Nat.add_sub_cancel]
      · rw [List.getElem?_drop] at hj
        obtain ⟨ho, hv⟩ := hps _ p hj
        rw [Nat.add_mod_left] at ho
        refine ⟨ho, ?_⟩
        rw [hv, Nat.succ_mul, Nat.add_assoc]
    have hrow : code.runRows js params base (k + 1) row = (do
        BindCode.runCols js params (row * os.length) (pre.length + row * os.length * 2)
          ((ps.take os.length).map fun p => snippetFor js p.1) 0
        code.runRows js params base k (row + 1)) := by
      rw [BindCode.runRows, hp, hbase, hcols', Nat.mul_assoc]
    have hsplit : ∀ {α : Type} (f : Oid × Value → α),
        ps.map f = (ps.take os.length).map f ++ (ps.drop os.length).map f := by
      intro α f
      rw [← List.map_append, List.take_append_drop]
    rw [hrow, hsplit]
    unfold outcomes
    rw [hsplit]
    have hlen' : ((ps.take os.length).map (bakedFormat ·.1)).length = os.length := by
      rw [List.length_map, List.length_take, Nat.min_eq_left hle]
    refine FillsAll.append hfirst ?_ ?_
    · rw [hlen', ← Nat.succ_mul]
      exact hrest
    · rw [hlen']
      rw [List.length_map, List.length_take, Nat.min_eq_left hle]

/-! ### The message around the values -/

theorem bind_of_ok {α β : Type} {m : Write α} {f : α → Write β} {w w' : Writer} {a : α}
    (h : m w = .ok (a, w')) : (m >>= f) w = f a w' := by
  show (m w >>= fun p => f p.1 p.2) = _
  rw [h]
  rfl

theorem bind_of_error {α β : Type} {m : Write α} {f : α → Write β} {w : Writer} {e : Thrown}
    (h : m w = .error e) : (m >>= f) w = .error e := by
  show (m w >>= fun p => f p.1 p.2) = _
  rw [h]
  rfl

/-- The bytes after a computation. -/
def bytesOf {α : Type} (r : Except Thrown (α × Writer)) : Except Thrown (List UInt8) :=
  r.map fun p => p.2.buf

theorem end_eq (a xs : List UInt8) :
    Writer.end ⟨a ++ [0, 0, 0, 0] ++ xs, a.length⟩ =
      (int32BE (xs.length + 4)).map fun b4 => ((), ⟨a ++ b4 ++ xs, a.length⟩) := by
  show patch a.length (int32BE (((a ++ [0, 0, 0, 0] ++ xs).length : Int) - a.length)) _ = _
  have hlen : ((a ++ [0, 0, 0, 0] ++ xs).length : Int) - a.length = xs.length + 4 := by
    rw [List.length_append, List.length_append]
    show ((a.length + 4 + xs.length : Nat) : Int) - a.length = _
    omega
  rw [hlen]
  cases hb : int32BE (xs.length + 4) with
  | error e => rfl
  | ok b4 =>
    have h4 : ([0, 0, 0, 0] : List UInt8).length = b4.length := (checked_length hb).symm
    show Except.ok ((), Writer.mk _ _) = Except.ok ((), Writer.mk _ _)
    rw [overwrite_app h4]

/-- The bytes of Execute and Sync. -/
def execSync : List UInt8 := [69, 0, 0, 0, 9, 0, 0, 0, 0, 0, 83, 0, 0, 0, 4]

theorem numberInt32BE_zero : numberInt32BE 0 = .ok [0, 0, 0, 0] := by decide +kernel

theorem messageExecute_eq : messageExecute [] 0 = .ok [69, 0, 0, 0, 9, 0, 0, 0, 0, 0] := by
  decide +kernel

theorem messageSync_eq : messageSync = .ok [83, 0, 0, 0, 4] := by decide

theorem writeExecute_eq (w : Writer) :
    writeExecute [] 0 w =
      .ok ((), ⟨w.buf ++ [69, 0, 0, 0, 9, 0, 0, 0, 0, 0], w.buf.length + 1⟩) := by
  have hnine : bigEndian 4 9 = [0, 0, 0, 9] := by decide
  have hstart : writeExecute [] 0 w =
      Writer.end ⟨(w.buf ++ [69]) ++ [0, 0, 0, 0] ++ [0, 0, 0, 0, 0], (w.buf ++ [69]).length⟩ := by
    show (number32 0 >>= fun _ => Writer.end)
      ⟨(w.buf ++ [69]) ++ [0, 0, 0, 0] ++ [0], (w.buf ++ [69]).length⟩ = _
    unfold number32
    rw [numberInt32BE_zero]
    show Writer.end ⟨(w.buf ++ [69]) ++ [0, 0, 0, 0] ++ [0] ++ [0, 0, 0, 0], _⟩ = _
    rw [List.append_assoc _ [0]]
    rfl
  rw [hstart, end_eq]
  show Except.ok ((), Writer.mk _ _) = Except.ok ((), Writer.mk _ _)
  simp [hnine]

theorem writeSync_eq (w : Writer) :
    writeSync w = .ok ((), ⟨w.buf ++ [83, 0, 0, 0, 4], w.buf.length + 1⟩) := by
  have hfour : bigEndian 4 4 = [0, 0, 0, 4] := by decide
  have hstart : writeSync w =
      Writer.end ⟨(w.buf ++ [83]) ++ [0, 0, 0, 0] ++ [], (w.buf ++ [83]).length⟩ := by
    rw [List.append_nil]
    rfl
  rw [hstart, end_eq]
  show Except.ok ((), Writer.mk _ _) = Except.ok ((), Writer.mk _ _)
  simp [hfour]

theorem writeResultFormat_yields {rf : ResultFormat} {bs : List UInt8}
    (h : compileResultFormat rf = .ok bs) : Yields (writeResultFormat rf) (.ok ((), bs)) := by
  have hint16 : ∀ {n : Int} {b : List UInt8}, uint16BE n = .ok b →
      Yields (int16 n) (.ok ((), b)) := by
    intro n b hb
    unfold int16
    rw [hb]
    exact append_yields b
  have hnumber16 : ∀ {x : Double} {b : List UInt8}, numberUInt16BE x = .ok b →
      Yields (number16 x) (.ok ((), b)) := by
    intro x b hb
    unfold number16
    rw [hb]
    exact append_yields b
  have hcodes : ∀ (fs : List Double) {codes : List (List UInt8)},
      fs.mapM numberUInt16BE = .ok codes →
      Yields (fs.forM number16) (.ok ((), codes.flatten)) := by
    intro fs
    induction fs with
    | nil =>
      intro codes hc
      cases hc
      exact .pure ()
    | cons f fs ih =>
      intro codes hc
      rw [List.mapM_cons] at hc
      obtain ⟨b, hb, hc⟩ := ok_of_bind hc
      obtain ⟨bs, hbs, hc⟩ := ok_of_bind hc
      cases hc
      exact (hnumber16 hb).bind fun _ => ih hbs
  cases rf with
  | all format =>
    obtain ⟨one, hone, h⟩ := ok_of_bind h
    obtain ⟨b, hb, h⟩ := ok_of_bind h
    cases h
    exact (hint16 hone).bind fun _ => hnumber16 hb
  | each formats =>
    obtain ⟨n, hn, h⟩ := ok_of_bind h
    obtain ⟨bs, hbs, h⟩ := ok_of_bind h
    cases h
    exact (hint16 hn).bind fun _ => hcodes formats hbs

theorem tails_eq {rf : ResultFormat} {resultFmt : List UInt8}
    (h : compileResultFormat rf = .ok resultFmt) (w : Writer) :
    bytesOf ((do bytes resultFmt; Writer.end; bytes execSync) w) =
      bytesOf ((do writeResultFormat rf; Writer.end; writeExecute [] 0; writeSync) w) := by
  have hrf : writeResultFormat rf w = .ok ((), w.app resultFmt) := writeResultFormat_yields h w
  rw [bind_of_ok hrf]
  show bytesOf ((do Writer.end; bytes execSync) (w.app resultFmt)) = _
  cases he : Writer.end (w.app resultFmt) with
  | error e => rw [bind_of_error he, bind_of_error he]
  | ok p =>
    rw [bind_of_ok he, bind_of_ok he, bind_of_ok (writeExecute_eq p.2), writeSync_eq]
    show Except.ok _ = Except.ok _
    simp [execSync, Writer.app]

/-! ### The header -/

/-- The buffer when the format codes of Bind begin. -/
def bindHead (w : Writer) (portal name : JsString) (count : List UInt8) : List UInt8 :=
  w.buf ++ [66] ++ [0, 0, 0, 0] ++ (utf8 portal ++ [0] ++ utf8 name ++ [0] ++ count)

/-- Bind with its format codes reserved. -/
abbrev bindFor (w : Writer) (portal name : JsString) (count : List UInt8) :
    Slots Writer UInt8 Thrown Format :=
  bindSlots (bindHead w portal name count) count (w.buf.length + 1)

theorem reserved_yields : ∀ vs : List Value,
    Yields (vs.forM fun _ => int16 0) (.ok ((), codeBytes (vs.map fun _ => .text)))
  | [] => .pure ()
  | _ :: vs => by
    have hzero : Yields (int16 0) (.ok ((), bigEndian 2 Format.text.code)) := append_yields _
    exact hzero.bind fun _ => reserved_yields vs

theorem writeBindWith_eq {portal name : JsString} {rf : ResultFormat} {count : List UInt8}
    (enc : ParamsEncoder) (hc : uint16BE params.length = .ok count) (w : Writer) :
    writeBindWith portal name params enc rf w = (do
      writeParams enc (bindHead w portal name count).length params 0
      writeResultFormat rf
      Writer.end) ((bindFor w portal name count).st (params.map fun _ => .text) []) := by
  have hn : ¬params.length > maxParams := by
    unfold uint16BE checked at hc
    split at hc
    · next h =>
      show ¬params.length > 65535
      omega
    · cases hc
  have hcount : ∀ w, int16 params.length w = .ok ((), w.app count) := by
    intro w
    unfold int16
    rw [hc]
    rfl
  unfold writeBindWith
  dsimp only
  rw [if_neg hn]
  let w₁ : Writer := ⟨w.buf ++ [66] ++ [0, 0, 0, 0], (w.buf ++ [66]).length⟩
  let w₂ : Writer := w₁.app (utf8 portal ++ [0])
  let w₃ : Writer := w₂.app (utf8 name ++ [0])
  have hstart : start 'B' w = .ok ((), w₁) := rfl
  have hportal : cstr portal w₁ = .ok ((), w₂) := rfl
  have hname : cstr name w₂ = .ok ((), w₃) := rfl
  have hmark : mark (w₃.app count) = .ok ((w₃.app count).buf.length, w₃.app count) := rfl
  rw [bind_of_ok hstart, bind_of_ok hportal, bind_of_ok hname, bind_of_ok (hcount w₃),
    bind_of_ok hmark, bind_of_ok (reserved_yields params (w₃.app count)),
    bind_of_ok (hcount _)]
  have hhead : (w₃.app count).buf = bindHead w portal name count := by
    show w.buf ++ [66] ++ [0, 0, 0, 0] ++ (utf8 portal ++ [0]) ++ (utf8 name ++ [0]) ++ count = _
    simp only [bindHead, List.append_assoc]
  have hst : ((w₃.app count).app (codeBytes (params.map fun _ => .text))).app count =
      (bindFor w portal name count).st (params.map fun _ => .text) [] := by
    show Writer.mk ((w₃.app count).buf ++ _ ++ count) _ = Writer.mk _ _
    rw [hhead, List.append_nil]
    congr 1
    exact List.length_append
  rw [hhead]
  exact congrArg _ hst

/-- What was compiled. -/
structure CompiledFor (js : Engine) (name : JsString) (oids : List Oid) (rf : ResultFormat)
    (p : Nat) (count : List UInt8) (code : BindCode) : Prop where
  length : uint16BE oids.length = .ok count
  header : code.header = [0] ++ utf8 name ++ [0] ++ count ++
    codeBytes ((List.range oids.length).map fun i => bakedFormat (oids.getD (i % p) 0)) ++ count
  fmt0 : code.fmt0 = 1 + (utf8 name).length + 1 + 2
  cols : code.cols = (oids.take p).map (snippetFor js)
  rowCount : code.rowCount = if p = 0 then 0 else oids.length / p
  resultFmt : compileResultFormat rf = .ok code.resultFmt
  execSync : code.execSync = execSync

theorem compiledFor {name : JsString} {rf : ResultFormat} {code : BindCode}
    (h : compileBindEncoder js name oids rf = .ok (some code)) :
    ∃ count, CompiledFor js name oids rf (if oids.length = 0 then 0 else paramPeriod oids) count
      code := by
  unfold compileBindEncoder at h
  dsimp only at h
  generalize (if oids.length = 0 then 0 else paramPeriod oids) = p at h ⊢
  split at h
  · cases h
  · obtain ⟨count, hcount, h⟩ := ok_of_bind h
    obtain ⟨resultFmt, hrf, h⟩ := ok_of_bind h
    rw [messageExecute_eq, messageSync_eq] at h
    cases h
    exact ⟨count, hcount, rfl, rfl, rfl, rfl, hrf, rfl⟩

/-- Every baked format is that of its type. -/
theorem baked_formats (h : oids ≠ []) :
    (List.range oids.length).map (fun i => bakedFormat (oids.getD (i % paramPeriod oids) 0)) =
      oids.map bakedFormat := by
  obtain ⟨hp, -, hrep⟩ := paramPeriod_spec h
  apply List.ext_getElem?
  intro i
  rw [List.getElem?_map, List.getElem?_map]
  by_cases hi : i < oids.length
  · have hmod := hrep.getElem?_mod hp i hi
    rw [List.getElem?_range hi, List.getElem?_eq_getElem hi]
    rw [List.getElem?_eq_getElem hi] at hmod
    show some (bakedFormat (oids.getD _ 0)) = some (bakedFormat oids[i])
    rw [List.getD_eq_getElem?_getD, ← hmod]
    rfl
  · rw [List.getElem?_eq_none (Nat.not_lt.mp hi),
      List.getElem?_eq_none (by rw [List.length_range]; exact Nat.not_lt.mp hi)]
    rfl

/-- The loop of the compiled code, or its one row. -/
def BindCode.runBody (js : Engine) (code : BindCode) (params : List Value) (base : Nat) :
    Write Unit :=
  if code.rowCount > 1 then runRows js code params base code.rowCount 0
  else runCols js params 0 (base + code.fmt0) code.cols 0

variable {name : JsString} {rf : ResultFormat} {code : BindCode} {count : List UInt8} {base : Nat}

theorem zip_getElem {os : List Oid} {vs : List Value} {j : Nat} {p : Oid × Value}
    (h : (os.zip vs)[j]? = some p) : os[j]? = some p.1 ∧ p.2 = vs.getD j .undefined := by
  obtain ⟨ho, hv⟩ := List.getElem?_zip_eq_some.mp h
  exact ⟨ho, (List.getD_eq_getElem?_getD ▸ hv ▸ rfl)⟩

theorem runBody_fills (hr : ∀ oid v, Yields (encoderOf js oid v) (r oid v))
    (hcode : CompiledFor js name oids rf (if oids.length = 0 then 0 else paramPeriod oids) count code)
    (hlen : params.length = oids.length) (hbase : base + code.fmt0 = pre.length) :
    (bindSlots pre mid msgStart).FillsAll (code.runBody js params base) 0 (oids.map bakedFormat)
      (outcomes r (oids.zip params)) := by
  by_cases hn : oids = []
  · subst hn
    have hcols := hcode.cols
    have hrows := hcode.rowCount
    unfold BindCode.runBody
    rw [hrows, hcols]
    exact .nil
  · obtain ⟨hp, hdvd, hrep⟩ := paramPeriod_spec hn
    have hcols := hcode.cols
    have hrows := hcode.rowCount
    rw [if_neg (fun h => hn (List.length_eq_zero_iff.mp h))] at hcols hrows
    rw [if_neg (Nat.pos_iff_ne_zero.mp hp)] at hrows
    generalize paramPeriod oids = p at *
    have hmul : oids.length = code.rowCount * p := by
      rw [hrows, Nat.div_mul_cancel (Nat.dvd_of_mod_eq_zero hdvd)]
    have hzip : (oids.zip params).length = oids.length := by
      rw [List.length_zip, hlen, Nat.min_self]
    have hfst : oids = (oids.zip params).map Prod.fst :=
      (List.map_fst_zip (Nat.le_of_eq hlen.symm)).symm
    have hmap : ∀ {α : Type} (f : Oid → α), oids.map f = (oids.zip params).map fun q => f q.1 := by
      intro α f
      conv_lhs => rw [hfst, List.map_map]
      rfl
    have hpos : 0 < oids.length := List.length_pos_iff.mpr hn
    rw [hmap bakedFormat]
    unfold BindCode.runBody
    by_cases hk : code.rowCount > 1
    · rw [if_pos hk]
      have htake : (oids.take p).length = p := by
        rw [List.length_take, hmul]
        exact Nat.min_eq_left (Nat.le_mul_of_pos_left p (by omega))
      have hrowsFill : (bindSlots pre mid msgStart).FillsAll
          (code.runRows js params base code.rowCount 0) (0 * (oids.take p).length)
          ((oids.zip params).map (bakedFormat ·.1)) (outcomes r (oids.zip params)) := by
        refine runRows_fills hr hcols hbase _ 0 _ ?_ fun j q hj => ?_
        · rw [hzip, htake, hmul]
        · obtain ⟨ho, hv⟩ := zip_getElem hj
          have hjn : j < oids.length := (List.getElem?_eq_some_iff.mp ho).1
          rw [Nat.zero_mul, Nat.zero_add, htake, List.getElem?_take, if_pos (Nat.mod_lt j hp),
            ← hrep.getElem?_mod hp j hjn]
          exact ⟨ho, hv⟩
      rw [Nat.zero_mul] at hrowsFill
      exact hrowsFill
    · rw [if_neg hk]
      have hone : code.rowCount = 1 := by
        have : code.rowCount ≠ 0 := by
          intro h
          rw [h, Nat.zero_mul] at hmul
          omega
        omega
      rw [hone, Nat.one_mul] at hmul
      rw [← hmul, List.take_length, hmap (snippetFor js)] at hcols
      rw [hbase, hcols]
      refine runCols_fills hr (oids.zip params) 0 fun j q hj => ?_
      rw [Nat.zero_add]
      exact (zip_getElem hj).2

/-- Both fill the same slots and go on alike, so that both end alike. -/
theorem filled_alike {m m' : Write Unit} {held held' : List Format}
    {rs : List (Outcome Thrown UInt8 Format)}
    (h : (bindSlots pre mid msgStart).FillsAll m 0 held rs)
    (h' : (bindSlots pre mid msgStart).FillsAll m' 0 held' rs) :
    m ((bindSlots pre mid msgStart).st held []) = m' ((bindSlots pre mid msgStart).st held' []) := by
  have he := h [] [] [] rfl
  have he' := h' [] [] [] rfl
  rw [List.nil_append, List.append_nil] at he he'
  rw [he, he']

theorem run_eq (hcode : CompiledFor js name oids rf
      (if oids.length = 0 then 0 else paramPeriod oids) count code) (w : Writer) :
    code.run js params w = (do
      code.runBody js params (w.buf.length + 5)
      bytes code.resultFmt
      Writer.end
      bytes execSync) ((bindFor w [] name count).st (oids.map bakedFormat) []) := by
  have hformats : codeBytes ((List.range oids.length).map fun i =>
      bakedFormat (oids.getD (i % if oids.length = 0 then 0 else paramPeriod oids) 0)) =
      codeBytes (oids.map bakedFormat) := by
    by_cases hn : oids = []
    · rw [hn]
      rfl
    · rw [if_neg (fun h => hn (List.length_eq_zero_iff.mp h)), baked_formats hn]
  let w₁ : Writer := ⟨w.buf ++ [66] ++ [0, 0, 0, 0], (w.buf ++ [66]).length⟩
  have hstart : start 'B' w = .ok ((), w₁) := rfl
  have hmark : mark w₁ = .ok (w₁.buf.length, w₁) := rfl
  have hheader : bytes code.header w₁ = .ok ((), w₁.app code.header) := rfl
  have hbase : w₁.buf.length = w.buf.length + 5 := by
    show (w.buf ++ [66] ++ [0, 0, 0, 0]).length = _
    simp
  have hst : w₁.app code.header = (bindFor w [] name count).st (oids.map bakedFormat) [] := by
    rw [hcode.header, hformats]
    show Writer.mk _ _ = Writer.mk _ _
    congr 1
    · show w.buf ++ [66] ++ [0, 0, 0, 0] ++ _ = bindHead w [] name count ++ _ ++ (count ++ [])
      simp only [bindHead, utf8, List.nil_append, List.append_assoc, List.append_nil]
    · exact List.length_append
  unfold BindCode.run
  rw [bind_of_ok hstart, bind_of_ok hmark, bind_of_ok hheader, hst, hbase, hcode.execSync]
  unfold BindCode.runBody
  split <;> rfl

theorem interpreted_eq (hc : uint16BE params.length = .ok count) (w : Writer) :
    interpreted js name oids rf params w = (do
      writeParams ((compileParamPlan js oids).getD fun v _ => encodeValueInto js v)
        (bindHead w [] name count).length params 0
      writeResultFormat rf
      Writer.end
      writeExecute [] 0
      writeSync) ((bindFor w [] name count).st (params.map fun _ => .text) []) := by
  unfold interpreted
  show (writeBindWith [] name params _ rf w >>= fun p => _) = _
  rw [writeBindWith_eq _ hc w]
  show ((do writeParams _ _ params 0; writeResultFormat rf; Writer.end) >>= fun _ => _) _ = _
  simp only [bind_assoc]

theorem writeParams_zip_fills (hr : ∀ oid v, Yields (encoderOf js oid v) (r oid v))
    (hlen : params.length = oids.length) :
    (bindSlots pre mid msgStart).FillsAll
      (writeParams ((compileParamPlan js oids).getD fun v _ => encodeValueInto js v) pre.length
        params 0) 0 (params.map fun _ => .text) (outcomes r (oids.zip params)) := by
  have hsnd : (oids.zip params).map Prod.snd = params := List.map_snd_zip (Nat.le_of_eq hlen)
  have hheld : (params.map fun _ => Format.text) = (oids.zip params).map fun _ => .text := by
    conv_lhs => rw [← hsnd]
    rw [List.map_map]
    rfl
  rw [hheld]
  conv in writeParams _ _ params 0 => rw [← hsnd]
  refine writeParams_fills hr (oids.zip params) 0 fun k p hk => ?_
  rw [Nat.zero_add]
  exact plan_eq (zip_getElem hk).1 p.2

/-- **The compiled encoder writes the same bytes.**  What it appends is what `writeBindWith`,
`writeExecute` and `writeSync` append, or both throw the same. -/
theorem compiled_bytes_eq (hcode : compileBindEncoder js name oids rf = .ok (some code))
    (hlen : params.length = oids.length) (w : Writer) :
    bytesOf (code.run js params w) = bytesOf (interpreted js name oids rf params w) := by
  obtain ⟨count, hcode⟩ := compiledFor hcode
  have happends : ∀ oid v, OnlyAppends (encoderOf js oid v) := encoderOf_appends
  choose r hr using happends
  have hcount : uint16BE params.length = .ok count := hlen ▸ hcode.length
  have hbase : w.buf.length + 5 + code.fmt0 = (bindHead w [] name count).length := by
    have hc : count.length = 2 := checked_length hcount
    rw [hcode.fmt0]
    simp only [bindHead, utf8, List.length_append, hc, List.length_cons, List.length_nil]
  have hfills : (bindFor w [] name count).FillsAll (code.runBody js params (w.buf.length + 5)) 0
      (oids.map bakedFormat) (outcomes r (oids.zip params)) :=
    runBody_fills hr hcode hlen hbase
  have halike := filled_alike hfills (writeParams_zip_fills hr hlen)
  rw [run_eq hcode w, interpreted_eq hcount w]
  cases hbody : code.runBody js params (w.buf.length + 5)
      ((bindFor w [] name count).st (oids.map bakedFormat) []) with
  | error e =>
    rw [hbody] at halike
    rw [bind_of_error hbody, bind_of_error halike.symm]
  | ok p =>
    rw [hbody] at halike
    rw [bind_of_ok hbody, bind_of_ok halike.symm]
    exact tails_eq hcode.resultFmt p.2

/-- An engine for values that are no numbers or objects. -/
def plainEngine : Engine := ⟨fun _ => [], fun _ => .ok none, fun _ => [], fun _ => none⟩

/-- Two rows of a boolean and a text. -/
def rowOids : List Oid := [16, 25, 16, 25]

def rowParams : List Value :=
  [.boolean true, .string (ascii "a"), .null, .string (ascii "b")]

/-- The code compiled for `rowOids`. -/
def rowCode : BindCode where
  header := [0, 115, 0, 0, 4, 0, 1, 0, 0, 0, 1, 0, 0, 0, 4]
  fmt0 := 5
  cols := [.bool, .text]
  rowCount := 2
  resultFmt := [0, 1, 0, 0]
  execSync := execSync

theorem rowCode_compiled :
    compileBindEncoder plainEngine (ascii "s") rowOids (.all 0) = .ok (some rowCode) := by
  have hperiod : paramPeriod rowOids = 2 := by decide
  have hcount : uint16BE 4 = .ok [0, 4] := by decide
  have hformat : compileResultFormat (.all 0) = .ok [0, 1, 0, 0] := by decide +kernel
  unfold compileBindEncoder
  dsimp only
  rw [hperiod, hformat, messageExecute_eq, messageSync_eq]
  rfl

theorem compiled_bytes_eq_rows :
    bytesOf (rowCode.run plainEngine rowParams {}) =
      bytesOf (interpreted plainEngine (ascii "s") rowOids (.all 0) rowParams {}) :=
  compiled_bytes_eq rowCode_compiled rfl {}

end Minipg.Encode
