import Minipg.Encode.Frames
import Minipg.Encode.Identity
import Minipg.Wire.Frontend

/-!
# The messages that are written are read back

What a call writes is read back as one message with the fields of the call, and nothing is left of
it, exactly when the strings of the call can stand in the message and its numbers are integers
(`reads_back_iff`).  Only the SQL text of Parse is checked for U+0000; the names are not, no string
is checked for surrogates that stand alone, and the fraction of a number is dropped.
-/

namespace Minipg.Frontend

open Js Taking Appending Encode Encode.Writer

/-! ### Calls -/

/-- An encoder that keeps to what `writeBindWith` expects of it: it writes a value with its length,
or the length -1. -/
structure ValueEncoder where
  enc : Encode.ParamsEncoder
  sends : ∀ v i, ∃ null, Sends (enc v i) null

/-- `encodeValueInto`, for a statement that was not described. -/
def ValueEncoder.text (js : Engine) : ValueEncoder where
  enc v _ := encodeValueInto js v
  sends v _ := ⟨_, encodeValueInto_sends v⟩

/-- The plan for these types. -/
def ValueEncoder.plan (js : Engine) (oids : List Encode.Oid) : ValueEncoder where
  enc := (compileParamPlan js oids).getD fun v _ => encodeValueInto js v
  sends v i := by
    unfold compileParamPlan
    dsimp only
    split
    · show ∃ null, Sends (match (oids.map (binEncoderFor js))[i]? with
        | some (some e) => e v
        | _ => encodeValueInto js v) null
      split
      · next e he =>
        obtain ⟨oid, -, ho⟩ := List.mem_map.mp (List.mem_of_getElem? he)
        exact ⟨_, binEncoderFor_sends oid v e ho⟩
      · exact ⟨_, encodeValueInto_sends v⟩
    · exact ⟨_, encodeValueInto_sends v⟩

inductive Call
  | parse (name sql : JsString) (paramOids : Option (List Double))
  | describe (kind : Encode.Kind) (name : JsString)
  | bindWith (portal statement : JsString) (params : List Value) (enc : ValueEncoder)
      (resultFormat : ResultFormat)
  | bindRaw (portal statement : JsString) (formats : List Double)
      (values : List (Option (List UInt8))) (resultFormat : ResultFormat)
  | execute (portal : JsString) (maxRows : Double)
  | close (kind : Encode.Kind) (name : JsString)

def Call.write : Call → Write Unit
  | .parse name sql paramOids => writeParse name sql paramOids
  | .describe kind name => writeDescribe kind name
  | .bindWith portal statement params enc resultFormat =>
    writeBindWith portal statement params enc.enc resultFormat
  | .bindRaw portal statement formats values resultFormat =>
    writeBindRaw portal statement formats values resultFormat
  | .execute portal maxRows => writeExecute portal maxRows
  | .close kind name => writeClose kind name

/-! ### The same fields -/

def codes : ResultFormat → List Double
  | .all format => [format]
  | .each formats => formats

/-- These numbers are these integers. -/
def Same (xs : List Double) (ns : List Int) : Prop := xs.map Double.integer? = ns.map some

/-- What the encoder writes for the values from index `i` on. -/
inductive Sent (enc : Encode.ParamsEncoder) :
    List Value → Nat → List Format → List (Option (List UInt8)) → Prop
  | nil {i : Nat} : Sent enc [] i [] []
  | cons {v : Value} {vs : List Value} {i : Nat} {f : Format} {fs : List Format}
      {b : Option (List UInt8)} {bs : List (Option (List UInt8))} :
      enc v i {} = .ok (f, ⟨framed b, 0⟩) → Sent enc vs (i + 1) fs bs →
        Sent enc (v :: vs) i (f :: fs) (b :: bs)

/-- The message has the fields of the call. -/
def Call.Carries : Call → Message → Prop
  | .parse name sql oids, .parse name' sql' oids' =>
    name' = name ∧ sql' = sql ∧ Same (oids.getD []) oids'
  | .describe kind name, .describe kind' name' => kind' = kind ∧ name' = name
  | .bindWith portal statement params enc rf, .bind portal' statement' formats values rfs =>
    portal' = portal ∧ statement' = statement ∧
      (∃ fs, formats = fs.map Format.code ∧ Sent enc.enc params 0 fs values) ∧ Same (codes rf) rfs
  | .bindRaw portal statement formats values rf, .bind portal' statement' formats' values' rfs =>
    portal' = portal ∧ statement' = statement ∧ Same formats formats' ∧ values' = values ∧
      Same (codes rf) rfs
  | .execute portal maxRows, .execute portal' maxRows' =>
    portal' = portal ∧ Same [maxRows] [maxRows']
  | .close kind name, .close kind' name' => kind' = kind ∧ name' = name
  | _, _ => False

/-- Every number is an integer. -/
def Integral (xs : List Double) : Prop := ∀ x ∈ xs, x.integer?.isSome

/-- What the message format can hold. -/
def Call.Plain : Call → Prop
  | .parse name sql oids => Text name ∧ Text sql ∧ Integral (oids.getD [])
  | .describe _ name | .close _ name => Text name
  | .bindWith portal statement _ _ rf => Text portal ∧ Text statement ∧ Integral (codes rf)
  | .bindRaw portal statement formats _ rf =>
    Text portal ∧ Text statement ∧ Integral formats ∧ Integral (codes rf)
  | .execute portal maxRows => Text portal ∧ Integral [maxRows]

theorem Same.integral {xs : List Double} {ns : List Int} (h : Same xs ns) : Integral xs := by
  intro x hx
  have hm : x.integer? ∈ ns.map some := h ▸ List.mem_map_of_mem hx
  obtain ⟨n, -, hn⟩ := List.mem_map.mp hm
  rw [← hn]
  rfl

theorem Integral.same {xs : List Double} (h : Integral xs) : Same xs (xs.map Double.trunc) := by
  unfold Same
  rw [List.map_map]
  refine List.map_congr_left fun x hx => ?_
  obtain ⟨n, hn⟩ := Option.isSome_iff_exists.mp (h x hx)
  show x.integer? = some x.trunc
  rw [hn, Double.trunc_of_integer hn]

/-! ### What is written -/

/-- `m` writes `bs` or throws, and when it does not throw, `P`. -/
def Puts (m : Write Unit) (bs : List UInt8) (P : Prop) : Prop :=
  ∃ r : Appending.Outcome Thrown UInt8 Unit, Yields m r ∧ ∀ xs, r = .ok ((), xs) → xs = bs ∧ P

namespace Puts

variable {m m' : Write Unit} {xs ys : List UInt8} {P Q : Prop}

theorem append (bs : List UInt8) : Puts (append bs) bs True :=
  ⟨_, append_yields bs, fun _ h => by cases h; exact ⟨rfl, trivial⟩⟩

theorem checked (lo hi : Int) (size : Nat) (n : Int) :
    Puts (appendOr (checked lo hi size n)) (bigEndian size n) (lo ≤ n ∧ n ≤ hi) := by
  refine ⟨_, appendOr_yields _, fun xs h => ?_⟩
  have hxs := written_ok h
  unfold Encode.checked at hxs
  split at hxs
  · next hn =>
    cases hxs
    exact ⟨rfl, hn⟩
  · cases hxs

theorem number (lo hi : Int) (size : Nat) (x : Double) :
    Puts (appendOr (checkedNumber lo hi size x)) (bigEndian size x.trunc)
      (x.outside lo hi = false) := by
  refine ⟨_, appendOr_yields _, fun xs h => ?_⟩
  have hxs := written_ok h
  unfold checkedNumber at hxs
  split at hxs
  · cases hxs
  · next hx =>
    cases hxs
    exact ⟨rfl, Bool.eq_false_iff.mpr hx⟩

theorem bind (h : Puts m xs P) (h' : Puts m' ys Q) : Puts (do m; m') (xs ++ ys) (P ∧ Q) := by
  obtain ⟨r, hr, hP⟩ := h
  obtain ⟨r', hr', hQ⟩ := h'
  refine ⟨r.bind fun _ => r', hr.bind fun _ => hr', fun zs hzs => ?_⟩
  obtain ⟨⟨⟩, xs', ys', hxs, hys, rfl⟩ := Encode.Outcome.bind_ok hzs
  obtain ⟨rfl, hp⟩ := hP xs' hxs
  obtain ⟨rfl, hq⟩ := hQ ys' hys
  exact ⟨rfl, hp, hq⟩

theorem forM {α : Type} {f : α → Write Unit} {enc : α → List UInt8} {R : α → Prop}
    (h : ∀ a, Puts (f a) (enc a) (R a)) :
    ∀ l : List α, Puts (l.forM f) (l.flatMap enc) (∀ a ∈ l, R a)
  | [] => ⟨_, .pure (), fun _ h => by cases h; exact ⟨rfl, fun _ ha => (nomatch ha)⟩⟩
  | a :: l => by
    obtain ⟨r, hr, hall⟩ := (h a).bind (forM h l)
    refine ⟨r, hr, fun xs hxs => ?_⟩
    obtain ⟨rfl, ha, hl⟩ := hall xs hxs
    refine ⟨rfl, fun b hb => ?_⟩
    rcases List.mem_cons.mp hb with rfl | hb
    · exact ha
    · exact hl b hb

theorem value : ∀ b : Option (List UInt8), Puts (writeValue b) (framed b) (Encode.Fits b)
  | none => by
    obtain ⟨r, hr, h⟩ := checked (-2147483648) 2147483647 4 (-1)
    exact ⟨r, hr, fun xs hxs => ⟨(h xs hxs).1, fun _ hb => (nomatch hb)⟩⟩
  | some b => by
    obtain ⟨r, hr, h⟩ := (checked (-2147483648) 2147483647 4 b.length).bind (append b)
    refine ⟨r, hr, fun xs hxs => ?_⟩
    obtain ⟨rfl, hlen, -⟩ := h xs hxs
    refine ⟨rfl, fun bs hbs => ?_⟩
    obtain rfl : b = bs := Option.some.inj hbs
    omega

end Puts

/-- Numbers after their count. -/
def numbers (size : Nat) (xs : List Double) : List UInt8 :=
  bigEndian 2 xs.length ++ xs.flatMap fun x => bigEndian size x.trunc

theorem writeResultFormat_puts (rf : ResultFormat) : Puts (writeResultFormat rf)
    (numbers 2 (codes rf))
    ((0 ≤ ((codes rf).length : Int) ∧ ((codes rf).length : Int) ≤ 65535) ∧
      ∀ x ∈ codes rf, x.outside 0 65535 = false) := by
  cases rf with
  | each formats => exact (Puts.checked _ _ _ _).bind (Puts.forM (fun x => .number _ _ _ x) formats)
  | all format =>
    obtain ⟨r, hr, h⟩ := (Puts.checked 0 65535 2 1).bind (Puts.number 0 65535 2 format)
    refine ⟨r, hr, fun xs hxs => ?_⟩
    obtain ⟨rfl, hone, hx⟩ := h xs hxs
    refine ⟨?_, hone, fun y hy => ?_⟩
    · show _ = _ ++ (_ ++ [])
      rw [List.append_nil]
      rfl
    · rw [List.mem_singleton.mp hy]
      exact hx

/-- The bytes of a message. -/
def messageBytes (type : Char) (body : List UInt8) : List UInt8 :=
  byteOf type.toNat :: bigEndian 4 (body.length + 4) ++ body

/-- What `end` leaves. -/
theorem end_ok {a body : List UInt8} {w' : Writer}
    (h : Writer.end ⟨a ++ [0, 0, 0, 0] ++ body, a.length⟩ = .ok ((), w')) :
    (body.length : Int) + 4 ≤ 2147483647 ∧
      w'.buf = a ++ bigEndian 4 (body.length + 4) ++ body := by
  rw [end_eq] at h
  cases hb : Encode.int32BE (body.length + 4) with
  | error e =>
    rw [hb] at h
    cases h
  | ok b4 =>
    rw [hb] at h
    cases h
    obtain ⟨rfl, -, hle⟩ := int32BE_ok hb
    exact ⟨hle, rfl⟩

theorem byteOf_emod (n : Nat) : byteOf ((n : Int) % 256).toNat = byteOf n := by
  apply UInt8.toNat_inj.mp
  show ((n : Int) % 256).toNat % 256 = n % 256
  omega

theorem byte_puts (n : Nat) : Puts (byte n) [byteOf n] True := by
  have h := Puts.append [byteOf ((n : Int) % 256).toNat]
  rw [byteOf_emod] at h
  unfold byte
  rw [byteOf_emod]
  exact h

theorem start_run (type : Char) (w : Writer) : start type w =
    .ok ((), ⟨w.buf ++ [byteOf type.toNat] ++ [0, 0, 0, 0],
      (w.buf ++ [byteOf type.toNat]).length⟩) := by
  rw [← byteOf_emod]
  rfl

/-- What stands between `start` and `end`. -/
theorem end_message {type : Char} {w w' : Writer} {bs : List UInt8}
    (h : Writer.end ⟨w.buf ++ [byteOf type.toNat] ++ [0, 0, 0, 0] ++ bs,
      (w.buf ++ [byteOf type.toNat]).length⟩ = .ok ((), w')) :
    (bs.length : Int) + 4 ≤ 2147483647 ∧ w'.buf = w.buf ++ messageBytes type bs := by
  obtain ⟨hlen, hbuf⟩ := end_ok h
  refine ⟨hlen, hbuf.trans ?_⟩
  show _ = w.buf ++ ([byteOf type.toNat] ++ bigEndian 4 (bs.length + 4) ++ bs)
  simp only [List.append_assoc]

/-- A message whose body is written between `start` and `end`. -/
theorem written_message (type : Char) {body : Write Unit} {bs : List UInt8} {P : Prop}
    {w w' : Writer} (hbody : Puts body bs P)
    (h : (do start type; body; Writer.end) w = .ok ((), w')) :
    P ∧ (bs.length : Int) + 4 ≤ 2147483647 ∧ w'.buf = w.buf ++ messageBytes type bs := by
  obtain ⟨r, hr, hputs⟩ := hbody
  rw [bind_of_ok (start_run type w)] at h
  cases r with
  | error e =>
    rw [bind_of_error (hr _)] at h
    cases h
  | ok p =>
    obtain ⟨⟨⟩, xs⟩ := p
    obtain ⟨rfl, hP⟩ := hputs xs rfl
    rw [bind_of_ok (hr _)] at h
    exact ⟨hP, end_message h⟩

/-! ### What is read -/

theorem value_takes {b : Option (List UInt8)} (h : Encode.Fits b) : Takes value (framed b) b := by
  cases b with
  | none => exact (int32_takes (by decide) (by decide)).last (.pure none)
  | some bs =>
    have hlen : bs.length ≤ 2147483647 := h bs rfl
    refine (int32_takes (by omega) (by omega)).bind ?_
    rw [if_neg (by omega), if_neg (by omega), Int.toNat_natCast]
    exact (Takes.exactly bs).last (.pure (some bs))

theorem number_takes {x : Double} {lo hi n : Int} (hn : x.integer? = some n)
    (h : x.outside lo hi = false) : x.trunc = n ∧ lo ≤ n ∧ n ≤ hi :=
  ⟨Double.trunc_of_integer hn, Double.between_of_integer hn h⟩

theorem uint16s_take {xs : List Double} (hi : Integral xs) (hlen : (xs.length : Int) ≤ 65535)
    (h : ∀ x ∈ xs, x.outside 0 65535 = false) :
    Takes (counted uint16) (numbers 2 xs) (xs.map Double.trunc) := by
  refine counted_takes (by omega) fun x hx => ?_
  obtain ⟨n, hn⟩ := Option.isSome_iff_exists.mp (hi x hx)
  obtain ⟨ht, hlo, hhi⟩ := number_takes hn (h x hx)
  rw [ht]
  exact uint16_takes hlo hhi

theorem int32s_take {xs : List Double} (hi : Integral xs) (hlen : (xs.length : Int) ≤ 65535)
    (h : ∀ x ∈ xs, x.outside (-2147483648) 2147483647 = false) :
    Takes (counted int32) (numbers 4 xs) (xs.map Double.trunc) := by
  refine counted_takes (by omega) fun x hx => ?_
  obtain ⟨n, hn⟩ := Option.isSome_iff_exists.mp (hi x hx)
  obtain ⟨ht, hlo, hhi⟩ := number_takes hn (h x hx)
  rw [ht]
  exact int32_takes hlo hhi

theorem values_take {vs : List (Option (List UInt8))} (hlen : (vs.length : Int) ≤ 65535)
    (h : ∀ v ∈ vs, Encode.Fits v) :
    Takes (counted value) (bigEndian 2 vs.length ++ vs.flatMap framed) vs := by
  have hv : Takes (counted value) _ (vs.map id) :=
    counted_takes (by omega) fun v hv => value_takes (h v hv)
  rw [List.map_id] at hv
  exact hv

/-- What a call writes, and how it is read. -/
def Call.Written (c : Call) (bs : List UInt8) : Prop :=
  ∃ type body, bs = messageBytes type body ∧ (body.length : Int) + 4 ≤ 2147483647 ∧
    (c.Plain → ∃ m, Takes (fields (byteOf type.toNat)) body m ∧ c.Carries m)

variable {w w' : Writer}

theorem describe_written {kind : Encode.Kind} {name : JsString}
    (h : writeDescribe kind name w = .ok ((), w')) :
    ∃ bs, w'.buf = w.buf ++ bs ∧ (Call.describe kind name).Written bs := by
  obtain ⟨-, hlen, hbuf⟩ := written_message 'D'
    ((byte_puts kind.code.toNat).bind (Puts.append (utf8 name ++ [0]))) h
  exact ⟨_, hbuf, 'D', _, rfl, hlen, fun hp => ⟨.describe kind name,
    (kind_takes kind).bind ((cstring_takes hp).last (.pure _)), rfl, rfl⟩⟩

theorem close_written {kind : Encode.Kind} {name : JsString}
    (h : writeClose kind name w = .ok ((), w')) :
    ∃ bs, w'.buf = w.buf ++ bs ∧ (Call.close kind name).Written bs := by
  obtain ⟨-, hlen, hbuf⟩ := written_message 'C'
    ((byte_puts kind.code.toNat).bind (Puts.append (utf8 name ++ [0]))) h
  exact ⟨_, hbuf, 'C', _, rfl, hlen, fun hp => ⟨.close kind name,
    (kind_takes kind).bind ((cstring_takes hp).last (.pure _)), rfl, rfl⟩⟩

theorem execute_written {portal : JsString} {maxRows : Double}
    (h : writeExecute portal maxRows w = .ok ((), w')) :
    ∃ bs, w'.buf = w.buf ++ bs ∧ (Call.execute portal maxRows).Written bs := by
  obtain ⟨⟨-, hrows⟩, hlen, hbuf⟩ := written_message 'E'
    ((Puts.append (utf8 portal ++ [0])).bind (.number _ _ 4 maxRows)) h
  refine ⟨_, hbuf, 'E', _, rfl, hlen, fun hp => ⟨.execute portal maxRows.trunc, ?_, rfl, ?_⟩⟩
  · obtain ⟨n, hn⟩ := Option.isSome_iff_exists.mp (hp.2 maxRows List.mem_cons_self)
    obtain ⟨ht, hlo, hhi⟩ := number_takes hn hrows
    rw [ht]
    exact (cstring_takes hp.1).bind ((int32_takes hlo hhi).last (.pure _))
  · exact hp.2.same

theorem writeParamOids_puts (oids : List Double) : Puts (writeParamOids oids) (numbers 4 oids)
    ((oids.length : Int) ≤ 65535 ∧
      ∀ x ∈ oids, x.outside (-2147483648) 2147483647 = false) := by
  unfold writeParamOids
  by_cases hn : oids.length ≠ 0
  · rw [if_pos hn]
    obtain ⟨r, hr, h⟩ := (Puts.checked 0 65535 2 oids.length).bind
      (Puts.forM (fun x => .number (-2147483648) 2147483647 4 x) oids)
    refine ⟨r, hr, fun xs hxs => ?_⟩
    obtain ⟨rfl, hlen, hall⟩ := h xs hxs
    exact ⟨rfl, hlen.2, hall⟩
  · rw [if_neg hn]
    obtain rfl : oids = [] := List.length_eq_zero_iff.mp (not_not.mp hn)
    obtain ⟨r, hr, h⟩ := Puts.checked 0 65535 2 0
    refine ⟨r, hr, fun xs hxs => ?_⟩
    obtain ⟨rfl, -⟩ := h xs hxs
    exact ⟨rfl, by decide, fun _ hx => (nomatch hx)⟩

theorem parse_written {name sql : JsString} {oids : Option (List Double)}
    (h : writeParse name sql oids w = .ok ((), w')) :
    ∃ bs, w'.buf = w.buf ++ bs ∧ (Call.parse name sql oids).Written bs := by
  unfold writeParse at h
  by_cases hn : Js.hasNul sql
  · rw [if_pos hn] at h
    cases h
  rw [if_neg hn] at h
  obtain ⟨⟨-, -, hlen', hall⟩, hlen, hbuf⟩ := written_message 'P'
    ((Puts.append (utf8 name ++ [0])).bind ((Puts.append (utf8 sql ++ [0])).bind
      (writeParamOids_puts (oids.getD [])))) h
  refine ⟨_, hbuf, 'P', _, rfl, hlen, fun hp =>
    ⟨.parse name sql ((oids.getD []).map Double.trunc), ?_, rfl, rfl, hp.2.2.same⟩⟩
  exact (cstring_takes hp.1).bind ((cstring_takes hp.2.1).bind
    ((int32s_take hp.2.2 hlen' hall).last (.pure _)))

theorem bindRaw_written {portal statement : JsString} {formats : List Double}
    {values : List (Option (List UInt8))} {rf : ResultFormat}
    (h : writeBindRaw portal statement formats values rf w = .ok ((), w')) :
    ∃ bs, w'.buf = w.buf ++ bs ∧
      (Call.bindRaw portal statement formats values rf).Written bs := by
  unfold writeBindRaw at h
  by_cases hn : values.length > maxParams
  · rw [if_pos hn] at h
    cases h
  rw [if_neg hn] at h
  have hbody : (do
      start 'B'
      (do
        cstr portal
        cstr statement
        (do
          int16 formats.length
          formats.forM number16)
        (do
          int16 values.length
          values.forM writeValue)
        writeResultFormat rf)
      Writer.end) w = .ok ((), w') := by
    simp only [bind_assoc]
    exact h
  obtain ⟨⟨-, -, ⟨hf, hfs⟩, ⟨hv, hvs⟩, hr, hrs⟩, hlen, hbuf⟩ := written_message 'B'
    ((Puts.append (utf8 portal ++ [0])).bind ((Puts.append (utf8 statement ++ [0])).bind
      (((Puts.checked 0 65535 2 formats.length).bind
        (Puts.forM (fun x => .number 0 65535 2 x) formats)).bind
          (((Puts.checked 0 65535 2 values.length).bind (Puts.forM .value values)).bind
            (writeResultFormat_puts rf))))) hbody
  refine ⟨_, hbuf, 'B', _, rfl, hlen, fun hp =>
    ⟨.bind portal statement (formats.map Double.trunc) values ((codes rf).map Double.trunc), ?_,
      rfl, rfl, hp.2.2.1.same, rfl, hp.2.2.2.same⟩⟩
  exact (cstring_takes hp.1).bind ((cstring_takes hp.2.1).bind
    ((uint16s_take hp.2.2.1 hf.2 hfs).bind ((values_take hv.2 hvs).bind
      ((uint16s_take hp.2.2.2 hr.2 hrs).last (.pure _)))))

/-! ### Values that an encoder writes -/

/-- The outcomes of the values from index `i` on. -/
def outcomesFrom (r : Value → Nat → Appending.Outcome Thrown UInt8 Format) :
    List Value → Nat → List (Appending.Outcome Thrown UInt8 Format)
  | [], _ => []
  | v :: vs, i => r v i :: outcomesFrom r vs (i + 1)

theorem writeParams_yields {enc : Encode.ParamsEncoder}
    {r : Value → Nat → Appending.Outcome Thrown UInt8 Format}
    (hr : ∀ v i, Yields (enc v i) (r v i)) {pre mid : List UInt8} {msgStart : Nat} :
    ∀ (vs : List Value) (i : Nat), (bindSlots pre mid msgStart).FillsAll
      (writeParams enc pre.length vs i) i (vs.map fun _ => .text) (outcomesFrom r vs i) := by
  intro vs
  induction vs with
  | nil => exact fun _ => .nil
  | cons v vs ih =>
    intro i
    rw [writeParams_cons]
    exact Slots.FillsAll.append (Slots.FillsAll.one .text (hr v i)) (ih (i + 1)) rfl

/-- What was sent. -/
theorem sent_of_fillAll {enc : Encode.ParamsEncoder}
    {r : Value → Nat → Appending.Outcome Thrown UInt8 Format}
    (hr : ∀ v i, Yields (enc v i) (r v i))
    (hframed : ∀ v i f bs, r v i = .ok (f, bs) → ∃ b, bs = framed b ∧ Encode.Fits b) :
    ∀ (vs : List Value) (i : Nat) {fs : List Format} {xs : List UInt8},
      fillAll (outcomesFrom r vs i) = .ok (fs, xs) →
        ∃ bs, xs = bs.flatMap framed ∧ bs.length = vs.length ∧ (∀ b ∈ bs, Encode.Fits b) ∧
          Sent enc vs i fs bs
  | [], i, fs, xs, h => by
    cases h
    exact ⟨[], rfl, rfl, fun _ hb => (nomatch hb), .nil⟩
  | v :: vs, i, fs, xs, h => by
    unfold outcomesFrom at h
    cases hv : r v i with
    | error e =>
      rw [hv] at h
      cases h
    | ok p =>
      obtain ⟨f, ys⟩ := p
      obtain ⟨b, rfl, hfits⟩ := hframed v i f ys hv
      rw [hv] at h
      cases hrest : fillAll (outcomesFrom r vs (i + 1)) with
      | error e =>
        rw [fillAll, hrest] at h
        cases h
      | ok q =>
        obtain ⟨gs, zs⟩ := q
        rw [fillAll, hrest] at h
        cases h
        obtain ⟨bs, rfl, hlen, hall, hsent⟩ := sent_of_fillAll hr hframed vs (i + 1) hrest
        refine ⟨b :: bs, rfl, congrArg (· + 1) hlen, fun c hc => ?_, .cons ?_ hsent⟩
        · rcases List.mem_cons.mp hc with rfl | hc
          · exact hfits
          · exact hall c hc
        · rw [hr v i, hv]
          rfl

theorem Sent.length {enc : Encode.ParamsEncoder} {vs : List Value} {i : Nat} {fs : List Format}
    {bs : List (Option (List UInt8))} (h : Sent enc vs i fs bs) :
    fs.length = vs.length ∧ bs.length = vs.length := by
  induction h with
  | nil => exact ⟨rfl, rfl⟩
  | cons _ _ ih => exact ⟨congrArg (· + 1) ih.1, congrArg (· + 1) ih.2⟩

theorem formats_take {fs : List Format} (hlen : fs.length ≤ 65535) :
    Takes (counted uint16) (bigEndian 2 fs.length ++ codeBytes fs) (fs.map Format.code) := by
  refine counted_takes hlen fun f _ => ?_
  cases f
  · exact uint16_takes (by decide) (by decide)
  · exact uint16_takes (by decide) (by decide)

/-- The fields of Bind. -/
def bindBody (portal statement : JsString) (fs : List Format) (bs : List (Option (List UInt8)))
    (rf : ResultFormat) : List UInt8 :=
  (utf8 portal ++ [0]) ++ ((utf8 statement ++ [0]) ++ ((bigEndian 2 fs.length ++ codeBytes fs) ++
    ((bigEndian 2 bs.length ++ bs.flatMap framed) ++ numbers 2 (codes rf))))

theorem bindWith_written {portal statement : JsString} {params : List Value} {enc : ValueEncoder}
    {rf : ResultFormat} (h : writeBindWith portal statement params enc.enc rf w = .ok ((), w')) :
    ∃ bs, w'.buf = w.buf ++ bs ∧
      (Call.bindWith portal statement params enc rf).Written bs := by
  by_cases hn : params.length > maxParams
  · unfold writeBindWith at h
    rw [if_pos hn] at h
    cases h
  have hlen : params.length ≤ 65535 := Nat.not_lt.mp hn
  have hcount : uint16BE params.length = .ok (bigEndian 2 params.length) :=
    if_pos ⟨by omega, by omega⟩
  have hsends := enc.sends
  choose null r hr hval using hsends
  have hfills : (bindFor w portal statement (bigEndian 2 params.length)).FillsAll _ 0 _ _ :=
    writeParams_yields hr params 0
  have hrun := hfills [] [] [] rfl
  rw [List.nil_append, List.append_nil] at hrun
  rw [writeBindWith_eq enc.enc hcount] at h
  cases hall : fillAll (outcomesFrom r params 0) with
  | error e =>
    rw [hall] at hrun
    rw [bind_of_error hrun] at h
    cases h
  | ok p =>
    obtain ⟨fs, xs⟩ := p
    rw [hall] at hrun
    rw [bind_of_ok hrun] at h
    obtain ⟨bs, rfl, -, hfits, hsent⟩ := sent_of_fillAll hr (fun v i f xs hv => by
      obtain ⟨b, hb, hfit, -⟩ := hval v i f xs hv
      exact ⟨b, hb, hfit⟩) params 0 hall
    obtain ⟨hfs, hbs⟩ := hsent.length
    obtain ⟨r', hr', hputs⟩ := writeResultFormat_puts rf
    cases r' with
    | error e =>
      rw [bind_of_error (hr' _)] at h
      cases h
    | ok q =>
      obtain ⟨⟨⟩, ys⟩ := q
      obtain ⟨rfl, hr, hrs⟩ := hputs ys rfl
      rw [bind_of_ok (hr' _)] at h
      have hst : Appendable.app ((bindFor w portal statement (bigEndian 2 params.length)).st
          ([] ++ fs ++ []) ([] ++ bs.flatMap framed)) (numbers 2 (codes rf)) =
          ⟨w.buf ++ [byteOf 'B'.toNat] ++ [0, 0, 0, 0] ++ bindBody portal statement fs bs rf,
            (w.buf ++ [byteOf 'B'.toNat]).length⟩ := by
        show Writer.mk _ _ = Writer.mk _ _
        congr 1
        · show bindHead w portal statement _ ++ _ ++ _ ++ _ = _
          have htype : byteOf 'B'.toNat = 66 := rfl
          simp only [bindHead, bindBody, hfs, hbs, htype, List.append_assoc, List.nil_append,
            List.append_nil]
        · show w.buf.length + 1 = _
          rw [List.length_append]
          rfl
      rw [hst] at h
      obtain ⟨hsize, hbuf⟩ := end_message h
      refine ⟨_, hbuf, 'B', _, rfl, hsize, fun hp =>
        ⟨.bind portal statement (fs.map Format.code) bs ((codes rf).map Double.trunc), ?_,
          rfl, rfl, ⟨fs, rfl, hsent⟩, hp.2.2.same⟩⟩
      exact (cstring_takes hp.1).bind ((cstring_takes hp.2.1).bind
        ((formats_take (by omega)).bind ((values_take (by omega) hfits).bind
          ((uint16s_take hp.2.2 hr.2 hrs).last (.pure _)))))

/-! ### Reading back -/

theorem call_written {c : Call} (h : c.write w = .ok ((), w')) :
    ∃ bs, w'.buf = w.buf ++ bs ∧ c.Written bs := by
  cases c with
  | parse name sql oids => exact parse_written h
  | describe kind name => exact describe_written h
  | bindWith portal statement params enc rf => exact bindWith_written h
  | bindRaw portal statement formats values rf => exact bindRaw_written h
  | execute portal maxRows => exact execute_written h
  | close kind name => exact close_written h

/-- The strings of a message. -/
def Message.Texts : Message → Prop
  | .parse name sql _ => Text name ∧ Text sql
  | .bind portal statement _ _ _ => Text portal ∧ Text statement
  | .describe _ name | .close _ name => Text name
  | .execute portal _ => Text portal

theorem fields_give (type : UInt8) : Gives (fun _ => True) (fields type) Message.Texts := by
  refine .ite (fun _ => ?_) fun _ => .ite (fun _ => ?_) fun _ => .ite (fun _ => ?_) fun _ =>
    .ite (fun _ => ?_) fun _ => .ite (fun _ => ?_) fun _ => .failure
  · exact cstring_gives.bind fun _ hname => cstring_gives.bind fun _ hsql =>
      (Gives.any _).bind fun _ _ => .pure ⟨hname, hsql⟩
  · exact cstring_gives.bind fun _ hportal => cstring_gives.bind fun _ hstatement =>
      (Gives.any _).bind fun _ _ => (Gives.any _).bind fun _ _ => (Gives.any _).bind fun _ _ =>
        .pure ⟨hportal, hstatement⟩
  · exact (Gives.any _).bind fun _ _ => cstring_gives.bind fun _ hname => .pure hname
  · exact cstring_gives.bind fun _ hportal => (Gives.any _).bind fun _ _ => .pure hportal
  · exact (Gives.any _).bind fun _ _ => cstring_gives.bind fun _ hname => .pure hname

theorem message_gives : Gives (fun _ => True) message Message.Texts :=
  (Gives.any _).bind fun type _ => (Gives.any _).bind fun _ _ => .ite (fun _ => .failure) fun _ =>
    (Gives.any _).bind fun _ _ => .known fun _ hm =>
      (fields_give type).whole (fun _ _ => trivial) hm

theorem plain_of_carries {c : Call} {m : Message} (h : c.Carries m) (ht : m.Texts) : c.Plain := by
  cases c with
  | parse name sql oids =>
    cases m with
    | parse name' sql' oids' =>
      obtain ⟨rfl, rfl, hsame⟩ := h
      exact ⟨ht.1, ht.2, hsame.integral⟩
    | _ => exact h.elim
  | describe kind name =>
    cases m with
    | describe kind' name' =>
      obtain ⟨rfl, rfl⟩ := h
      exact ht
    | _ => exact h.elim
  | bindWith portal statement params enc rf =>
    cases m with
    | bind portal' statement' fs vs rfs =>
      obtain ⟨rfl, rfl, -, hsame⟩ := h
      exact ⟨ht.1, ht.2, hsame.integral⟩
    | _ => exact h.elim
  | bindRaw portal statement formats values rf =>
    cases m with
    | bind portal' statement' fs vs rfs =>
      obtain ⟨rfl, rfl, hfs, -, hsame⟩ := h
      exact ⟨ht.1, ht.2, hfs.integral, hsame.integral⟩
    | _ => exact h.elim
  | execute portal maxRows =>
    cases m with
    | execute portal' maxRows' =>
      obtain ⟨rfl, hsame⟩ := h
      exact ⟨ht, hsame.integral⟩
    | _ => exact h.elim
  | close kind name =>
    cases m with
    | close kind' name' =>
      obtain ⟨rfl, rfl⟩ := h
      exact ht
    | _ => exact h.elim

/-- **What a call writes is read back** as the fields of the call, with nothing left, exactly when
they can stand in the message. -/
theorem reads_back_iff {c : Call} (h : c.write w = .ok ((), w')) :
    (∃ bs m, w'.buf = w.buf ++ bs ∧ message bs = some (m, []) ∧ c.Carries m) ↔ c.Plain := by
  constructor
  · rintro ⟨bs, m, -, hm, hc⟩
    exact plain_of_carries hc (message_gives bs m [] (fun _ _ => trivial) hm).1
  · intro hp
    obtain ⟨bs, hbuf, type, body, rfl, hlen, hread⟩ := call_written h
    obtain ⟨m, hm, hc⟩ := hread hp
    have htake := message_takes hlen hm []
    rw [List.append_nil] at htake
    exact ⟨_, m, hbuf, htake, hc⟩

/-- Describe of a statement whose name has a U+0000 in it. -/
def nulName : Call := .describe .statement [97, 0, 98]

/-- The server reads the name up to the U+0000, and the rest of the message is left. -/
theorem nulName_not_read_back : ∃ w', nulName.write {} = .ok ((), w') ∧
    ¬∃ m, message w'.buf = some (m, []) ∧ nulName.Carries m := by
  refine ⟨⟨[68, 0, 0, 0, 9, 83, 97, 0, 98, 0], 1⟩, rfl, ?_⟩
  rintro ⟨m, hm, -⟩
  have hnone : message [68, 0, 0, 0, 9, 83, 97, 0, 98, 0] = none := by decide
  rw [hnone] at hm
  cases hm

/-- A statement with a name, and a parameter that is typed. -/
def typed : Call := .parse (ascii "s1") (ascii "select $1") (some [0x4037000000000000])

/-- What is written for it. -/
def typedBytes : List UInt8 :=
  [80, 0, 0, 0, 23, 115, 49, 0, 115, 101, 108, 101, 99, 116, 32, 36, 49, 0, 0, 1, 0, 0, 0, 23]

theorem typed_written : typed.write {} = .ok ((), ⟨typedBytes, 1⟩) := by decide +kernel

theorem typed_read_back :
    (∃ bs m, typedBytes = [] ++ bs ∧ message bs = some (m, []) ∧ typed.Carries m) ↔ typed.Plain :=
  reads_back_iff typed_written

end Minipg.Frontend
