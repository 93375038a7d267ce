import Minipg.Encode.Identity
import Minipg.Encode.Text

/-!
# What the encoders accept

The text encoder accepts a value whose text fits (`text_accepted`); the plan for a type accepts the
same values, unless it has another form for them that does not fit (`plan_accepted`): JSON for the
json types, the binary form for arrays.
-/

namespace Minipg.Encode

open Js Writer Appending

variable {js : Engine} {oids : List Oid} {v : Value} {m m' : Write Unit} {n : Write Format}

/-- The encoder of a statement whose types are known. -/
def planned (js : Engine) (oids : List Oid) : ParamsEncoder :=
  (compileParamPlan js oids).getD fun v _ => encodeValueInto js v

def Accepted (m : Write Format) : Prop := ∃ p, m {} = .ok p

/-! ### The forms of a value -/

abbrev maxLength : Nat := 2147483647

/-- The text of the value fits. -/
def TextFits (js : Engine) (v : Value) : Prop :=
  ∃ p, encodeParam js v = .ok p ∧ ∀ b ∈ p.bytes, b.length ≤ maxLength

/-- The bytes of an element, if it is of the element type. -/
def elemSize : Oid → Value → Option Nat
  | 16, .boolean _ => some 1
  | 21, v => (intIn (-32768) 32767 v).map fun _ => 2
  | 23, v => (intIn (-2147483648) 2147483647 v).map fun _ => 4
  | 20, .number x => x.safeInteger?.map fun _ => 8
  | 20, .bigint n => if i64Min ≤ n ∧ n ≤ i64Max then some 8 else none
  | 701, .number _ => some 8
  | 25, .string s | 1043, .string s => if hasNul s then none else some (utf8 s).length
  | 1114, .date (some _) | 1184, .date (some _) => some 8
  | _, _ => none

/-- The bytes of the elements with their lengths, or what the encoding ends with. -/
def elemsSize (elemOid : Oid) : List Value → Except Thrown Nat
  | [] => .ok 0
  | v :: rest =>
    if v.isNullish then (elemsSize elemOid rest).map (4 + ·)
    else
      match elemSize elemOid v with
      | none => .error .mismatch
      | some n =>
        if n ≤ maxLength then (elemsSize elemOid rest).map (4 + n + ·)
        else .error (.js .rangeError)

/-- The binary form of an array. -/
def arraySize (elemOid : Oid) (arr : List Value) : Except Thrown Nat :=
  if arr.length = 0 then .ok 12
  else if arr.length ≤ maxLength then (elemsSize elemOid arr).map (20 + ·)
  else .error (.js .rangeError)

/-- An array fits in its binary form, or has an element that is not of the element type. -/
def BinaryFits (elemOid : Oid) (arr : List Value) : Prop :=
  match arraySize elemOid arr with
  | .ok n => n ≤ maxLength
  | .error e => e = .mismatch

/-- The plan has a form for the value, where its text fits. -/
def PlanFits (js : Engine) (oid : Oid) : Value → Prop
  | .string _ => True
  | v =>
    if isJson oid then ∃ s, jsonText js v = .ok s ∧ (utf8 s).length ≤ maxLength
    else
      match elemOid oid, v with
      | some e, .array arr => BinaryFits e arr
      | _, _ => True

/-! ### What is accepted -/

/-- `m` writes `k` bytes and does not throw. -/
def Succeeds (k : Nat) (m : Write Unit) : Prop :=
  ∃ bs, Yields m (.ok ((), bs)) ∧ bs.length = k

namespace Succeeds

variable {k k' : Nat}

theorem bind (h : Succeeds k m) (h' : Succeeds k' m') : Succeeds (k + k') (do m; m') := by
  obtain ⟨bs, hm, rfl⟩ := h
  obtain ⟨bs', hm', rfl⟩ := h'
  exact ⟨bs ++ bs', hm.bind fun _ => hm', List.length_append⟩

theorem append (bs : List UInt8) : Succeeds bs.length (append bs) := ⟨bs, append_yields bs, rfl⟩

theorem checked {lo hi z : Int} {size : Nat} (h : lo ≤ z ∧ z ≤ hi) :
    Succeeds size (appendOr (checked lo hi size z)) := by
  refine ⟨bigEndian size z, ?_, bigEndian_length size z⟩
  unfold Encode.checked
  rw [if_pos h]
  exact append_yields _

theorem accepted (h : Succeeds k m) (f : Format) : Accepted (do m; return f) := by
  obtain ⟨bs, hm, -⟩ := h
  exact ⟨_, (hm.bind fun _ => .pure f) {}⟩

theorem accepted₂ (h : Succeeds k (do m; m')) (f : Format) :
    Accepted (do m; m'; return f) := by
  have ha := h.accepted f
  rw [bind_assoc] at ha
  exact ha

end Succeeds

theorem accepted_iff {r : Outcome Thrown UInt8 Format} (h : Yields n r) :
    Accepted n ↔ ∃ p, r = .ok p := by
  unfold Accepted
  rw [h {}]
  cases r with
  | error e => exact ⟨fun ⟨_, hp⟩ => (nomatch hp), fun ⟨_, hp⟩ => (nomatch hp)⟩
  | ok p => exact ⟨fun _ => ⟨p, rfl⟩, fun _ => ⟨_, rfl⟩⟩

/-- **The text encoder** takes what fits. -/
theorem text_accepted (hjs : Prints js) : Accepted (encodeValueInto js v) ↔ TextFits js v := by
  rw [accepted_iff (encodeValueInto_yields hjs v)]
  unfold TextFits
  cases encodeParam js v with
  | error e => exact ⟨fun ⟨_, hp⟩ => (nomatch hp), fun ⟨_, hp, _⟩ => (nomatch hp)⟩
  | ok p =>
    obtain ⟨f, b⟩ := p
    cases b with
    | none => exact ⟨fun _ => ⟨_, rfl, fun _ hb => (nomatch hb)⟩, fun _ => ⟨_, rfl⟩⟩
    | some b =>
      show (∃ q, (if b.length ≤ 2147483647 then _ else _) = Except.ok q) ↔ _
      by_cases hlen : b.length ≤ 2147483647
      · rw [if_pos hlen]
        refine ⟨fun _ => ⟨_, rfl, fun b' hb => ?_⟩, fun _ => ⟨_, rfl⟩⟩
        obtain rfl : b = b' := Option.some.inj hb
        exact hlen
      · rw [if_neg hlen]
        refine ⟨fun ⟨_, hp⟩ => (nomatch hp), fun ⟨p, hp, hfits⟩ => absurd ?_ hlen⟩
        obtain rfl := Except.ok.inj hp
        exact hfits b rfl

/-! ### Scalars -/

theorem intIn_between {lo hi k : Int} (h : intIn lo hi v = some k) : lo ≤ k ∧ k ≤ hi := by
  cases v with
  | number x =>
    have hk := (Option.filter_eq_some_iff.mp h).2
    simp only [decide_eq_true_eq, Int.not_lt] at hk
    exact hk
  | _ => cases h

theorem int32_succeeds {z : Int} (h : -2147483648 ≤ z ∧ z ≤ 2147483647) :
    Succeeds 4 (int32 z) := .checked h

theorem lpI64_succeeds {z : Int} (h : -9007199254740991 ≤ z ∧ z ≤ 9007199254740991) :
    Succeeds 12 (lpI64 z) := by
  have height : Succeeds 4 (int32 8) := int32_succeeds (by decide)
  exact height.bind ((Succeeds.checked (by omega)).bind (.checked (by omega)))

theorem lpI64Big_succeeds {z : Int} (h : i64Min ≤ z ∧ z ≤ i64Max) : Succeeds 12 (lpI64Big z) := by
  have height : Succeeds 4 (int32 8) := int32_succeeds (by decide)
  exact height.bind (.checked h)

theorem lpF8_succeeds (x : Double) : Succeeds 12 (lpF8 x) := by
  have height : Succeeds 4 (int32 8) := int32_succeeds (by decide)
  have hbytes := height.bind (.append (bigEndian 8 x.toNat))
  rw [bigEndian_length] at hbytes
  exact hbytes

theorem writeMicros_succeeds (t : Time) : Succeeds 12 (writeMicros t) := by
  have hclip := t.clipped
  unfold writeMicros
  dsimp only
  split
  · next h =>
    refine lpI64_succeeds ?_
    unfold pgEpochMs msSafe at *
    omega
  · refine lpI64Big_succeeds ?_
    unfold pgEpochMs i64Min i64Max
    omega

theorem safeInteger_between {x : Double} {k : Int} (h : x.safeInteger? = some k) :
    -9007199254740991 ≤ k ∧ k ≤ 9007199254740991 := by
  have hk := (Option.filter_eq_some_iff.mp h).2
  rw [decide_eq_true_eq] at hk
  exact hk

/-- A type that has no binary form, or one of a fixed size. -/
def isScalar (oid : Oid) : Prop := ¬isJson oid ∧ elemOid oid = none

theorem timestampEnc_accepted : Accepted (encodeValueInto js v) → Accepted (match v with
    | .date (some t) => do
      writeMicros t
      return Format.binary
    | v => encodeValueInto js v) := by
  intro h
  split
  · exact (writeMicros_succeeds _).accepted .binary
  · exact h

theorem scalar_accepted {oid : Oid} (ho : isScalar oid) (h : Accepted (encodeValueInto js v)) :
    Accepted (encoderOf js oid v) := by
  have hone : Succeeds 4 (int32 1) := int32_succeeds (by decide)
  have htwo : Succeeds 4 (int32 2) := int32_succeeds (by decide)
  have hfour : Succeeds 4 (int32 4) := int32_succeeds (by decide)
  unfold encoderOf binEncoderFor
  split
  · cases v with
    | boolean b => exact (hone.bind (.append _)).accepted₂ .binary
    | _ => exact h
  · rw [Option.getD_some]
    split
    · exact (htwo.bind (.checked (by omega))).accepted₂ .binary
    · exact h
  · rw [Option.getD_some]
    split
    · next n hn => exact (hfour.bind (.checked (intIn_between hn))).accepted₂ .binary
    · exact h
  · cases v with
    | number x =>
      dsimp only [Option.getD_some]
      split
      · next n hn => exact (lpI64_succeeds (safeInteger_between hn)).accepted .binary
      · exact h
    | bigint n =>
      show Accepted (if i64Min ≤ n ∧ n ≤ i64Max then _ else _)
      split
      · next hn => exact (lpI64Big_succeeds hn).accepted .binary
      · exact h
    | _ => exact h
  · cases v with
    | number x => exact (lpF8_succeeds x).accepted .binary
    | _ => exact h
  · exact timestampEnc_accepted h
  · exact timestampEnc_accepted h
  · exact absurd (.inl rfl) ho.1
  · exact absurd (.inr rfl) ho.1
  · rw [ho.2]
    exact h

/-! ### Declared JSON -/

theorem lpStr_accepted (s : JsString) :
    Accepted (do lpStr s; return .text) ↔ (utf8 s).length ≤ maxLength := by
  rw [accepted_iff (lpStr_sent s)]
  show (∃ p, (if (utf8 s).length ≤ 2147483647 then _ else _) = Except.ok p) ↔ _
  by_cases hlen : (utf8 s).length ≤ 2147483647
  · rw [if_pos hlen]
    exact ⟨fun _ => hlen, fun _ => ⟨_, rfl⟩⟩
  · rw [if_neg hlen]
    exact ⟨fun ⟨_, hp⟩ => (nomatch hp), fun h => absurd h hlen⟩

theorem stringified_accepted : Accepted (do lpStr (← stringified js v); return Format.text) ↔
    ∃ s, jsonText js v = .ok s ∧ (utf8 s).length ≤ maxLength := by
  have hs := @stringified_yields js v
  show Accepted (stringified js v >>= fun s => lpStr s >>= fun _ => pure Format.text) ↔ _
  cases hv : jsonText js v with
  | error e =>
    rw [hv] at hs
    rw [accepted_iff hs.bind_error]
    exact ⟨fun ⟨_, hp⟩ => (nomatch hp), fun ⟨_, hp, _⟩ => (nomatch hp)⟩
  | ok s =>
    rw [hv] at hs
    rw [accepted_iff (hs.bind_nil (lpStr_sent s)), ← accepted_iff (lpStr_sent s), lpStr_accepted]
    refine ⟨fun h => ⟨s, rfl, h⟩, ?_⟩
    rintro ⟨s', hs', hlen⟩
    obtain rfl := Except.ok.inj hs'
    exact hlen

theorem encoderOf_json {oid : Oid} (ho : isJson oid) : encoderOf js oid = fun
    | .string s => do
      lpStr s
      return .text
    | v => do
      lpStr (← stringified js v)
      return .text := by
  rcases ho with rfl | rfl <;> rfl

theorem json_accepted {oid : Oid} (ho : isJson oid) (ht : TextFits js v) :
    Accepted (encoderOf js oid v) ↔ PlanFits js oid v := by
  rw [encoderOf_json ho]
  cases v with
  | string s =>
    refine ⟨fun _ => trivial, fun _ => (lpStr_accepted s).mpr ?_⟩
    obtain ⟨p, hp, hlen⟩ := ht
    have hg : guarded s = .ok p := hp
    unfold guarded at hg
    split at hg
    · cases hg
    · cases hg
      exact hlen _ rfl
  | _ =>
    show Accepted _ ↔ if isJson oid then _ else _
    rw [if_pos ho]
    exact stringified_accepted

/-! ### Arrays -/

/-- What an element of this size is written as. -/
def ElemOutcome : Option Nat → Outcome Thrown UInt8 Unit → Prop
  | none, r => r = .error .mismatch
  | some k, r =>
    if k ≤ maxLength then ∃ bs, r = .ok ((), bs) ∧ bs.length = 4 + k
    else r = .error (.js .rangeError)

/-- An element is written as its size says. -/
def ElemWritten (m : Write Unit) (size : Option Nat) : Prop :=
  ∃ r, Yields m r ∧ ElemOutcome size r

theorem ElemWritten.mismatch : ElemWritten (throw .mismatch) none := ⟨_, .throw _, rfl⟩

theorem ElemWritten.fixed {k : Nat} (h : Succeeds (4 + k) m) (hmax : k ≤ maxLength) :
    ElemWritten m (some k) := by
  obtain ⟨bs, hm, hlen⟩ := h
  refine ⟨_, hm, ?_⟩
  show if k ≤ maxLength then _ else _
  rw [if_pos hmax]
  exact ⟨bs, rfl, hlen⟩

theorem int32_tooLong {k : Nat} (h : ¬k ≤ maxLength) :
    Yields (int32 k) (.error (.js .rangeError)) := by
  unfold int32
  rw [int32BE_length, if_neg h]
  exact .throw _

theorem ElemWritten.text (s : JsString) : ElemWritten
    (if hasNul s then throw .mismatch else lpStr s)
    (if hasNul s then none else some (utf8 s).length) := by
  by_cases hn : hasNul s
  · rw [if_pos hn, if_pos hn]
    exact .mismatch
  · rw [if_neg hn, if_neg hn]
    by_cases hb : (utf8 s).length ≤ maxLength
    · have hmax : (utf8 s).length ≤ 2147483647 := hb
      exact .fixed ((int32_succeeds (by omega)).bind (.append (utf8 s))) hb
    · refine ⟨_, (int32_tooLong hb).bind_error, ?_⟩
      show if (utf8 s).length ≤ maxLength then _ else _
      rw [if_neg hb]

theorem elem_written (e : Oid) (v : Value) :
    ElemWritten (elemEncoderFor e v) (elemSize e v) := by
  have hone : Succeeds 4 (int32 1) := int32_succeeds (by decide)
  have htwo : Succeeds 4 (int32 2) := int32_succeeds (by decide)
  have hfour : Succeeds 4 (int32 4) := int32_succeeds (by decide)
  have hsmall : ∀ k ≤ 8, k ≤ maxLength := by
    intro k hk
    show k ≤ 2147483647
    omega
  unfold elemEncoderFor
  split
  · cases v with
    | boolean b => exact .fixed (hone.bind (.append _)) (by decide)
    | _ => exact .mismatch
  · show ElemWritten _ ((intIn (-32768) 32767 v).map fun _ => 2)
    dsimp only
    cases hn : intIn (-32768) 32767 v with
    | none => exact .mismatch
    | some n => exact .fixed (htwo.bind (.checked (by omega))) (hsmall 2 (by decide))
  · show ElemWritten _ ((intIn (-2147483648) 2147483647 v).map fun _ => 4)
    dsimp only
    cases hn : intIn (-2147483648) 2147483647 v with
    | none => exact .mismatch
    | some n => exact .fixed (hfour.bind (.checked (intIn_between hn))) (hsmall 4 (by decide))
  · cases v with
    | number x =>
      show ElemWritten _ (x.safeInteger?.map fun _ => 8)
      dsimp only
      cases hn : x.safeInteger? with
      | none => exact .mismatch
      | some n => exact .fixed (lpI64_succeeds (safeInteger_between hn)) (hsmall 8 (by decide))
    | bigint n =>
      show ElemWritten _ (if i64Min ≤ n ∧ n ≤ i64Max then some 8 else none)
      dsimp only
      by_cases hn : i64Min ≤ n ∧ n ≤ i64Max
      · rw [if_pos hn, if_pos hn]
        exact .fixed (lpI64Big_succeeds hn) (hsmall 8 (by decide))
      · rw [if_neg hn, if_neg hn]
        exact .mismatch
    | _ => exact .mismatch
  · cases v with
    | number x => exact .fixed (lpF8_succeeds x) (hsmall 8 (by decide))
    | _ => exact .mismatch
  · cases v with
    | string s => exact .text s
    | _ => exact .mismatch
  · cases v with
    | string s => exact .text s
    | _ => exact .mismatch
  · cases v with
    | date t =>
      cases t with
      | none => exact .mismatch
      | some t => exact .fixed (writeMicros_succeeds t) (hsmall 8 (by decide))
    | _ => exact .mismatch
  · cases v with
    | date t =>
      cases t with
      | none => exact .mismatch
      | some t => exact .fixed (writeMicros_succeeds t) (hsmall 8 (by decide))
    | _ => exact .mismatch
  · next h16 h21 h23 h20 h701 h25 h1043 h1114 h1184 =>
    have hnone : elemSize e v = none := by
      unfold elemSize
      split
      · exact absurd rfl h16
      · exact absurd rfl h21
      · exact absurd rfl h23
      · exact absurd rfl h20
      · exact absurd rfl h20
      · exact absurd rfl h701
      · exact absurd rfl h25
      · exact absurd rfl h1043
      · exact absurd rfl h1114
      · exact absurd rfl h1184
      · rfl
    rw [hnone]
    exact .mismatch

/-- The elements, or what ends the encoding. -/
def ElemsOutcome : Except Thrown Nat → Outcome Thrown UInt8 Unit → Prop
  | .ok k, r => ∃ bs, r = .ok ((), bs) ∧ bs.length = k
  | .error e, r => r = .error e

theorem elems_written (e : Oid) : ∀ arr, ∃ r,
    Yields (writeArrayElems (elemEncoderFor e) arr) r ∧ ElemsOutcome (elemsSize e arr) r := by
  intro arr
  induction arr with
  | nil => exact ⟨_, .pure (), [], rfl, rfl⟩
  | cons v rest ih =>
    obtain ⟨r, hr, hrest⟩ := ih
    have hafter : ∀ {k : Nat} {m : Write Unit}, Succeeds k m →
        ∃ r, Yields (do m; writeArrayElems (elemEncoderFor e) rest) r ∧
          ElemsOutcome ((elemsSize e rest).map (k + ·)) r := by
      rintro k m ⟨bs, hm, rfl⟩
      refine ⟨_, hm.bind fun _ => hr, ?_⟩
      cases hs : elemsSize e rest with
      | error err =>
        rw [hs] at hrest
        obtain rfl : r = .error err := hrest
        rfl
      | ok k' =>
        rw [hs] at hrest
        obtain ⟨bs', rfl, rfl⟩ := hrest
        exact ⟨bs ++ bs', rfl, List.length_append⟩
    have hstep : writeArrayElems (elemEncoderFor e) (v :: rest) = (do
        (if v.isNullish then int32 (-1) else elemEncoderFor e v)
        writeArrayElems (elemEncoderFor e) rest) := by
      rw [writeArrayElems]
      split <;> rfl
    rw [hstep]
    unfold elemsSize
    by_cases hv : v.isNullish
    · rw [if_pos hv, if_pos hv]
      exact hafter (int32_succeeds (by decide))
    · rw [if_neg hv, if_neg hv]
      obtain ⟨r', hr', helem⟩ := elem_written e v
      cases hs : elemSize e v with
      | none =>
        rw [hs] at helem
        obtain rfl : r' = .error .mismatch := helem
        exact ⟨_, hr'.bind_error, rfl⟩
      | some k =>
        rw [hs] at helem
        have helem : if k ≤ maxLength then ∃ bs, r' = .ok ((), bs) ∧ bs.length = 4 + k
          else r' = .error (.js .rangeError) := helem
        dsimp only
        by_cases hk : k ≤ maxLength
        · rw [if_pos hk] at helem ⊢
          obtain ⟨bs, rfl, hlen⟩ := helem
          exact hafter ⟨bs, hr', hlen⟩
        · rw [if_neg hk] at helem ⊢
          subst helem
          exact ⟨_, hr'.bind_error, rfl⟩

theorem elemOid_small {oid e : Oid} (h : elemOid oid = some e) : e ≤ 2147483647 := by
  unfold elemOid at h
  split at h <;> cases h <;> decide

/-- The dimensions and the elements. -/
theorem dims_written {e : Oid} (he : e ≤ 2147483647) (arr : List Value) : ∃ r,
    Yields (writeDims e arr) r ∧ ElemsOutcome (arraySize e arr) r := by
  have hzero : Succeeds 4 (int32 0) := int32_succeeds (by decide)
  have hone : Succeeds 4 (int32 1) := int32_succeeds (by decide)
  have hoid : Succeeds 4 (int32 e) := by
    have he' : (e : Int) ≤ 2147483647 := Int.ofNat_le.mpr he
    have h0 : 0 ≤ (e : Int) := Int.natCast_nonneg e
    exact int32_succeeds ⟨by omega, he'⟩
  have hnulls : Succeeds 4 (int32 (if arr.any Value.isNullish then 1 else 0)) :=
    int32_succeeds (by split <;> decide)
  unfold writeDims arraySize
  by_cases hn : arr.length = 0
  · rw [if_pos hn, if_pos hn]
    obtain ⟨bs, hm, hlen⟩ := hzero.bind (hzero.bind hoid)
    exact ⟨_, hm, bs, rfl, hlen⟩
  · rw [if_neg hn, if_neg hn]
    by_cases hlen : arr.length ≤ maxLength
    · have hmax : arr.length ≤ 2147483647 := hlen
      have hcount : Succeeds 4 (int32 arr.length) := int32_succeeds (by omega)
      rw [if_pos hlen]
      obtain ⟨r, hr, hrest⟩ := elems_written e arr
      obtain ⟨bs, hm, hbs⟩ := hone.bind (hnulls.bind (hoid.bind (hcount.bind hone)))
      have hall := hm.bind fun _ => hr
      simp only [bind_assoc] at hall
      refine ⟨_, hall, ?_⟩
      cases hs : elemsSize e arr with
      | error err =>
        rw [hs] at hrest
        obtain rfl : r = .error err := hrest
        rfl
      | ok k =>
        rw [hs] at hrest
        obtain ⟨bs', rfl, rfl⟩ := hrest
        refine ⟨bs ++ bs', rfl, ?_⟩
        rw [List.length_append, hbs]
    · rw [if_neg hlen]
      obtain ⟨bs, hm, -⟩ := hone.bind (hnulls.bind hoid)
      have hall : Yields (do
          (do
            int32 1
            int32 (if arr.any Value.isNullish then 1 else 0)
            int32 e)
          int32 arr.length
          int32 1
          writeArrayElems (elemEncoderFor e) arr) _ :=
        hm.bind fun _ => (int32_tooLong hlen).bind_error
      simp only [bind_assoc] at hall
      exact ⟨_, hall, rfl⟩

theorem tryCatch_error {k : Thrown → Write Format} {e : Thrown} (h : Yields n (.error e)) :
    Accepted (tryCatch n k) ↔ Accepted (k e) := by
  have hrun : tryCatch n k {} = k e {} := by
    show MonadExcept.tryCatch (n {}) (fun e => k e {}) = _
    rw [h {}]
    rfl
  unfold Accepted
  rw [hrun]

theorem tryCatch_ok {k : Thrown → Write Format} {p : Format × List UInt8}
    (h : Yields n (.ok p)) : Accepted (tryCatch n k) := ⟨_, h.tryCatch_ok {}⟩

theorem throw_refused (e : Thrown) : ¬Accepted (throw e) := fun ⟨_, h⟩ => nomatch h

/-- **An array** is accepted where its binary form fits, or where it is written as text instead. -/
theorem array_accepted {oid e : Oid} (ho : elemOid oid = some e) (hjs : Prints js)
    {arr : List Value} (ht : TextFits js (.array arr)) :
    Accepted (arrayEnc js e (.array arr)) ↔ BinaryFits e arr := by
  obtain ⟨r, hr, hout⟩ := dims_written (elemOid_small ho) arr
  have hbin := (lengthPatched_yields hr).bind fun _ => .pure Format.binary
  rw [← writeArrayBinary_eq] at hbin
  rw [arrayEnc_eq]
  unfold BinaryFits
  cases hs : arraySize e arr with
  | error err =>
    rw [hs] at hout
    obtain rfl : r = .error err := hout
    rw [tryCatch_error hbin]
    cases err with
    | js err => exact ⟨fun h => absurd h (throw_refused _), fun h => (nomatch h)⟩
    | mismatch => exact ⟨fun _ => rfl, fun _ => (text_accepted hjs).mpr ht⟩
  | ok k =>
    rw [hs] at hout
    obtain ⟨bs, rfl, rfl⟩ := hout
    have hpatched : patched (.ok ((), bs)) = written ((int32BE bs.length).map (· ++ bs)) := rfl
    rw [hpatched, int32BE_length] at hbin
    by_cases hlen : bs.length ≤ maxLength
    · rw [if_pos hlen] at hbin
      exact ⟨fun _ => hlen, fun _ => tryCatch_ok hbin⟩
    · rw [if_neg hlen] at hbin
      rw [tryCatch_error hbin]
      exact ⟨fun h => absurd h (throw_refused _), fun h => absurd h hlen⟩

/-! ### The plan -/

theorem planned_known {i : Nat} {oid : Oid} (h : oids[i]? = some oid) :
    planned js oids v i = encoderOf js oid v := plan_eq h v

theorem planned_beyond {i : Nat} (h : oids[i]? = none) :
    planned js oids v i = encodeValueInto js v := by
  unfold planned compileParamPlan
  dsimp only
  split
  · rw [Option.getD_some, List.getElem?_map, h]
    rfl
  · rfl

theorem planFits_array {oid e : Oid} (hj : ¬isJson oid) (he : elemOid oid = some e)
    (arr : List Value) : PlanFits js oid (.array arr) ↔ BinaryFits e arr := by
  show (if isJson oid then _ else (match elemOid oid, Value.array arr with
    | some e, .array arr => BinaryFits e arr
    | _, _ => True)) ↔ _
  rw [if_neg hj, he]

theorem planFits_other {oid : Oid} (hj : ¬isJson oid)
    (h : ∀ arr, v = .array arr → elemOid oid = none) : PlanFits js oid v := by
  cases v with
  | string s => trivial
  | array arr =>
    show if isJson oid then _ else (match elemOid oid, Value.array arr with
      | some e, .array arr => BinaryFits e arr
      | _, _ => True)
    rw [if_neg hj, h arr rfl]
    trivial
  | _ =>
    unfold PlanFits
    dsimp only
    rw [if_neg hj]
    split
    · next harr => cases harr
    · trivial

theorem encoderOf_array {oid e : Oid} (he : elemOid oid = some e) :
    encoderOf js oid v = arrayEnc js e v := by
  have hbin : binEncoderFor js oid = some (arrayEnc js e) := by
    unfold binEncoderFor
    split <;> first | cases he | skip
    rw [he]
    rfl
  unfold encoderOf
  rw [hbin]
  rfl

/-- **The plan** takes the same values where it has a form for them. -/
theorem plan_accepted (hjs : Prints js) {oid : Oid} (ht : TextFits js v) :
    Accepted (encoderOf js oid v) ↔ PlanFits js oid v := by
  have htext := (text_accepted hjs).mpr ht
  by_cases hj : isJson oid
  · exact json_accepted hj ht
  · cases he : elemOid oid with
    | none =>
      exact ⟨fun _ => planFits_other hj fun _ _ => he, fun _ => scalar_accepted ⟨hj, he⟩ htext⟩
    | some e =>
      rw [encoderOf_array he]
      cases v with
      | array arr => rw [planFits_array hj he, array_accepted he hjs ht]
      | _ => exact ⟨fun _ => planFits_other hj fun _ h => (nomatch h), fun _ => htext⟩

theorem nullish_fits (hv : v.isNullish) : TextFits js v := by
  cases v with
  | undefined => exact ⟨_, rfl, fun _ hb => (nomatch hb)⟩
  | null => exact ⟨_, rfl, fun _ hb => (nomatch hb)⟩
  | _ => cases hv

theorem nullish_accepted (hjs : Prints js) {oid : Oid} (hv : v.isNullish) (ho : ¬isJson oid) :
    Accepted (encoderOf js oid v) := by
  refine (plan_accepted hjs (nullish_fits hv)).mpr (planFits_other ho fun arr harr => ?_)
  subst harr
  cases hv

end Minipg.Encode
