import Minipg.Decode.BinaryArrays
import Minipg.Decode.Entries
import Minipg.Decode.Standard
import Minipg.Encode.Accepting

/-!
# Binary array parameters

`arrayEnc` (`src/encode.ts`) writes an array in the binary format, and starts again with the text of
`arrayLiteral` when an element does not fit its type.  What goes out as binary is read back by
`binArrayWith` (`arrayEnc_round_trip`): null for undefined, a BigInt for a number of an int8 and 0
for the -0 of an int2 or int4.
-/

namespace Minipg.Encode

open Js Writer Appending
open Cells (Runtime Element ReadsAs binArrayWith pickBinary readBE_bigEndian signed signed_emod
  emod_mul_step)

def receivedNumber (e : Oid) (x : Double) : Value :=
  if (e = 21 ∨ e = 23) ∧ x.integer? = some 0 then .number 0
  else if e = 20 then (x.safeInteger?.map Value.bigint).getD (.number x)
  else .number x

/-- What is read back for an element. -/
def received (e : Oid) : Value → Value
  | .undefined | .null => .null
  | .number x => receivedNumber e x
  | v => v

/-! ### Integers -/

theorem bigEndian_split (n : Int) : ∀ size : Nat,
    bigEndian (4 + size) n = bigEndian 4 (n / 256 ^ size) ++ bigEndian size n
  | 0 => by
    rw [Int.pow_zero, Int.ediv_one]
    exact (List.append_nil _).symm
  | size + 1 => by
    have ih := bigEndian_split (n / 256) size
    have hdiv : n / 256 ^ (size + 1) = n / 256 / 256 ^ size := by
      rw [Int.pow_succ, Int.mul_comm, Int.ediv_ediv_of_nonneg (by decide)]
    show bigEndian (4 + size) (n / 256) ++ _ = _ ++ (bigEndian size (n / 256) ++ _)
    rw [ih, hdiv, List.append_assoc]

theorem bigEndian_emod : ∀ (size : Nat) (n : Int),
    bigEndian size (n % 256 ^ size) = bigEndian size n
  | 0, _ => rfl
  | size + 1, n => by
    have hstep := emod_mul_step n (256 ^ size)
    have hdiv : n % 256 ^ (size + 1) / 256 = n / 256 % 256 ^ size := by
      rw [Int.pow_succ, hstep]
      omega
    have hmod : n % 256 ^ (size + 1) % 256 = n % 256 := by
      rw [Int.pow_succ, hstep]
      omega
    rw [bigEndian, bigEndian, hdiv, hmod, bigEndian_emod size]

theorem int32_yields {k : Nat} (h : k ≤ 2147483647) :
    Yields (int32 k) (.ok ((), bigEndian 4 k)) := by
  have hy := appendOr_yields (int32BE k)
  unfold int32
  rw [int32BE_length, if_pos h] at hy ⊢
  exact hy

theorem checked_yields {lo hi n : Int} {size : Nat} (h : lo ≤ n ∧ n ≤ hi) :
    Yields (appendOr (checked lo hi size n)) (.ok ((), bigEndian size n)) := by
  have hy := appendOr_yields (checked lo hi size n)
  unfold checked at hy ⊢
  rw [if_pos h] at hy ⊢
  exact hy

/-- A length and as many bytes. -/
theorem sized_framed {k : Nat} {body : Write Unit} {b : List UInt8} (hb : Yields body (.ok ((), b)))
    (hlen : b.length = k) (hk : k ≤ 2147483647) :
    Yields (do int32 k; body) (.ok ((), framed (some b))) := by
  have hall := (int32_yields hk).bind fun _ => hb
  subst hlen
  exact hall

/-- The two words of an int64. -/
theorem words_eq (v : Int) :
    bigEndian 4 (v / 4294967296) ++ bigEndian 4 (v % 4294967296) = bigEndian 8 v := by
  have hsplit := bigEndian_split v 4
  have hmod := bigEndian_emod 4 v
  rw [show (4294967296 : Int) = 256 ^ 4 from rfl, hmod]
  exact hsplit.symm

theorem lpI64_framed {v : Int} (h : i64Min ≤ v ∧ v ≤ i64Max) :
    Yields (lpI64 v) (.ok ((), framed (some (bigEndian 8 v)))) := by
  unfold i64Min i64Max at h
  have hhi := @checked_yields (-2147483648) 2147483647 (v / 4294967296) 4 (by omega)
  have hlo := @checked_yields 0 4294967295 (v % 4294967296) 4 (by omega)
  refine @sized_framed 8 _ _ ?_ (bigEndian_length 8 v) (by decide)
  rw [← words_eq]
  exact hhi.bind fun _ => hlo

theorem lpI64Big_framed {v : Int} (h : i64Min ≤ v ∧ v ≤ i64Max) :
    Yields (lpI64Big v) (.ok ((), framed (some (bigEndian 8 v)))) :=
  @sized_framed 8 _ _ (checked_yields h) (bigEndian_length 8 v) (by decide)

theorem writeMicros_framed (t : Time) : Yields (writeMicros t)
    (.ok ((), framed (some (bigEndian 8 ((t.ms - pgEpochMs) * 1000))))) := by
  have hclip := t.clipped
  have hfit : i64Min ≤ (t.ms - pgEpochMs) * 1000 ∧ (t.ms - pgEpochMs) * 1000 ≤ i64Max := by
    unfold i64Min i64Max pgEpochMs
    omega
  unfold writeMicros
  dsimp only
  split
  · exact lpI64_framed hfit
  · exact lpI64Big_framed hfit

/-! ### Elements -/

variable {rt : Runtime}

/-- A value that is read back as `u`, unless it is refused or too long. -/
def Carries (rt : Runtime) (e : Oid) (m : Write Unit) (u : Value) : Prop :=
  ∃ r, Yields m r ∧
    (∀ err, r = .error err → err = .mismatch ∨ err = .js .rangeError) ∧
    ∀ bs, r = .ok ((), bs) → ∃ body, bs = framed (some body) ∧ Fits (some body) ∧
      ∃ d, pickBinary rt.standard e none = .ok d ∧ ReadsAs d body u

theorem Carries.mismatch {e : Oid} {u : Value} : Carries rt e (throw .mismatch) u :=
  ⟨_, .throw _, fun _ h => by cases h; exact .inl rfl, fun _ h => (nomatch h)⟩

theorem Carries.fixed {e : Oid} {m : Write Unit} {u : Value} {body : List UInt8}
    (h : Yields m (.ok ((), framed (some body)))) (hlen : body.length ≤ 8) {d : Cells.Cell}
    (hd : pickBinary rt.standard e none = .ok d) (hread : ReadsAs d body u) : Carries rt e m u := by
  refine ⟨_, h, fun _ h => (nomatch h), fun bs hbs => ?_⟩
  cases hbs
  exact ⟨body, rfl, fits_some.mpr (by omega), d, hd, hread⟩

/-- What the decoder of an integer reads. -/
theorem readInt {size : Nat} (n : Int) (pre post : List UInt8) :
    Cells.readBE size (pre ++ bigEndian size n ++ post) pre.length =
      .ok (n % 256 ^ size).toNat := readBE_bigEndian size n pre post

theorem intIn_number {lo hi n : Int} {v : Value} (h : intIn lo hi v = some n) :
    ∃ x, v = .number x ∧ x.integer? = some n ∧ lo ≤ n ∧ n ≤ hi := by
  unfold intIn at h
  split at h
  · obtain ⟨hx, hn⟩ := Option.filter_eq_some_iff.mp h
    simp only [decide_eq_true_eq] at hn
    exact ⟨_, rfl, hx, by omega⟩
  · cases h

/-- The double of an integer that is read is the one that was written, or 0. -/
theorem received_int {e : Oid} (he : e = 21 ∨ e = 23) {x : Double} {n : Int}
    (hx : x.integer? = some n) (hn : Double.Safe n) :
    receivedNumber e x = .number (Double.ofInt n) := by
  have hne : e ≠ 20 := by
    rcases he with rfl | rfl
    all_goals decide
  unfold receivedNumber
  by_cases h0 : n = 0
  · rw [h0] at hx
    rw [if_pos ⟨he, hx⟩, h0, Double.ofInt_zero]
  · have hnot : ¬((e = 21 ∨ e = 23) ∧ x.integer? = some 0) := by
      rintro ⟨-, hzero⟩
      rw [hx] at hzero
      exact h0 (Option.some.inj hzero)
    rw [if_neg hnot, if_neg hne, Double.eq_ofInt hx hn h0]

theorem carries_int2 (v : Value) : Carries rt 21 (elemEncoderFor 21 v) (received 21 v) := by
  simp only [elemEncoderFor]
  cases hn : intIn (-32768) 32767 v with
  | none => exact .mismatch
  | some n =>
    obtain ⟨x, rfl, hx, hlo, hhi⟩ := intIn_number hn
    have hput := @sized_framed 2 _ _ (@checked_yields 0 65535 (n % 65536) 2 (by omega))
      (bigEndian_length 2 _) (by decide)
    refine .fixed hput (by rw [bigEndian_length]; decide) rfl ?_
    intro pre post
    have hsigned : signed 16 (n % 65536 % 256 ^ 2).toNat = n := by
      rw [show (256 : Int) ^ 2 = 65536 from rfl, Int.emod_emod]
      exact @signed_emod 16 (by decide) n (by omega) (by omega)
    show _ = Except.ok (receivedNumber 21 x)
    rw [received_int (.inl rfl) hx ⟨by omega, by omega⟩]
    show (Cells.readBE 2 _ _ >>= _) = _
    rw [readInt]
    show Except.ok (Value.number (Double.ofInt (signed 16 _))) = _
    rw [hsigned]

theorem carries_int4 (v : Value) : Carries rt 23 (elemEncoderFor 23 v) (received 23 v) := by
  simp only [elemEncoderFor]
  cases hn : intIn (-2147483648) 2147483647 v with
  | none => exact .mismatch
  | some n =>
    obtain ⟨x, rfl, hx, hlo, hhi⟩ := intIn_number hn
    have hput := @sized_framed 4 _ _ (@checked_yields (-2147483648) 2147483647 n 4 ⟨hlo, hhi⟩)
      (bigEndian_length 4 _) (by decide)
    refine .fixed hput (by rw [bigEndian_length]; decide) rfl ?_
    intro pre post
    have hsigned : signed 32 (n % 256 ^ 4).toNat = n :=
      @signed_emod 32 (by decide) n (by omega) (by omega)
    show _ = Except.ok (receivedNumber 23 x)
    rw [received_int (.inr rfl) hx ⟨by omega, by omega⟩]
    show (Cells.readBE 4 _ _ >>= _) = _
    rw [readInt]
    show Except.ok (Value.number (Double.ofInt (signed 32 _))) = _
    rw [hsigned]

theorem readInt8 {n : Int} (h : i64Min ≤ n ∧ n ≤ i64Max) :
    ReadsAs Cells.binInt8BigInt (bigEndian 8 n) (.bigint n) := by
  intro pre post
  unfold i64Min i64Max at h
  have hsigned : signed 64 (n % 256 ^ 8).toNat = n :=
    @signed_emod 64 (by decide) n (by omega) (by omega)
  show (Cells.readBE 8 _ _ >>= _) = _
  rw [readInt]
  show Except.ok (Value.bigint (signed 64 _)) = _
  rw [hsigned]

theorem safeInteger_range {x : Double} {n : Int} (h : x.safeInteger? = some n) :
    i64Min ≤ n ∧ n ≤ i64Max := by
  have hn := (Option.filter_eq_some_iff.mp h).2
  simp only [decide_eq_true_eq] at hn
  unfold i64Min i64Max
  omega

theorem carries_int8 (v : Value) : Carries rt 20 (elemEncoderFor 20 v) (received 20 v) := by
  cases v with
  | number x =>
    simp only [elemEncoderFor]
    cases hn : x.safeInteger? with
    | none => exact .mismatch
    | some n =>
      have hrange := safeInteger_range hn
      have hreceived : received 20 (.number x) = .bigint n := by
        show receivedNumber 20 x = _
        unfold receivedNumber
        rw [if_neg (by rintro ⟨h | h, -⟩; all_goals cases h), if_pos rfl, hn]
        rfl
      rw [hreceived]
      exact .fixed (lpI64_framed hrange) (by rw [bigEndian_length]) rfl (readInt8 hrange)
  | bigint n =>
    show Carries rt 20 (if i64Min ≤ n ∧ n ≤ i64Max then lpI64Big n else throw .mismatch) (.bigint n)
    split
    · rename_i hrange
      exact .fixed (lpI64Big_framed hrange) (by rw [bigEndian_length]) rfl (readInt8 hrange)
    · exact .mismatch
  | _ => exact .mismatch

theorem carries_bool (v : Value) : Carries rt 16 (elemEncoderFor 16 v) (received 16 v) := by
  cases v with
  | boolean b =>
    have hput := @sized_framed 1 _ _ (append_yields [byteOf ((if b then 1 else 0) % 256 : Int).toNat])
      rfl (by decide)
    refine .fixed hput (Nat.le_of_ble_eq_true rfl) rfl ?_
    intro pre post
    show Except.ok (Value.boolean _) = .ok (.boolean b)
    cases b
    all_goals simp [byteOf]
  | _ => exact .mismatch

theorem carries_float8 (v : Value) : Carries rt 701 (elemEncoderFor 701 v) (received 701 v) := by
  cases v with
  | number x =>
    have hput : Yields (lpF8 x) (.ok ((), framed (some (bigEndian 8 x.toNat)))) :=
      @sized_framed 8 _ _ (append_yields _) (bigEndian_length 8 _) (by decide)
    refine .fixed hput (by rw [bigEndian_length]) rfl ?_
    intro pre post
    show (Cells.readBE 8 _ _ >>= _) = _
    rw [readInt]
    have hlt := x.isLt
    have hbits : ((x.toNat : Int) % 256 ^ 8).toNat = x.toNat := by omega
    show Except.ok (Value.number (BitVec.ofNat 64 _)) = .ok (.number x)
    rw [hbits, BitVec.ofNat_toNat, BitVec.setWidth_eq]
  | _ => exact .mismatch

theorem carries_text {e : Oid} (he : e = 25 ∨ e = 1043) {v : Value}
    (hv : ∀ s, v = .string s → isWellFormed s) :
    Carries rt e (elemEncoderFor e v) (received e v) := by
  have henc : elemEncoderFor e = elemEncoderFor 25 := by
    rcases he with rfl | rfl
    all_goals rfl
  have hdec : pickBinary rt.standard e none = .ok (Cells.binText rt.standard) := by
    rcases he with rfl | rfl
    all_goals rfl
  rw [henc]
  cases v with
  | string s =>
    show Carries rt e (if hasNul s then throw .mismatch else lpStr s) (.string s)
    split
    · exact .mismatch
    · have hput := appendOr_yields (int32BE (utf8 s).length)
      rw [int32BE_length] at hput
      by_cases hlen : (utf8 s).length ≤ 2147483647
      · have hall := @sized_framed _ _ (utf8 s) (append_yields (utf8 s)) rfl hlen
        refine ⟨_, hall, fun _ h => (nomatch h), fun bs hbs => ?_⟩
        cases hbs
        refine ⟨utf8 s, rfl, fits_some.mpr hlen, _, hdec, ?_⟩
        intro pre post
        show Except.ok (Value.string ((utf8Decode (Cells.slice _ _ _)).getD _)) = .ok (.string s)
        rw [Cells.slice_middle, utf8Decode_utf8 (hv s rfl)]
        rfl
      · refine ⟨_, (int32_tooLong hlen).bind_error, fun _ h => ?_, fun _ h => (nomatch h)⟩
        cases h
        exact .inr rfl
  | _ => exact .mismatch

/-- The two halves of an int64, as the shifts of a decoder read them. -/
theorem halves_read {v : Int} (h : -2 ^ 63 ≤ v ∧ v < 2 ^ 63) (pre post : List UInt8) :
    signed 32 (Cells.word (pre ++ bigEndian 8 v ++ post) pre.length) = v / 4294967296 ∧
      (Cells.word (pre ++ bigEndian 8 v ++ post) (pre.length + 4) : Int) = v % 4294967296 := by
  constructor
  · have hw := Cells.word_bigEndian (v / 4294967296) pre (bigEndian 4 (v % 4294967296) ++ post)
    rw [← words_eq, ← List.append_assoc pre, List.append_assoc _ _ post, hw]
    exact @signed_emod 32 (by decide) _ (by omega) (by omega)
  · have hw := Cells.word_bigEndian (v % 4294967296) (pre ++ bigEndian 4 (v / 4294967296)) post
    rw [List.length_append, bigEndian_length, List.append_assoc pre, words_eq] at hw
    rw [hw]
    omega

/-- The microseconds of a timestamp. -/
theorem readMicros (t : Time) :
    ReadsAs (Cells.binTsDate rt.standard) (bigEndian 8 ((t.ms - pgEpochMs) * 1000))
      (.date (some t)) := by
  intro pre post
  have hclip := t.clipped
  have hround : (t.ms - pgEpochMs) * 1000 / 1000 + Cells.pgEpochMs = t.ms := by
    unfold pgEpochMs Cells.pgEpochMs
    omega
  have hrange : -9000000000000000000 ≤ (t.ms - pgEpochMs) * 1000 ∧
      (t.ms - pgEpochMs) * 1000 ≤ 9000000000000000000 := by
    unfold pgEpochMs
    omega
  show Except.ok (newDate (Cells.binTimestampMs rt.standard _ _)) = .ok (.date (some t))
  generalize (t.ms - pgEpochMs) * 1000 = v at *
  obtain ⟨hhi, hlo⟩ := halves_read (v := v) ⟨by omega, by omega⟩ pre post
  rw [Cells.binTimestampMs_eq rt hhi hlo hrange, hround, newDate_ofInt]

theorem carries_date {e : Oid} (he : e = 1114 ∨ e = 1184) (v : Value) :
    Carries rt e (elemEncoderFor e v) (received e v) := by
  have henc : elemEncoderFor e = elemEncoderFor 1114 := by
    rcases he with rfl | rfl
    all_goals rfl
  have hdec : pickBinary rt.standard e none = .ok (Cells.binTsDate rt.standard) := by
    rcases he with rfl | rfl
    all_goals rfl
  rw [henc]
  cases v with
  | date t =>
    cases t with
    | none => exact .mismatch
    | some t => exact .fixed (writeMicros_framed t) (by rw [bigEndian_length]) hdec (readMicros t)
  | _ => exact .mismatch

/-- Every element is read back, or refused, or too long. -/
theorem carries_elem (e : Oid) {v : Value} (hv : ∀ s, v = .string s → isWellFormed s) :
    Carries rt e (elemEncoderFor e v) (received e v) := by
  by_cases h : e ∈ [16, 21, 23, 20, 701, 25, 1043, 1114, 1184]
  · simp only [List.mem_cons, List.not_mem_nil, or_false] at h
    rcases h with rfl | rfl | rfl | rfl | rfl | rfl | rfl | rfl | rfl
    · exact carries_bool v
    · exact carries_int2 v
    · exact carries_int4 v
    · exact carries_int8 v
    · exact carries_float8 v
    · exact carries_text (.inl rfl) hv
    · exact carries_text (.inr rfl) hv
    · exact carries_date (.inl rfl) v
    · exact carries_date (.inr rfl) v
  · simp only [List.mem_cons, List.not_mem_nil, or_false, not_or] at h
    have hnone : elemEncoderFor e v = throw .mismatch := by
      unfold elemEncoderFor
      split
      all_goals first | simp at h | rfl
    rw [hnone]
    exact .mismatch

/-! ### Arrays -/

/-- The binary decoder of a type, if it has one. -/
def IsDecoder (rt : Runtime) (e : Oid) (d : Cells.Cell) : Prop :=
  ∀ d', pickBinary rt.standard e none = .ok d' → d = d'

/-- Bytes that are read back by the reader of an array, unless they are refused or too long. -/
def CarriesArray (rt : Runtime) (e : Oid) (m : Write Unit) (arr : List Value) : Prop :=
  ∃ r, Yields m r ∧
    (∀ err, r = .error err → err = .mismatch ∨ err = .js .rangeError) ∧
    ∀ bs, r = .ok ((), bs) → ∀ d, IsDecoder rt e d → ReadsAs (binArrayWith d) bs (.array arr)

/-- Every string in the array is well-formed. -/
def WellFormed (arr : List Value) : Prop := ∀ s, .string s ∈ arr → isWellFormed s

/-- The bytes of the elements. -/
def Elements (rt : Runtime) (e : Oid) (bodies : List (Option (List UInt8))) (us : List Value) :
    Prop :=
  ∀ d, IsDecoder rt e d → List.Forall₂ (Element d) bodies us

theorem elems_carried (e : Oid) : ∀ {arr : List Value}, WellFormed arr → ∃ r,
    Yields (writeArrayElems (elemEncoderFor e) arr) r ∧
    (∀ err, r = .error err → err = .mismatch ∨ err = .js .rangeError) ∧
    ∀ bs, r = .ok ((), bs) → ∃ bodies : List (Option (List UInt8)), bs = bodies.flatMap framed ∧
      bodies.length = arr.length ∧ Elements rt e bodies (arr.map (received e))
  | [], _ => by
    refine ⟨_, .pure (), fun _ h => (by cases h), fun bs hbs => ?_⟩
    cases hbs
    exact ⟨[], rfl, rfl, fun _ _ => .nil⟩
  | v :: rest, hwf => by
    obtain ⟨r, hr, herr, hok⟩ := @elems_carried e rest fun s hs => hwf s (.tail _ hs)
    -- the rest goes on behind what stands for the element
    have hafter : ∀ {m : Write Unit} {body : Option (List UInt8)},
        Yields m (.ok ((), framed body)) →
        (∀ d, IsDecoder rt e d → Element d body (received e v)) → ∃ r,
          Yields (do m; writeArrayElems (elemEncoderFor e) rest) r ∧
          (∀ err, r = .error err → err = .mismatch ∨ err = .js .rangeError) ∧
          ∀ bs, r = .ok ((), bs) → ∃ bodies : List (Option (List UInt8)),
            bs = bodies.flatMap framed ∧ bodies.length = rest.length + 1 ∧
              Elements rt e bodies (received e v :: rest.map (received e)) := by
      intro m body hm helem
      refine ⟨_, hm.bind fun _ => hr, ?_, ?_⟩
      · intro err he
        cases r with
        | error _ =>
          cases he
          exact herr err rfl
        | ok p => cases he
      · intro bs hbs
        cases r with
        | error _ => cases hbs
        | ok p =>
          obtain ⟨⟨⟩, bs'⟩ := p
          cases hbs
          obtain ⟨bodies, rfl, hlen, hrest⟩ := hok bs' rfl
          exact ⟨body :: bodies, rfl, congrArg (· + 1) hlen, fun d hd => .cons (helem d hd)
            (hrest d hd)⟩
    have hstep : writeArrayElems (elemEncoderFor e) (v :: rest) = (do
        (if v.isNullish then int32 (-1) else elemEncoderFor e v)
        writeArrayElems (elemEncoderFor e) rest) := by
      rw [writeArrayElems]
      split <;> rfl
    rw [hstep]
    by_cases hv : v.isNullish
    · have hnull : received e v = .null := by
        cases v
        all_goals first | rfl | cases hv
      have hput : Yields (int32 (-1)) (.ok ((), framed none)) := append_yields _
      rw [if_pos hv]
      refine hafter hput fun d _ => ?_
      rw [hnull]
      exact .null
    · rw [if_neg hv]
      obtain ⟨r', hr', herr', hok'⟩ := @carries_elem rt e v fun s hs => hwf s (hs ▸ .head _)
      cases r' with
      | error err =>
        refine ⟨_, hr'.bind_error, fun err' he => ?_, fun _ h => (by cases h)⟩
        cases he
        exact herr' err rfl
      | ok p =>
        obtain ⟨⟨⟩, bs⟩ := p
        obtain ⟨body, rfl, hfits, d', hd', hread⟩ := hok' bs rfl
        refine hafter hr' fun d hd => ?_
        rw [hd d' hd']
        exact .value hfits hread

/-- An array that is written is read back. -/
theorem dims_carried {e : Oid} (he : e ≤ 2147483647) {arr : List Value} (hwf : WellFormed arr) :
    CarriesArray rt e (writeDims e arr) (arr.map (received e)) := by
  have hone : Yields (int32 1) (.ok ((), bigEndian 4 1)) := append_yields _
  have hzero : Yields (int32 0) (.ok ((), bigEndian 4 0)) := append_yields _
  unfold writeDims
  by_cases hn : arr.length = 0
  · have hnil : arr = [] := List.length_eq_zero_iff.mp hn
    subst hnil
    rw [if_pos hn]
    refine ⟨_, hzero.bind fun _ => hzero.bind fun _ => int32_yields he,
      fun _ h => (nomatch h), fun bs hbs d _ => ?_⟩
    cases hbs
    exact Cells.binArrayWith_empty d e
  · rw [if_neg hn]
    have hnulls : Yields (int32 (if arr.any Value.isNullish then 1 else 0))
        (.ok ((), bigEndian 4 (if arr.any Value.isNullish then 1 else 0))) := by
      split
      · exact hone
      · exact hzero
    by_cases hlen : arr.length ≤ 2147483647
    · obtain ⟨r, hr, herr, hok⟩ := @elems_carried rt e arr hwf
      have hall := hone.bind fun _ => hnulls.bind fun _ => (int32_yields he).bind fun _ =>
        (int32_yields hlen).bind fun _ => hone.bind fun _ => hr
      refine ⟨_, hall, ?_, ?_⟩
      · intro err h
        cases r with
        | error _ =>
          cases h
          exact herr err rfl
        | ok p => cases h
      · intro bs hbs d hd
        cases r with
        | error _ => cases hbs
        | ok p =>
          obtain ⟨⟨⟩, bs'⟩ := p
          cases hbs
          obtain ⟨bodies, rfl, hcount, helems⟩ := hok bs' rfl
          have hread := Cells.binArrayWith_array (helems d hd) (hcount ▸ hlen)
            (arr.any Value.isNullish) e
          unfold Cells.arrayBytes Cells.arrayHead at hread
          rw [hcount] at hread
          simp only [List.append_assoc] at hread
          exact hread
    · refine ⟨_, hone.bind fun _ => hnulls.bind fun _ => (int32_yields he).bind fun _ =>
        (int32_tooLong hlen).bind_error, fun err h => ?_, fun _ h => (nomatch h)⟩
      cases h
      exact .inr rfl

/-- What `arrayEnc` writes for an array, or throws. -/
inductive ArraySent (rt : Runtime) (js : Engine) (e : Oid) (arr : List Value) :
    Outcome Thrown UInt8 Format → Prop
  | binary {bs : List UInt8} (fits : Fits (some bs))
    (reads : ∀ d, IsDecoder rt e d →
      ReadsAs (binArrayWith d) bs (.array (arr.map (received e)))) :
    ArraySent rt js e arr (.ok (.binary, framed (some bs)))
  | text {s : JsString} (literal : arrayLiteral js arr = .ok s) (fits : Fits (some (utf8 s))) :
    ArraySent rt js e arr (.ok (.text, framed (some (utf8 s))))
  | unprintable {err : JsError} (literal : arrayLiteral js arr = .error err) :
    ArraySent rt js e arr (.error (.js err))
  | tooLong (long : TextFits js (.array arr) → ¬BinaryFits e arr) :
    ArraySent rt js e arr (.error (.js .rangeError))

variable {js : Engine} {e : Oid} {arr : List Value}

theorem literal_sent (hjs : Prints js) : ∃ r, ArraySent rt js e arr r ∧
    Yields (do arrayLiteralInto js arr; return Format.text) r := by
  have hsent := encodeValueInto_yields hjs (.array arr)
  refine ⟨_, ?_, hsent⟩
  show ArraySent rt js e arr (sentParam ((arrayLiteral js arr).map textParam))
  cases hs : arrayLiteral js arr with
  | error err => exact .unprintable hs
  | ok s =>
    show ArraySent rt js e arr (if (utf8 s).length ≤ 2147483647 then _ else _)
    split
    · rename_i hlen
      exact .text hs (fits_some.mpr hlen)
    · rename_i hlen
      refine .tooLong ?_
      rintro ⟨p, hp, hfits⟩
      have hparam : encodeParam js (.array arr) = .ok (textParam s) := by
        show (arrayLiteral js arr).map textParam = _
        rw [hs]
        rfl
      rw [hparam] at hp
      cases hp
      exact absurd (hfits _ rfl) hlen

theorem refused_long {oid : Oid} (ho : elemOid oid = some e) (hjs : Prints js)
    (h : Yields (arrayEnc js e (.array arr)) (.error (.js .rangeError))) :
    ArraySent rt js e arr (.error (.js .rangeError)) := by
  refine .tooLong fun ht hfits => ?_
  obtain ⟨p, hp⟩ := (accepted_iff h).mp ((array_accepted ho hjs ht).mpr hfits)
  cases hp

theorem array_sent (rt : Runtime) {oid : Oid} (ho : elemOid oid = some e) (hjs : Prints js)
    (hwf : WellFormed arr) : ∃ r, ArraySent rt js e arr r ∧
      Yields (arrayEnc js e (.array arr)) r := by
  obtain ⟨r, hr, herr, hok⟩ := @dims_carried rt e (elemOid_small ho) arr hwf
  have hbin := (lengthPatched_yields hr).bind fun _ => .pure Format.binary
  rw [← writeArrayBinary_eq] at hbin
  cases r with
  | error err =>
    rcases herr err rfl with rfl | rfl
    · obtain ⟨r, hsent, hr⟩ := @literal_sent rt js e arr hjs
      rw [arrayEnc_eq]
      exact ⟨r, hsent, hbin.tryCatch_error hr⟩
    · have hall : Yields (arrayEnc js e (.array arr)) (.error (.js .rangeError)) := by
        rw [arrayEnc_eq]
        exact hbin.tryCatch_error (.throw _)
      exact ⟨_, refused_long ho hjs hall, hall⟩
  | ok p =>
    obtain ⟨⟨⟩, bs⟩ := p
    have hpatched : patched (.ok ((), bs)) = written ((int32BE bs.length).map (· ++ bs)) := rfl
    rw [hpatched, int32BE_length] at hbin
    by_cases hlen : bs.length ≤ 2147483647
    · rw [if_pos hlen] at hbin
      have hframed : framed (some bs) = bigEndian 4 bs.length ++ bs ++ [] := by
        rw [List.append_nil]
        rfl
      rw [arrayEnc_eq]
      refine ⟨.ok (.binary, framed (some bs)), .binary (fits_some.mpr hlen) (hok bs rfl), ?_⟩
      rw [hframed]
      exact hbin.tryCatch_ok
    · rw [if_neg hlen] at hbin
      have hall : Yields (arrayEnc js e (.array arr)) (.error (.js .rangeError)) := by
        rw [arrayEnc_eq]
        exact hbin.tryCatch_error (.throw _)
      exact ⟨_, refused_long ho hjs hall, hall⟩

/-- The parameter sets its own format code, and its bytes follow those that are there. -/
theorem param_framed {v : Value} {enc : ParamsEncoder} {r : Outcome Thrown UInt8 Format}
    {before after : List Format} (h : Yields (enc v before.length) r) (pre mid : List UInt8)
    (msgStart : Nat) :
    writeParams enc pre.length [v] before.length
        ⟨pre ++ codeBytes (before ++ .text :: after) ++ mid, msgStart⟩ =
      r.map fun p => ((), ⟨pre ++ codeBytes (before ++ p.1 :: after) ++ mid ++ p.2, msgStart⟩) := by
  have hfill : (bindSlots pre mid msgStart).FillsAll
      (writeParams enc pre.length [v] before.length) before.length [.text] [r] := by
    rw [writeParams_cons]
    exact Slots.FillsAll.append (.one .text h) .nil rfl
  have hall := hfill before after [] rfl
  rw [List.append_assoc before] at hall
  have hst : (bindSlots pre mid msgStart).st (before ++ ([.text] ++ after)) [] =
      ⟨pre ++ codeBytes (before ++ .text :: after) ++ mid, msgStart⟩ := by
    show Writer.mk (_ ++ (mid ++ [])) _ = _
    rw [List.append_nil]
    rfl
  rw [hst] at hall
  rw [hall]
  cases r with
  | error err => rfl
  | ok p =>
    show Except.ok ((), Writer.mk _ _) = Except.ok ((), Writer.mk _ _)
    simp only [List.append_assoc, List.append_nil, List.cons_append, List.nil_append]

/-- **A binary array is read back, or its literal is sent**: NULL for undefined, a BigInt for a
number of an int8, 0 for a -0.  What has been written is left as it is, but for the format code of
the parameter.  `arrayEnc` throws what `arrayLiteral` throws, or where a length is no int32. -/
theorem arrayEnc_round_trip (rt : Runtime) (hjs : Prints js) {oid : Oid}
    (ho : elemOid oid = some e) (hwf : WellFormed arr) :
    ∃ r, ArraySent rt js e arr r ∧ Yields (arrayEnc js e (.array arr)) r ∧
      ∀ (enc : ParamsEncoder) (before after : List Format) (pre mid : List UInt8) (msgStart : Nat),
        enc (.array arr) before.length = arrayEnc js e (.array arr) →
        writeParams enc pre.length [.array arr] before.length
            ⟨pre ++ codeBytes (before ++ .text :: after) ++ mid, msgStart⟩ =
          r.map fun p =>
            ((), ⟨pre ++ codeBytes (before ++ p.1 :: after) ++ mid ++ p.2, msgStart⟩) := by
  obtain ⟨r, hsent, hr⟩ := array_sent rt ho hjs hwf
  refine ⟨r, hsent, hr, fun enc before after pre mid msgStart henc => ?_⟩
  rw [← henc] at hr
  exact param_framed hr pre mid msgStart

/-- The list `["a", undefined]`. -/
def sampleStrings : List Value := [.string [0x61], .undefined]

theorem sampleStrings_wellFormed : WellFormed sampleStrings := by
  intro s hs
  have hs : Value.string s ∈ [Value.string [0x61], .undefined] := hs
  simp only [List.mem_cons, List.not_mem_nil, or_false, reduceCtorEq, Value.string.injEq] at hs
  rw [hs]
  rfl

theorem sampleStrings_round_trip : Prints nullEngine ∧ elemOid 1009 = some 25 ∧
    WellFormed sampleStrings ∧
    ∃ r, ArraySent Plans.hexOnly.env.rt nullEngine 25 sampleStrings r ∧
      Yields (arrayEnc nullEngine 25 (.array sampleStrings)) r := by
  obtain ⟨r, hsent, hr, -⟩ := arrayEnc_round_trip Plans.hexOnly.env.rt nullEngine_prints
    (show elemOid 1009 = some 25 from rfl) sampleStrings_wellFormed
  exact ⟨nullEngine_prints, rfl, sampleStrings_wellFormed, r, hsent, hr⟩

/-- `[1]` is an array of int8 that is read back as `[1n]`. -/
theorem int8_array_differs :
    arrayEnc nullEngine 20 (.array [.number 0x3FF0000000000000]) {} =
      .ok (.binary, Writer.app {} (framed (some (Cells.arrayBytes false 20
        [some (bigEndian 8 1)])))) ∧
    pickBinary Plans.hexOnly.env.rt.standard 20 none = .ok Cells.binInt8BigInt ∧
    binArrayWith Cells.binInt8BigInt (Cells.arrayBytes false 20 [some (bigEndian 8 1)]) 0 32 =
      .ok (.array [.bigint 1]) ∧
    Value.array [.bigint 1] ≠ .array [.number 0x3FF0000000000000] := by
  have helem : List.Forall₂ (Element Cells.binInt8BigInt) [some (bigEndian 8 1)] [.bigint 1] :=
    .cons (.value (fits_some.mpr (by decide)) (readInt8 (by decide))) .nil
  have hread := Cells.binArrayWith_array helem (by decide) false 20 [] []
  refine ⟨by decide, rfl, hread, ?_⟩
  intro h
  cases h

end Minipg.Encode
