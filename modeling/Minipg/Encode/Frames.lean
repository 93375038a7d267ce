import Minipg.Encode.Appends

/-!
# What stands for a value

Whatever the type and the value, an encoder writes a length and as many bytes, or the length -1 for
NULL (`encodeValueInto_sends`, `binEncoderFor_sends`).
-/

namespace Minipg.Encode

open Js Writer Appending

variable {js : Engine} {α : Type} {m m' body : Write Unit} {P : Prop}

/-- A value with its length; `none` is NULL. -/
def framed : Option (List UInt8) → List UInt8
  | none => bigEndian 4 (-1)
  | some b => bigEndian 4 b.length ++ b

/-- The length of a value fits. -/
def Fits (b : Option (List UInt8)) : Prop := ∀ bs ∈ b, bs.length ≤ 2147483647

/-- `m` writes `n` bytes. -/
def Writes (n : Nat) (m : Write Unit) : Prop :=
  ∃ r : Outcome Thrown UInt8 Unit, Yields m r ∧ ∀ bs, r = .ok ((), bs) → bs.length = n

/-- `m` writes a value that is not NULL. -/
def WritesValue (m : Write Unit) : Prop :=
  ∃ r : Outcome Thrown UInt8 Unit, Yields m r ∧
    ∀ bs, r = .ok ((), bs) → ∃ b, bs = framed (some b) ∧ Fits (some b)

/-- `m` writes a value, which is NULL where `null` says so. -/
def Sends (m : Write Format) (null : Prop) : Prop :=
  ∃ r : Outcome Thrown UInt8 Format, Yields m r ∧
    ∀ f bs, r = .ok (f, bs) → ∃ b, bs = framed b ∧ Fits b ∧ (b = none ↔ null)

/-! ### The rules -/

theorem Outcome.bind_ok {γ : Type} {r : Outcome Thrown UInt8 α} {g : α → Outcome Thrown UInt8 γ}
    {c : γ} {zs : List UInt8} (h : r.bind g = .ok (c, zs)) :
    ∃ a xs ys, r = .ok (a, xs) ∧ g a = .ok (c, ys) ∧ zs = xs ++ ys := by
  cases r with
  | error e => cases h
  | ok p =>
    obtain ⟨a, xs⟩ := p
    cases hg : g a with
    | error e =>
      have he : (g a).map (fun p => (p.1, xs ++ p.2)) = .ok (c, zs) := h
      rw [hg] at he
      cases he
    | ok q =>
      obtain ⟨c', ys⟩ := q
      have he : (g a).map (fun p => (p.1, xs ++ p.2)) = .ok (c, zs) := h
      rw [hg] at he
      cases he
      exact ⟨a, xs, ys, rfl, hg, rfl⟩

theorem written_ok {bs : Except Thrown (List UInt8)} {xs : List UInt8}
    (h : written bs = .ok ((), xs)) : bs = .ok xs := by
  cases bs with
  | error e => cases h
  | ok ys =>
    cases h
    rfl

theorem Writes.append (bs : List UInt8) : Writes bs.length (append bs) :=
  ⟨_, append_yields bs, fun _ h => by cases h; rfl⟩

theorem Writes.checked (lo hi : Int) (size : Nat) (n : Int) :
    Writes size (appendOr (checked lo hi size n)) :=
  ⟨_, appendOr_yields _, fun _ h => checked_length (written_ok h)⟩

theorem Writes.bind {n k : Nat} (h : Writes n m) (h' : Writes k m') :
    Writes (n + k) (do m; m') := by
  obtain ⟨r, hr, hlen⟩ := h
  obtain ⟨r', hr', hlen'⟩ := h'
  refine ⟨r.bind fun _ => r', hr.bind fun _ => hr', fun bs hbs => ?_⟩
  obtain ⟨⟨⟩, xs, ys, hxs, hys, rfl⟩ := Outcome.bind_ok hbs
  rw [List.length_append, hlen xs hxs, hlen' ys hys]

theorem int32BE_ok {n : Int} {bs : List UInt8} (h : int32BE n = .ok bs) :
    bs = bigEndian 4 n ∧ -2147483648 ≤ n ∧ n ≤ 2147483647 := by
  unfold int32BE checked at h
  split at h
  · next hn =>
    cases h
    exact ⟨rfl, hn⟩
  · cases h

/-- A length that was checked, and as many bytes. -/
theorem framed_of_length {n : Int} {xs ys : List UInt8} (h : int32BE n = .ok xs)
    (hn : n = ys.length) : xs ++ ys = framed (some ys) ∧ Fits (some ys) := by
  obtain ⟨rfl, -, hle⟩ := int32BE_ok h
  subst hn
  refine ⟨rfl, fun bs hbs => ?_⟩
  obtain rfl : ys = bs := Option.some.inj hbs
  omega

/-- A length and then the bytes. -/
theorem Writes.sized {n : Nat} {k : Int} (h : Writes n body) (hk : k = n) :
    WritesValue (do int32 k; body) := by
  obtain ⟨r, hr, hlen⟩ := h
  refine ⟨(written (int32BE k)).bind fun _ => r, (appendOr_yields _).bind fun _ => hr,
    fun bs hbs => ?_⟩
  obtain ⟨⟨⟩, xs, ys, hxs, hys, rfl⟩ := Outcome.bind_ok hbs
  exact ⟨ys, framed_of_length (written_ok hxs) (hk.trans (congrArg _ (hlen ys hys).symm))⟩

theorem WritesValue.bytes {k : Int} (bs : List UInt8) (hk : k = bs.length) :
    WritesValue (do int32 k; append bs) := (Writes.append bs).sized hk

theorem WritesValue.sends (h : WritesValue m) (f : Format) :
    Sends (do m; return f) False := by
  obtain ⟨r, hr, hval⟩ := h
  refine ⟨r.bind fun _ => .ok (f, []), hr.bind fun _ => .pure f, fun f' bs hbs => ?_⟩
  obtain ⟨⟨⟩, xs, ys, hxs, hys, rfl⟩ := Outcome.bind_ok hbs
  cases hys
  obtain ⟨b, rfl, hfits⟩ := hval xs hxs
  exact ⟨some b, List.append_nil _, hfits, fun h => (nomatch h), False.elim⟩

/-- What is written after its length. -/
theorem WritesValue.patched (h : OnlyAppends body) : WritesValue (lengthPatched body) := by
  obtain ⟨r, hr⟩ := h
  refine ⟨_, lengthPatched_yields hr, fun bs hbs => ?_⟩
  cases r with
  | error e => cases hbs
  | ok p =>
    obtain ⟨⟨⟩, ys⟩ := p
    have hys : (int32BE ys.length).map (· ++ ys) = .ok bs := written_ok hbs
    cases hb : int32BE ys.length with
    | error e =>
      rw [hb] at hys
      cases hys
    | ok xs =>
      rw [hb] at hys
      cases hys
      exact ⟨ys, framed_of_length hb rfl⟩

/-- `p` writes nothing. -/
def Silent (p : Write α) : Prop :=
  ∃ r : Outcome Thrown UInt8 α, Yields p r ∧ ∀ a bs, r = .ok (a, bs) → bs = []

theorem guardNul_silent (s : JsString) : Silent (guardNul s) := by
  unfold guardNul
  split
  · exact ⟨_, .throw _, fun _ _ h => (nomatch h)⟩
  · exact ⟨_, .pure (), fun _ _ h => by cases h; rfl⟩

theorem stringified_silent (v : Value) : Silent (stringified js v) := by
  unfold stringified
  split
  · exact ⟨_, .pure _, fun _ _ h => by cases h; rfl⟩
  · exact ⟨_, .throw _, fun _ _ h => (nomatch h)⟩
  · exact ⟨_, .throw _, fun _ _ h => (nomatch h)⟩

namespace Sends

variable {Q : Prop} {n n' : Write Format}

theorem congr (h : Sends n P) (hPQ : P ↔ Q) : Sends n Q := by
  obtain ⟨r, hr, hb⟩ := h
  refine ⟨r, hr, fun f bs hbs => ?_⟩
  obtain ⟨b, rfl, hfits, hnull⟩ := hb f bs hbs
  exact ⟨b, rfl, hfits, hnull.trans hPQ⟩

theorem throw (e : Thrown) : Sends (throw e) P := ⟨_, .throw e, fun _ _ h => (nomatch h)⟩

theorem null (f : Format) (h : P) : Sends (do int32 (-1); return f) P := by
  refine ⟨_, (appendOr_yields _).bind fun _ => .pure f, fun f' bs hbs => ?_⟩
  obtain ⟨⟨⟩, xs, ys, hxs, hys, rfl⟩ := Outcome.bind_ok hbs
  cases hys
  obtain ⟨rfl, -⟩ := int32BE_ok (written_ok hxs)
  exact ⟨none, List.append_nil _, fun _ h => (nomatch h), fun _ => h, fun _ => rfl⟩

theorem value {m : Write Unit} (h : WritesValue m) (f : Format) (hP : ¬P) :
    Sends (do m; return f) P := (h.sends f).congr ⟨False.elim, hP⟩

/-- A value in two parts. -/
theorem value₂ (h : WritesValue (do m; m')) (f : Format) (hP : ¬P) :
    Sends (do m; m'; return f) P := by
  have hs := value h f hP
  rw [bind_assoc] at hs
  exact hs

/-- What comes first writes nothing. -/
theorem after {p : Write α} {k : α → Write Format} (hp : Silent p) (hk : ∀ a, Sends (k a) P) :
    Sends (p >>= k) P := by
  obtain ⟨r, hr, hnil⟩ := hp
  choose g hg hval using hk
  refine ⟨r.bind g, hr.bind hg, fun f bs hbs => ?_⟩
  obtain ⟨a, xs, ys, hxs, hys, rfl⟩ := Outcome.bind_ok hbs
  rw [hnil a xs hxs]
  exact hval a f ys hys

theorem ite {c : Prop} [Decidable c] (h : c → Sends n P) (h' : ¬c → Sends n' P) :
    Sends (if c then n else n') P := by
  split
  · next hc => exact h hc
  · next hc => exact h' hc

theorem tryCatch {k : Thrown → Write Format} (h : Sends n P) (hk : ∀ e, Sends (k e) P) :
    Sends (tryCatch n k) P := by
  obtain ⟨r, hr, hval⟩ := h
  cases r with
  | error e =>
    obtain ⟨r', hr', hval'⟩ := hk e
    refine ⟨r', fun s => ?_, hval'⟩
    show (MonadExcept.tryCatch (n s) fun e => k e s) = _
    rw [hr s, ← hr' s]
    rfl
  | ok p =>
    refine ⟨.ok p, fun s => ?_, hval⟩
    show (MonadExcept.tryCatch (n s) fun e => k e s) = _
    rw [hr s]
    rfl

end Sends

/-! ### Text -/

theorem lpStr_value (s : JsString) : WritesValue (lpStr s) := .bytes _ rfl

theorem lpAsc_value (s : JsString) : WritesValue (lpAsc s) := .bytes _ rfl

theorem lpBytes_value (b : List UInt8) : WritesValue (lpBytes b) := .bytes _ rfl

theorem digits_length : ∀ d n, (digits d n).length = d
  | 0, _ => rfl
  | d + 1, n => by
    rw [digits, List.length_append, digits_length d]
    rfl

theorem lpAsciiInt_value (v : Int) : WritesValue (lpAsciiInt v) := by
  refine .bytes _ ?_
  rw [List.length_append, digits_length]
  by_cases hv : v < 0
  · simp only [hv, if_true]
    push_cast
    exact Int.add_comm _ _
  · simp [hv]

theorem lpI64_value (v : Int) : WritesValue (lpI64 v) :=
  ((Writes.checked _ _ 4 _).bind (Writes.checked _ _ 4 _)).sized rfl

theorem lpI64Big_value (v : Int) : WritesValue (lpI64Big v) := (Writes.checked _ _ 8 _).sized rfl

theorem lpF8_value (v : Double) : WritesValue (lpF8 v) := by
  refine .bytes _ ?_
  rw [bigEndian_length]
  rfl

theorem byte_writes (n : Int) : Writes 1 (byte n) := Writes.append _

theorem encodeValueInto_sends : ∀ v, Sends (encodeValueInto js v) v.isNullish
  | .undefined | .null => .null .text rfl
  | .buffer b => .value (lpBytes_value b) .binary Bool.false_ne_true
  | .number x => by
    rw [encodeValueInto]
    show Sends _ (false = true)
    split
    · exact .value (lpAsciiInt_value _) .text Bool.false_ne_true
    · exact .value (lpAsc_value _) .text Bool.false_ne_true
  | .string s =>
    .after (guardNul_silent s) fun _ => .value (lpStr_value s) .text Bool.false_ne_true
  | .boolean b => .value₂ ((byte_writes _).sized rfl) .text Bool.false_ne_true
  | .date t => .value (.patched (writeIso_appends t)) .text Bool.false_ne_true
  | .array arr => .value (.patched ((byte_appends _).bind fun _ =>
      (writeElements_appends arr 0).bind fun _ => byte_appends _)) .text Bool.false_ne_true
  | .object _ =>
    .after (stringified_silent _) fun s => .value (lpStr_value s) .text Bool.false_ne_true
  | .bigint _ =>
    .after (guardNul_silent _) fun _ => .value (lpAsc_value _) .text Bool.false_ne_true
  | .other _ =>
    .after (guardNul_silent _) fun _ => .value (lpStr_value _) .text Bool.false_ne_true

/-! ### Binary -/

theorem writeMicros_value (t : Time) : WritesValue (writeMicros t) := by
  unfold writeMicros
  dsimp only
  split
  · exact lpI64_value _
  · exact lpI64Big_value _

/-- The types whose encoder knows no NULL. -/
def isJson (oid : Oid) : Prop := oid = 114 ∨ oid = 3802

instance (oid : Oid) : Decidable (isJson oid) := inferInstanceAs (Decidable (_ ∨ _))

theorem arrayEnc_sends (elemOid : Oid) (v : Value) : Sends (arrayEnc js elemOid v) v.isNullish := by
  cases v with
  | array arr =>
    rw [arrayEnc_eq]
    refine .tryCatch (.value ?_ .binary Bool.false_ne_true) fun e => ?_
    · rw [writeArrayBinary_eq]
      exact .patched (writeDims_appends elemOid arr)
    · cases e with
      | js e => exact .throw _
      | mismatch => exact encodeValueInto_sends (.array arr)
  | _ =>
    unfold arrayEnc
    exact encodeValueInto_sends _

theorem intIn_value {lo hi n : Int} {v : Value} (h : intIn lo hi v = some n) :
    v.isNullish = false := by
  cases v with
  | number x => rfl
  | _ => cases h

theorem jsonEnc_sends (v : Value) : Sends (match v with
    | .string s => do
      lpStr s
      return Format.text
    | v => do
      lpStr (← stringified js v)
      return .text) False := by
  split
  · exact .value (lpStr_value _) .text id
  · exact .after (stringified_silent _) fun s => .value (lpStr_value s) .text id

theorem timestampEnc_sends (v : Value) : Sends (match v with
    | .date (some t) => do
      writeMicros t
      return Format.binary
    | v => encodeValueInto js v) v.isNullish := by
  split
  · exact .value (writeMicros_value _) .binary Bool.false_ne_true
  · exact encodeValueInto_sends v

theorem binEncoderFor_sends (oid : Oid) (v : Value) :
    ∀ enc ∈ binEncoderFor js oid, Sends (enc v) (v.isNullish ∧ ¬isJson oid) := by
  intro enc h
  have hplain : ∀ {n : Write Format}, Sends n v.isNullish → ¬isJson oid →
      Sends n (v.isNullish ∧ ¬isJson oid) := by
    intro n hn hj
    exact hn.congr ⟨fun hv => ⟨hv, hj⟩, fun hv => hv.1⟩
  have hjson : ∀ {n : Write Format}, Sends n False → isJson oid →
      Sends n (v.isNullish ∧ ¬isJson oid) := by
    intro n hn hj
    exact hn.congr ⟨False.elim, fun hv => hv.2 hj⟩
  unfold binEncoderFor at h
  split at h
  · cases h
    refine hplain ?_ (by decide)
    cases v with
    | boolean b => exact .value₂ ((byte_writes _).sized rfl) .binary Bool.false_ne_true
    | _ => exact encodeValueInto_sends _
  · cases h
    refine hplain ?_ (by decide)
    dsimp only
    split
    · next hn =>
      rw [intIn_value hn]
      exact .value₂ ((Writes.checked _ _ 2 _).sized rfl) .binary Bool.false_ne_true
    · exact encodeValueInto_sends v
  · cases h
    refine hplain ?_ (by decide)
    dsimp only
    split
    · next hn =>
      rw [intIn_value hn]
      exact .value₂ ((Writes.checked _ _ 4 _).sized rfl) .binary Bool.false_ne_true
    · exact encodeValueInto_sends v
  · cases h
    refine hplain ?_ (by decide)
    cases v with
    | number x =>
      dsimp only
      split
      · exact .value (lpI64_value _) .binary Bool.false_ne_true
      · exact encodeValueInto_sends _
    | bigint n =>
      exact .ite (fun _ => .value (lpI64Big_value _) .binary Bool.false_ne_true) fun _ =>
        encodeValueInto_sends _
    | _ => exact encodeValueInto_sends _
  · cases h
    refine hplain ?_ (by decide)
    cases v with
    | number x => exact .value (lpF8_value x) .binary Bool.false_ne_true
    | _ => exact encodeValueInto_sends _
  · cases h
    exact hplain (timestampEnc_sends v) (by decide)
  · cases h
    exact hplain (timestampEnc_sends v) (by decide)
  · cases h
    exact hjson (jsonEnc_sends v) (.inl rfl)
  · cases h
    exact hjson (jsonEnc_sends v) (.inr rfl)
  · next h₁ h₂ =>
    obtain ⟨elemOid, -, rfl⟩ := Option.map_eq_some_iff.mp h
    refine hplain (arrayEnc_sends elemOid v) fun hj => ?_
    rcases hj with rfl | rfl
    · exact h₁ rfl
    · exact h₂ rfl

end Minipg.Encode
