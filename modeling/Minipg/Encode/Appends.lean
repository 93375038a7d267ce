import Minipg.Encode.Compiled

/-!
# The encoders only append

Whatever was written before a value, its encoder writes the same bytes or throws the same error,
although it writes over lengths that it reserved, and although an array that does not fit is rewound
and written again as text (`encodeValueInto_appends`, `binEncoderFor_appends`).
-/

namespace Minipg.Encode

open Js Writer Appending

variable {js : Engine} {α : Type}

/-! ### The buffer -/

theorem ok_of_bind {ε α β : Type} {x : Except ε α} {f : α → Except ε β} {b : β}
    (h : (x >>= f) = .ok b) : ∃ a, x = .ok a ∧ f a = .ok b := by
  cases x with
  | error e => cases h
  | ok a => exact ⟨a, rfl, h⟩

theorem append_yields (bs : List UInt8) : Yields (append bs) (.ok ((), bs)) := fun _ => rfl

theorem append_appends (bs : List UInt8) : OnlyAppends (append bs) := ⟨_, append_yields bs⟩

/-- The outcome of bytes that may fail. -/
def written (bs : Except Thrown (List UInt8)) : Outcome Thrown UInt8 Unit := bs.map fun bs => ((), bs)

theorem appendOr_yields (bs : Except Thrown (List UInt8)) : Yields (appendOr bs) (written bs) := by
  cases bs with
  | error e => exact .throw e
  | ok bs => exact append_yields bs

theorem appendOr_appends (bs : Except Thrown (List UInt8)) : OnlyAppends (appendOr bs) :=
  ⟨_, appendOr_yields bs⟩

theorem byte_appends (n : Int) : OnlyAppends (byte n) := append_appends _

theorem int16_appends (n : Int) : OnlyAppends (int16 n) := appendOr_appends _

theorem int32_appends (n : Int) : OnlyAppends (int32 n) := appendOr_appends _

theorem lpStr_appends (s : JsString) : OnlyAppends (lpStr s) :=
  (int32_appends _).bind fun _ => append_appends _

theorem lpAsc_appends (s : JsString) : OnlyAppends (lpAsc s) :=
  (int32_appends _).bind fun _ => append_appends _

theorem lpBytes_appends (b : List UInt8) : OnlyAppends (lpBytes b) :=
  (int32_appends _).bind fun _ => append_appends _

theorem lpAsciiInt_appends (v : Int) : OnlyAppends (lpAsciiInt v) :=
  (int32_appends _).bind fun _ => append_appends _

theorem lpI64_appends (v : Int) : OnlyAppends (lpI64 v) :=
  (int32_appends _).bind fun _ => (appendOr_appends _).bind fun _ => appendOr_appends _

theorem lpI64Big_appends (v : Int) : OnlyAppends (lpI64Big v) :=
  (int32_appends _).bind fun _ => appendOr_appends _

theorem lpF8_appends (v : Double) : OnlyAppends (lpF8 v) :=
  (int32_appends _).bind fun _ => append_appends _

theorem bigEndian_length : ∀ (size : Nat) (n : Int), (bigEndian size n).length = size
  | 0, _ => rfl
  | size + 1, n => by
    rw [bigEndian, List.length_append, bigEndian_length size]
    rfl

theorem overwrite_app {a b c b' : List UInt8} (h : b.length = b'.length) :
    overwrite (a ++ b ++ c) a.length b' = a ++ b' ++ c := by
  unfold overwrite
  have hlen : (a ++ b).length = a.length + b'.length := by rw [List.length_append, h]
  rw [List.drop_left' hlen, List.append_assoc a b c, List.take_left]

theorem checked_length {lo hi n : Int} {size : Nat} {bs : List UInt8}
    (h : checked lo hi size n = .ok bs) : bs.length = size := by
  unfold checked at h
  split at h
  · cases h
    exact bigEndian_length size n
  · cases h

/-- The outcome of what is written after its length. -/
def patched : Outcome Thrown UInt8 Unit → Outcome Thrown UInt8 Unit
  | .error e => .error e
  | .ok ((), bs) => written ((int32BE bs.length).map (· ++ bs))

theorem lengthPatched_yields {body : Write Unit} {r : Outcome Thrown UInt8 Unit}
    (hr : Yields body r) : Yields (lengthPatched body) (patched r) := by
  intro w
  cases r with
  | error e =>
    show (body _ >>= fun p => _) = _
    rw [hr]
    rfl
  | ok p =>
    obtain ⟨⟨⟩, bs⟩ := p
    show (body (w.app [0, 0, 0, 0]) >>= fun p => patch32 w.buf.length
      ((p.2.buf.length : Int) - ((w.app [0, 0, 0, 0]).buf.length : Nat)) p.2) = _
    rw [hr]
    show patch w.buf.length (int32BE (((w.buf ++ [0, 0, 0, 0] ++ bs).length : Int) -
      ((w.buf ++ [0, 0, 0, 0]).length : Nat))) ((w.app [0, 0, 0, 0]).app bs) =
      (written ((int32BE bs.length).map (· ++ bs))).on w
    have hlen : ((w.buf ++ [0, 0, 0, 0] ++ bs).length : Int) -
        ((w.buf ++ [0, 0, 0, 0]).length : Nat) = bs.length := by
      rw [List.length_append]
      omega
    rw [hlen]
    cases hb : int32BE bs.length with
    | error e => rfl
    | ok b4 =>
      have h4 : ([0, 0, 0, 0] : List UInt8).length = b4.length := (checked_length hb).symm
      show Except.ok ((), { w with buf := overwrite (w.buf ++ [0, 0, 0, 0] ++ bs) w.buf.length b4 }) =
        Except.ok ((), { w with buf := w.buf ++ (b4 ++ bs) })
      rw [overwrite_app h4, List.append_assoc]

theorem lengthPatched_appends {body : Write Unit} (h : OnlyAppends body) :
    OnlyAppends (lengthPatched body) := by
  obtain ⟨r, hr⟩ := h
  exact ⟨_, lengthPatched_yields hr⟩

/-! ### Text -/

theorem guardNul_appends (s : JsString) : OnlyAppends (guardNul s) :=
  .ite (fun _ => .throw _) fun _ => .pure ()

theorem p2_appends (n : Int) : OnlyAppends (p2 n) := (byte_appends _).bind fun _ => byte_appends _

theorem writeIso_appends : ∀ t, OnlyAppends (writeIso t)
  | none => .throw _
  | some t => by
    unfold writeIso
    refine .ite (fun _ => append_appends _) fun _ => ?_
    repeat' refine OnlyAppends.bind ?_ fun _ => ?_
    all_goals exact byte_appends _

theorem writeEscRun_appends (s : JsString) : ∀ run, OnlyAppends (writeEscRun run s) := by
  induction s with
  | nil =>
    intro run
    exact .ite (fun _ => append_appends _) fun _ => .pure ()
  | cons c rest ih =>
    intro run
    have hbyte : OnlyAppends (do byte 0x5c; writeEscRun [c] rest) :=
      (byte_appends _).bind fun _ => ih _
    refine .ite (fun _ => ?_) fun _ => ih _
    exact .ite (fun _ => (append_appends _).bind fun _ => hbyte) fun _ => hbyte

theorem stringified_appends (v : Value) : OnlyAppends (stringified js v) := by
  unfold stringified
  split
  · exact .pure _
  · exact .throw _
  · exact .throw _

/-- A string between quotes. -/
theorem quoted_appends {body : Write Unit} (h : OnlyAppends body) :
    OnlyAppends (do byte 0x22; body; byte 0x22) :=
  (byte_appends _).bind fun _ => h.bind fun _ => byte_appends _

mutual

theorem writeElement_appends : ∀ v, OnlyAppends (writeElement js v)
  | .undefined | .null => append_appends _
  | .array arr =>
    (byte_appends _).bind fun _ => (writeElements_appends arr 0).bind fun _ => byte_appends _
  | .number _ | .bigint _ => append_appends _
  | .boolean _ => byte_appends _
  | .date t => quoted_appends (writeIso_appends t)
  | .buffer _ | .string _ | .other _ => quoted_appends (writeEscRun_appends _ _)
  | .object _ => (byte_appends _).bind fun _ => (stringified_appends _).bind fun _ =>
    (writeEscRun_appends _ _).bind fun _ => byte_appends _

theorem writeElements_appends : ∀ arr i, OnlyAppends (writeElements js arr i)
  | [], _ => .pure ()
  | v :: rest, i =>
    have hrest : OnlyAppends (do writeElement js v; writeElements js rest (i + 1)) :=
      (writeElement_appends v).bind fun _ => writeElements_appends rest (i + 1)
    .ite (fun _ => (byte_appends _).bind fun _ => hrest) fun _ => hrest

end

theorem arrayLiteralInto_appends (arr : List Value) : OnlyAppends (arrayLiteralInto js arr) :=
  lengthPatched_appends ((byte_appends _).bind fun _ => (writeElements_appends arr 0).bind fun _ =>
    byte_appends _)

/-- A value and then its format. -/
theorem then_appends {m : Write Unit} (h : OnlyAppends m) (a : α) :
    OnlyAppends (do m; return a) := h.bind fun _ => .pure a

theorem encodeValueInto_appends : ∀ v, OnlyAppends (encodeValueInto js v)
  | .undefined | .null => then_appends (int32_appends _) _
  | .buffer _ => then_appends (lpBytes_appends _) _
  | .number x => by
    rw [encodeValueInto]
    split
    · exact then_appends (lpAsciiInt_appends _) _
    · exact then_appends (lpAsc_appends _) _
  | .string s => (guardNul_appends s).bind fun _ => then_appends (lpStr_appends s) _
  | .boolean _ => (int32_appends _).bind fun _ => then_appends (byte_appends _) _
  | .date t => then_appends (lengthPatched_appends (writeIso_appends t)) _
  | .array arr => then_appends (arrayLiteralInto_appends arr) _
  | .object _ => (stringified_appends _).bind fun _ => then_appends (lpStr_appends _) _
  | .bigint _ => (guardNul_appends _).bind fun _ => then_appends (lpAsc_appends _) _
  | .other _ => (guardNul_appends _).bind fun _ => then_appends (lpStr_appends _) _

/-! ### Binary -/

theorem writeMicros_appends (t : Time) : OnlyAppends (writeMicros t) :=
  .ite (fun _ => lpI64_appends _) fun _ => lpI64Big_appends _

theorem mismatch_appends : OnlyAppends (throw .mismatch : Write α) := .throw _

theorem int_appends {lo hi : Int} (v : Value) {fits : Int → Write α} {other : Write α}
    (hfits : ∀ n, OnlyAppends (fits n)) (hother : OnlyAppends other) :
    OnlyAppends (match intIn lo hi v with | some n => fits n | none => other) := by
  split
  · exact hfits _
  · exact hother

theorem elemTimestamp_appends (v : Value) : OnlyAppends (match v with
    | .date (some t) => writeMicros t
    | _ => throw Thrown.mismatch) := by
  split
  · exact writeMicros_appends _
  · exact mismatch_appends

theorem elemEncoderFor_appends (oid : Oid) : ∀ v, OnlyAppends (elemEncoderFor oid v) := by
  have htext : ∀ s, OnlyAppends (if hasNul s then throw .mismatch else lpStr s) := fun s =>
    .ite (fun _ => mismatch_appends) fun _ => lpStr_appends s
  intro v
  unfold elemEncoderFor
  split
  · cases v with
    | boolean b => exact (int32_appends _).bind fun _ => byte_appends _
    | _ => exact mismatch_appends
  · exact int_appends v (fun _ => (int32_appends _).bind fun _ => int16_appends _) mismatch_appends
  · exact int_appends v (fun _ => (int32_appends _).bind fun _ => int32_appends _) mismatch_appends
  · cases v with
    | number x =>
      dsimp only
      split
      · exact lpI64_appends _
      · exact mismatch_appends
    | bigint n => exact .ite (fun _ => lpI64Big_appends _) fun _ => mismatch_appends
    | _ => exact mismatch_appends
  · cases v with
    | number x => exact lpF8_appends x
    | _ => exact mismatch_appends
  · cases v with
    | string s => exact htext s
    | _ => exact mismatch_appends
  · cases v with
    | string s => exact htext s
    | _ => exact mismatch_appends
  · exact elemTimestamp_appends v
  · exact elemTimestamp_appends v
  · exact mismatch_appends

theorem writeArrayElems_appends {elem : ElemEnc} (h : ∀ v, OnlyAppends (elem v)) :
    ∀ arr, OnlyAppends (writeArrayElems elem arr) := by
  intro arr
  induction arr with
  | nil => exact .pure ()
  | cons v rest ih =>
    exact .ite (fun _ => (int32_appends _).bind fun _ => ih) fun _ => (h v).bind fun _ => ih

/-- The length of an array is patched from the position of the length itself. -/
theorem patched_from_length (body : Write Unit) :
    (do
      let lenPos ← mark
      int32 0
      body
      patch32 lenPos ((← mark) - lenPos - 4)) = lengthPatched body := by
  funext w
  show (body (w.app [0, 0, 0, 0]) >>= fun p =>
      patch32 w.buf.length (p.2.buf.length - w.buf.length - 4) p.2) =
    (body (w.app [0, 0, 0, 0]) >>= fun p =>
      patch32 w.buf.length (p.2.buf.length - ((w.buf ++ [0, 0, 0, 0]).length : Nat)) p.2)
  refine congrArg _ (funext fun p => ?_)
  have hlen : ((p.2.buf.length : Int) - w.buf.length - 4) =
      p.2.buf.length - ((w.buf ++ [0, 0, 0, 0]).length : Nat) := by
    rw [List.length_append]
    show _ = (p.2.buf.length : Int) - ((w.buf.length + 4 : Nat) : Int)
    omega
  rw [hlen]

theorem writeDims_appends (elemOid : Oid) (arr : List Value) :
    OnlyAppends (writeDims elemOid arr) := by
  have helems : OnlyAppends (writeArrayElems (elemEncoderFor elemOid) arr) :=
    writeArrayElems_appends (elemEncoderFor_appends elemOid) arr
  refine .ite (fun _ => ?_) fun _ => ?_
  · exact (int32_appends _).bind fun _ => (int32_appends _).bind fun _ => int32_appends _
  · iterate 5 refine (int32_appends _).bind fun _ => ?_
    exact helems

theorem writeArrayBinary_eq (elemOid : Oid) (arr : List Value) :
    writeArrayBinary elemOid arr = lengthPatched (writeDims elemOid arr) := patched_from_length _

theorem writeArrayBinary_appends (elemOid : Oid) (arr : List Value) :
    OnlyAppends (writeArrayBinary elemOid arr) := by
  rw [writeArrayBinary_eq]
  exact lengthPatched_appends (writeDims_appends elemOid arr)

/-- The handler starts on what was there, so that there is nothing to rewind. -/
theorem arrayEnc_eq (elemOid : Oid) (arr : List Value) :
    arrayEnc js elemOid (.array arr) =
      tryCatch (do writeArrayBinary elemOid arr; return .binary) fun
        | .mismatch => do
          arrayLiteralInto js arr
          return .text
        | e => throw e := by
  funext w
  show tryCatch (_ : Except Thrown (Format × Writer)) _ =
    tryCatch (_ : Except Thrown (Format × Writer)) _
  congr 1
  funext e
  cases e with
  | js e => rfl
  | mismatch =>
    show arrayLiteralInto js arr { w with buf := w.buf.take w.buf.length } >>= _ = _
    rw [List.take_length]
    rfl

theorem arrayEnc_appends (elemOid : Oid) (v : Value) : OnlyAppends (arrayEnc js elemOid v) := by
  cases v with
  | array arr =>
    rw [arrayEnc_eq]
    refine .tryCatch (then_appends (writeArrayBinary_appends elemOid arr) _) fun e => ?_
    cases e with
    | js e => exact .throw _
    | mismatch => exact then_appends (arrayLiteralInto_appends arr) _
  | _ =>
    unfold arrayEnc
    exact encodeValueInto_appends _

theorem timestampEnc_appends (v : Value) : OnlyAppends (match v with
    | .date (some t) => do
      writeMicros t
      return Format.binary
    | v => encodeValueInto js v) := by
  split
  · exact then_appends (writeMicros_appends _) _
  · exact encodeValueInto_appends v

theorem jsonEnc_appends (v : Value) : OnlyAppends (match v with
    | .string s => do
      lpStr s
      return Format.text
    | v => do
      lpStr (← stringified js v)
      return .text) := by
  split
  · exact then_appends (lpStr_appends _) _
  · exact (stringified_appends _).bind fun _ => then_appends (lpStr_appends _) _

theorem binEncoderFor_appends (oid : Oid) (v : Value) :
    ∀ enc ∈ binEncoderFor js oid, OnlyAppends (enc v) := by
  have hplain : OnlyAppends (encodeValueInto js v) := encodeValueInto_appends v
  intro enc h
  unfold binEncoderFor at h
  split at h
  · cases h
    cases v with
    | boolean b =>
      exact (int32_appends _).bind fun _ => then_appends (byte_appends _) _
    | _ => exact hplain
  · cases h
    exact int_appends v
      (fun _ => (int32_appends _).bind fun _ => then_appends (int16_appends _) _) hplain
  · cases h
    exact int_appends v
      (fun _ => (int32_appends _).bind fun _ => then_appends (int32_appends _) _) hplain
  · cases h
    cases v with
    | number x =>
      dsimp only
      split
      · exact then_appends (lpI64_appends _) _
      · exact hplain
    | bigint n => exact .ite (fun _ => then_appends (lpI64Big_appends _) _) fun _ => hplain
    | _ => exact hplain
  · cases h
    cases v with
    | number x => exact then_appends (lpF8_appends x) _
    | _ => exact hplain
  · cases h
    exact timestampEnc_appends v
  · cases h
    exact timestampEnc_appends v
  · cases h
    exact jsonEnc_appends v
  · cases h
    exact jsonEnc_appends v
  · obtain ⟨elemOid, -, rfl⟩ := Option.map_eq_some_iff.mp h
    exact arrayEnc_appends elemOid v

end Minipg.Encode
