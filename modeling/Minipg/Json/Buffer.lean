import Minipg.Json.Text
import Minipg.Js.Rounding
import Mathlib.Data.List.TakeWhile

/-!
# JSON in a buffer

`parseJsonBuffer` (`src/jsonparse.ts`) reads the bytes of a text.  A `Bytes` is what is left of the
buffer.  On the bytes of a text that `parseText` reads it returns the value of the text with its
integers kept (`parseJsonBuffer_text`).
-/

namespace Minipg.Json

open Js
open Cells (Bytes Runtime isDigit decimalInt? decimal? readDecimal digitValues)

inductive JsonBigints
  | number
  | string
  | bigint
  deriving DecidableEq, Repr

def isWsByte (c : UInt8) : Bool := c = 32 ∨ c = 9 ∨ c = 10 ∨ c = 13

def ws (b : Bytes) : Bytes := b.dropWhile isWsByte

/-- The loop of `string`: whether there is a backslash, the characters, and what is left from the
closing quote on. -/
def scanString : Bytes → Bool × Bytes × Bytes
  | [] => (false, [], [])
  | c :: b =>
    if c = 92 then
      match b with
      | [] => (true, [c], [])
      | e :: b => (true, c :: e :: (scanString b).2.1, (scanString b).2.2)
    else if c = 34 then (false, [], c :: b)
    else ((scanString b).1, c :: (scanString b).2.1, (scanString b).2.2)

def isDigitByte (c : UInt8) : Bool := 48 ≤ c.toNat ∧ c.toNat ≤ 57

def isNumericByte (c : UInt8) : Bool :=
  isDigitByte c ∨ c = 46 ∨ c = 101 ∨ c = 69 ∨ c = 43 ∨ c = 45

/-- `o[k] = v`; that of `__proto__` is a setter, and makes no property. -/
def assign {α : Type} (k : JsString) (v : α) (o : List (JsString × α)) : List (JsString × α) :=
  if k = ascii "__proto__" then o else put k v o

section Parser

variable (rt : Runtime) (big : JsonBigints)

def number (token : JsString) : Tree := .number (rt.standard.number token)

/-- `JSON.parse`; `none` is a `SyntaxError`. -/
def jsonParse (s : JsString) : Option Tree :=
  (parseText s).map fun a => a.record.value (number rt)

def bufString (b : Bytes) : Option (JsString × Bytes) :=
  let (esc, chars, rest) := scanString (b.drop 1)
  if esc then
    match jsonParse rt (rt.standard.utf8 (b.take 1 ++ chars ++ rest.take 1)) with
    | some (.string s) => some (s, rest.drop 1)
    | _ => none
  else some (rt.standard.utf8 chars, rest.drop 1)

/-- The number of these characters; what is no safe integer has digits. -/
def readNumber (sign token : Bytes) : Tree :=
  let raw := rt.standard.utf8 (sign ++ token)
  if !token.all isDigitByte || big = .number then number rt raw
  else
    let x := token.foldl (fun x c => (x.mul (.ofInt 10)).add (.ofInt ((c.toNat - 48 : Nat) : Int)))
      (Double.ofInt 0)
    let x := if sign = [] then x else x.neg
    if x.safeInteger?.isSome then .number x
    else if big = .bigint then .bigint ((decimalInt? raw).getD 0)
    else .string raw

/-- `number`. -/
def bufNumber (b : Bytes) : Tree × Bytes :=
  let sign := if b.head? = some 45 then b.take 1 else []
  let b := b.drop sign.length
  (readNumber rt big sign (b.takeWhile isNumericByte), b.dropWhile isNumericByte)

/-- The last cases of `value`. -/
def bufWord (b : Bytes) : Tree × Bytes :=
  if b.head? = some 116 then (.boolean true, b.drop 4)
  else if b.head? = some 102 then (.boolean false, b.drop 5)
  else if b.head? = some 110 then (.null, b.drop 4)
  else bufNumber rt big b

mutual

/-- `value`; `fuel` only has to be more than the number of bytes. -/
def bufValue : Nat → Bytes → Option (Tree × Bytes)
  | 0, _ => none
  | fuel + 1, b =>
    let b := ws b
    if b.head? = some 123 then
      let b := ws (b.drop 1)
      if b.head? = some 125 then some (.object [], b.drop 1)
      else (bufMembers fuel [] b).map fun r => (.object r.1, r.2)
    else if b.head? = some 91 then
      let b := ws (b.drop 1)
      if b.head? = some 93 then some (.array [], b.drop 1)
      else (bufItems fuel b).map fun r => (.array r.1, r.2)
    else if b.head? = some 34 then (bufString rt b).map fun r => (.string r.1, r.2)
    else some (bufWord rt big b)

/-- The loop of `array`. -/
def bufItems : Nat → Bytes → Option (List Tree × Bytes)
  | 0, _ => none
  | fuel + 1, b => do
    let (v, b) ← bufValue fuel b
    let b := ws b
    if b.head? = some 44 then (bufItems fuel (b.drop 1)).map fun r => (v :: r.1, r.2)
    else some ([v], b.drop 1)

/-- The loop of `object`. -/
def bufMembers : Nat → List (JsString × Tree) → Bytes → Option (List (JsString × Tree) × Bytes)
  | 0, _, _ => none
  | fuel + 1, o, b => do
    let (k, b) ← bufString rt (ws b)
    let (v, b) ← bufValue fuel ((ws b).drop 1)
    let o := if k = ascii "__proto__" then put k v o else assign k v o
    let b := ws b
    if b.head? = some 44 then bufMembers fuel o (b.drop 1)
    else some (o, b.drop 1)

end

def parseJsonBuffer (b : Bytes) : Option Tree :=
  (bufValue rt big (b.length + 1) b).map Prod.fst

/-- A number whose integer is kept, if it is not a safe one. -/
def exact (token : JsString) : Tree :=
  match decimalInt? token with
  | some n =>
    if Double.Safe n then number rt token
    else
      match big with
      | .number => number rt token
      | .string => .string token
      | .bigint => .bigint n
  | none => number rt token

end Parser

/-! ### Bytes of a text -/

variable {p : UInt16 → Bool} {q : UInt8 → Bool}

/-- A run of characters of ASCII. -/
theorem utf8_span (hp : ∀ u, p u → IsAscii u) (hq : ∀ c : UInt8, q c → c.toNat < 128)
    (hpq : ∀ u, IsAscii u → q (byteOf u.toNat) = p u) : ∀ s : JsString,
    (utf8 s).takeWhile q = latin1 (s.takeWhile p) ∧ (utf8 s).dropWhile q = utf8 (s.dropWhile p)
  | [] => ⟨rfl, rfl⟩
  | u :: s => by
    by_cases hu : p u = true
    · have hascii := hp u hu
      have hbyte : q (byteOf u.toNat) = true := by rw [hpq u hascii, hu]
      obtain ⟨htake, hdrop⟩ := utf8_span hp hq hpq s
      rw [utf8_cons_ascii hascii, List.takeWhile_cons_of_pos hbyte,
        List.dropWhile_cons_of_pos hbyte, List.takeWhile_cons_of_pos hu,
        List.dropWhile_cons_of_pos hu, htake, hdrop]
      exact ⟨rfl, rfl⟩
    · rw [List.takeWhile_cons_of_neg hu, List.dropWhile_cons_of_neg hu]
      obtain ⟨c, bs, hbytes, hc⟩ : ∃ c bs, utf8 (u :: s) = c :: bs ∧ ¬q c = true := by
        by_cases hascii : IsAscii u
        · refine ⟨_, _, utf8_cons_ascii hascii s, ?_⟩
          rw [hpq u hascii]
          exact hu
        · obtain ⟨c, bs, hbytes, hhigh⟩ := utf8_head_high hascii s
          refine ⟨c, bs, hbytes, fun h => ?_⟩
          have hlow := hq c h
          omega
      rw [hbytes, List.takeWhile_cons_of_neg hc, List.dropWhile_cons_of_neg hc]
      exact ⟨rfl, rfl⟩

theorem wellFormed_dropWhile (hp : ∀ u, p u → IsAscii u) : ∀ {s : JsString}, isWellFormed s →
    isWellFormed (s.dropWhile p)
  | [], h => h
  | u :: s, h => by
    by_cases hu : p u = true
    · rw [List.dropWhile_cons_of_pos hu]
      rw [wellFormed_ascii (hp u hu)] at h
      exact wellFormed_dropWhile hp h
    · rwa [List.dropWhile_cons_of_neg hu]

/-- The bytes of ASCII are its characters. -/
theorem forall_ascii {P : UInt16 → UInt8 → Prop}
    (h : ∀ n < 128, P (UInt16.ofNat n) (byteOf n)) (u : UInt16) (hu : IsAscii u) :
    P u (byteOf u.toNat) := by
  have hn := h u.toNat hu
  rwa [UInt16.ofNat_toNat] at hn

theorem isWs_ascii (u : UInt16) (h : isWs u) : IsAscii u := by
  unfold isWs at h
  rw [decide_eq_true_eq] at h
  rcases h with rfl | rfl | rfl | rfl
  all_goals decide

theorem ws_utf8 (s : JsString) : ws (utf8 s) = utf8 (skipWs s) := by
  refine (utf8_span isWs_ascii (fun c hc => ?_) ?_ s).2
  · unfold isWsByte at hc
    rw [decide_eq_true_eq] at hc
    rcases hc with rfl | rfl | rfl | rfl
    all_goals decide
  · exact forall_ascii (P := fun u c => isWsByte c = isWs u) (by decide)

theorem wellFormed_skipWs {s : JsString} (h : isWellFormed s) : isWellFormed (skipWs s) :=
  wellFormed_dropWhile isWs_ascii h

/-! ### Strings -/

/-- The loop over the bytes of `s` ends behind `body`. -/
structure Spans (s body : JsString) (esc : Bool) (rest : JsString) : Prop where
  split : s = body ++ 34 :: rest
  wellFormed : isWellFormed body
  scan : scanString (utf8 s) = (esc, utf8 body, 34 :: utf8 rest)

theorem scanString_plain {c : UInt8} (hq : c ≠ 34) (hb : c ≠ 92) (b : Bytes) :
    scanString (c :: b) = ((scanString b).1, c :: (scanString b).2.1, (scanString b).2.2) := by
  rw [scanString.eq_def]
  dsimp only
  rw [if_neg hb, if_neg hq]

theorem scanString_high {bs : Bytes} (h : ∀ c ∈ bs, 128 ≤ c.toNat) (b : Bytes) :
    scanString (bs ++ b) = ((scanString b).1, bs ++ (scanString b).2.1, (scanString b).2.2) := by
  induction bs with
  | nil => rfl
  | cons c bs ih =>
    have hc := h c List.mem_cons_self
    have hne : c ≠ 34 ∧ c ≠ 92 := by
      refine ⟨?_, ?_⟩
      all_goals
        rintro rfl
        revert hc
        decide
    rw [List.cons_append, scanString_plain hne.1 hne.2,
      ih fun c hc => h c (List.mem_cons_of_mem _ hc)]
    rfl

theorem scanString_quote (s : JsString) :
    scanString (utf8 (34 :: s)) = (false, [], 34 :: utf8 s) := by
  have hquote : utf8 (34 :: s) = 34 :: utf8 s := utf8_cons_ascii (by decide) s
  rw [hquote, scanString.eq_def]
  dsimp only
  rw [if_neg (by decide), if_pos rfl]

namespace Spans

variable {s body rest : JsString} {esc : Bool}

theorem quote (rest : JsString) : Spans (34 :: rest) [] false rest :=
  ⟨rfl, rfl, scanString_quote rest⟩

/-- A character that does not end the string. -/
theorem plain (h : Spans s body esc rest) {c : JsString} {bs : Bytes}
    (hutf : ∀ t, utf8 (c ++ t) = bs ++ utf8 t) (hwf : ∀ t, isWellFormed t → isWellFormed (c ++ t))
    (hscan : ∀ b, scanString (bs ++ b) =
      ((scanString b).1, bs ++ (scanString b).2.1, (scanString b).2.2)) :
    Spans (c ++ s) (c ++ body) esc rest where
  split := by
    rw [h.split]
    exact (List.append_assoc ..).symm
  wellFormed := hwf body h.wellFormed
  scan := by rw [hutf, hscan, h.scan, hutf]

theorem ascii (h : Spans s body esc rest) {u : UInt16} (hu : IsAscii u) (hq : u ≠ 34)
    (hb : u ≠ 92) : Spans (u :: s) (u :: body) esc rest := by
  have hbyte : byteOf u.toNat ≠ 34 ∧ byteOf u.toNat ≠ 92 :=
    forall_ascii (P := fun u c => u ≠ 34 → u ≠ 92 → c ≠ 34 ∧ c ≠ 92) (by decide) u hu hq hb
  refine @plain s body rest esc h [u] [byteOf u.toNat] (fun t => utf8_cons_ascii hu t)
    (fun t ht => ?_) fun b => scanString_plain hbyte.1 hbyte.2 b
  rw [List.singleton_append, wellFormed_ascii hu]
  exact ht

theorem escape (h : Spans s body esc rest) {e : UInt16} (he : IsAscii e) :
    Spans (92 :: e :: s) (92 :: e :: body) true rest where
  split := by rw [h.split]; rfl
  wellFormed := by
    rw [wellFormed_ascii (by decide), wellFormed_ascii he]
    exact h.wellFormed
  scan := by
    have h92 : IsAscii 92 := by decide
    rw [utf8_cons_ascii h92, utf8_cons_ascii he, utf8_cons_ascii h92, utf8_cons_ascii he,
      scanString.eq_def]
    dsimp only
    rw [if_pos (by decide), h.scan]

end Spans

theorem hexValue_plain {u : UInt16} (h : (Cells.hexValue u).isSome) :
    IsAscii u ∧ u ≠ 34 ∧ u ≠ 92 ∧ ¬u < 32 := by
  have hrange : 48 ≤ u.toNat ∧ u.toNat ≤ 102 ∧ u.toNat ≠ 92 := by
    unfold Cells.hexValue at h
    split at h
    · omega
    split at h
    · omega
    split at h
    · omega
    · cases h
  refine ⟨?_, ?_, ?_, ?_⟩
  · unfold IsAscii
    omega
  · rintro rfl
    exact absurd hrange.1 (by decide)
  · rintro rfl
    exact hrange.2.2 rfl
  · intro hlt
    have h32 : u.toNat < 32 := hlt
    omega

theorem escaped_ascii {e x : UInt16} (h : escaped e = some x) : IsAscii e := by
  unfold escaped at h
  repeat' split at h
  rotate_right
  · cases h
  · rename_i he
    rcases he with rfl | rfl | rfl
    all_goals decide
  all_goals
    rename_i he
    subst he
    decide

theorem hexUnit_some {a b c d x : UInt16} (h : hexUnit a b c d = some x) :
    (Cells.hexValue a).isSome ∧ (Cells.hexValue b).isSome ∧ (Cells.hexValue c).isSome ∧
      (Cells.hexValue d).isSome := by
  unfold hexUnit at h
  obtain ⟨_, ha, h⟩ := Option.bind_eq_some_iff.mp h
  obtain ⟨_, hb, h⟩ := Option.bind_eq_some_iff.mp h
  obtain ⟨_, hc, h⟩ := Option.bind_eq_some_iff.mp h
  obtain ⟨_, hd, h⟩ := Option.bind_eq_some_iff.mp h
  rw [ha, hb, hc, hd]
  exact ⟨rfl, rfl, rfl, rfl⟩

/-- The string that is read. -/
def ReadAs (s v rest : JsString) : Prop :=
  isWellFormed rest ∧ ∃ body esc, Spans s body esc rest ∧ (esc = false → v = body) ∧
    parseChars (body ++ [34]) = some (v, [])

/-- A string that is read is found by the loop over its bytes. -/
theorem parseChars_reads : ∀ (n : Nat) {s v rest : JsString}, s.length ≤ n → isWellFormed s →
    Chars s v rest → ReadAs s v rest := by
  intro n
  induction n with
  | zero =>
    intro s v rest hn _ h
    obtain ⟨u, c, rfl, -⟩ := h.split
    cases hn
  | succ n ih =>
    intro s v rest hn hwf h
    cases h with
    | quote rest =>
      rw [wellFormed_ascii (by decide)] at hwf
      exact ⟨hwf, [], false, .quote rest, fun _ => rfl, rfl⟩
    | @escape e x s v rest he hx h =>
      have hascii := escaped_ascii hx
      rw [wellFormed_ascii (by decide), wellFormed_ascii hascii] at hwf
      simp only [List.length_cons] at hn
      obtain ⟨hrest, body, esc, hspan, -, hp⟩ := ih (by omega) hwf h
      exact ⟨hrest, _, true, hspan.escape hascii, fun h => (nomatch h),
        parseChars_escape he hx hp⟩
    | @unit a b c d x s v rest hx h =>
      obtain ⟨ha, hb, hc, hd⟩ := hexUnit_some hx
      obtain ⟨ha, haq, hab, -⟩ := hexValue_plain ha
      obtain ⟨hb, hbq, hbb, -⟩ := hexValue_plain hb
      obtain ⟨hc, hcq, hcb, -⟩ := hexValue_plain hc
      obtain ⟨hd, hdq, hdb, -⟩ := hexValue_plain hd
      rw [wellFormed_ascii (by decide), wellFormed_ascii (by decide), wellFormed_ascii ha,
        wellFormed_ascii hb, wellFormed_ascii hc, wellFormed_ascii hd] at hwf
      simp only [List.length_cons] at hn
      obtain ⟨hrest, body, esc, hspan, -, hp⟩ := ih (by omega) hwf h
      have hall := (((((hspan.ascii hd hdq hdb).ascii hc hcq hcb).ascii hb hbq hbb).ascii ha
        haq hab).escape (show IsAscii 117 by decide))
      exact ⟨hrest, _, true, hall, fun h => (nomatch h), parseChars_unit hx hp⟩
    | @plain u s v rest hq hb hc h =>
      rw [List.length_cons] at hn
      rcases wellFormed_cons hwf with ⟨hu, ht, -⟩ | ⟨w, s', rfl, hu, hw, ht, -⟩
      · obtain ⟨hrest, body, esc, hspan, hval, hp⟩ := ih (by omega) ht h
        refine ⟨hrest, u :: body, esc, ?_, fun he => ?_, parseChars_plain hq hb hc hp⟩
        · by_cases hascii : IsAscii u
          · exact hspan.ascii hascii hq hb
          · have hhigh : isHigh u = false := (Bool.or_eq_false_iff.mp hu).1
            refine hspan.plain (c := [u]) (fun t => utf8_cons (.inl hhigh)) (fun t ht => ?_)
              (scanString_high (unitBytes_high hascii))
            exact isWellFormed_append (.unit hu) ht
        · rw [hval he]
      · -- a pair is read as two characters
        have hlow : 0xdc00 ≤ w.toNat := (of_decide_eq_true hw).1
        cases h with
        | quote => exact absurd hlow (by decide)
        | escape => exact absurd hlow (by decide)
        | unit => exact absurd hlow (by decide)
        | plain hwq hwb hwc h =>
          rw [List.length_cons] at hn
          obtain ⟨hrest, body, esc, hspan, hval, hp⟩ := ih (by omega) ht h
          have hpair : ∀ t, utf8 ([u, w] ++ t) = utf8Pair u w ++ utf8 t := by
            intro t
            show (if isHigh u && isLow w then _ else _) = _
            rw [hu, hw]
            rfl
          refine ⟨hrest, u :: w :: body, esc, ?_, fun he => ?_,
            parseChars_plain hq hb hc (parseChars_plain hwq hwb hwc hp)⟩
          · refine hspan.plain (c := [u, w]) hpair (fun t ht => ?_)
              (scanString_high (utf8Pair_high hu hw))
            exact isWellFormed_append (.pair hu hw) ht
          · rw [hval he]

section Values

variable (rt : Runtime) (big : JsonBigints)

theorem standard_utf8 {s : JsString} (h : isWellFormed s) : rt.standard.utf8 (utf8 s) = s := by
  show (utf8Decode (utf8 s)).getD _ = s
  rw [utf8Decode_utf8 h]
  rfl

theorem jsonParse_quoted {body v : JsString} (h : parseChars (body ++ [34]) = some (v, [])) :
    jsonParse rt (34 :: (body ++ [34])) = some (.string v) := by
  have hvalue : parseValue ((34 :: (body ++ [34])).length + 1) (34 :: (body ++ [34])) =
      some (.string v, []) := by
    rw [parseValue]
    show (if (34 : UInt16) = 123 then _ else _) = _
    rw [if_neg (by decide), if_neg (by decide), if_pos rfl, h]
    rfl
  unfold jsonParse parseText
  rw [hvalue]
  rfl

/-- A string that is read is read from its bytes. -/
theorem bufString_text {s v rest : JsString} (hwf : isWellFormed s)
    (h : parseChars s = some (v, rest)) :
    bufString rt (utf8 (34 :: s)) = some (v, utf8 rest) ∧ isWellFormed rest := by
  obtain ⟨hrest, body, esc, hspan, hval, hp⟩ :=
    parseChars_reads _ (Nat.le_refl _) hwf (parseChars_iff.mp h)
  have hquote : utf8 (34 :: s) = 34 :: utf8 s := utf8_cons_ascii (by decide) s
  refine ⟨?_, hrest⟩
  rw [hquote]
  unfold bufString
  rw [show (34 :: utf8 s).drop 1 = utf8 s from rfl, hspan.scan]
  dsimp only
  cases esc with
  | false =>
    rw [if_neg (by decide), standard_utf8 rt hspan.wellFormed, hval rfl]
    rfl
  | true =>
    have hbytes : (34 :: utf8 s).take 1 ++ utf8 body ++ (34 :: utf8 rest).take 1 =
        utf8 (34 :: (body ++ [34])) := by
      have h34 : IsAscii 34 := by decide
      have hlow : ∀ u ∈ [(34 : UInt16)].head?, isLow u = false := by
        intro u hu
        cases hu
        rfl
      rw [utf8_cons_ascii h34, utf8_append body hlow]
      rfl
    have hclosed : isWellFormed (34 :: (body ++ [34])) := by
      rw [wellFormed_ascii (by decide)]
      exact wellFormed_append_ascii hspan.wellFormed (by decide)
    rw [if_pos rfl, hbytes, standard_utf8 rt hclosed, jsonParse_quoted rt hp]
    rfl

/-! ### Numbers -/

theorem isNumeric_ascii (u : UInt16) (h : isNumeric u) : IsAscii u := by
  unfold isNumeric isDigit at h
  rw [decide_eq_true_eq] at h
  unfold IsAscii
  rcases h with h | rfl | rfl | rfl | rfl | rfl
  · have hd := of_decide_eq_true h
    omega
  all_goals decide

theorem isNumeric_span (s : JsString) :
    (utf8 s).takeWhile isNumericByte = latin1 (s.takeWhile isNumeric) ∧
      (utf8 s).dropWhile isNumericByte = utf8 (s.dropWhile isNumeric) := by
  refine utf8_span isNumeric_ascii (fun c hc => ?_) ?_ s
  · unfold isNumericByte isDigitByte at hc
    rw [decide_eq_true_eq] at hc
    rcases hc with h | rfl | rfl | rfl | rfl | rfl
    · have hd := of_decide_eq_true h
      omega
    all_goals decide
  · exact forall_ascii (P := fun u c => isNumericByte c = isNumeric u) (by decide)

variable {ds : JsString}

theorem digit_unsigned {u : UInt16} {s : JsString} (hall : (u :: s).all isDigit) :
    u ≠ 45 ∧ u ≠ 43 := by
  have hu := of_decide_eq_true (List.all_eq_true.mp hall u List.mem_cons_self)
  refine ⟨?_, ?_⟩
  all_goals
    rintro rfl
    exact absurd hu (by decide)

theorem takeSign_digits (hne : ds ≠ []) (hall : ds.all isDigit) :
    Cells.takeSign ds = (false, ds) := by
  obtain ⟨u, s, rfl⟩ := List.exists_cons_of_ne_nil hne
  obtain ⟨hminus, hplus⟩ := digit_unsigned hall
  unfold Cells.takeSign
  split
  · rename_i heq
    exact absurd (List.cons.inj heq).1 hminus
  · rename_i heq
    exact absurd (List.cons.inj heq).1 hplus
  · rfl

/-- The digits of an integer with a sign. -/
def signed (neg : Bool) (ds : JsString) : JsString := if neg then 45 :: ds else ds

theorem decimalInt_digits (neg : Bool) (hne : ds ≠ []) (hall : ds.all isDigit) :
    decimalInt? (signed neg ds) = some (if neg then -(readDecimal 0 (digitValues ds) : Int)
      else readDecimal 0 (digitValues ds)) := by
  have hcond : ds ≠ [] ∧ ds.all isDigit = true := ⟨hne, hall⟩
  unfold decimalInt?
  cases neg with
  | true => exact if_pos hcond
  | false =>
    obtain ⟨u, s, rfl⟩ := List.exists_cons_of_ne_nil hne
    obtain ⟨hminus, -⟩ := digit_unsigned hall
    unfold signed
    rw [if_neg (by decide)]
    split
    rename_i heq
    split at heq
    · rename_i hcons
      exact absurd (List.cons.inj hcons).1 hminus
    · cases heq
      exact if_pos hcond

theorem decimal_digits (neg : Bool) (hne : ds ≠ []) (hall : ds.all isDigit) :
    decimal? (signed neg ds) = some ⟨neg, readDecimal 0 (digitValues ds), 0⟩ := by
  have hsign : Cells.takeSign (signed neg ds) = (neg, ds) := by
    cases neg with
    | true => rfl
    | false => exact takeSign_digits hne hall
  have hspan : ds.span isDigit = (ds, []) := by
    have hdigits := List.all_eq_true.mp hall
    rw [List.span_eq_takeWhile_dropWhile, List.takeWhile_eq_self_iff.mpr hdigits,
      List.dropWhile_eq_nil_iff.mpr hdigits]
  have hne' : ¬(ds = [] ∧ ([] : JsString) = []) := fun h => hne h.1
  unfold decimal?
  rw [hsign]
  dsimp only
  rw [hspan]
  show (if ds = [] ∧ ([] : JsString) = [] then _ else _) = _
  rw [if_neg hne']
  show some (Cells.Decimal.mk neg (readDecimal 0 (digitValues (ds ++ []))) (0 - 0)) = _
  rw [List.append_nil]
  rfl

theorem number_digits (neg : Bool) (hne : ds ≠ []) (hall : ds.all isDigit) :
    number rt (signed neg ds) = .number (.round neg (readDecimal 0 (digitValues ds) : Nat)) := by
  show Tree.number (((decimal? _).map Cells.Decimal.toDouble).getD _) = _
  rw [decimal_digits neg hne hall]
  show Tree.number (Double.round neg (_ * 10 ^ (0 : Int))) = _
  rw [zpow_zero, mul_one]

theorem signed_ascii (neg : Bool) (hds : ∀ u ∈ ds, IsAscii u) :
    ∀ u ∈ signed neg ds, IsAscii u := by
  cases neg with
  | false => exact hds
  | true =>
    intro u hu
    rcases List.mem_cons.mp hu with rfl | hu
    · decide
    · exact hds u hu

theorem raw_text (neg : Bool) (hds : ∀ u ∈ ds, IsAscii u) :
    rt.standard.utf8 ((if neg then [45] else []) ++ latin1 ds) = signed neg ds := by
  have hascii := signed_ascii neg hds
  have hbytes : (if neg then [45] else []) ++ latin1 ds = utf8 (signed neg ds) := by
    rw [utf8_ascii hascii]
    cases neg
    all_goals rfl
  rw [hbytes, standard_utf8 rt (wellFormed_of_ascii hascii)]

/-- The digits are added up. -/
theorem foldl_accumulated : ∀ {ds : JsString}, ds.all isDigit → ∀ {x : Double} {n : Nat},
    x.Accumulated n → ((latin1 ds).foldl
      (fun x c => (x.mul (.ofInt 10)).add (.ofInt ((c.toNat - 48 : Nat) : Int))) x).Accumulated
        (readDecimal n (digitValues ds))
  | [], _, _, _, h => h
  | u :: s, hall, x, n, h => by
    rw [List.all_cons, Bool.and_eq_true] at hall
    have hu := of_decide_eq_true hall.1
    have hbyte : (byteOf u.toNat).toNat = u.toNat := toNat_byteOf (by omega)
    refine foldl_accumulated hall.2 ?_
    show (Double.add (Double.mul x (.ofInt 10))
      (.ofInt (((byteOf u.toNat).toNat - 48 : Nat) : Int))).Accumulated _
    rw [hbyte]
    exact h.step (by omega)

theorem allDigits_latin1 (hds : ∀ u ∈ ds, IsAscii u) :
    (latin1 ds).all isDigitByte = ds.all isDigit := by
  have hone : ∀ u, IsAscii u → isDigitByte (byteOf u.toNat) = isDigit u :=
    forall_ascii (P := fun u c => isDigitByte c = isDigit u) (by decide)
  induction ds with
  | nil => rfl
  | cons u s ih =>
    show (isDigitByte (byteOf u.toNat) && (latin1 s).all isDigitByte) = (isDigit u && s.all isDigit)
    rw [hone u (hds u List.mem_cons_self), ih fun v hv => hds v (List.mem_cons_of_mem u hv)]

/-- An integer is kept. -/
theorem readNumber_digits (neg : Bool) (hne : ds ≠ []) (hall : ds.all isDigit)
    (hbig : big ≠ .number) :
    readNumber rt big (if neg then [45] else []) (latin1 ds) = exact rt big (signed neg ds) := by
  have hascii : ∀ u ∈ ds, IsAscii u := by
    intro u hu
    have hd := of_decide_eq_true (List.all_eq_true.mp hall u hu)
    unfold IsAscii
    omega
  have hcond : (!(latin1 ds).all isDigitByte || decide (big = .number)) = false := by
    rw [allDigits_latin1 hascii, hall, decide_eq_false hbig]
    rfl
  have hzero : (Double.ofInt 0).Accumulated 0 := by
    unfold Double.Accumulated
    rw [if_pos (Nat.zero_le _)]
    exact congrArg Double.ofInt Int.ofNat_zero.symm
  have hacc := foldl_accumulated hall hzero
  unfold readNumber exact
  dsimp only
  rw [raw_text rt neg hascii, hcond, decimalInt_digits neg hne hall, number_digits rt neg hne hall]
  generalize readDecimal 0 (digitValues ds) = m at hacc ⊢
  generalize (latin1 ds).foldl _ _ = x at hacc ⊢
  have hsign : (if (if neg then [(45 : UInt8)] else []) = [] then x else x.neg) =
      if neg then x.neg else x := by
    cases neg
    all_goals simp
  rw [if_neg Bool.false_ne_true, hsign]
  unfold Double.Accumulated at hacc
  by_cases hm : m ≤ 9007199254740991
  · rw [if_pos hm] at hacc
    have hround : (if neg then x.neg else x) = .round neg m := by
      have hnat := Double.round_natCast m
      unfold Double.Accumulated at hnat
      rw [if_pos hm] at hnat
      rw [hacc, ← hnat]
      cases neg with
      | false => rfl
      | true => exact Double.neg_round false m
    have hsafe : Double.Safe (if neg then -(m : Int) else m) := by
      unfold Double.Safe
      split
      all_goals omega
    rw [hround, Double.round_safe neg hm, Option.isSome_some, if_pos rfl]
    exact (if_pos hsafe).symm
  · rw [if_neg hm] at hacc
    have hlarge : (if neg then x.neg else x).safeInteger? = none := by
      cases neg with
      | false => exact hacc.1.unsafe_integer
      | true => exact hacc.1.neg.unsafe_integer
    have hunsafe : ¬Double.Safe (if neg then -(m : Int) else m) := by
      unfold Double.Safe
      split
      all_goals omega
    rw [hlarge, Option.isSome_none, if_neg Bool.false_ne_true]
    refine Eq.trans ?_ (if_neg hunsafe).symm
    cases big with
    | number => exact absurd rfl hbig
    | string => rfl
    | bigint => rfl

theorem decimalInt_other {neg : Bool} (hall : ds.all isDigit = false)
    (hhead : neg = false → ds.head? ≠ some 45) : decimalInt? (signed neg ds) = none := by
  have hcond : ¬(ds ≠ [] ∧ ds.all isDigit = true) := by
    rintro ⟨-, h⟩
    rw [hall] at h
    cases h
  unfold decimalInt?
  cases neg with
  | true => exact if_neg hcond
  | false =>
    unfold signed
    rw [if_neg Bool.false_ne_true]
    split
    rename_i heq
    split at heq
    · exact absurd rfl (hhead rfl)
    · cases heq
      exact if_neg hcond

/-- Any other number is one of `JSON.parse`. -/
theorem readNumber_other {neg : Bool} (hascii : ∀ u ∈ ds, IsAscii u)
    (hall : ds.all isDigit = false ∨ big = .number) (hhead : neg = false → ds.head? ≠ some 45) :
    readNumber rt big (if neg then [45] else []) (latin1 ds) = exact rt big (signed neg ds) := by
  have hcond : (!(latin1 ds).all isDigitByte || decide (big = .number)) = true := by
    rw [allDigits_latin1 hascii]
    rcases hall with h | h
    · rw [h]
      rfl
    · rw [decide_eq_true h, Bool.or_true]
  have hexact : exact rt big (signed neg ds) = number rt (signed neg ds) := by
    unfold exact
    rcases hall with h | h
    · rw [decimalInt_other h hhead]
    · subst h
      split
      · split
        all_goals rfl
      · rfl
  unfold readNumber
  dsimp only
  rw [raw_text rt neg hascii, if_pos hcond, hexact]

theorem unsigned_minus (s : JsString) : unsigned (45 :: s) = s := by
  rw [unsigned, if_pos rfl]

theorem exists_signed (s : JsString) :
    ∃ neg t, s = signed neg t ∧ (neg = false → t.head? ≠ some 45) ∧ unsigned s = t := by
  cases s with
  | nil => exact ⟨false, [], rfl, fun _ h => (nomatch h), rfl⟩
  | cons u s =>
    by_cases hu : u = 45
    · subst hu
      exact ⟨true, s, rfl, fun h => (nomatch h), unsigned_minus s⟩
    · refine ⟨false, u :: s, rfl, fun _ h => hu (Option.some.inj h), if_neg hu⟩

/-- **A number** is read up to its end. -/
theorem bufNumber_text {s : JsString} (h : isNumber (s.takeWhile isNumeric)) :
    bufNumber rt big (utf8 s) =
      (exact rt big (s.takeWhile isNumeric), utf8 (s.dropWhile isNumeric)) := by
  obtain ⟨neg, t, rfl, hhead, -⟩ := exists_signed s
  have htake : (signed neg t).takeWhile isNumeric = signed neg (t.takeWhile isNumeric) ∧
      (signed neg t).dropWhile isNumeric = t.dropWhile isNumeric := by
    cases neg with
    | false => exact ⟨rfl, rfl⟩
    | true =>
      have h45 : isNumeric 45 = true := by decide
      exact ⟨List.takeWhile_cons_of_pos h45, List.dropWhile_cons_of_pos h45⟩
  rw [htake.1] at h ⊢
  rw [htake.2]
  obtain ⟨hbytes, hrest⟩ := isNumeric_span t
  have hhead' : neg = false → (t.takeWhile isNumeric).head? ≠ some 45 := by
    intro hneg
    cases t with
    | nil => exact fun h => (nomatch h)
    | cons u t =>
      by_cases hu : isNumeric u = true
      · rw [List.takeWhile_cons_of_pos hu]
        exact hhead hneg
      · rw [List.takeWhile_cons_of_neg hu]
        exact fun h => (nomatch h)
  have hsign : (if (utf8 (signed neg t)).head? = some 45
          then (utf8 (signed neg t)).take 1 else []) =
        (if neg then [45] else []) ∧
      (utf8 (signed neg t)).drop (if neg then [(45 : UInt8)] else []).length = utf8 t := by
    cases neg with
    | true =>
      have hcons : utf8 (signed true t) = 45 :: utf8 t := utf8_cons_ascii (by decide) t
      rw [hcons]
      exact ⟨rfl, rfl⟩
    | false =>
      refine ⟨if_neg ?_, rfl⟩
      cases t with
      | nil => exact fun h => (nomatch h)
      | cons u t =>
        show (utf8 (u :: t)).head? ≠ some 45
        by_cases hu : IsAscii u
        · have hbyte : byteOf u.toNat ≠ 45 :=
            forall_ascii (P := fun u c => u ≠ 45 → c ≠ 45) (by decide) u hu
              fun h => hhead rfl (congrArg some h)
          rw [utf8_cons_ascii hu]
          exact fun h => hbyte (Option.some.inj h)
        · obtain ⟨c, bs, hcons, hhigh⟩ := utf8_head_high hu t
          rw [hcons]
          intro h
          cases h
          exact absurd hhigh (by decide)
  have hascii : ∀ u ∈ t.takeWhile isNumeric, IsAscii u := fun u hu =>
    isNumeric_ascii u (List.mem_takeWhile_imp hu)
  have hunsigned : unsigned (signed neg (t.takeWhile isNumeric)) = t.takeWhile isNumeric := by
    cases neg with
    | true => exact unsigned_minus _
    | false =>
      show unsigned (t.takeWhile isNumeric) = _
      cases hd : t.takeWhile isNumeric with
      | nil => rfl
      | cons u s =>
        rw [hd] at hhead'
        exact if_neg fun h => hhead' rfl (congrArg some h)
  have hne : t.takeWhile isNumeric ≠ [] := by
    intro hnil
    unfold isNumber at h
    rw [hunsigned, hnil] at h
    cases h
  unfold bufNumber
  dsimp only
  rw [hsign.1, hsign.2, hbytes, hrest]
  by_cases hbig : big = .number
  · rw [readNumber_other rt big hascii (.inr hbig) hhead']
  · cases hall : (t.takeWhile isNumeric).all isDigit with
    | true => rw [readNumber_digits rt big neg hne hall hbig]
    | false => rw [readNumber_other rt big hascii (.inl hall) hhead']

/-! ### Values -/

/-- The byte of a character of ASCII. -/
def IsByte (u : UInt16) (c : UInt8) : Prop := IsAscii u ∧ byteOf u.toNat = c

instance (u : UInt16) (c : UInt8) : Decidable (IsByte u c) := inferInstanceAs (Decidable (_ ∧ _))

/-- The first byte of another character. -/
theorem utf8_head_ne {u k : UInt16} {c : UInt8} (hk : IsByte k c) (h : u ≠ k) (t : JsString) :
    (utf8 (u :: t)).head? ≠ some c := by
  obtain ⟨hk, rfl⟩ := hk
  have hkn : (byteOf k.toNat).toNat = k.toNat := toNat_byteOf (Nat.lt_trans hk (by decide))
  by_cases hu : IsAscii u
  · have hun : (byteOf u.toNat).toNat = u.toNat := toNat_byteOf (Nat.lt_trans hu (by decide))
    rw [utf8_cons_ascii hu]
    intro he
    have hbyte : byteOf u.toNat = byteOf k.toNat := Option.some.inj he
    rw [hbyte, hkn] at hun
    exact h (UInt16.toNat_inj.mp hun.symm)
  · obtain ⟨c, bs, hcons, hhigh⟩ := utf8_head_high hu t
    rw [hcons]
    intro he
    have hc : c = byteOf k.toNat := Option.some.inj he
    rw [hc, hkn] at hhigh
    exact absurd hk (Nat.not_lt.mpr hhigh)

theorem utf8_word {w : JsString} (hw : ∀ u ∈ w, IsAscii u) (r : JsString) :
    utf8 (w ++ r) = latin1 w ++ utf8 r := by
  induction w with
  | nil => rfl
  | cons u w ih =>
    rw [List.cons_append, utf8_cons_ascii (hw u List.mem_cons_self),
      ih fun v hv => hw v (List.mem_cons_of_mem u hv)]
    rfl

theorem wellFormed_word {w r : JsString} (hw : ∀ u ∈ w, IsAscii u) (h : isWellFormed (w ++ r)) :
    isWellFormed r := by
  induction w with
  | nil => exact h
  | cons u w ih =>
    rw [List.cons_append, wellFormed_ascii (hw u List.mem_cons_self)] at h
    exact ih (fun v hv => hw v (List.mem_cons_of_mem u hv)) h

theorem bufWord_text {s rest : JsString} {a : Ast} (hwf : isWellFormed s)
    (h : parseWord s = some (a, rest)) :
    bufWord rt big (utf8 s) = (a.record.value (exact rt big), utf8 rest) ∧ isWellFormed rest := by
  have htrue : ∀ u ∈ ascii "true", IsAscii u := forall_of_all (by decide)
  have hfalse : ∀ u ∈ ascii "false", IsAscii u := forall_of_all (by decide)
  have hnull : ∀ u ∈ ascii "null", IsAscii u := forall_of_all (by decide)
  unfold parseWord at h
  split at h
  · rename_i hp
    obtain ⟨r, rfl⟩ := hp
    cases h
    refine ⟨?_, wellFormed_word htrue hwf⟩
    rw [utf8_word htrue]
    rfl
  split at h
  · rename_i hp
    obtain ⟨r, rfl⟩ := hp
    cases h
    refine ⟨?_, wellFormed_word hfalse hwf⟩
    rw [utf8_word hfalse]
    rfl
  split at h
  · rename_i hp
    obtain ⟨r, rfl⟩ := hp
    cases h
    refine ⟨?_, wellFormed_word hnull hwf⟩
    rw [utf8_word hnull]
    rfl
  split at h
  · rename_i hn
    cases h
    refine ⟨?_, wellFormed_dropWhile isNumeric_ascii hwf⟩
    -- no number starts with a letter but e, which no word starts with
    have hhead : ∀ (k : UInt16) (c : UInt8), IsByte k c → isNumeric k = false →
        (utf8 s).head? ≠ some c := by
      intro k c hk hnum
      cases s with
      | nil => exact fun h => (nomatch h)
      | cons u t =>
        refine utf8_head_ne hk ?_ t
        rintro rfl
        rw [List.takeWhile_cons_of_neg (by rw [hnum]; exact Bool.false_ne_true)] at hn
        exact absurd hn (by decide)
    unfold bufWord
    rw [if_neg (hhead 116 116 (by decide) (by decide)),
      if_neg (hhead 102 102 (by decide) (by decide)),
      if_neg (hhead 110 110 (by decide) (by decide)), bufNumber_text rt big hn]
    rfl
  · cases h

theorem valueMembers_put (num : JsString → Tree) (k : JsString) (v : Ast) :
    ∀ o, valueMembers num (put k v o) = put k (v.value num) (valueMembers num o)
  | [] => rfl
  | (k', v') :: o => by
    show valueMembers num (if k' = k then _ else _) = if k' = k then _ else _
    split
    · rfl
    · show (k', v'.value num) :: valueMembers num (put k v o) = _
      rw [valueMembers_put num k v o]

theorem assign_put {α : Type} (k : JsString) (v : α) (o : List (JsString × α)) :
    (if k = ascii "__proto__" then put k v o else assign k v o) = put k v o := by
  unfold assign
  split
  · rfl
  · rfl

variable {rt big}

/-- What stands behind white space and a character of ASCII. -/
theorem skip_text {u : UInt16} {c : UInt8} (hu : IsByte u c) {s t : JsString}
    (h : skipWs s = u :: t) (hwf : isWellFormed s) :
    (ws (utf8 s)).head? = some c ∧ (ws (utf8 s)).drop 1 = utf8 t ∧ isWellFormed t := by
  obtain ⟨hu, rfl⟩ := hu
  have hskip := wellFormed_skipWs hwf
  rw [h, wellFormed_ascii hu] at hskip
  rw [ws_utf8, h, utf8_cons_ascii hu]
  exact ⟨rfl, rfl, hskip⟩

theorem head?_ne {k : UInt16} {c : UInt8} (hk : IsByte k c) {s : JsString}
    (h : s.head? ≠ some k) : (utf8 s).head? ≠ some c := by
  cases s with
  | nil => exact fun h => (nomatch h)
  | cons v t => exact utf8_head_ne hk (fun hv => h (congrArg some hv)) t

/-- What is read of a text is read from its bytes. -/
theorem text_rules : Rules
    (fun s a rest => Consumed s rest ∧ (isWellFormed s → isWellFormed rest ∧
      ∀ f, s.length ≤ f + rest.length →
        bufValue rt big f (utf8 s) = some (a.record.value (exact rt big), utf8 rest)))
    (fun s vs rest => Consumed s rest ∧ (isWellFormed s → isWellFormed rest ∧
      ∀ f, s.length ≤ f + rest.length →
        bufItems rt big f (utf8 s) =
          some (valueItems (exact rt big) (recordItems vs), utf8 rest)))
    (fun s ms rest => Consumed s rest ∧ (isWellFormed s → isWellFormed rest ∧
      ∀ f o, s.length ≤ f + rest.length →
        bufMembers rt big f (valueMembers (exact rt big) o) (utf8 s) =
          some (valueMembers (exact rt big) (recordMembers o ms), utf8 rest))) where
  emptyObject {s t rest} hs ht := by
    have hc := (Consumed.behind hs).trans (.behind ht)
    refine ⟨hc, fun hwf => ?_⟩
    obtain ⟨hhead, hdrop, hwf⟩ := skip_text (show IsByte 123 123 by decide) hs hwf
    obtain ⟨hhead', hdrop', hrest⟩ := skip_text (show IsByte 125 125 by decide) ht hwf
    refine ⟨hrest, fun f hf => ?_⟩
    obtain ⟨k, rfl⟩ := hc.step hf
    rw [bufValue]
    dsimp only
    rw [if_pos hhead, hdrop, if_pos hhead', hdrop']
    rfl
  object {s t rest ms} hs hne h := by
    have hc := (Consumed.behind hs).skip h.1
    refine ⟨hc, fun hwf => ?_⟩
    obtain ⟨hhead, hdrop, hwf⟩ := skip_text (show IsByte 123 123 by decide) hs hwf
    obtain ⟨hrest, hms⟩ := h.2 (wellFormed_skipWs hwf)
    refine ⟨hrest, fun f hf => ?_⟩
    obtain ⟨k, rfl⟩ := hc.step hf
    have hlen := (Consumed.behind hs).2
    have hskip := (skipWs_suffix t).length_le
    have hbuf : bufMembers rt big k [] (utf8 (skipWs t)) = _ := hms k [] (by omega)
    rw [bufValue]
    dsimp only
    rw [if_pos hhead, hdrop, ws_utf8, if_neg (head?_ne (show IsByte 125 125 by decide) hne), hbuf]
    rfl
  emptyArray {s t rest} hs ht := by
    have hc := (Consumed.behind hs).trans (.behind ht)
    refine ⟨hc, fun hwf => ?_⟩
    obtain ⟨hhead, hdrop, hwf⟩ := skip_text (show IsByte 91 91 by decide) hs hwf
    obtain ⟨hhead', hdrop', hrest⟩ := skip_text (show IsByte 93 93 by decide) ht hwf
    refine ⟨hrest, fun f hf => ?_⟩
    obtain ⟨k, rfl⟩ := hc.step hf
    rw [bufValue]
    dsimp only
    rw [hhead, if_neg (by decide), if_pos rfl, hdrop, if_pos hhead', hdrop']
    rfl
  array {s t rest vs} hs hne h := by
    have hc := (Consumed.behind hs).skip h.1
    refine ⟨hc, fun hwf => ?_⟩
    obtain ⟨hhead, hdrop, hwf⟩ := skip_text (show IsByte 91 91 by decide) hs hwf
    obtain ⟨hrest, hvs⟩ := h.2 (wellFormed_skipWs hwf)
    refine ⟨hrest, fun f hf => ?_⟩
    obtain ⟨k, rfl⟩ := hc.step hf
    have hlen := (Consumed.behind hs).2
    have hskip := (skipWs_suffix t).length_le
    rw [bufValue]
    dsimp only
    rw [hhead, if_neg (by decide), if_pos rfl, hdrop, ws_utf8,
      if_neg (head?_ne (show IsByte 93 93 by decide) hne), hvs k (by omega)]
    rfl
  string {s t rest v} hs hv := by
    have hc := (Consumed.behind hs).trans (parseChars_consumed hv)
    refine ⟨hc, fun hwf => ?_⟩
    obtain ⟨hhead, -, hwf'⟩ := skip_text (show IsByte 34 34 by decide) hs hwf
    obtain ⟨hbuf, hrest⟩ := bufString_text rt hwf' hv
    refine ⟨hrest, fun f hf => ?_⟩
    obtain ⟨k, rfl⟩ := hc.step hf
    rw [bufValue]
    dsimp only
    rw [hhead, if_neg (by decide), if_neg (by decide), if_pos rfl, ws_utf8, hs, hbuf]
    rfl
  word {s t rest u a} hs hbrace hbracket hquote hw := by
    have hc := (hs ▸ parseWord_consumed hw : Consumed (skipWs s) rest).of_skip
    refine ⟨hc, fun hwf => ?_⟩
    obtain ⟨hbuf, hrest⟩ := bufWord_text rt big (hs ▸ wellFormed_skipWs hwf) hw
    refine ⟨hrest, fun f hf => ?_⟩
    obtain ⟨k, rfl⟩ := hc.step hf
    rw [bufValue]
    dsimp only
    rw [ws_utf8, hs, if_neg (utf8_head_ne (show IsByte 123 123 by decide) hbrace t),
      if_neg (utf8_head_ne (show IsByte 91 91 by decide) hbracket t),
      if_neg (utf8_head_ne (show IsByte 34 34 by decide) hquote t), hbuf]
  lastItem {s r rest v} hv hr := by
    have hend := Consumed.behind hr
    have hc := hv.1.trans hend
    refine ⟨hc, fun hwf => ?_⟩
    obtain ⟨hwf, hbuf⟩ := hv.2 hwf
    obtain ⟨hhead, hdrop, hrest⟩ := skip_text (show IsByte 93 93 by decide) hr hwf
    refine ⟨hrest, fun f hf => ?_⟩
    obtain ⟨k, rfl⟩ := hc.step hf
    have hlen := hend.2
    rw [bufItems, hbuf k (by omega)]
    show (if (ws (utf8 r)).head? = some 44 then _ else some ([_], (ws (utf8 r)).drop 1)) = _
    rw [hhead, if_neg (by decide), hdrop]
    rfl
  item {s r t rest v vs} hv hr hvs := by
    have hcomma := Consumed.behind hr
    have hc := (hv.1.trans hcomma).trans hvs.1
    refine ⟨hc, fun hwf => ?_⟩
    obtain ⟨hwf, hbuf⟩ := hv.2 hwf
    obtain ⟨hhead, hdrop, hwf⟩ := skip_text (show IsByte 44 44 by decide) hr hwf
    obtain ⟨hrest, hbuf'⟩ := hvs.2 hwf
    refine ⟨hrest, fun f hf => ?_⟩
    obtain ⟨k, rfl⟩ := hc.step hf
    have hlen := hcomma.2
    have hlen' := hvs.1.2
    have hlen'' := hv.1.2
    rw [bufItems, hbuf k (by omega)]
    show (if (ws (utf8 r)).head? = some 44 then
      (bufItems rt big k ((ws (utf8 r)).drop 1)).map _ else _) = _
    rw [if_pos hhead, hdrop, hbuf' k (by omega)]
    rfl
  lastMember {s t t' t'' r rest k v} hs hk hcol hv hr := by
    have hkey := ((Consumed.behind hs).trans (parseChars_consumed hk)).trans
      (.behind hcol)
    have hend := Consumed.behind hr
    have hc := (hkey.trans hv.1).trans hend
    refine ⟨hc, fun hwf => ?_⟩
    obtain ⟨-, -, hwf⟩ := skip_text (show IsByte 34 34 by decide) hs hwf
    obtain ⟨hstring, hwf⟩ := bufString_text rt hwf hk
    obtain ⟨-, hcolon, hwf⟩ := skip_text (show IsByte 58 58 by decide) hcol hwf
    obtain ⟨hwf, hbuf⟩ := hv.2 hwf
    obtain ⟨hhead, hdrop, hrest⟩ := skip_text (show IsByte 125 125 by decide) hr hwf
    refine ⟨hrest, fun f o hf => ?_⟩
    obtain ⟨n, rfl⟩ := hc.step hf
    have hlen := hkey.2
    have hlen' := hend.2
    rw [bufMembers, ws_utf8, hs, hstring]
    show (bufValue rt big n ((ws (utf8 t')).drop 1) >>= fun p => _) = _
    rw [hcolon, hbuf n (by omega)]
    show (if (ws (utf8 r)).head? = some 44 then _ else some (_, (ws (utf8 r)).drop 1)) = _
    rw [hhead, if_neg (by decide), hdrop, assign_put, ← valueMembers_put]
    rfl
  member {s t t' t'' r r' rest k v ms} hs hk hcol hv hr hms := by
    have hkey := ((Consumed.behind hs).trans (parseChars_consumed hk)).trans
      (.behind hcol)
    have hcomma := Consumed.behind hr
    have hc := ((hkey.trans hv.1).trans hcomma).trans hms.1
    refine ⟨hc, fun hwf => ?_⟩
    obtain ⟨-, -, hwf⟩ := skip_text (show IsByte 34 34 by decide) hs hwf
    obtain ⟨hstring, hwf⟩ := bufString_text rt hwf hk
    obtain ⟨-, hcolon, hwf⟩ := skip_text (show IsByte 58 58 by decide) hcol hwf
    obtain ⟨hwf, hbuf⟩ := hv.2 hwf
    obtain ⟨hhead, hdrop, hwf⟩ := skip_text (show IsByte 44 44 by decide) hr hwf
    obtain ⟨hrest, hbuf'⟩ := hms.2 hwf
    refine ⟨hrest, fun f o hf => ?_⟩
    obtain ⟨n, rfl⟩ := hc.step hf
    have hlen := hkey.2
    have hlen' := hcomma.2
    have hlen'' := hms.1.2
    have hlen''' := hv.1.2
    rw [bufMembers, ws_utf8, hs, hstring]
    show (bufValue rt big n ((ws (utf8 t')).drop 1) >>= fun p => _) = _
    rw [hcolon, hbuf n (by omega)]
    show (if (ws (utf8 r)).head? = some 44 then
      bufMembers rt big n _ ((ws (utf8 r)).drop 1) else _) = _
    rw [if_pos hhead, hdrop, assign_put, ← valueMembers_put, hbuf' n _ (by omega)]
    rfl

theorem utf8_length_ge : ∀ s : JsString, s.length ≤ (utf8 s).length
  | [] => Nat.le_refl 0
  | [u] => List.length_pos_iff.mpr (by
    unfold utf8
    split
    · exact utf8Unit_ne_nil _
    · exact utf8Unit_ne_nil _)
  | u :: v :: rest => by
    have hrest := utf8_length_ge rest
    have hnext := utf8_length_ge (v :: rest)
    have hone : ∀ c, 1 ≤ (utf8Unit c).length := fun c =>
      List.length_pos_iff.mpr (utf8Unit_ne_nil c)
    have hfour : (utf8Pair u v).length = 4 := rfl
    unfold utf8
    split
    · simp only [List.length_append, List.length_cons, hfour]
      omega
    · have hunit : 1 ≤ (if (isHigh u || isLow u) = true then utf8Unit 0xfffd
          else utf8Unit u.toNat).length := by
        split
        · exact hone _
        · exact hone _
      simp only [List.length_append, List.length_cons] at hnext ⊢
      omega

/-- **The buffer parser** returns the value of the text, with its integers kept. -/
theorem parseJsonBuffer_text {s : JsString} {a : Ast} (hwf : isWellFormed s)
    (h : parseText s = some a) :
    parseJsonBuffer rt big (utf8 s) = some (a.record.value (exact rt big)) := by
  obtain ⟨rest, ⟨-, hvalue⟩, -⟩ := (@text_rules rt big).text h
  have hlen := utf8_length_ge s
  have hbuf := (hvalue hwf).2 ((utf8 s).length + 1) (by omega)
  unfold parseJsonBuffer
  rw [hbuf]
  rfl

end Values

end Minipg.Json
