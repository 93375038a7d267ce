import Minipg.Decode.Numerals
import Minipg.Json.Bigints
import Minipg.Shaped.Documents

/-!
# Scalars and lists in a document

What the code of a type reads off a document.  The loop over an array returns the values of its
items (`items_text`), and the code of a list those of the lists in it, however deep they are; so
every type is implemented (`Leaf.implements`).
-/

namespace Minipg.Shaped

open Js
open Cells (Runtime decimalInt? instantFromString isDigit)
open Json (Ast Chars IsByte Reads ReadsItems fuel_rules isDigitByte isNumeric isNumericByte isWs
  jsonParse number parseChars parseWord signed skipWs unsigned)
open Cursor (Delimited before)

section Leaves

variable {post : List UInt8} {s t v rest : JsString} {a : Ast}

/-- The first character of a value. -/
theorem reads_head (h : Reads s a rest) : ∃ u t, skipWs s = u :: t ∧
    (u = 123 ∨ u = 91 ∨ u = 34 ∨ Cursor.isWordUnit u) := by
  cases h.form with
  | emptyObject hs _ => exact ⟨_, _, hs, .inl rfl⟩
  | object hs _ _ => exact ⟨_, _, hs, .inl rfl⟩
  | emptyArray hs _ => exact ⟨_, _, hs, .inr (.inl rfl)⟩
  | array hs _ _ => exact ⟨_, _, hs, .inr (.inl rfl)⟩
  | string hs _ => exact ⟨_, _, hs, .inr (.inr (.inl rfl))⟩
  | word hs _ _ _ hw =>
    obtain ⟨w, hsplit, hunits⟩ := Cursor.parseWord_units hw
    have hlen := (Json.parseWord_consumed hw).2
    cases w with
    | nil =>
      rw [hsplit] at hlen
      exact absurd hlen (Nat.lt_irrefl _)
    | cons v w =>
      obtain ⟨rfl, -⟩ := List.cons.inj hsplit
      exact ⟨_, _, hs, .inr (.inr (.inr (hunits _ List.mem_cons_self)))⟩

/-- Only `null` starts with its first letter. -/
theorem reads_letter (h : Reads s a rest) (hs : skipWs s = 110 :: t) : a = .null := by
  have hforms : ∀ {v : UInt16} {t' : JsString}, v ≠ 110 → skipWs s ≠ v :: t' := by
    intro v t' hv hs'
    rw [hs] at hs'
    exact hv (List.cons.inj hs').1.symm
  cases h.form with
  | emptyObject hs' _ => exact absurd hs' (hforms (by decide))
  | object hs' _ _ => exact absurd hs' (hforms (by decide))
  | emptyArray hs' _ => exact absurd hs' (hforms (by decide))
  | array hs' _ _ => exact absurd hs' (hforms (by decide))
  | string hs' _ => exact absurd hs' (hforms (by decide))
  | word hs' _ _ _ hw =>
    rw [hs] at hs'
    cases hs'
    have hne : ∀ (v : UInt16) (w : JsString), v ≠ 110 → ¬v :: w <+: 110 :: t := by
      rintro v w hv ⟨r, hr⟩
      exact hv (List.cons.inj hr).1
    unfold parseWord at hw
    rw [Json.ascii_true, Json.ascii_false, if_neg (hne 116 _ (by decide)),
      if_neg (hne 102 _ (by decide))] at hw
    split at hw
    · cases hw
      rfl
    split at hw
    · rename_i hnumber
      rw [List.takeWhile_cons_of_neg (by decide)] at hnumber
      exact absurd hnumber (by decide)
    · cases hw

/-- A `null` is passed over, and anything else is left to the code. -/
theorem orNull_text {code : Code} (h : Reads s a rest) :
    orNull code (before post (skipWs s)) =
      match a with
      | .null => some (.null, before post rest)
      | _ => code (before post (skipWs s)) := by
  obtain ⟨u, t, hs, -⟩ := reads_head h
  cases a with
  | null =>
    have hword : skipWs s = ascii "null" ++ rest := h.null
    have hpeek : (before post (ascii "null" ++ rest)).peek = some 110 :=
      Cursor.peek_cons (u := 110) (t := ascii "ull" ++ rest) (by decide)
    have hadvance := @Cursor.advance_word post (ascii "null") (forall_of_all (by decide)) rest
    unfold orNull
    rw [hword, if_pos hpeek]
    exact congrArg (fun c => some (Decoded.null, c)) hadvance
  | _ =>
    have hne : u ≠ 110 := by
      rintro rfl
      cases reads_letter h hs
    unfold orNull
    rw [hs, if_neg (Cursor.peek_ne (by decide) hne)]

/-! ### Between quotes -/

theorem Bare.chars (h : Bare s v rest) : Chars (v ++ 34 :: rest) v rest := by
  have hall := h.2
  clear h
  induction v with
  | nil => exact .quote rest
  | cons u v ih =>
    obtain ⟨-, hq, hb, hc⟩ := hall u List.mem_cons_self
    exact .plain hq hb hc (ih fun x hx => hall x (List.mem_cons_of_mem u hx))

theorem Bare.reads (h : Bare s v rest) : Reads s (.string v) rest :=
  fuel_rules.string h.1 (Json.parseChars_iff.mpr h.chars)

theorem Bare.ascii (h : Bare s v rest) : ∀ u ∈ v, IsAscii u := fun u hu => (h.2 u hu).1

theorem Bare.quoted (h : Bare s v rest) (hwf : isWellFormed s) :
    (before post (skipWs s)).quoted = (latin1 v, before post rest) := by
  have hquote : IsAscii 34 := by decide
  have hskip := Json.wellFormed_skipWs hwf
  rw [h.1, wellFormed_ascii hquote] at hskip
  have hend := Json.wellFormed_word h.ascii hskip
  have hpass : ∀ u ∈ v, IsAscii u ∧ decide (¬byteOf u.toNat = 34) = true := by
    intro u hu
    refine ⟨h.ascii u hu, decide_eq_true ?_⟩
    exact Json.forall_ascii (P := fun u c => u ≠ 34 → c ≠ 34) (by decide) u (h.ascii u hu)
      (h.2 u hu).2.1
  unfold Cursor.quoted
  dsimp only
  rw [h.1, Cursor.advance_cons hquote, Cursor.pass_word hpass (show IsByte 34 34 by decide)
    (by decide), Cursor.upTo_before hend, Cursor.advance_cons hquote, utf8_ascii h.ascii]

/-! ### Numbers -/

/-- A number is up to where no number goes on. -/
theorem reads_number {token : JsString} (h : Reads s (.number token) rest) :
    token = (skipWs s).takeWhile isNumeric ∧ rest = (skipWs s).dropWhile isNumeric := by
  cases h.form with
  | word hs _ _ _ hw =>
    rw [hs]
    unfold parseWord at hw
    split at hw
    · cases hw
    split at hw
    · cases hw
    split at hw
    · cases hw
    split at hw
    · cases hw
      exact ⟨rfl, rfl⟩
    · cases hw

theorem unsigned_cons (u : UInt16) (s : JsString) :
    unsigned (u :: s) = if u = 45 then s else u :: s := rfl

/-- The loop over the digits of a number goes up to its end. -/
theorem bare_text {p : UInt16 → Bool} {q : UInt8 → Bool} (hp : ∀ u, p u → IsAscii u)
    (hq : ∀ c : UInt8, q c → c.toNat < 128) (hpq : ∀ u, IsAscii u → q (byteOf u.toNat) = p u)
    {token : JsString} (htoken : ∀ u ∈ token, IsAscii u) (hne : token ≠ [])
    (hrest : (unsigned (token ++ rest)).dropWhile p = rest) (hwf : isWellFormed rest) :
    (before post (token ++ rest)).bare q = (latin1 token, before post rest) := by
  obtain ⟨u, w, rfl⟩ := List.exists_cons_of_ne_nil hne
  have hstart : (if (before post (u :: (w ++ rest))).peek = some 45
      then (before post (u :: (w ++ rest))).advance 1 else before post (u :: (w ++ rest))) =
      before post (unsigned (u :: (w ++ rest))) := by
    rw [unsigned_cons]
    by_cases hu : u = 45
    · subst hu
      rw [if_pos (Cursor.peek_cons (by decide)), if_pos rfl, Cursor.advance_cons (by decide)]
    · rw [if_neg (Cursor.peek_ne (by decide) hu), if_neg hu]
  have hpass : ∀ x : JsString, (before post x).pass q = before post (x.dropWhile p) := fun x =>
    congrArg (Cursor.mk · post) (Json.utf8_span hp hq hpq x).2
  unfold Cursor.bare
  rw [List.cons_append, hstart, hpass]
  dsimp only
  rw [List.cons_append] at hrest
  rw [hrest, ← List.cons_append, Cursor.upTo_before hwf, utf8_ascii htoken]

theorem isNumericByte_low (c : UInt8) (hc : isNumericByte c) : c.toNat < 128 := by
  unfold isNumericByte isDigitByte at hc
  rw [decide_eq_true_eq] at hc
  rcases hc with h | rfl | rfl | rfl | rfl | rfl
  · have hd := of_decide_eq_true h
    omega
  all_goals decide

theorem isDigit_numeric {u : UInt16} (h : isDigit u) : isNumeric u = true :=
  decide_eq_true (.inl h)

section Number

variable {token : JsString} (h : Reads s (.number token) rest)

include h

theorem number_split : skipWs s = token ++ rest ∧ token ≠ [] ∧ (∀ u ∈ token, isNumeric u) ∧
    ∀ u ∈ rest.head?, isNumeric u = false := by
  obtain ⟨htoken, hrest⟩ := reads_number h
  have hlen := h.skip.1.2
  have hsplit : skipWs s = token ++ rest := by
    rw [htoken, hrest]
    exact List.takeWhile_append_dropWhile.symm
  refine ⟨hsplit, ?_, ?_, ?_⟩
  · rintro rfl
    rw [hsplit] at hlen
    exact absurd hlen (Nat.lt_irrefl _)
  · rw [htoken]
    exact fun u hu => List.mem_takeWhile_imp hu
  · intro u hu
    have hnot := List.head?_dropWhile_not isNumeric (skipWs s)
    rwa [← hrest, show rest.head? = some u from hu] at hnot

theorem number_bare (hwf : isWellFormed s) :
    (before post (skipWs s)).bare isNumericByte = (latin1 token, before post rest) := by
  obtain ⟨hsplit, hne, hnumeric, hend⟩ := number_split h
  have hdrop : ∀ w : JsString, (∀ u ∈ w, isNumeric u) →
      (w ++ rest).dropWhile isNumeric = rest := by
    intro w hw
    rw [List.dropWhile_append_of_pos hw]
    cases rest with
    | nil => rfl
    | cons u rest =>
      have hu := hend u rfl
      exact List.dropWhile_cons_of_neg (by rw [hu]; decide)
  rw [hsplit]
  refine bare_text Json.isNumeric_ascii isNumericByte_low
    (Json.forall_ascii (P := fun u c => isNumericByte c = isNumeric u) (by decide))
    (fun u hu => Json.isNumeric_ascii u (hnumeric u hu)) hne ?_ (Neon.reads_wellFormed h hwf)
  obtain ⟨u, w, rfl⟩ := List.exists_cons_of_ne_nil hne
  rw [List.cons_append, unsigned_cons]
  split
  · exact hdrop w fun v hv => hnumeric v (List.mem_cons_of_mem u hv)
  · exact hdrop (u :: w) hnumeric

theorem number_digits (hwf : isWellFormed s) (hint : (decimalInt? token).isSome) :
    (before post (skipWs s)).bare isDigitByte = (latin1 token, before post rest) := by
  obtain ⟨hsplit, hne, hnumeric, hend⟩ := number_split h
  obtain ⟨n, hn⟩ := Option.isSome_iff_exists.mp hint
  obtain ⟨neg, ds, htoken, hunsigned, -, hall⟩ := Json.decimalInt_some hn
  have hdigit : ∀ u, isDigit u → IsAscii u := fun u hu =>
    Json.isNumeric_ascii u (isDigit_numeric hu)
  have hlow : ∀ c : UInt8, isDigitByte c → c.toNat < 128 := fun c hc =>
    isNumericByte_low c (decide_eq_true (.inl hc))
  rw [hsplit]
  refine bare_text hdigit hlow
    (Json.forall_ascii (P := fun u c => isDigitByte c = isDigit u) (by decide))
    (fun u hu => Json.isNumeric_ascii u (hnumeric u hu)) hne ?_ (Neon.reads_wellFormed h hwf)
  have hstart : unsigned (token ++ rest) = ds ++ rest := by
    rw [← hunsigned]
    obtain ⟨u, w, rfl⟩ := List.exists_cons_of_ne_nil hne
    rw [List.cons_append, unsigned_cons, unsigned_cons]
    split
    · rfl
    · rfl
  rw [hstart, List.dropWhile_append_of_pos (List.all_eq_true.mp hall)]
  cases hrest : rest with
  | nil => rfl
  | cons u r =>
    have hu := hend u (by rw [hrest]; rfl)
    refine List.dropWhile_cons_of_neg fun hd => ?_
    rw [isDigit_numeric hd] at hu
    cases hu

end Number

end Leaves

/-! ### The types -/

section Types

variable (rt : Runtime) (dateParse : JsString → Double)

/-- A code that is only run behind a `null`. -/
theorem orNull_implements {code : Code} {form : Form} {decode : Ast → Decoded}
    (hreads : ∀ {s a rest}, form s a rest → Reads s a rest) (hnull : decode .null = .null)
    (hruns : ∀ {s a rest}, form s a rest → a ≠ .null → isWellFormed s → Delimited rest → ∀ post,
      ∃ r, (r = rest ∨ r = skipWs rest) ∧
        code (before post (skipWs s)) = some (decode a, before post r)) :
    Implements (orNull code) form decode where
  reads := hreads
  runs {s a rest} h hwf hdelim post := by
    have htext := @orNull_text post s rest a code (hreads h)
    cases a with
    | null => exact ⟨rest, .inl rfl, by rw [htext, hnull]⟩
    | _ =>
      obtain ⟨r, hr, hrun⟩ := hruns h (by simp) hwf hdelim post
      exact ⟨r, hr, by rw [htext]; exact hrun⟩

theorem latin1Text_latin1 {w : JsString} (hw : ∀ u ∈ w, IsAscii u) : latin1Text (latin1 w) = w := by
  have hslice := Cells.latin1Slice_latin1 (s := w)
    (fun u hu => Nat.lt_trans (hw u hu) (by decide)) [] []
  rw [List.nil_append, List.append_nil] at hslice
  exact hslice

theorem bigint_standard {token : JsString} (h : (decimalInt? token).isSome) :
    (rt.standard.bigint token).toOption = some (.bigint ((decimalInt? token).getD 0)) := by
  obtain ⟨n, hn⟩ := Option.isSome_iff_exists.mp h
  have hvalue : rt.standard.bigint token = .ok (.bigint n) := by
    simp only [Runtime.standard, hn]
  rw [hvalue, hn]
  rfl

variable {s rest : JsString} {a : Ast}

/-- What stands at the first character of a numeral. -/
theorem numeral_peek {token : JsString} (h : Reads s (.number token) rest)
    (post : List UInt8) : (before post (skipWs s)).peek ≠ some 34 := by
  obtain ⟨hsplit, hne, hnumeric, -⟩ := number_split h
  obtain ⟨u, w, rfl⟩ := List.exists_cons_of_ne_nil hne
  have hu : u ≠ 34 := by
    rintro rfl
    exact absurd (hnumeric 34 List.mem_cons_self) (by decide)
  rw [hsplit, List.cons_append]
  exact Cursor.peek_ne (by decide) hu

theorem numeral_ascii {token : JsString} (h : Reads s (.number token) rest) :
    ∀ u ∈ token, IsAscii u := fun u hu =>
  Json.isNumeric_ascii u ((number_split h).2.2.1 u hu)

theorem quote_peek {v : JsString} (h : Reads s (.string v) rest) (post : List UInt8) :
    (before post (skipWs s)).peek = some 34 := by
  obtain ⟨t, hs, -⟩ := h.string
  rw [hs]
  exact Cursor.peek_cons (by decide)

theorem number_implements (f : Double → Double) :
    Implements (orNull (rdNumber rt f)) (Numeral fun _ => True)
      (tokenDecode fun token => .number (f (rt.standard.number token))) := by
  refine orNull_implements (fun h => h.1) rfl fun {s a rest} h ha hwf _ post => ?_
  obtain ⟨hreads, rfl | ⟨token, rfl, -⟩ | ⟨v, rfl, hbare, -⟩⟩ := h
  · exact absurd rfl ha
  · refine ⟨rest, .inl rfl, ?_⟩
    unfold rdNumber
    rw [if_neg (numeral_peek hreads post), number_bare hreads hwf]
    dsimp only
    rw [latin1Text_latin1 (numeral_ascii hreads)]
    rfl
  · refine ⟨rest, .inl rfl, ?_⟩
    unfold rdNumber
    rw [if_pos (quote_peek hreads post), hbare.quoted hwf]
    dsimp only
    rw [latin1Text_latin1 hbare.ascii]
    rfl

theorem bigint_implements : Implements (orNull (rdBigInt rt))
    (Numeral fun token => (decimalInt? token).isSome)
    (tokenDecode fun token => .bigint ((decimalInt? token).getD 0)) := by
  refine orNull_implements (fun h => h.1) rfl fun {s a rest} h ha hwf _ post => ?_
  obtain ⟨hreads, rfl | ⟨token, rfl, hint⟩ | ⟨v, rfl, hbare, hint⟩⟩ := h
  · exact absurd rfl ha
  · refine ⟨rest, .inl rfl, ?_⟩
    unfold rdBigInt
    rw [if_neg (numeral_peek hreads post), number_digits hreads hwf hint]
    dsimp only
    rw [latin1Text_latin1 (numeral_ascii hreads), bigint_standard rt hint]
    rfl
  · refine ⟨rest, .inl rfl, ?_⟩
    have htext : rt.standard.utf8 (latin1 v) = v := by
      rw [← utf8_ascii hbare.ascii]
      exact Json.standard_utf8 rt (wellFormed_of_ascii hbare.ascii)
    unfold rdBigInt
    rw [if_pos (quote_peek hreads post), hbare.quoted hwf]
    dsimp only
    rw [htext, bigint_standard rt hint]
    rfl

theorem bool_implements : Implements (orNull rdBool) (Leaf.Conforms .bool)
    (Leaf.decode rt dateParse .bool) := by
  refine orNull_implements (fun h => h.1) rfl fun {s a rest} h ha hwf _ post => ?_
  obtain ⟨hreads, rfl | ⟨b, rfl⟩⟩ := h
  · exact absurd rfl ha
  refine ⟨rest, .inl rfl, ?_⟩
  have hword : skipWs s = ascii (if b then "true" else "false") ++ rest := by
    cases hreads.form with
    | word hs _ _ _ hw =>
      rw [hs]
      unfold parseWord at hw
      split at hw
      · rename_i hp
        obtain ⟨r, hr⟩ := hp
        cases hw
        rw [← hr]
        rfl
      split at hw
      · rename_i hp
        obtain ⟨r, hr⟩ := hp
        cases hw
        rw [← hr]
        rfl
      split at hw
      · cases hw
      split at hw
      · cases hw
      · cases hw
  rw [hword]
  cases b with
  | true =>
    have hpeek : (before post (ascii "true" ++ rest)).peek = some 116 :=
      Cursor.peek_cons (u := 116) (t := ascii "rue" ++ rest) (by decide)
    have hadvance := @Cursor.advance_word post (ascii "true") (forall_of_all (by decide)) rest
    unfold rdBool
    simp only [if_true, hpeek, decide_true]
    exact congrArg (fun c => some (Decoded.value (.boolean true), c)) hadvance
  | false =>
    have hpeek : (before post (ascii "false" ++ rest)).peek ≠ some 116 :=
      Cursor.peek_ne (u := 102) (k := 116) (t := ascii "alse" ++ rest) (by decide) (by decide)
    have hadvance := @Cursor.advance_word post (ascii "false") (forall_of_all (by decide)) rest
    unfold rdBool
    simp only [Bool.false_eq_true, if_false, hpeek, decide_false]
    exact congrArg (fun c => some (Decoded.value (.boolean false), c)) hadvance

theorem parsed_implements : Implements (orNull (rdParsed rt)) Reads (parsedDecode rt) := by
  refine orNull_implements (fun h => h) rfl fun {s a rest} h ha hwf hdelim post => ?_
  have hskip := Json.wellFormed_skipWs hwf
  obtain ⟨w, r, hsplit, hw, hr, hvalue⟩ :=
    @Cursor.skipValue_text post (skipWs s) rest hskip a h.skip hdelim
  have hparse := @Cursor.skipped_parses post (skipWs s) r rest rt hskip a h.skip w hsplit hw
  refine ⟨r, hr, ?_⟩
  unfold rdParsed
  dsimp only
  rw [hvalue, hparse]
  cases a with
  | null => exact absurd rfl ha
  | _ => rfl

/-- A string, with the escapes in it. -/
theorem rdStr_text {v : JsString} (h : Reads s (.string v) rest) (hwf : isWellFormed s)
    (post : List UInt8) : rdStr rt (before post (skipWs s)) =
      some (.value (.string v), before post rest) := by
  have hquote : IsAscii 34 := by decide
  obtain ⟨t, hs, hchars⟩ := h.string
  have hskip := Json.wellFormed_skipWs hwf
  rw [hs, wellFormed_ascii hquote] at hskip
  obtain ⟨hrest, body, esc, hsplit, hbody, hloop, hval, hparse⟩ :=
    @Cursor.chars_text post t rest hskip v hchars
  have hend : isWellFormed (34 :: rest) := by rwa [wellFormed_ascii hquote]
  rw [hs]
  unfold rdStr
  dsimp only
  rw [hloop]
  dsimp only
  cases esc with
  | false =>
    have htext : (before post t).upTo (before post (34 :: rest)) = utf8 body := by
      rw [hsplit]
      exact Cursor.upTo_before hend
    rw [if_neg Bool.false_ne_true, Cursor.advance_cons hquote, Cursor.advance_cons hquote, htext,
      Json.standard_utf8 rt hbody, hval rfl]
  | true =>
    have hwhole : isWellFormed (34 :: (body ++ [34])) := by
      rw [wellFormed_ascii hquote]
      exact wellFormed_append_ascii hbody hquote
    have htext : (before post (34 :: t)).upTo (before post rest) = utf8 (34 :: (body ++ [34])) := by
      have hcut : 34 :: t = (34 :: (body ++ [34])) ++ rest := by
        rw [hsplit]
        simp
      rw [hcut]
      exact Cursor.upTo_before hrest
    rw [if_pos rfl, Cursor.advance_cons hquote, htext, Json.standard_utf8 rt hwhole,
      Json.jsonParse_quoted rt hparse]

theorem string_implements : Implements
    (orNull fun c => if c.peek = some 34 then rdStr rt c else rdRaw c) (Leaf.Conforms .string)
    (Leaf.decode rt dateParse .string) := by
  refine orNull_implements (fun h => h.1) rfl fun {s a rest} h ha hwf _ post => ?_
  obtain ⟨hreads, rfl | ⟨token, rfl⟩ | ⟨v, rfl⟩⟩ := h
  · exact absurd rfl ha
  · refine ⟨rest, .inl rfl, ?_⟩
    unfold rdRaw
    rw [if_neg (numeral_peek hreads post), number_bare hreads hwf]
    dsimp only
    rw [latin1Text_latin1 (numeral_ascii hreads)]
    rfl
  · refine ⟨rest, .inl rfl, ?_⟩
    rw [if_pos (quote_peek hreads post), rdStr_text rt hreads hwf]
    rfl

/-- The instant between quotes is that of the text. -/
theorem epoch_implements (target : Temporal) : Implements (orNull (rdEpoch rt dateParse target))
    (Leaf.Conforms (.epoch target)) (Leaf.decode rt dateParse (.epoch target)) := by
  refine orNull_implements (fun h => h.1) rfl fun {s a rest} h ha hwf _ post => ?_
  obtain ⟨-, rfl | ⟨v, rfl, hbare, hfake⟩⟩ := h
  · exact absurd rfl ha
  refine ⟨rest, .inl rfl, ?_⟩
  have hquote : IsAscii 34 := by decide
  have htext : rt.standard.utf8 (latin1 v) = v := by
    rw [← utf8_ascii hbare.ascii]
    exact Json.standard_utf8 rt (wellFormed_of_ascii hbare.ascii)
  have hbytes : ((before post (skipWs s)).advance 1).bytes =
      [] ++ latin1 v ++ (utf8 (34 :: rest) ++ post) := by
    rw [hbare.1, Cursor.advance_cons hquote]
    unfold before Cursor.bytes
    rw [Json.utf8_word hbare.ascii, List.append_assoc]
    rfl
  have hplace := @Cells.instantFromBytes_place rt.standard [] (latin1 v)
    (utf8 (34 :: rest) ++ post)
  have hsnippet : Cells.snippetOutcome rt.standard ((before post (skipWs s)).advance 1).bytes 0
      (latin1 v).length = instantFromString rt.standard v := by
    rw [hbytes, Cells.snippetOutcome_eq]
    rw [Cells.latin1_length] at hplace ⊢
    exact hplace.trans ((Cells.instantFromBytes_string_iff rt.standard hbare.ascii).mpr hfake)
  unfold Cells.snippetOutcome at hsnippet
  rw [Nat.zero_add] at hsnippet
  unfold rdEpoch
  dsimp only
  rw [hbare.quoted hwf]
  dsimp only
  show some (Decoded.value (instantValue rt target _), _) =
    some (.value (instantValue rt target (instant rt dateParse v)), _)
  unfold instant
  rw [← hsnippet, htext]
  generalize Cells.instantSnippet rt.standard _ 0 _ = out
  obtain ⟨ems, ok⟩ := out
  cases ok with
  | true => rfl
  | false => rfl

end Types

/-! ### Lists -/

section Items

variable {post : List UInt8} {s t rest : JsString} {a : Ast} {vs : List Ast}

theorem Cursor.skipWs_idem (c : Cursor) : c.skipWs.skipWs = c.skipWs :=
  congrArg (Cursor.mk · c.post) (List.dropWhile_idempotent Json.isWsByte c.cell)

theorem skipWs_idem (s : JsString) : skipWs (skipWs s) = skipWs s :=
  List.dropWhile_idempotent Json.isWs s

/-- Where the cursor is, apart from white space. -/
theorem skipWs_near {r : JsString} (h : t = r ∨ t = skipWs r) : skipWs t = skipWs r := by
  rcases h with rfl | rfl
  · rfl
  · exact skipWs_idem r

theorem before_skipWs {r : JsString} (h : t = r ∨ t = skipWs r) :
    (before post t).skipWs = before post (skipWs r) := by
  rw [Cursor.skipWs_before, skipWs_near h]

/-- There is something to read. -/
theorem cell_ne_nil (h : Reads s a rest) (ht : t = s ∨ t = skipWs s) :
    (before post t).cell ≠ [] := by
  obtain ⟨u, w, hs, -⟩ := reads_head h
  rcases ht with rfl | rfl
  · cases t with
    | nil => cases hs
    | cons v t => exact Cursor.cell_ne_nil
  · rw [hs]
    exact Cursor.cell_ne_nil

variable {item : Form} (hreads : ∀ {s a rest}, item s a rest → Reads s a rest)

include hreads

theorem ItemsOf.reads (h : ItemsOf item s vs rest) : ReadsItems s vs rest := by
  induction h with
  | last hv hr => exact fuel_rules.lastItem (hreads hv) hr
  | cons hv hr _ ih => exact fuel_rules.item (hreads hv) hr ih

/-- An array that has items does not close at once. -/
theorem ItemsOf.open (h : ItemsOf item s vs rest) : ∃ u t, skipWs s = u :: t ∧ u ≠ 93 := by
  have hfirst : ∃ v r, item s v r := by
    cases h with
    | last hv _ => exact ⟨_, _, hv⟩
    | cons hv _ _ => exact ⟨_, _, hv⟩
  obtain ⟨v, r, hv⟩ := hfirst
  obtain ⟨u, t, hs, hu⟩ := reads_head (hreads hv)
  refine ⟨u, t, hs, ?_⟩
  rintro rfl
  revert hu
  decide

theorem ArrayOf.reads (h : ArrayOf item s a rest) : Reads s a rest := by
  cases h with
  | empty hs ht => exact fuel_rules.emptyArray hs ht
  | items hs hvs =>
    obtain ⟨u, t, ht, hu⟩ := hvs.open hreads
    rw [skipWs_idem] at ht
    refine fuel_rules.array hs ?_ (hvs.reads hreads)
    rw [ht]
    exact fun h => hu (Option.some.inj h)

variable {code : Code} {value : Ast → Decoded} {comma : Cursor → Cursor} {bound : Nat}
  (hcomma : ∀ t, comma (before post t) = before post t ∨
    comma (before post t) = before post (skipWs t))
  (hskip : ∀ c : Cursor, code c.skipWs = code c)
  (hitem : ∀ {s v r}, item s v r → s.length ≤ bound → isWellFormed s → Delimited r →
    ∃ r', (r' = r ∨ r' = skipWs r) ∧ code (before post s) = some (value v, before post r'))

include hcomma hskip hitem

/-- The loop over the items of an array. -/
theorem items_text (h : ItemsOf item s vs rest) : ∀ {t}, (t = s ∨ t = skipWs s) →
    s.length ≤ bound → isWellFormed s → ∀ fuel, s.length < fuel →
      items code comma fuel (before post t) = some (vs.map value, before post rest) := by
  have hread : ∀ {s t : JsString}, t = s ∨ t = skipWs s →
      code (before post t) = code (before post s) := by
    intro s t ht
    rcases ht with rfl | rfl
    · rfl
    · rw [← Cursor.skipWs_before, hskip]
  induction h with
  | @last s r rest v hv hr =>
    intro t ht hbound hwf fuel hfuel
    obtain ⟨fuel, rfl⟩ := Nat.exists_eq_add_of_lt hfuel
    obtain ⟨r', hnear, hrun⟩ := hitem hv hbound hwf ⟨93, rest, hr, .inr (.inr rfl)⟩
    rw [items, if_neg (cell_ne_nil (hreads hv) ht), hread ht, hrun]
    show (if (before post r').skipWs.peek = some 44 then _ else _) = _
    rw [before_skipWs hnear, hr,
      if_neg (Cursor.peek_ne (show Json.IsByte 44 44 by decide) (by decide)),
      if_pos (Cursor.peek_cons (by decide)), Cursor.advance_cons (by decide)]
    rfl
  | @cons s r t' rest v vs hv hr _ ih =>
    intro t ht hbound hwf fuel hfuel
    obtain ⟨fuel, rfl⟩ := Nat.exists_eq_add_of_lt hfuel
    obtain ⟨r', hnear, hrun⟩ := hitem hv hbound hwf ⟨44, t', hr, .inl rfl⟩
    have hlen := (hreads hv).1.2
    have hlen' := (Json.Consumed.behind hr).2
    have hwf' := Neon.wellFormed_behind hr (by decide) (Neon.reads_wellFormed (hreads hv) hwf)
    obtain ⟨t₀, ht₀, hnext⟩ : ∃ t₀, comma (before post t') = before post t₀ ∧
        (t₀ = t' ∨ t₀ = skipWs t') := by
      rcases hcomma t' with h | h
      · exact ⟨t', h, .inl rfl⟩
      · exact ⟨skipWs t', h, .inr rfl⟩
    have hrest := ih hnext (by omega) hwf' (s.length + fuel) (by omega)
    rw [items, if_neg (cell_ne_nil (hreads hv) ht), hread ht, hrun]
    show (if (before post r').skipWs.peek = some 44 then
      (items code comma (s.length + fuel) (comma ((before post r').skipWs.advance 1))).map _
      else _) = _
    rw [before_skipWs hnear, hr, if_pos (Cursor.peek_cons (by decide)),
      Cursor.advance_cons (by decide), ht₀, hrest]
    rfl

/-- An array. -/
theorem array_text (h : ArrayOf item s a rest) (hbound : s.length ≤ bound + 1)
    (hwf : isWellFormed s) : ∃ vs, a = .array vs ∧
      arrayCode code comma (before post (skipWs s)) =
        some (.array (vs.map value), before post rest) := by
  cases h with
  | empty hs ht =>
    refine ⟨[], rfl, ?_⟩
    unfold arrayCode
    dsimp only
    rw [hs, Cursor.advance_cons (by decide), Cursor.skipWs_before, ht,
      if_pos (Cursor.peek_cons (by decide)), Cursor.advance_cons (by decide)]
    rfl
  | @items _ t _ vs hs hvs =>
    obtain ⟨u, w, hu, hne⟩ := hvs.open hreads
    have hopen := hu
    rw [skipWs_idem] at hopen
    have hlen := (Json.Consumed.behind hs).2
    have hle := (Json.skipWs_suffix t).length_le
    have hbytes : (skipWs t).length ≤ (before post (skipWs t)).cell.length :=
      Json.utf8_length_ge (skipWs t)
    have hwf' := Json.wellFormed_skipWs (Neon.wellFormed_behind hs (by decide) hwf)
    have hloop := items_text hreads hcomma hskip hitem hvs (.inl rfl) (by omega) hwf'
      ((before post (skipWs t)).cell.length + 1) (by omega)
    refine ⟨vs, rfl, ?_⟩
    unfold arrayCode
    dsimp only
    rw [hs, Cursor.advance_cons (by decide), Cursor.skipWs_before, hloop,
      if_neg (by rw [hopen]; exact Cursor.peek_ne (by decide) hne)]
    rfl

end Items

/-! ### Lists in lists -/

section Lists

variable {elem : Form} {code : Code} {value : Ast → Decoded}

theorem itemsDecode_map (value : Ast → Decoded) (vs : List Ast) :
    itemsDecode value vs = vs.map (listDecode value) := by
  induction vs with
  | nil => rw [itemsDecode, List.map_nil]
  | cons v vs ih => rw [itemsDecode, List.map_cons, ih]

variable (helem : Implements code elem value)

include helem

theorem ItemOf.reads {list : Form} (hlist : ∀ {s a rest}, list s a rest → Reads s a rest)
    {s rest : JsString} {a : Ast} (h : ItemOf elem list s a rest) : Reads s a rest := by
  unfold ItemOf at h
  split at h
  · exact hlist h
  · exact helem.reads h

theorem ListOf.reads : ∀ {depth : Nat} {s rest : JsString} {a : Ast},
    ListOf elem depth s a rest → Reads s a rest := by
  intro depth
  induction depth with
  | zero =>
    intro s rest a h
    exact h.elim
  | succ depth ih =>
    intro s rest a h
    exact ArrayOf.reads (ItemOf.reads helem ih) h

/-- What the code of a list returns of an element. -/
theorem item_text {list : Form} {read : Code} {post : List UInt8} {s r : JsString} {v : Ast}
    (h : ItemOf elem list s v r) (hwf : isWellFormed s) (hdelim : Delimited r)
    (hlist : list s v r → read (before post (skipWs s)) =
      some (listDecode value v, before post r)) :
    ∃ r', (r' = r ∨ r' = skipWs r) ∧
      listItem code read (before post s) = some (listDecode value v, before post r') := by
  unfold ItemOf at h
  unfold listItem
  dsimp only
  rw [Cursor.skipWs_before]
  split at h
  · rename_i hopen
    have hs := Json.cons_of_head? hopen
    refine ⟨r, .inl rfl, ?_⟩
    rw [if_pos (by rw [hs]; exact Cursor.peek_cons (by decide))]
    exact hlist h
  · rename_i hopen
    obtain ⟨r', hr', hrun⟩ := helem.runs h hwf hdelim post
    obtain ⟨u, w, hu, -⟩ := reads_head (helem.reads h)
    have hne : u ≠ 91 := by
      rintro rfl
      exact hopen (by rw [hu]; rfl)
    have hvalue : listDecode value v = value v := by
      cases v with
      | array vs =>
        obtain ⟨w', hw', -⟩ := (helem.reads h).array
        exact absurd (by rw [hw']; rfl) hopen
      | _ => rw [listDecode]; simp
    refine ⟨r', hr', ?_⟩
    rw [if_neg (by rw [hu]; exact Cursor.peek_ne (by decide) hne), hvalue]
    exact hrun

theorem list_text (post : List UInt8) : ∀ (fuel : Nat) {depth : Nat} {s rest : JsString} {a : Ast},
    ListOf elem depth s a rest → s.length ≤ fuel → isWellFormed s →
      listCode code (fuel + 1) (before post (skipWs s)) =
        some (listDecode value a, before post rest) := by
  intro fuel
  induction fuel with
  | zero =>
    intro depth s rest a h hlen _
    have hpos := (ListOf.reads helem h).1.2
    omega
  | succ fuel ih =>
    intro depth s rest a h hlen hwf
    cases depth with
    | zero => exact h.elim
    | succ depth =>
      have hskip : ∀ c : Cursor, listItem code (listCode code (fuel + 1)) c.skipWs =
          listItem code (listCode code (fuel + 1)) c := by
        intro c
        unfold listItem
        rw [Cursor.skipWs_idem]
      have hitem : ∀ {s r : JsString} {v : Ast}, ItemOf elem (ListOf elem depth) s v r →
          s.length ≤ fuel → isWellFormed s → Delimited r → ∃ r', (r' = r ∨ r' = skipWs r) ∧
            listItem code (listCode code (fuel + 1)) (before post s) =
              some (listDecode value v, before post r') := fun hv hbound hwf hdelim =>
        item_text helem hv hwf hdelim fun hlist => ih hlist hbound hwf
      have hcomma : ∀ t, id (before post t) = before post t ∨
          id (before post t) = before post (skipWs t) := fun t => .inl rfl
      obtain ⟨vs, rfl, hrun⟩ := array_text (ItemOf.reads helem (ListOf.reads helem)) hcomma hskip
        hitem h hlen hwf
      rw [listDecode, itemsDecode_map]
      exact hrun

end Lists

theorem ArrayOf.skip {item : Form} {s rest : JsString} {a : Ast} (h : ArrayOf item s a rest) :
    ArrayOf item (skipWs s) a rest := by
  cases h with
  | empty hs ht => exact .empty ((skipWs_idem s).trans hs) ht
  | items hs hvs => exact .items ((skipWs_idem s).trans hs) hvs

section Implements

variable (rt : Runtime) (dateParse : JsString → Double)

theorem Leaf.decode_null (l : Leaf) : l.decode rt dateParse .null = .null := by
  induction l with
  | list elem ih =>
    rw [Leaf.decode, listDecode]
    · exact ih
    · exact fun vs h => by cases h
  | _ => rfl

/-- **The code of a type implements it.** -/
theorem Leaf.implements (l : Leaf) :
    Implements (l.code rt dateParse) l.Conforms (l.decode rt dateParse) := by
  induction l with
  | list elem ih =>
    have hreads : ∀ {s a rest}, Conforms (.list elem) s a rest → Reads s a rest := by
      rintro s a rest (⟨-, h⟩ | ⟨depth, h⟩)
      · exact h
      · exact ListOf.reads ih h
    refine ⟨hreads, fun {s a rest} h hwf _ post => ⟨rest, .inl rfl, ?_⟩⟩
    have htext := @orNull_text post s rest a (listCode (elem.code rt dateParse)
      ((before post (skipWs s)).cell.length + 1)) (hreads h)
    unfold Leaf.code
    dsimp only
    rw [before_skipWs (.inr rfl), htext]
    rcases h with ⟨rfl, -⟩ | ⟨depth, h⟩
    · rw [Leaf.decode_null]
    · cases depth with
      | zero => exact h.elim
      | succ depth =>
        have hlist : ListOf elem.Conforms (depth + 1) (skipWs s) a rest := ArrayOf.skip h
        have hrun := list_text ih post (before post (skipWs s)).cell.length hlist
          (Json.utf8_length_ge _) (Json.wellFormed_skipWs hwf)
        rw [skipWs_idem] at hrun
        cases h with
        | empty _ _ => exact hrun
        | items _ _ => exact hrun
  | epoch target => exact epoch_implements rt dateParse target
  | bigint => exact bigint_implements rt
  | float4 precise => exact number_implements rt _
  | number => exact number_implements rt id
  | bool => exact bool_implements rt dateParse
  | json => exact parsed_implements rt
  | string => exact string_implements rt dateParse

end Implements

end Minipg.Shaped
