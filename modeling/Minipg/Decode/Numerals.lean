import Minipg.Decode.Floats
import Minipg.Decode.ServerTexts
import Minipg.Json.Buffer

/-!
# Numerals

What the loops of `src/decode.ts`, `BigInt` and `Number` read in the digits of an integer
(`txtInt_numeral`, `bigint_numeral`) and in a decimal literal that is left to `Number`
(`f64FromBytes_literal`).
-/

namespace Minipg.Cells

open Js

/-- The digits of a number, without zeros before them. -/
def numeral (n : Nat) : List (Fin 10) := lastDigits (Nat.log 10 n + 1) n

theorem numeral_value (n : Nat) : readDecimal 0 ((numeral n).map Fin.val) = n :=
  lastDigits_value _ (Nat.lt_pow_succ_log_self (by decide) n)

theorem numeral_length (n : Nat) : (numeral n).length = Nat.log 10 n + 1 := lastDigits_length ..

theorem digits_lt (ds : List (Fin 10)) : ∀ d ∈ ds.map Fin.val, d < 10 := by
  intro d hd
  obtain ⟨f, -, rfl⟩ := List.mem_map.mp hd
  exact f.isLt

/-- An integer as the server writes it. -/
def intChars (n : Int) : List Nat :=
  (if n < 0 then [45] else []) ++ digitChars ((numeral n.natAbs).map Fin.val)

def intText (n : Int) : Bytes := (intChars n).map byteOf

theorem intChars_lt (n : Int) : ∀ x ∈ intChars n, x < 128 := by
  intro x hx
  rcases List.mem_append.mp hx with hx | hx
  · split at hx
    · rw [List.mem_singleton.mp hx]
      decide
    · cases hx
  · exact Literal.digitChars_lt x hx

theorem intText_length (n : Int) : (intText n).length = (intChars n).length := List.length_map ..

theorem reads_window {s : List Nat} (hs : ∀ x ∈ s, x < 256) (pre post : Bytes) :
    ReadsAt (chars (pre ++ s.map byteOf ++ post)) pre.length s := by
  intro i hi
  have hwindow := chars_window pre (s.map byteOf) post i (by rwa [List.length_map])
  have hlt := hs s[i] (List.getElem_mem hi)
  rw [hwindow]
  unfold chars
  rw [List.getElem?_map, List.getElem?_eq_getElem hi]
  show some (byteOf s[i]).toNat = some s[i]
  rw [toNat_byteOf hlt]

/-! ### The loop of digits -/

section Loop

variable (rt : Runtime) {c : Chars}

theorem digitsLoop_digits {ds : List Nat} (hds : ∀ d ∈ ds, d < 10) : ∀ {p n : Nat},
    ReadsAt c p (digitChars ds) → readDecimal n ds < 2 ^ 53 →
      digitsLoop rt.standard c ds.length p (.ofInt n) = .ofInt (readDecimal n ds : Nat) := by
  induction ds with
  | nil => exact fun _ _ => rfl
  | cons d ds ih =>
    intro p n hread hsafe
    obtain ⟨hc, hrest⟩ := readsAt_cons.mp hread
    have hle : n * 10 + d ≤ readDecimal n (d :: ds) := le_readDecimal (n * 10 + d) ds
    have hshift := shift_digit rt (hds d List.mem_cons_self) hc (n := n) (by omega)
    rw [List.length_cons, digitsLoop, hshift]
    exact ih (fun d' hd' => hds d' (List.mem_cons_of_mem d hd')) hrest hsafe

/-- A number of at most fifteen digits. -/
theorem txtInt_numeral {n : Int} (h : n.natAbs < 10 ^ 15) (pre post : Bytes) :
    txtInt rt.standard (pre ++ intText n ++ post) pre.length (intText n).length = .ofInt n := by
  have hread := reads_window (s := intChars n) (fun x hx => by have := intChars_lt n x hx; omega)
    pre post
  have hlog : Nat.log 10 n.natAbs < 15 := by
    by_cases h0 : n.natAbs = 0
    · rw [h0]
      decide
    · exact Nat.log_lt_of_lt_pow h0 h
  have hlen : (digitChars ((numeral n.natAbs).map Fin.val)).length = Nat.log 10 n.natAbs + 1 := by
    rw [length_digitChars, List.length_map, numeral_length]
  have hvalue := numeral_value n.natAbs
  have hdigits := digits_lt (numeral n.natAbs)
  rw [intText_length]
  unfold intText
  unfold intChars at hread ⊢
  generalize hds : (numeral n.natAbs).map Fin.val = ds at hread hlen hvalue hdigits ⊢
  rw [length_digitChars] at hlen
  unfold txtInt
  by_cases hneg : n < 0
  · rw [if_pos hneg] at hread ⊢
    obtain ⟨hminus, hrest⟩ := readsAt_append.mp hread
    have hsign := (readsAt_cons.mp hminus).1
    have hloop := digitsLoop_digits rt hdigits hrest (n := 0) (by rw [hvalue]; omega)
    have hcount : (pre.length + ([45] ++ digitChars ds).length) - (pre.length + 1) = ds.length := by
      rw [List.length_append, length_digitChars, List.length_singleton]
      omega
    rw [if_neg (by rw [List.length_append, length_digitChars, List.length_singleton]; omega)]
    dsimp only
    rw [if_pos hsign, hcount]
    show Double.neg (digitsLoop rt.standard _ ds.length (pre.length + 1) (.ofInt (0 : Nat))) = _
    have hstart : pre.length + 1 = pre.length + [45].length := rfl
    rw [hstart, hloop, hvalue, Double.neg_ofInt (by omega)]
    congr 1
    omega
  · rw [if_neg hneg] at hread ⊢
    rw [List.nil_append] at hread ⊢
    have hloop := digitsLoop_digits rt hdigits hread (n := 0) (by rw [hvalue]; omega)
    have hcount : (pre.length + (digitChars ds).length) - pre.length = ds.length := by
      rw [length_digitChars]
      omega
    obtain ⟨d, ds', rfl⟩ : ∃ d ds', ds = d :: ds' := List.exists_cons_of_length_pos (by omega)
    have hfirst := (readsAt_cons.mp hread).1
    have hsign : ¬chars (pre ++ (digitChars (d :: ds')).map byteOf ++ post) pre.length = some 45 := by
      rw [hfirst]
      intro heq
      have hd : 48 + d = 45 := Option.some.inj heq
      omega
    rw [if_neg (by rw [length_digitChars]; omega)]
    dsimp only
    rw [if_neg hsign, hcount]
    show digitsLoop rt.standard _ (d :: ds').length pre.length (.ofInt (0 : Nat)) = _
    rw [hloop, hvalue]
    congr 1
    omega

end Loop

/-! ### What the language reads -/

/-- Characters as code units. -/
def units (s : List Nat) : JsString := s.map UInt16.ofNat

theorem units_append (s t : List Nat) : units (s ++ t) = units s ++ units t := List.map_append

/-- The text of a cell is its characters. -/
theorem latin1Slice_chars {s : List Nat} (hs : ∀ x ∈ s, x < 256) (pre post : Bytes) :
    latin1Slice (pre ++ s.map byteOf ++ post) pre.length s.length = units s := by
  have hslice := slice_middle pre (s.map byteOf) post
  rw [List.length_map] at hslice
  unfold latin1Slice
  rw [hslice, List.map_map]
  refine List.map_congr_left fun x hx => ?_
  show UInt16.ofNat (byteOf x).toNat = UInt16.ofNat x
  rw [toNat_byteOf (hs x hx)]

theorem latin1Slice_latin1 {s : JsString} (hs : ∀ u ∈ s, u.toNat < 256) (pre post : Bytes) :
    latin1Slice (pre ++ latin1 s ++ post) pre.length (latin1 s).length = s := by
  unfold latin1Slice
  rw [slice_middle]
  unfold latin1
  rw [List.map_map]
  conv_rhs => rw [← List.map_id s]
  refine List.map_congr_left fun u hu => ?_
  show UInt16.ofNat (byteOf u.toNat).toNat = u
  rw [toNat_byteOf (hs u hu), UInt16.ofNat_toNat]

theorem isDigit_unit {d : Nat} (hd : d < 10) : isDigit (UInt16.ofNat (48 + d)) = true := by
  revert d
  decide

theorem units_digits {ds : List Nat} (hds : ∀ d ∈ ds, d < 10) :
    (units (digitChars ds)).all isDigit = true ∧ digitValues (units (digitChars ds)) = ds := by
  induction ds with
  | nil => exact ⟨rfl, rfl⟩
  | cons d ds ih =>
    have hd := hds d List.mem_cons_self
    obtain ⟨hall, hvalues⟩ := ih fun d' hd' => hds d' (List.mem_cons_of_mem d hd')
    have hvalue : (UInt16.ofNat (48 + d)).toNat - 48 = d := by
      show (48 + d) % 65536 - 48 = d
      omega
    constructor
    · show (isDigit (UInt16.ofNat (48 + d)) && (units (digitChars ds)).all isDigit) = true
      rw [isDigit_unit hd, hall]
      rfl
    · show ((UInt16.ofNat (48 + d)).toNat - 48) :: digitValues (units (digitChars ds)) = d :: ds
      rw [hvalue, hvalues]

theorem span_digits {ds : List Nat} (hds : ∀ d ∈ ds, d < 10) {s : JsString}
    (hs : ∀ u ∈ s.head?, isDigit u = false) :
    (units (digitChars ds) ++ s).span isDigit = (units (digitChars ds), s) := by
  have hall := List.all_eq_true.mp (units_digits hds).1
  have hstop : s.takeWhile isDigit = [] ∧ s.dropWhile isDigit = s := by
    cases s with
    | nil => exact ⟨rfl, rfl⟩
    | cons u s =>
      have hu := hs u rfl
      exact ⟨List.takeWhile_cons_of_neg (by simp [hu]), List.dropWhile_cons_of_neg (by simp [hu])⟩
  rw [List.span_eq_takeWhile_dropWhile, List.takeWhile_append_of_pos hall,
    List.dropWhile_append_of_pos hall, hstop.1, hstop.2, List.append_nil]

theorem takeSign_units (sign : Option Bool) {s : List Nat} {a : Nat} (ha : 46 ≤ a ∧ a ≤ 57) :
    takeSign (units (signChars sign ++ a :: s)) = (decide (sign = some true), units (a :: s)) := by
  cases sign with
  | some neg =>
    cases neg with
    | true => rfl
    | false => rfl
  | none =>
    obtain ⟨k, hk, rfl⟩ : ∃ k < 12, a = 46 + k := ⟨a - 46, by omega, by omega⟩
    interval_cases k
    all_goals rfl

theorem bigint_numeral (rt : Runtime) (n : Int) (pre post : Bytes) :
    rt.standard.bigint (latin1Slice (pre ++ intText n ++ post) pre.length (intText n).length) =
      .ok (.bigint n) := by
  have hvalue := numeral_value n.natAbs
  obtain ⟨hall, hvalues⟩ := units_digits (digits_lt (numeral n.natAbs))
  have hne : units (digitChars ((numeral n.natAbs).map Fin.val)) ≠ [] := by
    intro hnil
    have hlen := congrArg List.length hnil
    rw [units, List.length_map, length_digitChars, List.length_map, numeral_length] at hlen
    cases hlen
  have hread : decimalInt? (units (intChars n)) = some n := by
    have hsigned : units (intChars n) = Json.signed (decide (n < 0))
        (units (digitChars ((numeral n.natAbs).map Fin.val))) := by
      unfold intChars Json.signed
      rw [units_append]
      by_cases hneg : n < 0
      · rw [if_pos hneg, if_pos (decide_eq_true hneg)]
        rfl
      · rw [if_neg hneg, if_neg (by simpa using hneg)]
        rfl
    rw [hsigned, Json.decimalInt_digits _ hne hall, hvalues, hvalue]
    by_cases hneg : n < 0
    · rw [if_pos (decide_eq_true hneg)]
      congr 1
      omega
    · rw [if_neg (by simpa using hneg)]
      congr 1
      omega
  have hslice := latin1Slice_chars (s := intChars n)
    (fun x hx => by have := intChars_lt n x hx; omega) pre post
  rw [intText_length]
  unfold intText
  rw [hslice]
  unfold Runtime.standard
  dsimp only
  rw [hread]

theorem exponentPart_cons {u : UInt16} {s ds : JsString} {neg : Bool}
    (hs : takeSign s = (neg, ds)) (hu : u = 101 ∨ u = 69) (hne : ds ≠ []) (hall : ds.all isDigit) :
    exponentPart (u :: s) = some (if neg then -(readDecimal 0 (digitValues ds) : Int)
      else readDecimal 0 (digitValues ds)) := by
  unfold exponentPart
  dsimp only
  rw [hs]
  exact if_pos ⟨hu, hne, hall⟩

theorem exponentPart_chars (x : Exponent) : exponentPart (units x.chars) = some x.value := by
  obtain ⟨upper, sign, digits, hne⟩ := x
  obtain ⟨d, ds, rfl⟩ := List.exists_cons_of_ne_nil hne
  obtain ⟨hall, hvalues⟩ := units_digits (digits_lt (d :: ds))
  have hd := d.isLt
  have hmark : UInt16.ofNat (if upper then 69 else 101) = 101 ∨
      UInt16.ofNat (if upper then 69 else 101) = 69 := by
    cases upper with
    | true => exact .inr rfl
    | false => exact .inl rfl
  have hsign := takeSign_units sign (s := digitChars (ds.map Fin.val)) (a := 48 + d.val) (by omega)
  have hpart := exponentPart_cons hsign hmark (List.cons_ne_nil _ _) hall
  have hread : exponentPart (units (Exponent.mk upper sign (d :: ds) hne).chars) = _ := hpart
  have hvalue : readDecimal 0 (digitValues (units (digitChars ((d :: ds).map Fin.val)))) =
      readDecimal 0 ((d :: ds).map Fin.val) := by rw [hvalues]
  rw [hread]
  show some (if decide (sign = some true) = true then
    -(readDecimal 0 (digitValues (units (digitChars ((d :: ds).map Fin.val)))) : Int)
    else (readDecimal 0 (digitValues (units (digitChars ((d :: ds).map Fin.val)))) : Int)) = _
  rw [hvalue]
  unfold Exponent.value Exponent.numerals
  by_cases hs : sign = some true
  · rw [if_pos (decide_eq_true hs), if_pos hs]
  · rw [if_neg (by simpa using hs), if_neg hs]

/-- `Number` reads a literal as it is. -/
theorem decimal_literal (t : Literal) : decimal? (units t.chars) = some ⟨t.neg,
    readDecimal 0 (t.wholeDigits ++ t.fractionDigits),
      t.exponentValue - t.fractionDigits.length⟩ := by
  obtain ⟨a, s, hbody, hlow, hhigh⟩ := t.body_cons
  have hsign := takeSign_units t.sign (s := s) ⟨hlow, hhigh⟩
  have hexponent : ∀ u ∈ (units t.exponentChars).head?, isDigit u = false ∧ u ≠ 46 := by
    unfold Literal.exponentChars
    cases t.exponent with
    | none => exact fun _ h => nomatch h
    | some x =>
      intro u hu
      have hmark : UInt16.ofNat (if x.upper then 69 else 101) = u := Option.some.inj hu
      rw [← hmark]
      cases x.upper with
      | true => decide
      | false => decide
  have hfraction : ∀ u ∈ (units (t.fractionChars ++ t.exponentChars)).head?,
      isDigit u = false := by
    unfold Literal.fractionChars
    cases t.fraction with
    | none => exact fun u hu => (hexponent u hu).1
    | some ds =>
      intro u hu
      have hpoint : UInt16.ofNat 46 = u := Option.some.inj hu
      rw [← hpoint]
      decide
  have hwhole := span_digits t.wholeDigits_lt hfraction
  have hpart : fractionPart (units (t.fractionChars ++ t.exponentChars)) =
      (units (digitChars t.fractionDigits), units t.exponentChars) := by
    have hspan := span_digits t.fractionDigits_lt fun u hu => (hexponent u hu).1
    unfold Literal.fractionDigits at hspan
    unfold Literal.fractionChars Literal.fractionDigits
    cases hf : t.fraction with
    | none =>
      show fractionPart (units t.exponentChars) = ([], units t.exponentChars)
      unfold fractionPart
      split
      · rename_i s' heq
        exact absurd rfl (hexponent 46 (by rw [heq]; rfl)).2
      · rfl
    | some ds =>
      show fractionPart (46 :: units (digitChars (ds.map Fin.val) ++ t.exponentChars)) = _
      rw [units_append]
      rw [hf] at hspan
      exact hspan
  have hne : ¬(units (digitChars t.wholeDigits) = [] ∧
      units (digitChars t.fractionDigits) = []) := by
    rintro ⟨h, h'⟩
    have hwlen := congrArg List.length h
    have hflen := congrArg List.length h'
    unfold units Literal.wholeDigits at hwlen
    unfold units Literal.fractionDigits at hflen
    rw [List.length_map, length_digitChars, List.length_map] at hwlen hflen
    exact t.digits_ne (List.append_eq_nil_iff.mpr ⟨List.eq_nil_of_length_eq_zero hwlen,
      List.eq_nil_of_length_eq_zero hflen⟩)
  have hexp : exponentPart (units t.exponentChars) = some t.exponentValue := by
    unfold Literal.exponentChars Literal.exponentValue
    cases t.exponent with
    | none => rfl
    | some x => exact exponentPart_chars x
  have hvalues : digitValues (units (digitChars t.wholeDigits) ++
      units (digitChars t.fractionDigits)) = t.wholeDigits ++ t.fractionDigits := by
    unfold digitValues
    rw [List.map_append]
    exact congrArg₂ (· ++ ·) (units_digits t.wholeDigits_lt).2 (units_digits t.fractionDigits_lt).2
  have hlen : (units (digitChars t.fractionDigits)).length = t.fractionDigits.length := by
    rw [units, List.length_map, length_digitChars]
  unfold Literal.chars
  rw [hbody]
  unfold decimal?
  rw [hsign, ← hbody]
  unfold Literal.body
  rw [units_append]
  dsimp only
  rw [hwhole]
  dsimp only
  rw [hpart]
  dsimp only
  rw [if_neg hne, hexp, hvalues, hlen]
  rfl

/-- The text of a decimal literal is read as the double that is nearest to it. -/
theorem f64FromBytes_literal (rt : Runtime) (t : Literal) (hlen : t.text.length < 2 ^ 52)
    (pre post : Bytes) : f64FromBytes rt.standard (pre ++ t.text ++ post) pre.length t.text.length =
      .round t.neg t.value := by
  obtain ⟨hfast, hslow⟩ := f64FromBytes_lossless rt t pre post hlen
  by_cases h : IsFast rt.standard (pre ++ t.text ++ post) pre.length t.text.length
  · obtain ⟨-, -, -, -, -, -, -, hround⟩ := hfast h
    exact hround
  · have hslice := latin1Slice_chars (s := t.chars)
      (fun x hx => by have := t.chars_lt x hx; omega) pre post
    rw [hslow h, t.text_length]
    unfold Literal.text
    rw [hslice]
    show ((decimal? (units t.chars)).map Decimal.toDouble).getD _ = _
    rw [decimal_literal]
    rfl

def nanWord : Bytes := latin1 (ascii "NaN")

/-- `Infinity` as a float. -/
def infinityWord (neg : Bool) : Bytes :=
  latin1 (if neg then ascii "-Infinity" else ascii "Infinity")

theorem f64FromBytes_nan (rt : Runtime) (pre post : Bytes) :
    f64FromBytes rt.standard (pre ++ nanWord ++ post) pre.length nanWord.length = .nan := by
  have hfirst : chars (pre ++ nanWord ++ post) pre.length = some 78 :=
    chars_window pre nanWord post 0 (by decide)
  have hsign : ¬(some 78 = some 45 ∨ some 78 = some 43) := by decide
  unfold f64FromBytes
  dsimp only
  rw [hfirst, if_neg hsign, hfirst]
  exact if_pos (.inl rfl)

theorem f64FromBytes_infinity (rt : Runtime) (neg : Bool) (pre post : Bytes) :
    f64FromBytes rt.standard (pre ++ infinityWord neg ++ post) pre.length (infinityWord neg).length =
      .infinity neg := by
  unfold f64FromBytes
  dsimp only
  cases neg with
  | false =>
    have hfirst : chars (pre ++ infinityWord false ++ post) pre.length = some 73 :=
      chars_window pre (infinityWord false) post 0 (by decide)
    have hsign : ¬(some 73 = some 45 ∨ some 73 = some 43) := by decide
    have hnan : ¬(some 73 = some 78 ∨ some 73 = some 110) := by decide
    rw [hfirst, if_neg hsign, hfirst, if_neg hnan, if_pos (.inl rfl)]
    rfl
  | true =>
    have hfirst : chars (pre ++ infinityWord true ++ post) pre.length = some 45 :=
      chars_window pre (infinityWord true) post 0 (by decide)
    have hsecond : chars (pre ++ infinityWord true ++ post) (pre.length + 1) = some 73 :=
      chars_window pre (infinityWord true) post 1 (by decide)
    have hnan : ¬(some 73 = some 78 ∨ some 73 = some 110) := by decide
    have hsign : some 45 = some 45 ∨ some 45 = some 43 := .inl rfl
    have hneg : Double.neg (.infinity false) = .infinity true := by decide
    rw [hfirst, if_pos hsign, hsecond, if_neg hnan, if_pos (.inl rfl), if_pos rfl]
    exact hneg

/-! ### Hexadecimal -/

theorem hexValue_digit {n : Nat} (h : n < 16) : hexValue (hexDigit n) = some n := by
  revert n
  decide

theorem hex_lt (b : Bytes) : ∀ u ∈ hex b, u.toNat < 256 := by
  have hdigit : ∀ n < 16, (hexDigit n).toNat < 256 := by decide
  intro u hu
  obtain ⟨x, -, hmem⟩ := List.mem_flatMap.mp hu
  have hx := x.toNat_lt
  rcases List.mem_pair.mp hmem with rfl | rfl
  · exact hdigit _ (by omega)
  · exact hdigit _ (by omega)

theorem hexBytes_hex (b : Bytes) : hexBytes (hex b) = b := by
  induction b with
  | nil => rfl
  | cons x b ih =>
    have hx := x.toNat_lt
    show hexBytes (hexDigit (x.toNat / 16) :: hexDigit (x.toNat % 16) :: hex b) = x :: b
    rw [hexBytes, hexValue_digit (by omega), hexValue_digit (by omega)]
    dsimp only
    rw [ih]
    have hjoin : x.toNat / 16 * 16 + x.toNat % 16 = x.toNat := by omega
    show UInt8.ofNat (x.toNat / 16 * 16 + x.toNat % 16) :: b = x :: b
    rw [hjoin, UInt8.ofNat_toNat]

end Minipg.Cells
