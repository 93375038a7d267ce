import Minipg.Js.Utf8

/-!
# Percent-encoding

`encodeURIComponent` and `decodeURIComponent`, which throw a `URIError` (`none` here), and the
encoding of RFC 3986, which leaves fewer characters as they are.
-/

namespace Minipg.Js

open Taking

def isAlphanumeric (b : UInt8) : Bool :=
  (48 ≤ b.toNat && b.toNat ≤ 57) || (65 ≤ b.toNat && b.toNat ≤ 90) ||
    (97 ≤ b.toNat && b.toNat ≤ 122)

/-- `-`, `.`, `_` and `~` -/
def isUnreserved (b : UInt8) : Bool := isAlphanumeric b || [45, 46, 95, 126].contains b

/-- `!`, `'`, `(`, `)` and `*` -/
def isMark (b : UInt8) : Bool := [33, 39, 40, 41, 42].contains b

def upperDigit (n : Nat) : UInt16 := UInt16.ofNat (if n < 10 then 48 + n else 55 + n)

/-- A byte that is kept, or `%` and two digits. -/
def percentByte (keep : UInt8 → Bool) (b : UInt8) : JsString :=
  if keep b then [UInt16.ofNat b.toNat]
  else [37, upperDigit (b.toNat / 16), upperDigit (b.toNat % 16)]

def percentEncode (keep : UInt8 → Bool) (s : JsString) : JsString :=
  (utf8 s).flatMap (percentByte keep)

/-- It throws at a surrogate that stands alone. -/
def encodeURIComponent (s : JsString) : Option JsString :=
  if isWellFormed s then some (percentEncode (fun b => isUnreserved b || isMark b) s) else none

/-- The encoding of RFC 3986, of text that has a UTF-8 form. -/
def rfc3986 (s : JsString) : Option JsString :=
  if isWellFormed s then some (percentEncode isUnreserved s) else none

/-! ### Decoding -/

def hexDigitValue (u : UInt16) : Option Nat :=
  if 48 ≤ u.toNat ∧ u.toNat ≤ 57 then some (u.toNat - 48)
  else if 97 ≤ u.toNat ∧ u.toNat ≤ 102 then some (u.toNat - 87)
  else if 65 ≤ u.toNat ∧ u.toNat ≤ 70 then some (u.toNat - 55)
  else none

/-- `%` and two hexadecimal digits. -/
def escape : Take UInt16 UInt8 := do
  let percent ← item
  if percent ≠ 37 then failure
  let h ← item
  let h ← known (hexDigitValue h)
  let l ← item
  let l ← known (hexDigitValue l)
  return UInt8.ofNat (h * 16 + l)

/-- How many more bytes a sequence has that begins with this one. -/
def following (b : UInt8) : Option Nat :=
  let n := b.toNat
  if n < 0x80 then some 0
  else if n < 0xc0 then none
  else if n < 0xe0 then some 1
  else if n < 0xf0 then some 2
  else if n < 0xf8 then some 3
  else none

/-- The escapes of one code point. -/
def escaped : Take UInt16 JsString := do
  let b ← escape
  let n ← known (following b)
  let bs ← times escape n
  known (utf8Decode (b :: bs))

/-- The rest of a text; `fuel` only has to be its length. -/
def decodeComponentFrom : Nat → JsString → Option JsString
  | _, [] => some []
  | 0, _ => none
  | fuel + 1, u :: s =>
    if u = 37 then do
      let (t, rest) ← escaped (u :: s)
      let t' ← decodeComponentFrom fuel rest
      return t ++ t'
    else (decodeComponentFrom fuel s).map fun t => u :: t

def decodeURIComponent (s : JsString) : Option JsString := decodeComponentFrom s.length s

/-! ### What is kept -/

/-- A byte of ASCII stands for a character of the text. -/
theorem mem_utf8_ascii {b : UInt8} (hb : b.toNat < 128) : ∀ s : JsString,
    b ∈ utf8 s ↔ UInt16.ofNat b.toNat ∈ s
  | [] => by simp [utf8]
  | u :: s => by
    have hunit : (UInt16.ofNat b.toNat).toNat = b.toNat := by
      show b.toNat % 65536 = b.toNat
      omega
    by_cases hu : IsAscii u
    · have ih := mem_utf8_ascii hb s
      have heq : b = byteOf u.toNat ↔ UInt16.ofNat b.toNat = u := by
        have hu' : u.toNat < 128 := hu
        have hbyte := toNat_byteOf (show u.toNat < 256 by omega)
        rw [← UInt8.toNat_inj, ← UInt16.toNat_inj, hunit, hbyte]
      rw [utf8_cons_ascii hu, List.mem_cons, List.mem_cons, ih, heq]
    · have hne : UInt16.ofNat b.toNat ≠ u := by
        rintro rfl
        exact hu (by rwa [IsAscii, hunit])
      rw [List.mem_cons, or_iff_right hne]
      by_cases hpair : isHigh u = true ∧ ∃ v t, s = v :: t ∧ isLow v = true
      · obtain ⟨hhigh, v, t, rfl, hlow⟩ := hpair
        have ih := mem_utf8_ascii hb t
        have hbytes : utf8 (u :: v :: t) = utf8Pair u v ++ utf8 t := if_pos (by simp [hhigh, hlow])
        have hv : UInt16.ofNat b.toNat ≠ v := by
          rintro rfl
          have hv' : 0xdc00 ≤ (UInt16.ofNat b.toNat).toNat := (of_decide_eq_true hlow).1
          omega
        have hno : b ∉ utf8Pair u v := fun hmem => by
          have hhigh' := utf8Pair_high hhigh hlow b hmem
          omega
        rw [hbytes, List.mem_append, or_iff_right hno, List.mem_cons, or_iff_right hv, ih]
      · have ih := mem_utf8_ascii hb s
        have hbytes : utf8 (u :: s) = unitBytes u ++ utf8 s := by
          apply utf8_cons
          by_cases hhigh : isHigh u = true
          · right
            intro v hv
            obtain ⟨t, rfl⟩ : ∃ t, s = v :: t := by
              cases s with
              | nil => cases hv
              | cons w t => exact ⟨t, by rw [Option.some.inj hv]⟩
            exact Bool.eq_false_iff.mpr fun hlow => hpair ⟨hhigh, v, t, rfl, hlow⟩
          · exact .inl (Bool.eq_false_iff.mpr hhigh)
        have hno : b ∉ unitBytes u := fun hmem => by
          have hhigh := unitBytes_high hu b hmem
          omega
        rw [hbytes, List.mem_append, or_iff_right hno, ih]
termination_by s => s.length

/-- `!`, `'`, `(`, `)` or `*` -/
def isMarkUnit (u : UInt16) : Bool := [33, 39, 40, 41, 42].contains u

theorem isMarkUnit_iff {u : UInt16} :
    isMarkUnit u = true ↔ u = 33 ∨ u = 39 ∨ u = 40 ∨ u = 41 ∨ u = 42 := by
  simp [isMarkUnit]

theorem isMark_iff {b : UInt8} :
    isMark b = true ↔ b = 33 ∨ b = 39 ∨ b = 40 ∨ b = 41 ∨ b = 42 := by
  simp [isMark]

theorem isUnreserved_iff {b : UInt8} : isUnreserved b = true ↔
    (48 ≤ b.toNat ∧ b.toNat ≤ 57 ∨ 65 ≤ b.toNat ∧ b.toNat ≤ 90 ∨
      97 ≤ b.toNat ∧ b.toNat ≤ 122) ∨ b = 45 ∨ b = 46 ∨ b = 95 ∨ b = 126 := by
  simp [isUnreserved, isAlphanumeric, or_assoc]

theorem isMark_ascii {b : UInt8} (h : isMark b = true) :
    b.toNat < 128 ∧ isMarkUnit (UInt16.ofNat b.toNat) = true := by
  rcases isMark_iff.mp h with rfl | rfl | rfl | rfl | rfl <;> decide

/-- A mark is not left by RFC 3986. -/
theorem isUnreserved_mark {b : UInt8} (h : isUnreserved b = true) :
    isMarkUnit (UInt16.ofNat b.toNat) = false := by
  rcases isUnreserved_iff.mp h with hrange | hb
  · by_contra hmark
    have hlt := b.toNat_lt
    have hback : (UInt16.ofNat b.toNat).toNat = b.toNat :=
      UInt16.toNat_ofNat_of_lt' (Nat.lt_trans hlt (by decide))
    rcases isMarkUnit_iff.mp ((Bool.not_eq_false _).mp hmark) with hu | hu | hu | hu | hu <;>
      rw [hu] at hback <;> simp at hback <;> omega
  · rcases hb with rfl | rfl | rfl | rfl <;> decide

/-- Without the five marks the two encodings are the same. -/
theorem percentEncode_eq {s : JsString} (h : ∀ u ∈ s, isMarkUnit u = false) :
    percentEncode (fun b => isUnreserved b || isMark b) s = percentEncode isUnreserved s := by
  refine List.flatMap_congr fun b hb => ?_
  have hno : isMark b = false := by
    by_contra hmark
    obtain ⟨hascii, hunit⟩ := isMark_ascii ((Bool.not_eq_false _).mp hmark)
    exact nomatch (h _ ((mem_utf8_ascii hascii s).mp hb)).symm.trans hunit
  rw [percentByte, percentByte, hno, Bool.or_false]

/-- A mark is kept by `encodeURIComponent`. -/
theorem mark_mem_percentEncode {s : JsString} {u : UInt16} (hu : u ∈ s)
    (hmark : isMarkUnit u = true) : u ∈ percentEncode (fun b => isUnreserved b || isMark b) s := by
  have hunit : ∃ b : UInt8, b.toNat < 128 ∧ isMark b = true ∧ UInt16.ofNat b.toNat = u := by
    rcases isMarkUnit_iff.mp hmark with rfl | rfl | rfl | rfl | rfl
    · exact ⟨33, by decide, by decide, by decide⟩
    · exact ⟨39, by decide, by decide, by decide⟩
    · exact ⟨40, by decide, by decide, by decide⟩
    · exact ⟨41, by decide, by decide, by decide⟩
    · exact ⟨42, by decide, by decide, by decide⟩
  obtain ⟨b, hascii, hb, rfl⟩ := hunit
  refine List.mem_flatMap.mpr ⟨b, (mem_utf8_ascii hascii s).mpr hu, ?_⟩
  rw [percentByte, if_pos (by rw [hb, Bool.or_true])]
  exact List.mem_singleton_self _

/-- What a percent-encoding writes. -/
theorem mem_percentEncode {keep : UInt8 → Bool} {s : JsString} {u : UInt16}
    (h : u ∈ percentEncode keep s) : (∃ b, keep b = true ∧ u = UInt16.ofNat b.toNat) ∨ u = 37 ∨
      48 ≤ u.toNat ∧ u.toNat ≤ 57 ∨ 65 ≤ u.toNat ∧ u.toNat ≤ 70 := by
  obtain ⟨b, -, hb⟩ := List.mem_flatMap.mp h
  have hdigit : ∀ n < 16, 48 ≤ (upperDigit n).toNat ∧ (upperDigit n).toNat ≤ 57 ∨
      65 ≤ (upperDigit n).toNat ∧ (upperDigit n).toNat ≤ 70 := by decide
  have hlt := b.toNat_lt
  rw [percentByte] at hb
  split at hb
  next hkeep => exact .inl ⟨b, hkeep, List.mem_singleton.mp hb⟩
  next =>
    simp only [List.mem_cons, List.not_mem_nil, or_false] at hb
    rcases hb with rfl | rfl | rfl
    · exact .inr (.inl rfl)
    · exact .inr (.inr (hdigit _ (by omega)))
    · exact .inr (.inr (hdigit _ (by omega)))

/-- It writes nothing that separates names and values, and no end of a line. -/
theorem not_mem_percentEncode {keep : UInt8 → Bool} (s : JsString) {u : UInt16}
    (hu : u ≠ 37 ∧ (u.toNat < 48 ∨ 57 < u.toNat) ∧ (u.toNat < 65 ∨ 70 < u.toNat))
    (hkeep : ∀ b, keep b = true → u ≠ UInt16.ofNat b.toNat) : u ∉ percentEncode keep s := by
  intro h
  rcases mem_percentEncode h with ⟨b, hb, heq⟩ | heq | hdigit | hdigit
  · exact hkeep b hb heq
  · exact hu.1 heq
  · omega
  · omega

/-- RFC 3986 leaves no mark. -/
theorem mark_not_mem (s : JsString) {u : UInt16} (hmark : isMarkUnit u = true) :
    u ∉ percentEncode isUnreserved s := by
  have hplain : u ≠ 37 ∧ (u.toNat < 48 ∨ 57 < u.toNat) ∧ (u.toNat < 65 ∨ 70 < u.toNat) := by
    rcases isMarkUnit_iff.mp hmark with rfl | rfl | rfl | rfl | rfl <;> decide
  refine not_mem_percentEncode s hplain ?_
  rintro b hb rfl
  rw [isUnreserved_mark hb] at hmark
  cases hmark

end Minipg.Js
