import Minipg.Js.Utf8

/-!
# Texts that are no Unicode

`utf8` writes U+FFFD for each surrogate that stands alone, so that a string and its `toWellFormed`
have the same bytes (`utf8_toWellFormed`), and the second is what is read back.  The decoder of the
Encoding Standard goes the other way: where the bytes are no UTF-8 it writes U+FFFD for the longest
beginning of a sequence, and goes on with the byte that broke it.
-/

namespace Minipg.Js

/-! ### Surrogates that stand alone -/

/-- What is written for a unit that is no half of a pair. -/
def loneUnit (u : UInt16) : UInt16 := if isSurrogate u then 0xfffd else u

/-- `toWellFormed`. -/
def toWellFormed : JsString → JsString
  | [] => []
  | [u] => [loneUnit u]
  | u :: v :: rest =>
    if isHigh u && isLow v then u :: v :: toWellFormed rest
    else loneUnit u :: toWellFormed (v :: rest)

theorem loneUnit_not_surrogate (u : UInt16) : isSurrogate (loneUnit u) = false := by
  unfold loneUnit
  cases hu : isSurrogate u with
  | true => exact (by decide : isSurrogate 0xfffd = false)
  | false => exact hu

theorem loneUnit_bytes (u : UInt16) : unitBytes (loneUnit u) = unitBytes u := by
  unfold loneUnit
  cases hu : isSurrogate u with
  | true =>
    have hor : (isHigh u || isLow u) = true := hu
    unfold unitBytes
    rw [if_pos hor]
    rfl
  | false => rfl

theorem utf8_cons_lone (u : UInt16) (s : JsString) :
    utf8 (loneUnit u :: s) = unitBytes u ++ utf8 s := by
  have hhigh := (Bool.or_eq_false_iff.mp (loneUnit_not_surrogate u)).1
  rw [utf8_cons (.inl hhigh), loneUnit_bytes]

theorem toWellFormed_of : ∀ {s : JsString}, isWellFormed s → toWellFormed s = s
  | [], _ => rfl
  | [u], h => by
    have hu : isSurrogate u = false := (Bool.not_eq_true' _).mp h
    simp [toWellFormed, loneUnit, hu]
  | u :: v :: rest, h => by
    unfold isWellFormed at h
    unfold toWellFormed
    by_cases hp : isHigh u && isLow v
    · rw [if_pos hp] at h ⊢
      rw [toWellFormed_of h]
    · rw [if_neg hp] at h ⊢
      obtain ⟨hu, hrest⟩ := Bool.and_eq_true_iff.mp h
      have hs : isSurrogate u = false := (Bool.not_eq_true' _).mp hu
      rw [toWellFormed_of hrest]
      simp [loneUnit, hs]

theorem wellFormed_toWellFormed : ∀ s : JsString, isWellFormed (toWellFormed s)
  | [] => rfl
  | [u] => by
    simp [toWellFormed, isWellFormed, loneUnit_not_surrogate u]
  | u :: v :: rest => by
    unfold toWellFormed
    by_cases hp : isHigh u && isLow v
    · rw [if_pos hp]
      obtain ⟨hu, hv⟩ := Bool.and_eq_true_iff.mp hp
      exact isWellFormed_append (.pair hu hv) (wellFormed_toWellFormed rest)
    · rw [if_neg hp]
      exact isWellFormed_append (.unit (loneUnit_not_surrogate u))
        (wellFormed_toWellFormed (v :: rest))

/-- **A string and its `toWellFormed` have the same bytes.** -/
theorem utf8_toWellFormed : ∀ s : JsString, utf8 (toWellFormed s) = utf8 s
  | [] => rfl
  | [u] => by
    show utf8 (loneUnit u :: []) = unitBytes u
    rw [utf8_cons_lone]
    exact List.append_nil _
  | u :: v :: rest => by
    have hrest := utf8_toWellFormed (v :: rest)
    have htail := utf8_toWellFormed rest
    unfold toWellFormed
    by_cases hp : isHigh u && isLow v
    · rw [if_pos hp]
      have hleft : utf8 (u :: v :: toWellFormed rest) = utf8Pair u v ++ utf8 (toWellFormed rest) :=
        if_pos hp
      have hright : utf8 (u :: v :: rest) = utf8Pair u v ++ utf8 rest := if_pos hp
      rw [hleft, hright, htail]
    · rw [if_neg hp, utf8_cons_lone, hrest]
      exact (if_neg hp).symm

theorem loneUnit_zero (u : UInt16) : 0 = loneUnit u ↔ 0 = u := by
  unfold loneUnit
  cases hu : isSurrogate u with
  | true =>
    have hne : ¬(0 : UInt16) = 0xfffd := by decide
    refine ⟨fun h => absurd h hne, fun h => ?_⟩
    subst h
    exact absurd hu (by decide)
  | false => exact Iff.rfl

/-- No U+0000 comes or goes. -/
theorem nul_toWellFormed : ∀ s : JsString, 0 ∈ toWellFormed s ↔ 0 ∈ s
  | [] => Iff.rfl
  | [u] => by
    simp only [toWellFormed, List.mem_singleton, loneUnit_zero]
  | u :: v :: rest => by
    have hrest := nul_toWellFormed (v :: rest)
    have htail := nul_toWellFormed rest
    unfold toWellFormed
    by_cases hp : isHigh u && isLow v
    · rw [if_pos hp]
      simp only [List.mem_cons, htail]
    · rw [if_neg hp, List.mem_cons, loneUnit_zero, hrest]
      exact List.mem_cons.symm

/-! ### Decoding text that may be broken -/

/-- A sequence that has begun: how many bytes it needs, between which bounds the next one is, and
the bits so far. -/
structure Begun where
  needed : Nat
  lower : Nat := 0x80
  upper : Nat := 0xbf
  code : Nat
  deriving DecidableEq, Repr

/-- A code point in code units. -/
def codeUnits (c : Nat) : JsString :=
  if c < 0x10000 then [UInt16.ofNat c]
  else [UInt16.ofNat (0xd800 + (c - 0x10000) / 1024), UInt16.ofNat (0xdc00 + (c - 0x10000) % 1024)]

/-- A byte when no sequence has begun. -/
def leadByte (b : UInt8) : JsString × Option Begun :=
  let n := b.toNat
  if n < 0x80 then ([UInt16.ofNat n], none)
  else if n < 0xc2 then ([0xfffd], none)
  else if n < 0xe0 then ([], some { needed := 1, code := n - 0xc0 })
  else if n < 0xf0 then
    ([], some
      { needed := 2
        lower := if n = 0xe0 then 0xa0 else 0x80
        upper := if n = 0xed then 0x9f else 0xbf
        code := n - 0xe0 })
  else if n < 0xf5 then
    ([], some
      { needed := 3
        lower := if n = 0xf0 then 0x90 else 0x80
        upper := if n = 0xf4 then 0x8f else 0xbf
        code := n - 0xf0 })
  else ([0xfffd], none)

/-- The rest of the bytes; a sequence may have begun. -/
def lossyFrom : Option Begun → List UInt8 → JsString
  | none, [] => []
  | some _, [] => [0xfffd]
  | none, b :: bs => (leadByte b).1 ++ lossyFrom (leadByte b).2 bs
  | some q, b :: bs =>
    if q.lower ≤ b.toNat ∧ b.toNat ≤ q.upper then
      let code := q.code * 64 + (b.toNat - 0x80)
      if q.needed = 1 then codeUnits code ++ lossyFrom none bs
      else lossyFrom (some { needed := q.needed - 1, code := code }) bs
    else 0xfffd :: ((leadByte b).1 ++ lossyFrom (leadByte b).2 bs)

def utf8Lossy (bs : List UInt8) : JsString := lossyFrom none bs

/-- A byte order mark at the front. -/
def dropMark : List UInt8 → List UInt8
  | 0xef :: 0xbb :: 0xbf :: bs => bs
  | bs => bs

/-- `new TextDecoder().decode(bs)` -/
def textDecode (bs : List UInt8) : JsString := utf8Lossy (dropMark bs)

/-! ### Byte order marks -/

def HasMark (bs : List UInt8) : Prop := [0xef, 0xbb, 0xbf] <+: bs

instance (bs : List UInt8) : Decidable (HasMark bs) := inferInstanceAs (Decidable (_ <+: _))

theorem utf8Lossy_mark (bs : List UInt8) :
    utf8Lossy (0xef :: 0xbb :: 0xbf :: bs) = 0xfeff :: utf8Lossy bs := by
  simp [utf8Lossy, lossyFrom, leadByte, codeUnits]

theorem dropMark_of_not {bs : List UInt8} (h : ¬HasMark bs) : dropMark bs = bs := by
  rw [dropMark.eq_def]
  split
  next rest => exact absurd ⟨rest, rfl⟩ h
  next => rfl

/-- A `TextDecoder` loses the byte order mark, and nothing else. -/
theorem textDecode_eq_iff (bs : List UInt8) : textDecode bs = utf8Lossy bs ↔ ¬HasMark bs := by
  constructor
  · rintro heq ⟨rest, rfl⟩
    have hshort : utf8Lossy rest = 0xfeff :: utf8Lossy rest := heq.trans (utf8Lossy_mark rest)
    exact List.cons_ne_self _ _ hshort.symm
  · intro h
    rw [textDecode, dropMark_of_not h]

end Minipg.Js
