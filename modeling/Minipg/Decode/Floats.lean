import Minipg.Decode.Entries
import Minipg.Decode.Places
import Minipg.Decode.Scan
import Minipg.Js.Scaling

/-!
# Floats in text format

`txtF64` (`src/decode.ts`) and the inlined `f64FromBytes` read a decimal literal as an integer and a
power of ten, and scale the one by the other where both are exact; otherwise they call `Number` on
the text.  `Literal` are the texts of decimal numbers, of any length, and
`f64FromBytes_lossless` says that the scaled number is always the literal, rounded once.
-/

namespace Minipg.Cells

open Js Double

/-! ### Decimal literals -/

/-- `-` or `+` when there is one. -/
def signChars : Option Bool → List Nat
  | none => []
  | some true => [45]
  | some false => [43]

structure Exponent where
  upper : Bool
  sign : Option Bool
  digits : List (Fin 10)
  digits_ne : digits ≠ []

namespace Exponent

def numerals (x : Exponent) : List Nat := x.digits.map Fin.val

def chars (x : Exponent) : List Nat :=
  (if x.upper then 69 else 101) :: (signChars x.sign ++ digitChars x.numerals)

def value (x : Exponent) : Int :=
  if x.sign = some true then -(readDecimal 0 x.numerals : Int) else readDecimal 0 x.numerals

end Exponent

structure Literal where
  sign : Option Bool
  whole : List (Fin 10)
  /-- What is behind the point, when there is one. -/
  fraction : Option (List (Fin 10))
  exponent : Option Exponent
  digits_ne : whole ++ fraction.getD [] ≠ []

namespace Literal

variable (t : Literal)

def wholeDigits : List Nat := t.whole.map Fin.val

def fractionDigits : List Nat := (t.fraction.getD []).map Fin.val

def fractionChars : List Nat :=
  match t.fraction with
  | none => []
  | some ds => 46 :: digitChars (ds.map Fin.val)

def exponentChars : List Nat :=
  match t.exponent with
  | none => []
  | some x => x.chars

/-- What comes after the sign. -/
def body : List Nat := digitChars t.wholeDigits ++ (t.fractionChars ++ t.exponentChars)

def chars : List Nat := signChars t.sign ++ t.body

def text : Bytes := t.chars.map byteOf

def neg : Bool := t.sign = some true

def exponentValue : Int :=
  match t.exponent with
  | none => 0
  | some x => x.value

/-- The number without its sign. -/
def value : ℚ := readDecimal 0 (t.wholeDigits ++ t.fractionDigits) *
  10 ^ (t.exponentValue - t.fractionDigits.length)

end Literal

/-! ### The two paths -/

section Paths

variable (rt : Runtime) (b : Bytes) (o l : Nat)

/-- The position after the sign. -/
def afterSign : Nat := if chars b o = some 45 ∨ chars b o = some 43 then o + 1 else o

/-- The significand, and where it ends. -/
def scanned : Significand :=
  sigLoop rt (chars b) (o + l - afterSign b o) ⟨afterSign b o, rt.int 0, 0, 0, false, false⟩

/-- `es * exp - fd` -/
def effective : Double :=
  rt.sub (exponent rt (chars b) (scanned rt b o l).p (o + l)) (rt.int (scanned rt b o l).fd)

/-- Neither `hard` nor an exponent out of `POW10`. -/
def IsFast : Prop :=
  ¬((scanned rt b o l).hard ∨ rt.lt (rt.int 22) (effective rt b o l) ∨
    rt.lt (effective rt b o l) (rt.int (-22)))

instance : Decidable (IsFast rt b o l) := inferInstanceAs (Decidable (¬_))

/-- `eff >= 0 ? sig * POW10[eff] : sig / POW10[-eff]` -/
def scaledBy (sig eff : Double) : Double :=
  if rt.le (rt.int 0) eff then rt.mul sig (rt.pow10 eff) else rt.div sig (rt.pow10 (rt.neg eff))

/-- No text that starts like `NaN` or `Infinity`. -/
def StartsDecimal : Prop :=
  ¬(chars b (afterSign b o) = some 78 ∨ chars b (afterSign b o) = some 110) ∧
    ¬(chars b (afterSign b o) = some 73 ∨ chars b (afterSign b o) = some 105)

variable {rt b o l}

theorem f64FromBytes_fast (h : StartsDecimal b o) (hf : IsFast rt b o l) :
    f64FromBytes rt b o l =
      let r := scaledBy rt (scanned rt b o l).sig (effective rt b o l)
      if chars b o = some 45 then rt.neg r else r := by
  unfold f64FromBytes
  dsimp only
  exact (if_neg h.1).trans ((if_neg h.2).trans (if_neg hf))

theorem f64FromBytes_slow (h : StartsDecimal b o) (hf : ¬IsFast rt b o l) :
    f64FromBytes rt b o l = rt.number (latin1Slice b o l) := by
  unfold f64FromBytes
  dsimp only
  exact (if_neg h.1).trans ((if_neg h.2).trans (if_pos (not_not.mp hf)))

end Paths

/-! ### The loops -/

section Loops

variable (rt : Runtime) {c : Chars}

/-- The significand is `n`, of at most 15 digits. -/
structure Holds (s : Significand) (n : Nat) : Prop where
  sig : s.sig = .ofInt n
  lt : n < 10 ^ s.nd
  nd_le : s.nd ≤ 15

theorem Holds.small {s : Significand} {n : Nat} (h : Holds s n) : n < 10 ^ 15 :=
  Nat.lt_of_lt_of_le h.lt (Nat.pow_le_pow_right (by decide) h.nd_le)

/-- `s'` is `s` after the digits `ds`. -/
structure After (s s' : Significand) (n n' : Nat) (ds : List Nat) : Prop where
  holds : Holds s' n'
  p : s'.p = s.p + ds.length
  dot : s'.dot = s.dot
  exact : s'.hard = false → s.hard = false ∧ n' = readDecimal n ds ∧
    s'.fd = s.fd + if s.dot then ds.length else 0

/-- One digit: a zero in front, a digit that is kept, or one too many. -/
theorem sigLoop_digit {s : Significand} {n d k : Nat} (h : Holds s n) (hd : d < 10)
    (hc : c s.p = some (48 + d)) : ∃ s' n', After s s' n n' [d] ∧
      sigLoop rt.standard c (k + 1) s = sigLoop rt.standard c k s' := by
  have hsafe : Safe n := by
    have hsmall := h.small
    exact ⟨by omega, by omega⟩
  have hpoint : c s.p ≠ some 46 := by
    rw [hc]
    intro he
    have he := Option.some.inj he
    omega
  have hzero : rt.standard.isZero s.sig = decide (n = 0) := by
    show Double.isZero s.sig = _
    rw [h.sig]
    unfold isZero
    rw [isFinite_ofInt hsafe, value_ofInt hsafe]
    simp
  have hfd : (if s.dot then s.fd + 1 else s.fd) = s.fd + if s.dot then [d].length else 0 := by
    cases s.dot <;> rfl
  have hdigit := noDigit_digit hd hc
  by_cases hlead : n = 0 ∧ d = 0
  · obtain ⟨rfl, rfl⟩ := hlead
    refine ⟨{ s with p := s.p + 1, fd := if s.dot then s.fd + 1 else s.fd }, 0,
      ⟨⟨h.sig, h.lt, h.nd_le⟩, rfl, rfl, fun hh => ⟨hh, rfl, hfd⟩⟩, ?_⟩
    rw [sigLoop, if_neg hpoint, hdigit, if_neg Bool.false_ne_true, hzero, if_pos ⟨rfl, hc⟩]
  · have hnot : ¬(decide (n = 0) = true ∧ c s.p = some 48) := by
      rintro ⟨h0, h48⟩
      rw [hc] at h48
      have h48 := Option.some.inj h48
      exact hlead ⟨of_decide_eq_true h0, by omega⟩
    by_cases hnd : s.nd < 15
    · have hlt : n * 10 + d < 10 ^ (s.nd + 1) := by
        have hn := h.lt
        rw [Nat.pow_succ]
        omega
      have hpow : 10 ^ (s.nd + 1) ≤ 10 ^ 15 := Nat.pow_le_pow_right (by decide) hnd
      have hshift : shift rt.standard s.sig (c s.p) = .ofInt (n * 10 + d : Nat) := by
        rw [h.sig]
        exact shift_digit rt hd hc (by omega)
      refine ⟨{ s with
          p := s.p + 1
          sig := shift rt.standard s.sig (c s.p)
          nd := s.nd + 1
          fd := if s.dot then s.fd + 1 else s.fd }, n * 10 + d,
        ⟨⟨hshift, hlt, hnd⟩, rfl, rfl, fun hh => ⟨hh, rfl, hfd⟩⟩, ?_⟩
      rw [sigLoop, if_neg hpoint, hdigit, if_neg Bool.false_ne_true, hzero, if_neg hnot, if_pos hnd]
    · refine ⟨{ s with p := s.p + 1, hard := true }, n,
        ⟨⟨h.sig, h.lt, h.nd_le⟩, rfl, rfl, fun hh => by cases hh⟩, ?_⟩
      rw [sigLoop, if_neg hpoint, hdigit, if_neg Bool.false_ne_true, hzero, if_neg hnot, if_neg hnd]

theorem sigLoop_digits {k : Nat} {ds : List Nat} (hds : ∀ d ∈ ds, d < 10) : ∀ {s : Significand}
    {n : Nat}, Holds s n → ReadsAt c s.p (digitChars ds) → ∃ s' n', After s s' n n' ds ∧
      sigLoop rt.standard c (ds.length + k) s = sigLoop rt.standard c k s' := by
  induction ds with
  | nil =>
    intro s n h _
    refine ⟨s, n, ⟨h, rfl, rfl, fun hh => ⟨hh, rfl, ?_⟩⟩, ?_⟩
    · cases s.dot <;> rfl
    · rw [List.length_nil, Nat.zero_add]
  | cons d ds ih =>
    intro s n h hread
    obtain ⟨hc, hrest⟩ := readsAt_cons.mp hread
    obtain ⟨s₁, n₁, h₁, hloop₁⟩ := sigLoop_digit rt (k := ds.length + k) h
      (hds d List.mem_cons_self) hc
    have hp : s₁.p = s.p + 1 := h₁.p
    obtain ⟨s₂, n₂, h₂, hloop₂⟩ := ih (fun d' hd' => hds d' (List.mem_cons_of_mem d hd')) h₁.holds
      (by rw [hp]; exact hrest)
    refine ⟨s₂, n₂, ⟨h₂.holds, ?_, h₂.dot.trans h₁.dot, fun hh => ?_⟩, ?_⟩
    · rw [h₂.p, hp, List.length_cons]
      omega
    · obtain ⟨hhard, hn₂, hfd₂⟩ := h₂.exact hh
      obtain ⟨hhard₁, hn₁, hfd₁⟩ := h₁.exact hhard
      refine ⟨hhard₁, ?_, ?_⟩
      · rw [hn₂, hn₁]
        rfl
      · rw [hfd₂, hfd₁, h₁.dot, List.length_cons]
        cases s.dot with
        | true =>
          show s.fd + 1 + ds.length = s.fd + (ds.length + 1)
          omega
        | false => rfl
    · rw [List.length_cons, Nat.add_right_comm, hloop₁, hloop₂]

theorem sigLoop_point {s : Significand} {k : Nat} (h : c s.p = some 46) :
    sigLoop rt.standard c (k + 1) s =
      sigLoop rt.standard c k { s with p := s.p + 1, dot := true } := by
  rw [sigLoop, if_pos h]

theorem sigLoop_end {s : Significand} {k a : Nat} (ha : 57 < a) (h : c s.p = some a) :
    sigLoop rt.standard c k s = s := by
  cases k with
  | zero => rfl
  | succ k =>
    have hpoint : c s.p ≠ some 46 := by
      rw [h]
      intro he
      have he := Option.some.inj he
      omega
    rw [sigLoop, if_neg hpoint, noDigit_other (.inr ha) h, if_pos rfl]

theorem expLoop_digits {ds : List Nat} (hds : ∀ d ∈ ds, d < 10) : ∀ {p n : Nat} {x : Double},
    Accumulated x n → ReadsAt c p (digitChars ds) →
      Accumulated (expLoop rt.standard c ds.length p x) (readDecimal n ds) := by
  induction ds with
  | nil => exact fun h _ => h
  | cons d ds ih =>
    intro p n x h hread
    obtain ⟨hc, hrest⟩ := readsAt_cons.mp hread
    have hd := hds d List.mem_cons_self
    have hstep : Accumulated (shift rt.standard x (c p)) (n * 10 + d) := by
      unfold shift
      rw [digit_digit rt hd hc]
      exact h.step (by omega)
    rw [List.length_cons, expLoop, noDigit_digit hd hc, if_neg Bool.false_ne_true]
    exact ih (fun d' hd' => hds d' (List.mem_cons_of_mem d hd')) hstep hrest

theorem accumulated_zero : Accumulated (.ofInt 0) 0 := by
  unfold Accumulated
  rw [if_pos (by decide)]
  rfl

/-- An exponent, as its digits add up. -/
theorem exponent_chars {p : Nat} (x : Exponent) (h : ReadsAt c p x.chars) :
    Signed (exponent rt.standard c p (p + x.chars.length)) x.value := by
  have hnum : ∀ d ∈ x.numerals, d < 10 := by
    intro d hd
    obtain ⟨f, -, rfl⟩ := List.mem_map.mp hd
    exact f.isLt
  obtain ⟨hmark, hrest⟩ := readsAt_cons.mp h
  obtain ⟨hsign, hdigits⟩ := readsAt_append.mp hrest
  have hlen : x.chars.length = 1 + (signChars x.sign).length + x.numerals.length := by
    unfold Exponent.chars
    simp only [List.length_cons, List.length_append, length_digitChars]
    omega
  have hmark' : c p = some 101 ∨ c p = some 69 := by
    rw [hmark]
    cases x.upper with
    | true => exact .inr rfl
    | false => exact .inl rfl
  unfold exponent
  rw [if_pos hmark', hlen]
  unfold Exponent.value
  cases hs : x.sign with
  | some s =>
    rw [hs] at hsign hdigits
    cases s with
    | true =>
      have hc : c (p + 1) = some 45 := (readsAt_cons.mp hsign).1
      have hacc := expLoop_digits rt hnum accumulated_zero (p := p + 2) hdigits
      rw [if_pos hc, if_pos rfl]
      have hsub : p + (1 + (signChars (some true)).length + x.numerals.length) - (p + 2) =
          x.numerals.length := by
        show p + (1 + 1 + x.numerals.length) - (p + 2) = _
        omega
      rw [hsub]
      exact ⟨_, _, true, hacc, rfl, rfl⟩
    | false =>
      have hc : c (p + 1) = some 43 := (readsAt_cons.mp hsign).1
      have hacc := expLoop_digits rt hnum accumulated_zero (p := p + 2) hdigits
      have hne : ¬c (p + 1) = some 45 := by
        rw [hc]
        decide
      rw [if_neg hne, if_pos hc, if_neg (by decide)]
      have hsub : p + (1 + (signChars (some false)).length + x.numerals.length) - (p + 2) =
          x.numerals.length := by
        show p + (1 + 1 + x.numerals.length) - (p + 2) = _
        omega
      rw [hsub]
      exact ⟨_, _, false, hacc, rfl, rfl⟩
  | none =>
    rw [hs] at hdigits
    have hacc := expLoop_digits rt hnum accumulated_zero (p := p + 1) hdigits
    have hfirst : ∃ d < 10, c (p + 1) = some (48 + d) := by
      obtain ⟨f, fs, hfs⟩ := List.exists_cons_of_ne_nil x.digits_ne
      have hnumerals : x.numerals = f.val :: fs.map Fin.val := by
        unfold Exponent.numerals
        rw [hfs]
        rfl
      rw [hnumerals] at hdigits
      exact ⟨f.val, f.isLt, (readsAt_cons.mp hdigits).1⟩
    obtain ⟨d, hd, hc⟩ := hfirst
    have hother : ∀ a, a < 48 → ¬c (p + 1) = some a := by
      intro a ha he
      rw [hc] at he
      have he := Option.some.inj he
      omega
    rw [if_neg (hother 45 (by decide)), if_neg (hother 43 (by decide)), if_neg (by decide)]
    have hsub : p + (1 + (signChars none).length + x.numerals.length) - (p + 1) =
        x.numerals.length := by
      show p + (1 + 0 + x.numerals.length) - (p + 1) = _
      omega
    rw [hsub]
    exact ⟨_, _, false, hacc, rfl, rfl⟩

/-- At the end nothing is read, whatever comes after it. -/
theorem exponent_end (p : Nat) : Signed (exponent rt.standard c p p) 0 := by
  have hzero : Signed (.ofInt 0) 0 := ⟨_, 0, false, accumulated_zero, rfl, rfl⟩
  have hminus : Signed (neg (.ofInt 0)) 0 := ⟨_, 0, true, accumulated_zero, rfl, rfl⟩
  have h₁ : p - (p + 1) = 0 := by omega
  have h₂ : p - (p + 2) = 0 := by omega
  unfold exponent
  rw [h₁, h₂]
  split
  · split
    · exact hminus
    · split
      · exact hzero
      · exact hzero
  · exact hzero

end Loops

/-! ### The text of a literal -/

namespace Literal

variable (t : Literal)

theorem wholeDigits_lt : ∀ d ∈ t.wholeDigits, d < 10 := by
  intro d hd
  obtain ⟨f, -, rfl⟩ := List.mem_map.mp hd
  exact f.isLt

theorem fractionDigits_lt : ∀ d ∈ t.fractionDigits, d < 10 := by
  intro d hd
  obtain ⟨f, -, rfl⟩ := List.mem_map.mp hd
  exact f.isLt

theorem digitChars_lt {ds : List (Fin 10)} : ∀ x ∈ digitChars (ds.map Fin.val), x < 128 := by
  intro x hx
  obtain ⟨d, hd, rfl⟩ := List.mem_map.mp hx
  obtain ⟨f, -, rfl⟩ := List.mem_map.mp hd
  have hf := f.isLt
  omega

theorem signChars_lt (s : Option Bool) : ∀ x ∈ signChars s, x < 128 := by
  revert s
  decide

theorem chars_lt : ∀ x ∈ t.chars, x < 128 := by
  unfold chars body fractionChars exponentChars
  intro x hx
  rcases List.mem_append.mp hx with hx | hx
  · exact signChars_lt _ x hx
  rcases List.mem_append.mp hx with hx | hx
  · exact digitChars_lt x hx
  rcases List.mem_append.mp hx with hx | hx
  · cases hf : t.fraction with
    | none =>
      rw [hf] at hx
      cases hx
    | some ds =>
      rw [hf] at hx
      rcases List.mem_cons.mp hx with rfl | hx
      · decide
      · exact digitChars_lt x hx
  · cases he : t.exponent with
    | none =>
      rw [he] at hx
      cases hx
    | some e =>
      rw [he] at hx
      rcases List.mem_cons.mp hx with rfl | hx
      · cases e.upper <;> decide
      rcases List.mem_append.mp hx with hx | hx
      · exact signChars_lt _ x hx
      · exact digitChars_lt x hx

theorem text_length : t.text.length = t.chars.length := List.length_map ..

/-- The bytes are the characters. -/
theorem reads (pre post : Bytes) :
    ReadsAt (Cells.chars (pre ++ t.text ++ post)) pre.length t.chars := by
  intro i hi
  have hwindow := chars_window pre t.text post i (by rw [text_length]; exact hi)
  have hlt := t.chars_lt t.chars[i] (List.getElem_mem hi)
  rw [hwindow]
  unfold Cells.chars text
  rw [List.getElem?_map, List.getElem?_eq_getElem hi]
  show some (byteOf _).toNat = _
  rw [toNat_byteOf (by omega)]

/-- A digit or the point is in front. -/
theorem body_cons : ∃ a s, t.body = a :: s ∧ 46 ≤ a ∧ a ≤ 57 := by
  unfold body wholeDigits fractionChars
  cases hw : t.whole with
  | cons d ds => exact ⟨48 + d.val, _, rfl, by omega, by have hd := d.isLt; omega⟩
  | nil =>
    cases hf : t.fraction with
    | some ds => exact ⟨46, _, rfl, by decide, by decide⟩
    | none =>
      have hne := t.digits_ne
      rw [hw, hf] at hne
      exact absurd rfl hne

section At

variable (rt : Runtime) {b : Bytes} {o : Nat}

/-- Where the number begins. -/
def start (o : Nat) : Nat := o + (signChars t.sign).length

variable {t}

theorem reads_body (h : ReadsAt (Cells.chars b) o t.chars) :
    ReadsAt (Cells.chars b) (t.start o) t.body := (readsAt_append.mp h).2

theorem first_body (h : ReadsAt (Cells.chars b) o t.chars) :
    ∃ a, Cells.chars b (t.start o) = some a ∧ 46 ≤ a ∧ a ≤ 57 := by
  obtain ⟨a, s, hbody, hlow, hhigh⟩ := t.body_cons
  have hread := reads_body h
  rw [hbody] at hread
  exact ⟨a, (readsAt_cons.mp hread).1, hlow, hhigh⟩

/-- The sign is read as it is. -/
theorem afterSign_eq (h : ReadsAt (Cells.chars b) o t.chars) : afterSign b o = t.start o ∧
    (Cells.chars b o = some 45 ↔ t.neg = true) := by
  obtain ⟨a, ha, hlow, hhigh⟩ := first_body h
  have hsign := (readsAt_append.mp h).1
  unfold afterSign start neg at *
  cases hs : t.sign with
  | none =>
    rw [hs] at ha
    have ha : Cells.chars b o = some a := ha
    have hother : ∀ x, x < 46 → ¬Cells.chars b o = some x := by
      intro x hx he
      rw [ha] at he
      have he := Option.some.inj he
      omega
    rw [if_neg (not_or.mpr ⟨hother 45 (by decide), hother 43 (by decide)⟩)]
    exact ⟨rfl, iff_of_false (hother 45 (by decide)) (by decide)⟩
  | some s =>
    rw [hs] at hsign
    cases s with
    | true =>
      have hc : Cells.chars b o = some 45 := (readsAt_cons.mp hsign).1
      rw [if_pos (.inl hc)]
      exact ⟨rfl, iff_of_true hc (by decide)⟩
    | false =>
      have hc : Cells.chars b o = some 43 := (readsAt_cons.mp hsign).1
      rw [if_pos (.inr hc), hc]
      exact ⟨rfl, iff_of_false (by decide) (by decide)⟩

theorem startsDecimal (h : ReadsAt (Cells.chars b) o t.chars) : StartsDecimal b o := by
  obtain ⟨a, ha, hlow, hhigh⟩ := first_body h
  have hother : ∀ x, 57 < x → ¬Cells.chars b (t.start o) = some x := by
    intro x hx he
    rw [ha] at he
    have he := Option.some.inj he
    omega
  unfold StartsDecimal
  rw [(afterSign_eq h).1]
  exact ⟨not_or.mpr ⟨hother 78 (by decide), hother 110 (by decide)⟩,
    not_or.mpr ⟨hother 73 (by decide), hother 105 (by decide)⟩⟩

variable (t b o) in
/-- **The significand** ends where the exponent begins, and is hard or all of the digits. -/
def Scans : Prop :=
  let s := scanned rt.standard b o t.chars.length
  s.p + t.exponentChars.length = o + t.chars.length ∧
    ReadsAt (Cells.chars b) s.p t.exponentChars ∧ ∃ n, Holds s n ∧
      (s.hard = false → n = readDecimal 0 (t.wholeDigits ++ t.fractionDigits) ∧
        s.fd = t.fractionDigits.length)

theorem scanned_spec (h : ReadsAt (Cells.chars b) o t.chars) : t.Scans rt b o := by
  have hread := reads_body h
  unfold body at hread
  obtain ⟨hwhole, hrest⟩ := readsAt_append.mp hread
  obtain ⟨hfraction, hexponent⟩ := readsAt_append.mp hrest
  have hlen : t.chars.length = (signChars t.sign).length + (t.wholeDigits.length +
      (t.fractionChars.length + t.exponentChars.length)) := by
    unfold chars body
    simp only [List.length_append, length_digitChars]
  have hk : o + t.chars.length - t.start o = t.wholeDigits.length +
      (t.fractionChars.length + t.exponentChars.length) := by
    unfold start
    omega
  have hbegin : Holds ⟨t.start o, .ofInt 0, 0, 0, false, false⟩ 0 :=
    ⟨rfl, Nat.one_pos, Nat.zero_le 15⟩
  obtain ⟨s₁, n₁, h₁, hloop₁⟩ := sigLoop_digits rt
    (k := t.fractionChars.length + t.exponentChars.length) t.wholeDigits_lt hbegin hwhole
  have hp₁ : s₁.p = t.start o + t.wholeDigits.length := h₁.p
  -- what is left are the exponent's characters, and the first of them ends the loop
  have hend : ∀ s : Significand, s.p = t.start o + t.wholeDigits.length +
      t.fractionChars.length → sigLoop rt.standard (Cells.chars b) t.exponentChars.length s = s := by
    intro s hs
    rw [length_digitChars, ← hs] at hexponent
    unfold exponentChars at hexponent ⊢
    cases he : t.exponent with
    | none => rfl
    | some x =>
      rw [he] at hexponent
      have hmark := (readsAt_cons.mp hexponent).1
      exact sigLoop_end rt (by cases x.upper <;> decide) hmark
  have hscanned : scanned rt.standard b o t.chars.length = sigLoop rt.standard (Cells.chars b)
      (t.fractionChars.length + t.exponentChars.length) s₁ := by
    unfold scanned
    rw [(afterSign_eq h).1, hk]
    exact hloop₁
  have hfinish : ∀ (s : Significand) (n : Nat), scanned rt.standard b o t.chars.length = s →
      s.p = t.start o + t.wholeDigits.length + t.fractionChars.length → Holds s n →
      (s.hard = false → n = readDecimal 0 (t.wholeDigits ++ t.fractionDigits) ∧
        s.fd = t.fractionDigits.length) → t.Scans rt b o := by
    intro s n hs hp hholds hexact
    unfold Scans
    rw [hs]
    refine ⟨?_, ?_, n, hholds, hexact⟩
    · rw [hp, hlen]
      unfold start
      omega
    · rw [hp]
      rw [length_digitChars] at hexponent
      exact hexponent
  cases hf : t.fraction with
  | none =>
    have hchars : t.fractionChars.length = 0 := by
      unfold fractionChars
      rw [hf]
      rfl
    have hdigits : t.fractionDigits = [] := by
      unfold fractionDigits
      rw [hf]
      rfl
    have hp : s₁.p = t.start o + t.wholeDigits.length + t.fractionChars.length := by
      rw [hp₁, hchars]
      rfl
    rw [hchars, Nat.zero_add, hend s₁ hp] at hscanned
    refine hfinish s₁ n₁ hscanned hp h₁.holds fun hh => ?_
    obtain ⟨-, hn, hfd⟩ := h₁.exact hh
    rw [hdigits, List.append_nil]
    exact ⟨hn, hfd⟩
  | some ds =>
    have hdigits : t.fractionDigits = ds.map Fin.val := by
      unfold fractionDigits
      rw [hf]
      rfl
    have hchars : t.fractionChars = 46 :: digitChars t.fractionDigits := by
      rw [hdigits]
      unfold fractionChars
      rw [hf]
    have hlength : t.fractionChars.length = t.fractionDigits.length + 1 := by
      rw [hchars, List.length_cons, length_digitChars]
    rw [hchars, length_digitChars, ← hp₁] at hfraction
    obtain ⟨hpoint, hread⟩ := readsAt_cons.mp hfraction
    -- the point is passed, and the digits behind it are counted
    have hloop : sigLoop rt.standard (Cells.chars b)
        (t.fractionChars.length + t.exponentChars.length) s₁ = sigLoop rt.standard (Cells.chars b)
          (t.fractionDigits.length + t.exponentChars.length) { s₁ with p := s₁.p + 1, dot := true } := by
      rw [hlength, Nat.add_right_comm]
      exact sigLoop_point rt hpoint
    have hholds : Holds { s₁ with p := s₁.p + 1, dot := true } n₁ :=
      ⟨h₁.holds.sig, h₁.holds.lt, h₁.holds.nd_le⟩
    obtain ⟨s₂, n₂, h₂, hloop₂⟩ := sigLoop_digits rt (k := t.exponentChars.length)
      t.fractionDigits_lt hholds hread
    have hp₂ : s₂.p = t.start o + t.wholeDigits.length + t.fractionChars.length := by
      have hp₂ : s₂.p = s₁.p + 1 + t.fractionDigits.length := h₂.p
      omega
    rw [hloop, hloop₂, hend s₂ hp₂] at hscanned
    refine hfinish s₂ n₂ hscanned hp₂ h₂.holds fun hh => ?_
    obtain ⟨hhard, hn₂, hfd₂⟩ := h₂.exact hh
    obtain ⟨-, hn₁, hfd₁⟩ := h₁.exact hhard
    refine ⟨?_, ?_⟩
    · rw [hn₂, hn₁, readDecimal_append]
    · have hfd₂ : s₂.fd = s₁.fd + t.fractionDigits.length := hfd₂
      have hfd₁ : s₁.fd = 0 := hfd₁
      rw [hfd₂, hfd₁, Nat.zero_add]

end At

end Literal

/-! ### The scaled number -/

section Scaled

variable (rt : Runtime)

theorem pow10_ofNat {k : Nat} (hk : k ≤ 22) : pow10 (.ofInt k) = .ofInt (10 ^ k) := by
  have hsafe : Safe k := ⟨by omega, by omega⟩
  unfold pow10
  rw [integer?_ofInt hsafe]
  show (if 0 ≤ (k : Int) ∧ (k : Int) ≤ 22 then ofInt (10 ^ (k : Int).toNat) else nan) = _
  rw [if_pos ⟨by omega, by omega⟩, Int.toNat_natCast]

theorem scaledBy_pos {sig eff : Double} (h : Double.le (.ofInt 0) eff = true) :
    scaledBy rt.standard sig eff = mul sig (pow10 eff) := if_pos h

theorem scaledBy_neg {sig eff : Double} (h : Double.le (.ofInt 0) eff = false) :
    scaledBy rt.standard sig eff = div sig (pow10 (Double.neg eff)) :=
  if_neg (Bool.eq_false_iff.mp h)

/-- One product or one quotient of a safe integer and a power of ten, which is exact. -/
structure Scaling (sig eff : Double) (n : Nat) (e : Int) : Prop where
  significand : sig = .ofInt n
  lt : n < 2 ^ 53
  bounds : -22 ≤ e ∧ e ≤ 22
  scaled : scaledBy rt.standard sig eff =
    if 0 ≤ e then mul (.ofInt n) (.ofInt (10 ^ e.toNat)) else
      div (.ofInt n) (.ofInt (10 ^ (-e).toNat))

theorem scaling {sig eff : Double} {n : Nat} {e : Int} (hsig : sig = .ofInt n) (hn : n < 2 ^ 53)
    (hbounds : -22 ≤ e ∧ e ≤ 22) (heff : eff = .ofInt e ∨ e = 0 ∧ eff = Double.neg (.ofInt 0)) :
    Scaling rt sig eff n e := by
  refine ⟨hsig, hn, hbounds, ?_⟩
  subst hsig
  rcases heff with rfl | ⟨rfl, rfl⟩
  · have he : Safe e := ⟨by omega, by omega⟩
    have hle := le_ofInt (show Safe 0 by decide) he
    by_cases h0 : 0 ≤ e
    · obtain ⟨k, rfl⟩ := Int.eq_ofNat_of_zero_le h0
      rw [scaledBy_pos rt (hle.trans (decide_eq_true h0)), if_pos h0, pow10_ofNat (by omega),
        Int.toNat_natCast]
    · obtain ⟨k, hk⟩ := Int.eq_ofNat_of_zero_le (a := -e) (by omega)
      rw [scaledBy_neg rt (hle.trans (decide_eq_false h0)), if_neg h0, neg_ofInt (by omega), hk,
        pow10_ofNat (by omega), Int.toNat_natCast]
  · -- minus zero is not less than zero, and is looked up as zero
    have hle : Double.le (.ofInt 0) (Double.neg (.ofInt 0)) = true := by decide +kernel
    have hpow : pow10 (Double.neg (.ofInt 0)) = .ofInt (10 ^ 0) := by decide +kernel
    rw [scaledBy_pos rt hle, hpow, if_pos (Int.le_refl 0), Int.toNat_zero]

theorem Scaling.round {sig eff : Double} {n : Nat} {e : Int} (h : Scaling rt sig eff n e) :
    scaledBy rt.standard sig eff = .round false (n * 10 ^ e) := by
  have hn := safe_natCast h.lt
  obtain ⟨hlow, hhigh⟩ := h.bounds
  rw [h.scaled]
  by_cases h0 : 0 ≤ e
  · obtain ⟨k, rfl⟩ := Int.eq_ofNat_of_zero_le h0
    rw [if_pos h0, Int.toNat_natCast]
    exact mul_pow_ten hn (by omega)
  · obtain ⟨k, hk⟩ := Int.eq_ofNat_of_zero_le (a := -e) (by omega)
    have he : e = -(k : Int) := by omega
    rw [if_neg h0, hk, Int.toNat_natCast, he]
    exact div_pow_ten hn (by omega)

end Scaled

/-! ### The fast path -/

section Lossless

variable (rt : Runtime) (t : Literal) {b : Bytes} {o : Nat}

/-- What is compared with 22 is the literal's own exponent. -/
theorem effective_compares (h : ReadsAt (chars b) o t.chars) (hlen : t.chars.length < 2 ^ 52)
    (hhard : (scanned rt.standard b o t.chars.length).hard = false) :
    Compares (effective rt.standard b o t.chars.length)
      (t.exponentValue - t.fractionDigits.length) := by
  obtain ⟨hend, hread, n, -, hexact⟩ := t.scanned_spec rt h
  obtain ⟨-, hfd⟩ := hexact hhard
  have hfraction : t.fractionDigits.length ≤ t.chars.length := by
    unfold Literal.chars Literal.body Literal.fractionChars Literal.fractionDigits
    cases t.fraction with
    | none => exact Nat.zero_le _
    | some ds =>
      simp only [List.length_append, List.length_cons, length_digitChars, Option.getD_some]
      omega
  have hsigned : Signed (exponent rt.standard (chars b)
      (scanned rt.standard b o t.chars.length).p (o + t.chars.length)) t.exponentValue := by
    rw [← hend]
    unfold Literal.exponentChars Literal.exponentValue at *
    cases he : t.exponent with
    | none => exact exponent_end rt _
    | some x =>
      rw [he] at hread
      exact exponent_chars rt x hread
  show Compares (sub _ (ofInt (scanned rt.standard b o t.chars.length).fd)) _
  rw [hfd]
  exact effective_spec hsigned (by omega)

/-- **No lossy path**: where a literal is not left to `Number` it is an integer below 2 ^ 53 and a
power of ten of at most 22, and the result is their one product or quotient, which is the literal
rounded once.  The length of a cell is an `int32`, so the bound on it is always met. -/
theorem f64FromBytes_lossless (pre post : Bytes) (hlen : t.text.length < 2 ^ 52) :
    let b := pre ++ t.text ++ post
    (IsFast rt.standard b pre.length t.text.length → ∃ (sig : Nat) (eff : Int),
      (scanned rt.standard b pre.length t.text.length).sig = .ofInt sig ∧ sig < 2 ^ 53 ∧
      |eff| ≤ 22 ∧ t.value = sig * 10 ^ eff ∧
      (let r := if 0 ≤ eff then mul (.ofInt sig) (.ofInt (10 ^ eff.toNat)) else
        div (.ofInt sig) (.ofInt (10 ^ (-eff).toNat))
      f64FromBytes rt.standard b pre.length t.text.length =
        if t.neg then Double.neg r else r) ∧
      f64FromBytes rt.standard b pre.length t.text.length = .round t.neg t.value) ∧
    (¬IsFast rt.standard b pre.length t.text.length →
      f64FromBytes rt.standard b pre.length t.text.length =
        rt.standard.number (latin1Slice b pre.length t.text.length)) := by
  intro b
  have hread : ReadsAt (chars b) pre.length t.chars := t.reads pre post
  have hstart := Literal.startsDecimal hread
  refine ⟨fun hfast => ?_, fun hslow => f64FromBytes_slow hstart hslow⟩
  have hresult := f64FromBytes_fast hstart hfast
  have hsign := (Literal.afterSign_eq hread).2
  unfold IsFast at hfast
  rw [t.text_length] at hlen hfast hresult ⊢
  obtain ⟨hhard, hbounds⟩ := not_or.mp hfast
  obtain ⟨hhigh, hlow⟩ := not_or.mp hbounds
  have hhard : (scanned rt.standard b pre.length t.chars.length).hard = false :=
    Bool.eq_false_of_not_eq_true hhard
  obtain ⟨-, -, n, hholds, hexact⟩ := t.scanned_spec rt hread
  obtain ⟨hn, hfd⟩ := hexact hhard
  have hcompares := effective_compares rt t hread hlen hhard
  have hupper : t.exponentValue - t.fractionDigits.length ≤ 22 := by
    by_contra hlarge
    exact hhigh (hcompares.above.trans (decide_eq_true (by omega)))
  have hlower : -22 ≤ t.exponentValue - t.fractionDigits.length := by
    by_contra hlarge
    exact hlow (hcompares.below.trans (decide_eq_true (by omega)))
  have hsafe : n < 2 ^ 53 := Nat.lt_trans hholds.small (by decide)
  have hscaling := scaling rt hholds.sig hsafe ⟨hlower, hupper⟩ (hcompares.exact hlower hupper)
  have hvalue : t.value = n * 10 ^ (t.exponentValue - t.fractionDigits.length) := by
    rw [hn]
    rfl
  refine ⟨n, _, hholds.sig, hsafe, abs_le.mpr ⟨hlower, hupper⟩, hvalue, ?_, ?_⟩
  · rw [hresult]
    dsimp only
    rw [if_congr hsign rfl rfl, hscaling.scaled]
    rfl
  · rw [hresult, hvalue]
    dsimp only
    rw [if_congr hsign rfl rfl, hscaling.round]
    cases t.neg with
    | true => exact neg_round false _
    | false => rfl

theorem f64FromBytes_lossless_short :
    let t : Literal := ⟨some true, [1, 2], some [5], none, by decide⟩
    f64FromBytes Plans.hexOnly.env.rt.standard ([] ++ t.text ++ []) 0 t.text.length =
      .round true t.value :=
  have hfast : IsFast Plans.hexOnly.env.rt.standard
      ([] ++ Literal.text ⟨some true, [1, 2], some [5], none, by decide⟩ ++ []) 0 5 := by
    decide +kernel
  let ⟨_, _, h⟩ := (f64FromBytes_lossless Plans.hexOnly.env.rt
    ⟨some true, [1, 2], some [5], none, by decide⟩ [] [] (by decide)).1 hfast
  h.2.2.2.2.2

end Lossless

end Minipg.Cells
