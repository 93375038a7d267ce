import Minipg.Decode.Standard

/-!
# Reading digits

What the loops of the parsers make of digits at a position, in the arithmetic of doubles: as long as
the number is safe it is that of `readDecimal`.
-/

namespace Minipg.Cells

open Js

/-- The characters from `p` on begin with `s`. -/
def ReadsAt (c : Chars) (p : Nat) (s : List Nat) : Prop := ∀ i < s.length, c (p + i) = s[i]?

section Places

variable {c : Chars} {p : Nat} {s t : List Nat} {a : Nat}

theorem readsAt_nil : ReadsAt c p [] := fun i hi => (Nat.not_lt_zero i hi).elim

theorem readsAt_cons : ReadsAt c p (a :: s) ↔ c p = some a ∧ ReadsAt c (p + 1) s := by
  refine ⟨fun h => ⟨?_, fun i hi => ?_⟩, fun h i hi => ?_⟩
  · simpa using h 0 (by simp)
  · have hi' := h (i + 1) (by simp; omega)
    rw [Nat.add_right_comm, Nat.add_assoc]
    simpa using hi'
  · cases i with
    | zero => simpa using h.1
    | succ i =>
      have hi' := h.2 i (by simpa using hi)
      rw [Nat.add_right_comm, Nat.add_assoc] at hi'
      simpa using hi'

theorem readsAt_append : ReadsAt c p (s ++ t) ↔ ReadsAt c p s ∧ ReadsAt c (p + s.length) t := by
  induction s generalizing p with
  | nil => simp [readsAt_nil]
  | cons a s ih =>
    rw [List.cons_append, readsAt_cons, readsAt_cons, ih, and_assoc, List.length_cons]
    have hpos : p + 1 + s.length = p + (s.length + 1) := by omega
    rw [hpos]

end Places

/-- The characters of digits. -/
def digitChars (ds : List Nat) : List Nat := ds.map (48 + ·)

@[simp] theorem length_digitChars (ds : List Nat) : (digitChars ds).length = ds.length := by
  simp [digitChars]

@[simp] theorem digitChars_cons (d : Nat) (ds : List Nat) :
    digitChars (d :: ds) = (48 + d) :: digitChars ds := rfl

@[simp] theorem digitChars_append (ds es : List Nat) :
    digitChars (ds ++ es) = digitChars ds ++ digitChars es := List.map_append

/-! ### Numbers of digits -/

theorem le_readDecimal (n : Nat) (ds : List Nat) : n ≤ readDecimal n ds := by
  induction ds generalizing n with
  | nil => exact Nat.le_refl n
  | cons d ds ih =>
    have hle := ih (n * 10 + d)
    show n ≤ readDecimal (n * 10 + d) ds
    omega

theorem readDecimal_append (n : Nat) (ds es : List Nat) :
    readDecimal n (ds ++ es) = readDecimal (readDecimal n ds) es := List.foldl_append

theorem readDecimal_eq (n : Nat) (ds : List Nat) :
    readDecimal n ds = n * 10 ^ ds.length + readDecimal 0 ds := by
  induction ds generalizing n with
  | nil => simp [readDecimal]
  | cons d ds ih =>
    have hleft : readDecimal n (d :: ds) = readDecimal (n * 10 + d) ds := rfl
    have hright : readDecimal 0 (d :: ds) = readDecimal (0 * 10 + d) ds := rfl
    rw [hleft, hright, ih (n * 10 + d), ih (0 * 10 + d), List.length_cons, Nat.pow_succ]
    ring

theorem readDecimal_lt {ds : List Nat} (h : ∀ d ∈ ds, d < 10) :
    readDecimal 0 ds < 10 ^ ds.length := by
  induction ds with
  | nil => simp [readDecimal]
  | cons d ds ih =>
    have hd := h d List.mem_cons_self
    have hds := ih fun d' hd' => h d' (List.mem_cons_of_mem d hd')
    have hright : readDecimal 0 (d :: ds) = readDecimal (0 * 10 + d) ds := rfl
    rw [hright, readDecimal_eq, List.length_cons, Nat.pow_succ]
    nlinarith

/-- The first digits are those of the number without the last ones. -/
theorem readDecimal_take (a b : Nat) {ds : List Nat} (h : ∀ d ∈ ds, d < 10)
    (hlen : ds.length = a + b) : readDecimal 0 (ds.take a) = readDecimal 0 ds / 10 ^ b := by
  have hdrop : (ds.drop a).length = b := by
    rw [List.length_drop]
    omega
  have hlt := readDecimal_lt fun d hd => h d (List.mem_of_mem_drop (i := a) hd)
  conv_rhs => rw [← List.take_append_drop a ds]
  rw [hdrop] at hlt
  rw [readDecimal_append, readDecimal_eq (readDecimal 0 (ds.take a)), hdrop, Nat.mul_comm,
    Nat.mul_add_div (Nat.pow_pos (by decide)), Nat.div_eq_of_lt hlt, Nat.add_zero]

theorem readDecimal_zeros (k : Nat) : readDecimal 0 (List.replicate k 0) = 0 := by
  induction k with
  | zero => rfl
  | succ k ih => exact ih

/-! ### Loops -/

section Loops

variable (rt : Runtime) {c : Chars}

theorem safe_natCast {n : Nat} (h : n < 2 ^ 53) : Double.Safe n := by
  unfold Double.Safe
  omega

theorem digit_digit {p d : Nat} (hd : d < 10) (h : c p = some (48 + d)) :
    digit rt.standard (c p) = .ofInt d := by
  have hsub := Double.sub_ofInt (safe_natCast (n := 48 + d) (by omega))
    (show Double.Safe 48 by decide)
  rw [h]
  show Double.sub (.ofInt (48 + d : Nat)) (.ofInt 48) = _
  rw [hsub]
  congr 1
  omega

theorem shift_digit {n p d : Nat} (hd : d < 10) (h : c p = some (48 + d))
    (hn : n * 10 + d < 2 ^ 53) :
    shift rt.standard (.ofInt n) (c p) = .ofInt (n * 10 + d : Nat) := by
  have hmul := Double.mul_ofInt (safe_natCast (n := n) (by omega)) (show Double.Safe 10 by decide)
    (.inr ⟨by omega, by decide⟩)
  have hsafe : Double.Safe ((n : Int) * 10) := safe_natCast (n := n * 10) (by omega)
  have hadd := Double.add_ofInt hsafe (safe_natCast (n := d) (by omega))
  unfold shift
  rw [digit_digit rt hd h]
  show Double.add (Double.mul (.ofInt n) (.ofInt 10)) (.ofInt d) = _
  rw [hmul, hadd]
  congr 1

theorem noDigit_digit {p d : Nat} (hd : d < 10) (h : c p = some (48 + d)) :
    noDigit (c p) = false := by
  rw [h]
  show (48 + d < 48 || 48 + d > 57 : Bool) = false
  have hlow : ¬48 + d < 48 := by omega
  have hhigh : ¬48 + d > 57 := by omega
  simp [hlow, hhigh]

/-- Two digits. -/
theorem twoDigits_digits {p n : Nat} (hn : n < 100)
    (h : ReadsAt c p (digitChars [n / 10, n % 10])) : twoDigits rt.standard c p = .ofInt n := by
  obtain ⟨h1, hrest⟩ := readsAt_cons.mp h
  obtain ⟨h2, -⟩ := readsAt_cons.mp hrest
  have hshift := shift_digit rt (n := n / 10) (d := n % 10) (by omega) h2 (by omega)
  unfold shift at hshift
  unfold twoDigits
  rw [digit_digit rt (by omega) h1, hshift]
  congr 1
  omega

theorem noDigit_other {p a : Nat} (ha : a < 48 ∨ 57 < a) (h : c p = some a) :
    noDigit (c p) = true := by
  rw [h]
  show (a < 48 || a > 57 : Bool) = true
  rcases ha with ha | ha <;> simp [ha]

/-- The digits of a year, and what follows. -/
theorem yearLoop_digits {ds : List Nat} (hds : ∀ d ∈ ds, d < 10) {a : Nat}
    (ha : a < 48 ∨ 57 < a) : ∀ {p y n m : Nat}, ReadsAt c p (digitChars ds ++ [a]) →
      readDecimal y ds < 2 ^ 53 → ds.length < m →
        yearLoop rt.standard c m p (.ofInt y) n =
          (p + ds.length, .ofInt (readDecimal y ds : Nat), n + ds.length) := by
  induction ds with
  | nil =>
    intro p y n m hread _ hm
    obtain ⟨k, rfl⟩ := Nat.exists_eq_succ_of_ne_zero (Nat.ne_of_gt hm)
    have hstop := noDigit_other ha (readsAt_cons.mp hread).1
    simp [yearLoop, hstop, readDecimal]
  | cons d ds ih =>
    intro p y n m hread hsafe hm
    obtain ⟨hc, hrest⟩ := readsAt_cons.mp hread
    have hd := hds d List.mem_cons_self
    have hle : y * 10 + d ≤ readDecimal y (d :: ds) := le_readDecimal (y * 10 + d) ds
    obtain ⟨k, rfl⟩ := Nat.exists_eq_succ_of_ne_zero (Nat.ne_of_gt (Nat.zero_lt_of_lt hm))
    have hrest' := ih (fun d' hd' => hds d' (List.mem_cons_of_mem d hd')) hrest (n := n + 1)
      (m := k) (y := y * 10 + d) hsafe (by simpa using hm)
    unfold yearLoop
    rw [noDigit_digit hd hc, shift_digit rt hd hc (by omega)]
    simp only [Bool.false_eq_true, if_false, hrest', List.length_cons]
    refine Prod.ext ?_ (Prod.ext rfl ?_)
    · dsimp only
      omega
    · dsimp only
      omega

/-- `f *= 10` for the digits that are not there. -/
theorem fill_zeros {n : Nat} : ∀ {k : Nat}, n * 10 ^ k < 2 ^ 53 →
    (List.range k).foldl (fun f _ => Double.mul f (.ofInt 10)) (.ofInt n) =
      .ofInt (n * 10 ^ k : Nat) := by
  intro k
  induction k with
  | zero => simp
  | succ k ih =>
    intro h
    have hpow : n * 10 ^ (k + 1) = n * 10 ^ k * 10 := by
      rw [Nat.pow_succ, Nat.mul_assoc]
    have hmul := Double.mul_ofInt (safe_natCast (n := n * 10 ^ k) (by omega))
      (show Double.Safe 10 by decide) (.inr ⟨by positivity, by decide⟩)
    rw [List.range_succ, List.foldl_append, ih (by omega)]
    show Double.mul (.ofInt (n * 10 ^ k : Nat)) (.ofInt 10) = _
    rw [hmul, hpow]
    congr 1

/-- The digits of a fraction up to `k` places, and the zeros after them. -/
theorem fractionLoop_digits {ds : List Nat} (hds : ∀ d ∈ ds, d < 10) {e : Nat} :
    ∀ {p k n : Nat}, ReadsAt c p (digitChars ds) → p + ds.length ≤ e →
      (p + ds.length < e → noDigit (c (p + ds.length)) = true) →
      readDecimal n (ds.take k ++ List.replicate (k - ds.length) 0) < 2 ^ 53 →
        fractionLoop rt.standard c e k p (.ofInt n) = (p + min k ds.length,
          .ofInt (readDecimal n (ds.take k ++ List.replicate (k - ds.length) 0) : Nat)) := by
  induction ds with
  | nil =>
    intro p k n _ hle hstop hsafe
    have hzeros : readDecimal n (List.replicate k 0) = n * 10 ^ k := by
      rw [readDecimal_eq, List.length_replicate, readDecimal_zeros, Nat.add_zero]
    cases k with
    | zero => rfl
    | succ k =>
      have hcond : ¬(p < e ∧ noDigit (c p) = false) := by
        rintro ⟨hlt, hdigit⟩
        rw [show noDigit (c p) = true from hstop hlt] at hdigit
        cases hdigit
      simp only [List.take_nil, List.nil_append, List.length_nil, Nat.sub_zero, hzeros] at hsafe ⊢
      unfold fractionLoop
      rw [if_neg hcond]
      exact Prod.ext rfl (fill_zeros hsafe)
  | cons d ds ih =>
    intro p k n hread hle hstop hsafe
    obtain ⟨hc, hrest⟩ := readsAt_cons.mp hread
    have hd := hds d List.mem_cons_self
    have hlen : p + (d :: ds).length = p + 1 + ds.length := by
      rw [List.length_cons]
      omega
    rw [hlen] at hle hstop
    cases k with
    | zero =>
      rw [Nat.zero_min, Nat.zero_sub]
      rfl
    | succ k =>
      have hsub : k + 1 - (d :: ds).length = k - ds.length := by
        rw [List.length_cons]
        omega
      rw [hsub] at hsafe ⊢
      have hle' := le_readDecimal (n * 10 + d) (ds.take k ++ List.replicate (k - ds.length) 0)
      have hn : n * 10 + d < 2 ^ 53 := Nat.lt_of_le_of_lt hle' hsafe
      unfold fractionLoop
      rw [if_pos ⟨by omega, noDigit_digit hd hc⟩, shift_digit rt hd hc hn,
        ih (fun d' hd' => hds d' (List.mem_cons_of_mem d hd')) hrest hle hstop hsafe]
      refine Prod.ext ?_ rfl
      dsimp only
      rw [List.length_cons]
      omega

theorem skipDigits_digits {ds : List Nat} (hds : ∀ d ∈ ds, d < 10) : ∀ {p k : Nat},
    ReadsAt c p (digitChars ds) → ds.length ≤ k →
      (ds.length < k → noDigit (c (p + ds.length)) = true) →
        skipDigits c k p = p + ds.length := by
  induction ds with
  | nil =>
    intro p k _ _ hstop
    cases k with
    | zero => rfl
    | succ k =>
      unfold skipDigits
      rw [show noDigit (c p) = true from hstop (Nat.succ_pos k)]
      rfl
  | cons d ds ih =>
    intro p k hread hk hstop
    obtain ⟨hc, hrest⟩ := readsAt_cons.mp hread
    have hlen : p + (d :: ds).length = p + 1 + ds.length := by
      rw [List.length_cons]
      omega
    rw [hlen] at hstop ⊢
    cases k with
    | zero => exact absurd hk (Nat.not_succ_le_zero _)
    | succ k =>
      rw [List.length_cons] at hk hstop
      unfold skipDigits
      rw [noDigit_digit (hds d List.mem_cons_self) hc]
      refine ih (fun d' hd' => hds d' (List.mem_cons_of_mem d hd')) hrest (by omega) ?_
      exact fun hlt => hstop (by omega)

end Loops

end Minipg.Cells
