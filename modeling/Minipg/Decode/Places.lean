import Minipg.Decode.Columns

/-!
# The place of a cell

A cell is decoded where it lies, in the middle of a message.  The decoders of a text column without
a target read the bytes of the cell alone (`pickDecoder_placed`), if its text is one that the
server prints.
-/

namespace Minipg.Cells

open Js

variable {rt : Runtime} {c c' : Chars} {k n : Nat}

/-! ### Loops -/

/-- `c'` is what `c` has at the `n` places from `k` on. -/
def Window (c c' : Chars) (k n : Nat) : Prop := ∀ i < n, c (k + i) = c' i

theorem twoDigits_window (h : Window c c' k n) {p : Nat} (hp : p + 2 ≤ n) :
    twoDigits rt c (k + p) = twoDigits rt c' p := by
  have h₁ : c (k + p + 1) = c' (p + 1) := h (p + 1) (by omega)
  unfold twoDigits
  rw [h p (by omega), h₁]

theorem digitsLoop_window (h : Window c c' k n) : ∀ (m p : Nat) (x : Double), p + m ≤ n →
    digitsLoop rt c m (k + p) x = digitsLoop rt c' m p x
  | 0, _, _, _ => rfl
  | m + 1, p, x, hp => by
    show digitsLoop rt c m (k + (p + 1)) (shift rt x (c (k + p))) = _
    rw [h p (by omega), digitsLoop_window h m (p + 1) _ (by omega)]
    rfl

theorem expLoop_window (h : Window c c' k n) : ∀ (m p : Nat) (x : Double), p + m ≤ n →
    expLoop rt c m (k + p) x = expLoop rt c' m p x
  | 0, _, _, _ => rfl
  | m + 1, p, x, hp => by
    have ih : expLoop rt c m (k + (p + 1)) (shift rt x (c' p)) =
        expLoop rt c' m (p + 1) (shift rt x (c' p)) := expLoop_window h m (p + 1) _ (by omega)
    show (if noDigit (c (k + p)) then x
        else expLoop rt c m (k + (p + 1)) (shift rt x (c (k + p)))) =
      if noDigit (c' p) then x else expLoop rt c' m (p + 1) (shift rt x (c' p))
    rw [h p (by omega), ih]

/-- A significand that is read `k` places further on. -/
def Significand.moved (s : Significand) (k : Nat) : Significand := { s with p := k + s.p }

theorem sigLoop_window (h : Window c c' k n) : ∀ (m : Nat) (s : Significand), s.p + m ≤ n →
    sigLoop rt c m (s.moved k) = (sigLoop rt c' m s).moved k
  | 0, _, _ => rfl
  | m + 1, s, hs => by
    have ih : ∀ s' : Significand, s'.p = s.p + 1 →
        sigLoop rt c m (s'.moved k) = (sigLoop rt c' m s').moved k :=
      fun s' hs' => sigLoop_window h m s' (by omega)
    obtain ⟨p, sig, nd, fd, dot, hard⟩ := s
    have hc : c (k + p) = c' p := h p (by dsimp only at hs; omega)
    simp only [Significand.moved, sigLoop, hc]
    split
    · exact ih ⟨p + 1, sig, nd, fd, true, hard⟩ rfl
    split
    · rfl
    split
    · exact ih ⟨p + 1, sig, nd, if dot then fd + 1 else fd, dot, hard⟩ rfl
    split
    · exact ih ⟨p + 1, shift rt sig (c' p), nd + 1, if dot then fd + 1 else fd, dot, hard⟩ rfl
    · exact ih ⟨p + 1, sig, nd, fd, dot, true⟩ rfl

theorem sigLoop_le (c : Chars) : ∀ (m : Nat) (s : Significand), (sigLoop rt c m s).p ≤ s.p + m
  | 0, _ => Nat.le_refl _
  | m + 1, s => by
    have ih : ∀ s' : Significand, s'.p = s.p + 1 → (sigLoop rt c m s').p ≤ s.p + (m + 1) := by
      intro s' hs'
      have hle := sigLoop_le c m s'
      omega
    unfold sigLoop
    split
    · exact ih _ rfl
    split
    · omega
    split
    · exact ih _ rfl
    split
    · exact ih _ rfl
    · exact ih _ rfl

/-! ### Numbers -/

/-- The byte after a cell is none of an exponent. -/
def Follows (c : Chars) (k n : Nat) : Prop := c (k + n) ≠ some 101 ∧ c (k + n) ≠ some 69

/-- The cell ends, and neither in a sign nor in the mark of an exponent. -/
structure Ended (c' : Chars) (n : Nat) : Prop where
  pos : 0 < n
  end_none : c' n = none
  sign : c' (n - 1) ≠ some 43 ∧ c' (n - 1) ≠ some 45
  mark : c' (n - 1) ≠ some 101 ∧ c' (n - 1) ≠ some 69

theorem exponent_window (h : Window c c' k n) (hf : Follows c k n) (he : Ended c' n) {p : Nat}
    (hp : p ≤ n) : exponent rt c (k + p) (k + n) = exponent rt c' p n := by
  have hsub : ∀ i, k + n - (k + p + i) = n - (p + i) := by
    intro i
    omega
  unfold exponent
  rcases Nat.lt_or_ge p n with hlt | hge
  · rw [h p hlt]
    by_cases hmark : c' p = some 101 ∨ c' p = some 69
    · have hlast : p + 1 < n := by
        rcases Nat.lt_or_ge (p + 1) n with h₁ | h₁
        · exact h₁
        · have hpn : n - 1 = p := by omega
          have hm := he.mark
          rw [hpn] at hm
          exact absurd hmark (not_or.mpr hm)
      have h₁ : c (k + p + 1) = c' (p + 1) := h (p + 1) hlast
      have loop₁ : ∀ x, expLoop rt c (n - (p + 1)) (k + p + 1) x =
          expLoop rt c' (n - (p + 1)) (p + 1) x :=
        fun x => expLoop_window h _ (p + 1) x (by omega)
      have loop₂ : ∀ x, expLoop rt c (n - (p + 2)) (k + p + 2) x =
          expLoop rt c' (n - (p + 2)) (p + 2) x :=
        fun x => expLoop_window h _ (p + 2) x (by omega)
      rw [h₁, hsub, hsub, loop₁, loop₂]
    · rw [if_neg hmark, if_neg hmark]
  · have hpn : p = n := by omega
    subst hpn
    have hend : ¬ (c' p = some 101 ∨ c' p = some 69) := by
      rw [he.end_none]
      simp
    rw [if_neg (not_or.mpr hf), if_neg hend]

/-! ### Instants -/

theorem yearLoop_window (h : Window c c' k n) : ∀ (m p : Nat) (y : Double) (d : Nat), p + m ≤ n →
    yearLoop rt c m (k + p) y d =
      (k + (yearLoop rt c' m p y d).1, (yearLoop rt c' m p y d).2)
  | 0, _, _, _, _ => rfl
  | m + 1, p, y, d, hp => by
    have ih := @yearLoop_window h m (p + 1) (shift rt y (c' p)) (d + 1) (by omega)
    unfold yearLoop
    rw [h p (by omega)]
    split
    · rfl
    · exact ih

theorem skipDigits_window (h : Window c c' k n) : ∀ m p : Nat, p + m ≤ n →
    skipDigits c m (k + p) = k + skipDigits c' m p
  | 0, _, _ => rfl
  | m + 1, p, hp => by
    have ih := skipDigits_window h m (p + 1) (by omega)
    unfold skipDigits
    rw [h p (by omega)]
    split
    · rfl
    · exact ih

theorem fractionLoop_window (h : Window c c' k n) {e : Nat} (he : e ≤ n) :
    ∀ (m p : Nat) (f : Double), fractionLoop rt c (k + e) m (k + p) f =
      (k + (fractionLoop rt c' e m p f).1, (fractionLoop rt c' e m p f).2)
  | 0, _, _ => rfl
  | m + 1, p, f => by
    have ih := fractionLoop_window h he m (p + 1) (shift rt f (c' p))
    have hiff : (k + p < k + e ∧ noDigit (c (k + p)) = false) ↔
        (p < e ∧ noDigit (c' p) = false) := by
      refine ⟨fun ⟨h₁, h₂⟩ => ⟨by omega, ?_⟩, fun ⟨h₁, h₂⟩ => ⟨by omega, ?_⟩⟩
      · rwa [h p (by omega)] at h₂
      · rwa [h p (by omega)]
    unfold fractionLoop
    by_cases hd : p < e ∧ noDigit (c' p) = false
    · rw [if_pos hd, if_pos (hiff.mpr hd), h p (by omega)]
      exact ih
    · rw [if_neg hd, if_neg (mt hiff.mp hd)]

theorem fractionLoop_le (c : Chars) (e : Nat) : ∀ (m p : Nat) (f : Double), p ≤ e →
    (fractionLoop rt c e m p f).1 ≤ e
  | 0, _, _, hp => hp
  | m + 1, p, f, hp => by
    unfold fractionLoop
    split
    · exact fractionLoop_le c e m (p + 1) _ (by omega)
    · exact hp

/-- A test at a place before the end. -/
theorem at_window (h : Window c c' k n) {e p : Nat} (he : e ≤ n) (P : Option Nat → Prop) :
    (k + p < k + e ∧ P (c (k + p))) ↔ (p < e ∧ P (c' p)) := by
  refine ⟨fun ⟨h₁, h₂⟩ => ⟨by omega, ?_⟩, fun ⟨h₁, h₂⟩ => ⟨by omega, ?_⟩⟩
  · rwa [h p (by omega)] at h₂
  · rwa [h p (by omega)]

theorem fractionAt_window (h : Window c c' k n) {e p : Nat} (he : e ≤ n) :
    fractionAt rt c (k + p) (k + e) =
      (k + (fractionAt rt c' p e).1, (fractionAt rt c' p e).2) := by
  have hdot := at_window (p := p) h he fun x => x = some 46
  unfold fractionAt
  by_cases hd : p < e ∧ c' p = some 46
  · have hloop := @fractionLoop_window rt _ _ _ _ h _ he 3 (p + 1) (rt.int 0)
    have hle := @fractionLoop_le rt c' e 3 (p + 1) (rt.int 0) (by omega)
    rw [if_pos hd, if_pos (hdot.mpr hd)]
    rw [Nat.add_assoc, hloop]
    generalize fractionLoop rt c' e 3 (p + 1) (rt.int 0) = r at hle
    have hskip := skipDigits_window h (e - r.1) r.1 (by omega)
    have hsub : k + e - (k + r.1) = e - r.1 := by omega
    dsimp only
    rw [hsub, hskip]
  · rw [if_neg hd, if_neg (mt hdot.mp hd)]

theorem colonAt_none (h : Window c c' k n) {e p : Nat} (he : e ≤ n) :
    colonAt rt c (k + p) (k + e) = none ↔ colonAt rt c' p e = none := by
  have hcolon := at_window (p := p) h he fun x => x = some 58
  simp only [colonAt, ite_eq_right_iff, reduceCtorEq, imp_false]
  exact not_congr hcolon

theorem colonAt_window (h : Window c c' k n) {e p : Nat} (he : e ≤ n) (hp : p + 3 ≤ e) :
    colonAt rt c (k + p) (k + e) = colonAt rt c' p e := by
  have hcolon := at_window (p := p) h he fun x => x = some 58
  have hdigits : twoDigits rt c (k + (p + 1)) = twoDigits rt c' (p + 1) :=
    twoDigits_window h (by omega)
  unfold colonAt
  by_cases hc : p < e ∧ c' p = some 58
  · rw [if_pos hc, if_pos (hcolon.mpr hc), Nat.add_assoc, hdigits]
  · rw [if_neg hc, if_neg (mt hcolon.mp hc)]

/-- An offset may be read beyond the end, but then it ends there. -/
theorem offsetAt_window (h : Window c c' k n) {e p : Nat} (he : e ≤ n) :
    (offsetAt rt c (k + p) (k + e)).1 = k + (offsetAt rt c' p e).1 ∧
      ((offsetAt rt c' p e).1 ≤ e →
        (offsetAt rt c (k + p) (k + e)).2 = (offsetAt rt c' p e).2) := by
  have hsign := at_window (p := p) h he fun x => x = some 43 ∨ x = some 45
  have hzulu := at_window (p := p) h he fun x => x = some 90
  unfold offsetAt
  by_cases hs : p < e ∧ (c' p = some 43 ∨ c' p = some 45)
  · rw [if_pos hs, if_pos (hsign.mpr hs), h p (by omega)]
    have hth : p + 3 ≤ e → twoDigits rt c (k + p + 1) = twoDigits rt c' (p + 1) := by
      intro hp
      exact @twoDigits_window rt c c' k n h (p + 1) (by omega)
    have hnone : ∀ i, colonAt rt c (k + p + i) (k + e) = none ↔ colonAt rt c' (p + i) e = none := by
      intro i
      rw [Nat.add_assoc]
      exact colonAt_none h he
    have hcolon : ∀ i, p + i + 3 ≤ e →
        colonAt rt c (k + p + i) (k + e) = colonAt rt c' (p + i) e := by
      intro i hi
      rw [Nat.add_assoc]
      exact colonAt_window h he hi
    cases h₁ : colonAt rt c' (p + 3) e with
    | none =>
      rw [(hnone 3).mpr h₁]
      refine ⟨Nat.add_assoc .., fun hle => ?_⟩
      dsimp only at hle ⊢
      rw [hth hle]
    | some tm =>
      obtain ⟨tm', h₁'⟩ := Option.ne_none_iff_exists'.mp
        (mt (hnone 3).mp (by rw [h₁]; exact Option.some_ne_none tm))
      rw [h₁']
      have htm : p + 6 ≤ e → tm' = tm := by
        intro hp
        have heq := hcolon 3 (by omega)
        rw [h₁, h₁'] at heq
        exact Option.some.inj heq
      cases h₂ : colonAt rt c' (p + 6) e with
      | none =>
        dsimp only
        rw [(hnone 6).mpr h₂]
        refine ⟨Nat.add_assoc .., fun hle => ?_⟩
        dsimp only at hle ⊢
        rw [hth (by omega), htm hle]
      | some tsc =>
        obtain ⟨tsc', h₂'⟩ := Option.ne_none_iff_exists'.mp
          (mt (hnone 6).mp (by rw [h₂]; exact Option.some_ne_none tsc))
        dsimp only
        rw [h₂']
        refine ⟨Nat.add_assoc .., fun hle => ?_⟩
        dsimp only at hle ⊢
        have heq := hcolon 6 (by omega)
        rw [h₂, h₂'] at heq
        rw [hth (by omega), htm (by omega), Option.some.inj heq]
  · rw [if_neg hs, if_neg (mt hsign.mp hs)]
    by_cases hz : p < e ∧ c' p = some 90
    · rw [if_pos hz, if_pos (hzulu.mpr hz)]
      exact ⟨Nat.add_assoc .., fun _ => rfl⟩
    · rw [if_neg hz, if_neg (mt hzulu.mp hz)]
      exact ⟨rfl, fun _ => rfl⟩

/-- The time is the same where it ends in the cell. -/
theorem timeAt_window (h : Window c c' k n) {e p : Nat} (he : e ≤ n) (hp : p + 8 ≤ e) :
    (timeAt rt c (k + p) (k + e)).2 = k + (timeAt rt c' p e).2 ∧
      ((timeAt rt c' p e).2 = e →
        (timeAt rt c (k + p) (k + e)).1 = (timeAt rt c' p e).1) := by
  have hfrac := @fractionAt_window rt c c' k n h e (p + 8) he
  rw [← Nat.add_assoc] at hfrac
  obtain ⟨hend, hoff⟩ := @offsetAt_window rt c c' k n h e (fractionAt rt c' (p + 8) e).1 he
  have hh : twoDigits rt c (k + p) = twoDigits rt c' p := twoDigits_window h (by omega)
  have hmi : twoDigits rt c (k + p + 3) = twoDigits rt c' (p + 3) :=
    @twoDigits_window rt c c' k n h (p + 3) (by omega)
  have hs : twoDigits rt c (k + p + 6) = twoDigits rt c' (p + 6) :=
    @twoDigits_window rt c c' k n h (p + 6) (by omega)
  simp only [timeAt, hfrac, hh, hmi, hs]
  refine ⟨hend, fun heq => ?_⟩
  rw [hoff (by omega)]

theorem badTime_window (h : Window c c' k n) {e p : Nat} (he : e ≤ n) :
    badTime c (k + p) (k + e) = badTime c' p e := by
  have hshort : k + e < k + p + 8 ↔ e < p + 8 := by omega
  unfold badTime
  rw [decide_eq_decide, hshort]
  by_cases hlt : e < p + 8
  · simp [hlt]
  · have h₂ : c (k + p + 2) = c' (p + 2) := h (p + 2) (by omega)
    have h₅ : c (k + p + 5) = c' (p + 5) := h (p + 5) (by omega)
    rw [h₂, h₅]

theorem badDate_window (h : Window c c' k n) {e p : Nat} (he : e ≤ n) (d : Nat) :
    badDate c (k + p) (k + e) d = badDate c' p e d := by
  have hshort : k + e < k + p + 6 ↔ e < p + 6 := by omega
  unfold badDate
  rw [decide_eq_decide, hshort]
  by_cases hlt : e < p + 6
  · simp [hlt]
  · have h₃ : c (k + p + 3) = c' (p + 3) := h (p + 3) (by omega)
    rw [h p (by omega), h₃]

theorem isBc_window (h : Window c c' k n) : isBc c k (k + n) = isBc c' 0 n := by
  unfold isBc
  rw [decide_eq_decide]
  by_cases hlt : 3 ≤ n
  · have h₁ : c (k + n - 1) = c' (n - 1) := by
      have heq := h (n - 1) (by omega)
      rwa [← Nat.add_sub_assoc (by omega)] at heq
    have h₂ : c (k + n - 2) = c' (n - 2) := by
      have heq := h (n - 2) (by omega)
      rwa [← Nat.add_sub_assoc (by omega)] at heq
    have h₃ : c (k + n - 3) = c' (n - 3) := by
      have heq := h (n - 3) (by omega)
      rwa [← Nat.add_sub_assoc (by omega)] at heq
    rw [h₁, h₂, h₃]
    exact and_congr_left fun _ => by omega
  · exact iff_of_false (fun hb => by omega) fun hb => by omega

theorem isBc_le {c' : Chars} {n : Nat} (h : isBc c' 0 n = true) : 3 ≤ n := by
  have hb := (of_decide_eq_true h).1
  omega

theorem instantFrom_window (h : Window c c' k n) :
    instantFrom rt c k (k + n) = instantFrom rt c' 0 n := by
  have hend : (if isBc c k (k + n) then k + n - 3 else k + n) =
      k + if isBc c' 0 n then n - 3 else n := by
    rw [isBc_window h]
    split
    · rename_i hbc
      have hle := isBc_le hbc
      omega
    · rfl
  have he : (if isBc c' 0 n then n - 3 else n) ≤ n := by
    split
    all_goals omega
  unfold instantFrom
  dsimp only
  rw [hend, isBc_window h]
  generalize (if isBc c' 0 n then n - 3 else n) = e at he
  have hyear := @yearLoop_window rt c c' k n h e 0 (rt.int 0) 0 (by omega)
  have hsub : k + e - k = e := by omega
  rw [hsub, show yearLoop rt c e k (rt.int 0) 0 = _ from hyear, Nat.sub_zero]
  generalize yearLoop rt c' e 0 (rt.int 0) 0 = r
  obtain ⟨p, y, d⟩ := r
  dsimp only
  rw [badDate_window h he]
  by_cases hbad : badDate c' p e d = true
  · rw [if_pos hbad, if_pos hbad]
  rw [if_neg hbad, if_neg hbad]
  have hlong : p + 6 ≤ e := by
    have hnot := of_decide_eq_false (Bool.not_eq_true _ ▸ hbad)
    omega
  have hmo : twoDigits rt c (k + p + 1) = twoDigits rt c' (p + 1) :=
    @twoDigits_window rt c c' k n h (p + 1) (by omega)
  have hday : twoDigits rt c (k + p + 4) = twoDigits rt c' (p + 4) :=
    @twoDigits_window rt c c' k n h (p + 4) (by omega)
  have hstarts : startsTime c (k + p + 6) (k + e) = startsTime c' (p + 6) e := by
    unfold startsTime
    rw [decide_eq_decide]
    exact @at_window c c' k n h e (p + 6) he fun x => x = some 32 ∨ x = some 84
  have hbadTime : badTime c (k + p + 6 + 1) (k + e) = badTime c' (p + 6 + 1) e :=
    @badTime_window c c' k n h e (p + 6 + 1) he
  rw [hmo, hday, hstarts, hbadTime]
  by_cases hs : startsTime c' (p + 6) e = true
  · rw [if_pos hs, if_pos hs]
    by_cases hb : badTime c' (p + 6 + 1) e = true
    · rw [if_pos hb, if_pos hb]
    rw [if_neg hb, if_neg hb]
    have hlong' : p + 6 + 1 + 8 ≤ e := by
      have hnot := of_decide_eq_false (Bool.not_eq_true _ ▸ hb)
      omega
    obtain ⟨hend, htime⟩ := @timeAt_window rt c c' k n h e (p + 6 + 1) he hlong'
    rw [show timeAt rt c (k + p + 6 + 1) (k + e) = ((timeAt rt c (k + (p + 6 + 1)) (k + e)).1,
      (timeAt rt c (k + (p + 6 + 1)) (k + e)).2) from rfl, hend]
    by_cases hq : (timeAt rt c' (p + 6 + 1) e).2 = e
    · rw [htime hq, hq]
      simp only [ne_eq, not_true_eq_false, if_false]
    · rw [if_pos hq, if_pos (fun heq => hq (by omega))]
  · rw [if_neg hs, if_neg hs]
    by_cases hq : p + 6 = e
    · rw [if_neg (not_not.mpr hq), if_neg (not_not.mpr (by omega))]
    · rw [if_pos hq, if_pos (fun heq => hq (by omega))]

theorem yearLoop_digits_le (c : Chars) : ∀ (m p : Nat) (y : Double) (d : Nat),
    (yearLoop rt c m p y d).2.2 ≤ d + m
  | 0, _, _, _ => Nat.le_refl _
  | m + 1, p, y, d => by
    have ih := @yearLoop_digits_le c m (p + 1) (shift rt y (c p)) (d + 1)
    unfold yearLoop
    split
    · exact Nat.le_add_right ..
    · omega

/-- There is no year in a text of less than four characters. -/
theorem instantFrom_short (c : Chars) (o : Nat) {l : Nat} (hl : l < 2) :
    instantFrom rt c o (o + l) = none := by
  have hbc : isBc c o (o + l) = false := decide_eq_false fun h => by omega
  have hle := @yearLoop_digits_le rt c (o + l - o) o (rt.int 0) 0
  unfold instantFrom
  simp only [hbc, Bool.false_eq_true, if_false]
  generalize yearLoop rt c (o + l - o) o (rt.int 0) 0 = r at hle
  obtain ⟨p, y, d⟩ := r
  dsimp only at hle
  have hbad : badDate c p (o + l) d = true := decide_eq_true (.inl (by omega))
  exact if_pos hbad

/-! ### Cells -/

section Cells

variable (pre t post : Bytes)

theorem chars_window : Window (chars (pre ++ t ++ post)) (chars t) pre.length t.length := by
  intro i hi
  unfold chars
  rw [List.append_assoc, List.getElem?_append_right (Nat.le_add_right ..), Nat.add_sub_cancel_left,
    List.getElem?_append_left hi]

theorem slice_middle : slice (pre ++ t ++ post) pre.length t.length = t := by
  unfold slice
  rw [List.append_assoc, List.drop_left, List.take_left]

theorem slice_place : slice (pre ++ t ++ post) pre.length t.length = slice t 0 t.length := by
  rw [slice_middle]
  unfold slice
  rw [List.drop_zero, List.take_length]

theorem latin1Slice_place :
    latin1Slice (pre ++ t ++ post) pre.length t.length = latin1Slice t 0 t.length := by
  unfold latin1Slice
  rw [slice_place]

theorem utf8Slice_place :
    rt.utf8Slice (pre ++ t ++ post) pre.length t.length = rt.utf8Slice t 0 t.length := by
  unfold Runtime.utf8Slice
  rw [slice_place]

theorem startsInfinity_window {c c' : Chars} {k n : Nat} (h : Window c c' k n) (hn : 2 ≤ n) :
    startsInfinity c k = startsInfinity c' 0 := by
  have h₀ : c k = c' 0 := h 0 (by omega)
  have h₁ : c (k + 1) = c' 1 := h 1 (by omega)
  unfold startsInfinity
  rw [h₀, h₁]

theorem instantFromBytes_short (b : Bytes) (o : Nat) {l : Nat} (hl : l < 2) :
    instantFromBytes rt b o l = none := by
  unfold instantFromBytes
  split
  · have hne : ¬ l = if chars b o = some 45 then 9 else 8 := by
      split
      all_goals omega
    rw [if_neg hne]
  · exact instantFrom_short _ o hl

theorem instantFromBytes_place :
    instantFromBytes rt (pre ++ t ++ post) pre.length t.length =
      instantFromBytes rt t 0 t.length := by
  rcases Nat.lt_or_ge t.length 2 with hlt | hge
  · rw [instantFromBytes_short _ _ hlt, instantFromBytes_short _ _ hlt]
  · have h := chars_window pre t post
    have h₀ : chars (pre ++ t ++ post) pre.length = chars t 0 := h 0 (by omega)
    unfold instantFromBytes
    rw [startsInfinity_window h hge, h₀, instantFrom_window h, Nat.zero_add]

theorem tsParse_place :
    tsParse rt (pre ++ t ++ post) pre.length t.length = tsParse rt t 0 t.length := by
  unfold tsParse
  rw [instantFromBytes_place]

/-- A text of which the last byte is neither a sign nor the mark of an exponent. -/
def Printed (t : Bytes) : Prop :=
  ∃ x, t.getLast? = some x ∧ x ∉ ([43, 45, 69, 101] : List UInt8)

instance (t : Bytes) : Decidable (Printed t) :=
  decidable_of_iff (t.getLast?.any fun x => x ∉ ([43, 45, 69, 101] : List UInt8)) (by
    unfold Printed
    cases t.getLast?
    all_goals simp)

theorem Printed.ended {t : Bytes} (h : Printed t) : Ended (chars t) t.length := by
  obtain ⟨x, hx, hmem⟩ := h
  have hne : t ≠ [] := by
    intro hnil
    rw [hnil] at hx
    cases hx
  have hpos : 0 < t.length := List.length_pos_iff.mpr hne
  have hlast : chars t (t.length - 1) = some x.toNat := by
    rw [List.getLast?_eq_getElem?] at hx
    unfold chars
    rw [hx]
    rfl
  have hnot : ∀ y : UInt8, y ∈ ([43, 45, 69, 101] : List UInt8) →
      chars t (t.length - 1) ≠ some y.toNat := by
    intro y hy heq
    rw [hlast] at heq
    exact hmem (UInt8.toNat_inj.mp (Option.some.inj heq) ▸ hy)
  exact
    { pos := hpos
      end_none := by
        unfold chars
        rw [List.getElem?_eq_none (Nat.le_refl _)]
        rfl
      sign := ⟨hnot 43 (by decide), hnot 45 (by decide)⟩
      mark := ⟨hnot 101 (by decide), hnot 69 (by decide)⟩ }

theorem txtInt_place (hpos : 0 < t.length) :
    txtInt rt (pre ++ t ++ post) pre.length t.length = txtInt rt t 0 t.length := by
  have h := chars_window pre t post
  have h₀ : chars (pre ++ t ++ post) pre.length = chars t 0 := h 0 hpos
  have hsub₁ : pre.length + t.length - (pre.length + 1) = t.length - 1 := by omega
  have hneg := @digitsLoop_window rt _ _ _ _ h (t.length - 1) 1 (rt.int 0) (by omega)
  have hdig := @digitsLoop_window rt _ _ _ _ h t.length 0 (rt.int 0) (by omega)
  unfold txtInt
  dsimp only
  rw [latin1Slice_place, h₀, hsub₁, hneg, Nat.add_sub_cancel_left, Nat.zero_add, Nat.zero_add,
    Nat.sub_zero]
  rw [Nat.add_zero] at hdig
  rw [hdig]

/-- What may be read after a float is the mark of an exponent. -/
theorem f64FromBytes_place (ht : Printed t) (hpost : ∀ x ∈ post.head?, x ≠ 101 ∧ x ≠ 69) :
    f64FromBytes rt (pre ++ t ++ post) pre.length t.length = f64FromBytes rt t 0 t.length := by
  have h := chars_window pre t post
  have he := ht.ended
  have hf : Follows (chars (pre ++ t ++ post)) pre.length t.length := by
    have hnext : chars (pre ++ t ++ post) (pre.length + t.length) = post.head?.map UInt8.toNat := by
      unfold chars
      rw [← List.length_append, List.getElem?_append_right (Nat.le_refl _), Nat.sub_self,
        List.head?_eq_getElem?]
    unfold Follows
    rw [hnext]
    cases hp : post.head? with
    | none => exact ⟨fun h => (nomatch h), fun h => (nomatch h)⟩
    | some x =>
      obtain ⟨h₁, h₂⟩ := hpost x hp
      refine ⟨fun h => h₁ ?_, fun h => h₂ ?_⟩
      · exact UInt8.toNat_inj.mp (Option.some.inj h)
      · exact UInt8.toNat_inj.mp (Option.some.inj h)
  have hlatin := latin1Slice_place pre t post
  unfold f64FromBytes
  rw [hlatin]
  generalize chars (pre ++ t ++ post) = c at h hf
  generalize chars t = c' at h he
  generalize t.length = n at h hf he
  generalize pre.length = k at h hf
  have h₀ : c k = c' 0 := h 0 he.pos
  have hstart : (if c k = some 45 ∨ c k = some 43 then k + 1 else k) =
      k + if c' 0 = some 45 ∨ c' 0 = some 43 then 0 + 1 else 0 := by
    rw [h₀]
    split
    all_goals rfl
  have hlt : (if c' 0 = some 45 ∨ c' 0 = some 43 then 0 + 1 else 0) < n := by
    have hpos := he.pos
    split
    · rename_i hs
      rcases Nat.lt_or_ge 1 n with h₁ | h₁
      · exact h₁
      · have hn : n - 1 = 0 := by omega
        have hsign := he.sign
        rw [hn] at hsign
        exact absurd hs.symm (not_or.mpr hsign)
    · exact hpos
  dsimp only
  rw [hstart, h₀]
  generalize (if c' 0 = some 45 ∨ c' 0 = some 43 then 0 + 1 else 0) = p at hlt
  have hsub : k + n - (k + p) = 0 + n - p := by omega
  have hsig := @sigLoop_window rt c c' k n h (0 + n - p) ⟨p, rt.int 0, 0, 0, false, false⟩
    (by dsimp only; omega)
  have hle := @sigLoop_le rt c' (0 + n - p) ⟨p, rt.int 0, 0, 0, false, false⟩
  have hmoved : sigLoop rt c (0 + n - p) ⟨k + p, rt.int 0, 0, 0, false, false⟩ = _ := hsig
  rw [h p hlt, hsub, hmoved]
  generalize sigLoop rt c' (0 + n - p) ⟨p, rt.int 0, 0, 0, false, false⟩ = s at hle
  have hexp : exponent rt c (s.moved k).p (k + n) = exponent rt c' s.p (0 + n) := by
    rw [Nat.zero_add]
    exact exponent_window h hf he (by dsimp only at hle; omega)
  rw [hexp]
  rfl

/-! ### The decoder of a column -/

/-- The decoder gives the same for the text wherever it is. -/
def Placed (d : Cell) (t : Bytes) : Prop :=
  ∀ pre post : Bytes, (∀ x ∈ post.head?, x ≠ 101 ∧ x ≠ 69) →
    d (pre ++ t ++ post) pre.length t.length = d t 0 t.length

theorem wrap_placed (d : Decoder) (t : Bytes) : Placed (wrap d) t := by
  intro pre post _
  show d (slice _ _ _) = d (slice _ _ _)
  rw [slice_place]

theorem text_placed (f : JsString → Except JsError Value) (t : Bytes) :
    Placed (fun b o l => f (rt.utf8Slice b o l)) t := by
  intro pre post _
  show f (rt.utf8Slice _ _ _) = f (rt.utf8Slice _ _ _)
  rw [utf8Slice_place]

theorem latin1_placed (f : JsString → Except JsError Value) (t : Bytes) :
    Placed (fun b o l => f (latin1Slice b o l)) t := by
  intro pre post _
  show f (latin1Slice _ _ _) = f (latin1Slice _ _ _)
  rw [latin1Slice_place]

theorem txtBool_placed {t : Bytes} (ht : Printed t) : Placed txtBool t := by
  intro pre post _
  have hpos := ht.ended.pos
  have hfirst : (pre ++ t ++ post)[pre.length]? = t[0]? := by
    rw [List.append_assoc, List.getElem?_append_right (Nat.le_refl _), Nat.sub_self,
      List.getElem?_append_left hpos]
  unfold txtBool
  rw [hfirst]

/-- The types whose texts are read byte by byte without regard to where they end. -/
def scannedOids : List Int := [16, 21, 23, 26, 700, 701]

/-- Numbers and booleans are read byte by byte. -/
theorem defaultJs_scanned {oid : Int} (h : defaultJs oid = "number" ∨ defaultJs oid = "bool") :
    oid ∈ scannedOids := by
  unfold defaultJs at h
  split at h
  all_goals first | decide | exact absurd h (by decide) | skip
  split at h
  all_goals exact absurd h (by decide)

/-- What a column without a target is decoded by. -/
theorem pickText_default (oid : Int) : pickText rt oid none =
    if oid ∈ instantOids then some (tsDate rt)
    else if oid = 20 then some (txtBigInt rt)
    else match defaultJs oid with
      | "number" => some (if oid ∈ intOids then txtIntCell rt else txtF64 rt)
      | "string" => some (if oid ∈ asciiSafe then txtLatin1 else txtUtf8 rt)
      | "latin1" => some txtLatin1
      | "bool" => some txtBool
      | "json" => some (txtJson rt)
      | "bytea" => some (txtBytea rt)
      | _ => none := by
  unfold pickText
  by_cases hi : oid ∈ instantOids
  · simp [absent, hi]
  · by_cases h20 : oid = 20
    · simp [absent, h20, instantOids]
    · simp only [absent, reduceCtorEq, or_false, hi, and_false, ↓reduceIte, or_self, and_self,
        h20, ne_eq, not_false_eq_true, and_true, ite_self, Option.getD_none] <;> rfl

theorem pickText_placed {oid : Int} {t : Bytes} (ht : oid ∈ scannedOids → Printed t) {d : Cell}
    (hd : pickText rt oid none = some d) : Placed d t := by
  rw [pickText_default] at hd
  split at hd
  · cases hd
    intro pre post _
    unfold tsDate
    rw [tsParse_place]
  split at hd
  · cases hd
    exact latin1_placed rt.bigint t
  split at hd
  · rename_i hjs
    have hp := ht (defaultJs_scanned (.inl hjs))
    cases hd
    split
    · intro pre post _
      unfold txtIntCell
      rw [txtInt_place pre t post hp.ended.pos]
    · intro pre post hpost
      unfold txtF64
      rw [f64FromBytes_place pre t post hp hpost]
  · cases hd
    split
    · exact latin1_placed (fun s => .ok (.string s)) t
    · exact text_placed (fun s => .ok (.string s)) t
  · cases hd
    exact latin1_placed (fun s => .ok (.string s)) t
  · rename_i hjs
    cases hd
    exact txtBool_placed (ht (defaultJs_scanned (.inr hjs)))
  · cases hd
    exact text_placed rt.parseJson t
  · cases hd
    exact latin1_placed (fun s => .ok (bytesOfText rt s)) t
  · cases hd

variable {env : Env}

/-- **A text is decoded the same in every message**, by an array of the type, a defined type, an
override or what the type has by default. -/
theorem pickDecoder_placed {col : CodegenCol} {map : DecoderMap} {t : Bytes} {d : Cell}
    (hjs : col.js = none) (hformat : col.format = .text)
    (ht : col.oid ∈ scannedOids → Printed t) (hd : pickDecoder env col map = .ok d) :
    Placed d t := by
  unfold pickDecoder at hd
  rw [hformat, if_neg (by decide)] at hd
  split at hd
  · cases hd
    exact wrap_placed _ t
  split at hd
  · cases hd
    exact wrap_placed _ t
  split at hd
  · rename_i cus hcus
    cases hd
    unfold customAt at hcus
    split at hcus
    · cases hcus
    split at hcus
    · cases hcus
    · rename_i defn _
      rw [hjs] at hcus
      cases hcus
      by_cases hascii : defn.ascii = true
      · simp only [hascii, if_true]
        exact latin1_placed (fun s => .ok (.string s)) t
      · simp only [hascii]
        exact text_placed (fun s => .ok (.string s)) t
  split at hd
  · rename_i ext hext
    cases hd
    unfold extAt at hext
    obtain ⟨parse, -, rfl⟩ := Option.map_eq_some_iff.mp hext
    exact text_placed parse t
  · cases hd
    rw [hjs]
    cases hp : pickText env.rt col.oid none with
    | none => exact wrap_placed _ t
    | some d => exact pickText_placed ht hp

end Cells

end Minipg.Cells
